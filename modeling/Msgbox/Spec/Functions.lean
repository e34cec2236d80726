import Msgbox.Runloop

/-!
# What single functions change

Field lemmas for the functions that later proofs never unfold: `local_disconnect`, and the
two halves of `make_call`.

## Key results

- `localDisconnect_trace` and its siblings: one lemma for each field
- `makeCall_eq`, `finishCall_eq`: the two halves as updates of the state
- `step_read` and its siblings: when there is a step on an input, and what it does
-/

namespace Msgbox.State

/-! ## One step -/

section Step

variable {s s' : State}

/-- The network changes what one open descriptor holds. -/
theorem environment_eq {e : State.EnvEvent} (h : s.environment e = some s') :
    ∃ sock k k', s.sockets sock = some k ∧ s' = s.setSocket sock k' := by
  cases e with
  | arrive sock bytes =>
    simp only [State.environment] at h
    split at h
    · rename_i hsock
      exact ⟨sock, _, _, hsock, (Option.some.inj h).symm⟩
    · exact absurd h.symm (Option.some_ne_none s')
  | hangUp sock =>
    simp only [State.environment] at h
    split at h
    · rename_i hsock
      exact ⟨sock, _, _, hsock, (Option.some.inj h).symm⟩
    · exact absurd h.symm (Option.some_ne_none s')
  | datagram sock d =>
    simp only [State.environment] at h
    split at h
    · rename_i hsock
      exact ⟨sock, _, _, hsock, (Option.some.inj h).symm⟩
    · exact absurd h.symm (Option.some_ne_none s')

/-- A call by the application is made while no pass runs, for a conn that it may name. -/
theorem step_app {call : AppCall} (h : step s (.app call) = some s') :
    s.phase = .app ∧ s.admits call = true ∧ s' = s.appCall call := by
  simp only [step] at h
  split at h
  · rename_i hcond
    exact ⟨hcond.1, hcond.2, (Option.some.inj h).symm⟩
  · cases h

/-- `msg_runloop` is called by the application, and starts with a removal pass that has conns
    enough. -/
theorem step_runloop {p : PollResult} (h : step s (.runloop p) = some s') :
    s.phase = .app ∧ s.removals.length ≤ s.conns.length ∧ s' = s.beginRunloop p := by
  simp only [step] at h
  split at h
  · rename_i hcond
    exact ⟨hcond.1, hcond.2, (Option.some.inj h).symm⟩
  · cases h

/-- The pass over the conns visits the one it has come to, which was not freed. -/
theorem step_visit {soError : Option Errno} (h : step s (.visit soError) = some s') :
    ∃ index c, s.phase = .polling index ∧ s.conns[index]? = some c ∧ s.freed c = false ∧
      s' = s.visitConn index c soError := by
  simp only [step] at h
  split at h
  · rename_i index hphase
    split at h
    · rename_i c hlisted
      split at h
      · cases h
      · rename_i hlive
        exact ⟨index, c, hphase, hlisted, by simpa using hlive, (Option.some.inj h).symm⟩
    · cases h
  · cases h

/-- The loop over the messages of a conn goes on after each that was queued. -/
theorem step_read {r : ReadIn} (h : step s (.read r) = some s') :
    ∃ index c, s.phase = .reading index ∧ s.conns[index]? = some c ∧ s.freed c = false ∧
      (s.conn c).protocolType ≠ .other ∧ s.isNewSock (r.accept.map Prod.fst) = true ∧
      s' = if (s.readFromSocket c r).2 then (s.readFromSocket c r).1
        else { (s.readFromSocket c r).1 with phase := .polling (index + 1) } := by
  simp only [step] at h
  split at h
  · rename_i index hphase
    split at h
    · rename_i c hlisted
      split at h
      · cases h
      · rename_i hcond
        simp only [not_or, Bool.not_eq_true, Bool.not_eq_false] at hcond
        refine ⟨index, c, hphase, hlisted, hcond.1, hcond.2.1, hcond.2.2, ?_⟩
        split at h
        · rename_i s₁ heq
          rw [heq, if_pos rfl]
          exact (Option.some.inj h).symm
        · rename_i s₁ heq
          rw [heq, if_neg Bool.false_ne_true]
          exact (Option.some.inj h).symm
    · cases h
  · cases h

/-- The pass ends behind the last conn, with a removal pass. -/
theorem step_endPoll (h : step s .endPoll = some s') :
    ∃ index, s.phase = .polling index ∧ s.conns.length ≤ index ∧
      s' = { s.removalPass with phase := .timing } := by
  simp only [step] at h
  split at h
  · rename_i index hphase
    split at h
    · rename_i hall
      exact ⟨index, hphase, hall, (Option.some.inj h).symm⟩
    · cases h
  · cases h

/-- The timeout pass goes through. -/
theorem step_timeouts {now : Nat} (h : step s (.timeouts now) = some s') :
    s.phase = .timing ∧ s.timeoutPass now = some s' := by
  simp only [step] at h
  split at h
  · rename_i hphase
    exact ⟨hphase, h⟩
  · cases h

/-- The delivery pass is over, or makes its next call, for a conn that was not freed. -/
theorem step_deliver {junk : Junk} (h : step s (.deliver junk) = some s') :
    s.phase = .delivering [] ∧ s' = { s with phase := .app } ∨
      ∃ call rest, s.phase = .delivering (call :: rest) ∧ s.freed call.conn = false ∧
        s' = s.makeCall call rest junk := by
  simp only [step] at h
  split at h
  · rename_i hphase
    exact .inl ⟨hphase, (Option.some.inj h).symm⟩
  · rename_i call rest hphase
    split at h
    · cases h
    · rename_i hlive
      exact .inr ⟨call, rest, hphase, by simpa using hlive, (Option.some.inj h).symm⟩
  · cases h

/-- The callback that was called last returns, and its conn was not freed meanwhile. -/
theorem step_ret (h : step s .ret = some s') :
    ∃ f stack, s.phase = .app ∧ s.stack = f :: stack ∧ s.freed f.call.conn = false ∧
      s' = s.finishCall f stack := by
  simp only [step] at h
  split at h
  · rename_i f stack hphase hstack
    split at h
    · cases h
    · rename_i hlive
      exact ⟨f, stack, hphase, hstack, by simpa using hlive, (Option.some.inj h).symm⟩
  · cases h

end Step

/-! ## `local_disconnect` -/

/-- Only the status that is filed under the address is marked as deleted. -/
theorem unsetStatus_status_apply (s : State) (a : Address) (sid : StatusId) :
    (s.unsetStatus a).status sid =
      if s.connStatus.lookup a = some sid then { s.status sid with deleted := true }
      else s.status sid := by
  rw [unsetStatus_status]
  cases hlookup : s.connStatus.lookup a with
  | none => simp
  | some sid' =>
    by_cases hsid : sid = sid'
    · subst hsid
      simp
    · simp [Function.update_of_ne hsid, Ne.symm hsid]


/-- The call that `local_disconnect` queues. -/
def closingCall (s : State) (c : ConnId) (event : Event) : PendingCall :=
  { conn := c
    event := event
    data := none
    toFree := if s.isListeningUdp c then .nothing else .conn c
    cause := .closing (s.conn c).remoteAddress }

section LocalDisconnect

variable (s : State) (c : ConnId) (event : Event)

/-- One call is queued: the one for the closing. -/
@[simp] theorem localDisconnect_trace :
    (s.localDisconnect c event).trace = .queued (s.closingCall c event) :: s.trace := by
  unfold localDisconnect closingCall
  split <;> rfl

@[simp] theorem localDisconnect_immediateCallbacks :
    (s.localDisconnect c event).immediateCallbacks =
      s.immediateCallbacks ++ [s.closingCall c event] := by
  unfold localDisconnect closingCall
  split <;> rfl

/-- A listening udp conn stays in `conns`; any other is marked for the removal pass. -/
@[simp] theorem localDisconnect_removals :
    (s.localDisconnect c event).removals =
      if s.isListeningUdp c then s.removals else s.removals ++ [(s.conn c).index] := by
  unfold localDisconnect
  split <;> rfl

/-- The entry of the address that the conn has at this moment goes. -/
@[simp] theorem localDisconnect_connStatus :
    (s.localDisconnect c event).connStatus = s.connStatus.erase (s.conn c).remoteAddress := by
  unfold localDisconnect
  split <;> rfl

@[simp] theorem localDisconnect_status :
    (s.localDisconnect c event).status = (s.unsetStatus (s.conn c).remoteAddress).status := by
  unfold localDisconnect
  split <;> rfl

@[simp] theorem localDisconnect_conn : (s.localDisconnect c event).conn = s.conn := by
  unfold localDisconnect
  split <;> rfl

@[simp] theorem localDisconnect_freed : (s.localDisconnect c event).freed = s.freed := by
  unfold localDisconnect
  split <;> rfl

@[simp] theorem localDisconnect_nextConn : (s.localDisconnect c event).nextConn = s.nextConn := by
  unfold localDisconnect
  split <;> rfl

@[simp] theorem localDisconnect_nextStatus :
    (s.localDisconnect c event).nextStatus = s.nextStatus := by
  unfold localDisconnect
  split <;> rfl

@[simp] theorem localDisconnect_conns : (s.localDisconnect c event).conns = s.conns := by
  unfold localDisconnect
  split <;> rfl

@[simp] theorem localDisconnect_pollFds : (s.localDisconnect c event).pollFds = s.pollFds := by
  unfold localDisconnect
  split <;> rfl

@[simp] theorem localDisconnect_timeouts : (s.localDisconnect c event).timeouts = s.timeouts := by
  unfold localDisconnect
  split <;> rfl

@[simp] theorem localDisconnect_openings :
    (s.localDisconnect c event).openings = s.openings := by
  unfold localDisconnect
  split <;> rfl

@[simp] theorem localDisconnect_phase : (s.localDisconnect c event).phase = s.phase := by
  unfold localDisconnect
  split <;> rfl

@[simp] theorem localDisconnect_stack : (s.localDisconnect c event).stack = s.stack := by
  unfold localDisconnect
  split <;> rfl

end LocalDisconnect

/-! ## `make_call` before the callback -/

/-- The fields of the call's conn when the callback begins. -/
def loaded (s : State) (call : PendingCall) (junk : Junk) : Conn :=
  (s.restoreConn call junk).1.conn call.conn

section MakeCall

variable (s : State) (call : PendingCall) (rest : List PendingCall) (junk : Junk)

/-- The first half of `make_call` writes to the conn of the call only. -/
private theorem restoreConn_eq :
    (s.restoreConn call junk).1 =
      { s with conn := Function.update s.conn call.conn (s.loaded call junk) } := by
  unfold loaded restoreConn
  split
  · simp
  · split
    · dsimp only
      split <;> simp [modifyConn]
    · simp

/-- What `make_call` does up to the callback, field by field. -/
theorem makeCall_eq :
    s.makeCall call rest junk =
      { s with
        conn := Function.update s.conn call.conn (s.loaded call junk)
        stack := ⟨call, (s.restoreConn call junk).2, rest⟩ :: s.stack
        phase := .app
        trace := .called (s.loaded call junk) call :: s.trace } := by
  have heq := restoreConn_eq s call junk
  unfold makeCall
  generalize s.restoreConn call junk = restored at heq ⊢
  obtain ⟨s', status⟩ := restored
  dsimp only at heq ⊢
  subst heq
  simp [log]

/-- Only udp conns take their fields from the call's data. -/
theorem loaded_of_no_data (h : call.data = none ∨ (s.conn call.conn).protocolType ≠ .udp) :
    s.loaded call junk = s.conn call.conn := by
  unfold loaded restoreConn
  split
  · rfl
  · rename_i data hdata
    have hproto := h.resolve_left (by rw [hdata]; exact fun heq => nomatch heq)
    rw [if_neg hproto]

/-- On a udp conn the callback sees the metadata of the data, or what was in memory. -/
theorem loaded_of_udp {data : MsgData} (hdata : call.data = some data)
    (hudp : (s.conn call.conn).protocolType = .udp) :
    (s.loaded call junk).replyContext = data.metadata.replyContext.getD junk.replyContext ∧
      (s.loaded call junk).remoteAddress =
        data.metadata.remoteAddress.getD junk.remoteAddress := by
  unfold loaded restoreConn
  simp only [hdata, if_pos hudp]
  split <;> simp

/-- The step that makes a call writes to no conn but the call's. -/
theorem deliver_conn {s' : State} (hphase : s.phase = .delivering (call :: rest))
    (h : step s (.deliver junk) = some s') :
    s'.conn = Function.update s.conn call.conn (s.loaded call junk) := by
  rcases step_deliver h with ⟨hnone, -⟩ | ⟨call', rest', hcall, -, rfl⟩
  · cases hphase.symm.trans hnone
  · obtain ⟨rfl, rfl⟩ := List.cons.inj (Phase.delivering.inj (hphase.symm.trans hcall))
    rw [makeCall_eq]

/-- The other fields but `conn_context` stay as they are. -/
theorem loaded_fields :
    (s.loaded call junk).replyId = (s.conn call.conn).replyId ∧
      (s.loaded call junk).socket = (s.conn call.conn).socket ∧
      (s.loaded call junk).forListening = (s.conn call.conn).forListening ∧
      (s.loaded call junk).index = (s.conn call.conn).index := by
  unfold loaded restoreConn
  split
  · exact ⟨rfl, rfl, rfl, rfl⟩
  · split
    · dsimp only
      split <;> simp
    · exact ⟨rfl, rfl, rfl, rfl⟩

end MakeCall

/-! ## `make_call` after the callback -/

/-- A write to the `conn_context` of statuses only. -/
theorem saveContext_status (s : State) (f : Frame) (sid : StatusId) :
    ∃ connContext, (s.saveContext f).status sid =
      { s.status sid with connContext := connContext } := by
  unfold saveContext
  split
  · exact ⟨_, rfl⟩
  · rename_i sid' _
    split
    · by_cases h : sid = sid'
      · subst h
        exact ⟨_, by rw [modifyStatus_status, Function.update_self]⟩
      · exact ⟨(s.status sid).connContext, by rw [modifyStatus_status, Function.update_of_ne h]⟩
    · exact ⟨_, rfl⟩

/-- What is freed after the callback. -/
def freedBy (s : State) (f : Frame) (c : ConnId) : Bool :=
  f.call.toFree = .conn c || s.freed c

/-- What `make_call` does after the callback, field by field. -/
theorem finishCall_eq (s : State) (f : Frame) (stack : List Frame) :
    s.finishCall f stack =
      { s with
        status := (s.saveContext f).status
        freed := s.freedBy f
        stack := stack
        phase := .delivering f.rest } := by
  -- Saving the context writes the statuses only; releasing frees a conn or nothing.
  have hsave : s.saveContext f = { s with status := (s.saveContext f).status } := by
    unfold saveContext
    split
    · rfl
    · split <;> rfl
  unfold finishCall
  rw [hsave]
  have hfreed : (({ s with status := (s.saveContext f).status }).release f.call.toFree).freed =
      s.freedBy f := by
    funext c
    unfold release freedBy
    split
    · rename_i c' hfree
      by_cases hc : c = c'
      · simp [hfree, hc]
      · simp [hfree, hc, Ne.symm hc]
    · rename_i hfree
      simp [hfree]
    · rename_i hfree
      simp [hfree]
  rw [← hfreed]
  unfold release
  split <;> rfl

end Msgbox.State
