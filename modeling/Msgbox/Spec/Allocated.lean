import Msgbox.Spec.Steps

/-!
# Pointers are valid

Conns and statuses that the tables, the timeouts and the queue mention were allocated, the
entries of `conn_status` are statuses of the address they are filed under, and a call that
is still to be made has been queued.

## Key results

- `reach_allocated`: all this holds in every reachable state
- `effects_nextConn_le`: a step makes conns, and never takes one back
-/

namespace Msgbox

namespace State

/-- The calls that were queued and not made yet, in the order in which they were queued:
    what the callers of the running callbacks still have to make, then what `msg_runloop` is
    about to make, then the queue. -/
def pending (s : State) : List PendingCall :=
  s.stack.reverse.flatMap Frame.rest ++ s.phase.saved ++ s.immediateCallbacks

end State

/-- The observation of a call that is queued. -/
def Obs.isQueued : Obs → Bool
  | .queued _ => true
  | _ => false

/-- A note is no call. -/
theorem Obs.isQueued_of_isNote {o : Obs} (h : o.isNote = true) : o.isQueued = false := by
  cases o <;> first | rfl | exact absurd h Bool.false_ne_true

/-- What the program's pointers point to. -/
structure Allocated (s : State) : Prop where
  conns : ∀ c ∈ s.conns, c < s.nextConn
  timeouts : ∀ t ∈ s.timeouts, t.conn < s.nextConn ∧ t.status < s.nextStatus
  queued : ∀ p, Obs.queued p ∈ s.trace → p.conn < s.nextConn
  pending : ∀ p ∈ s.pending, Obs.queued p ∈ s.trace
  status : ∀ a sid, s.connStatus.lookup a = some sid →
    sid < s.nextStatus ∧ (s.status sid).remoteAddress = a ∧ (s.status sid).deleted = false

namespace State

variable {s₀ s s' : State} {i : Input} {c : ConnId}

/-! ## Conns are never taken back -/

/-- Early effects make no conns. -/
theorem early_nextConn (h : Early s₀ i s s') : s'.nextConn = s.nextConn := by
  cases h <;> rfl

/-- Conns are made, never taken back. -/
theorem effect_nextConn_le (h : Effect s₀ i s s') : s.nextConn ≤ s'.nextConn := by
  cases h with
  | early hearly => exact (early_nextConn hearly).ge
  | opened k => exact Nat.le_succ _
  | removal =>
    obtain ⟨index, heq⟩ := removalPass_eq s
    rw [heq]
  | call => rw [makeCall_eq]
  | finish => rw [finishCall_eq]
  | _ => exact Nat.le_refl _

/-- A chain of effects takes no conn back. -/
theorem effects_nextConn_le (h : Relation.ReflTransGen (Effect s₀ i) s s') :
    s.nextConn ≤ s'.nextConn := by
  induction h with
  | refl => exact Nat.le_refl _
  | tail _ hlast ih => exact ih.trans (effect_nextConn_le hlast)

end State

namespace Input

variable {s : State} {i : Input} {c : ConnId}

/-- A conn that is read is in `conns`. -/
theorem Reads.mem_conns {r : ReadIn} (h : i.Reads s c r) : c ∈ s.conns := by
  obtain ⟨index, -, hindex⟩ := h.listed
  exact List.mem_of_getElem? hindex

/-- A conn that is read was made. -/
theorem Reads.allocated {r : ReadIn} (h : i.Reads s c r) (hs : Allocated s) : c < s.nextConn :=
  hs.conns c h.mem_conns

/-- A conn for which a step may report was made. -/
theorem Reports.allocated (h : i.Reports s c) (hs : Allocated s) : c < s.nextConn := by
  have hlive : s.isLive c = true → c < s.nextConn := by
    intro hl
    simp only [State.isLive, Bool.and_eq_true, decide_eq_true_eq] at hl
    exact hl.1
  cases h with
  | read h => exact h.allocated hs
  | disconnect h => exact hlive h.admits
  | unlisten h => exact hlive h.admits
  | send h => exact hlive h.admits
  | get h => exact hlive h.admits

/-- A step that drops a conn may report for it. -/
theorem Drops.reports (h : i.Drops s c) : i.Reports s c := by
  cases h with
  | read h => exact .read h
  | disconnect h => exact .disconnect h
  | unlisten h => exact .unlisten h

end Input

namespace State

variable {s₀ s s' : State} {i : Input} {c : ConnId}

/-! ## One effect -/

/-- An observation that is no call needs nothing. -/
theorem allocated_log (h : Allocated s) {o : Obs} (ho : o.isQueued = false) :
    Allocated (s.log o) where
  conns := h.conns
  timeouts := h.timeouts
  queued p hp := by
    refine h.queued p ((List.mem_cons.mp hp).resolve_left ?_)
    rintro rfl
    exact Bool.noConfusion ho
  pending p hp := List.mem_cons_of_mem _ (h.pending p hp)
  status := h.status

/-- A conn that was just made is nowhere yet. -/
theorem allocated_allocConn (h : Allocated s) (k : Conn) : Allocated (s.allocConn k) := by
  have hlog := allocated_log (o := .opened s.nextConn) h rfl
  exact ⟨fun c hc => Nat.lt_succ_of_lt (h.conns c hc),
    fun t ht => ⟨Nat.lt_succ_of_lt (h.timeouts t ht).1, (h.timeouts t ht).2⟩,
    fun p hp => Nat.lt_succ_of_lt (hlog.queued p hp), hlog.pending, hlog.status⟩

/-- A call that waits after `send_callback` waited before, or is the new one. -/
private theorem mem_pending_sendCallback {p call : PendingCall} {callbacks : List PendingCall}
    (h : p ∈ s.stack.reverse.flatMap Frame.rest ++ s.phase.saved ++ (callbacks ++ [call])) :
    p ∈ s.stack.reverse.flatMap Frame.rest ++ s.phase.saved ++ callbacks ∨ p = call := by
  simpa [or_assoc] using h

/-- A call may be queued for a conn that was made. -/
theorem allocated_sendCallback (h : Allocated s) (hc : c < s.nextConn) (event : Event)
    (data : Option MsgData) (toFree : ToFree) (cause : Cause) :
    Allocated (s.sendCallback c event data toFree cause) where
  conns := h.conns
  timeouts := h.timeouts
  queued p hp := by
    rcases List.mem_cons.mp hp with heq | hin
    · obtain rfl := Obs.queued.inj heq
      exact hc
    · exact h.queued p hin
  pending p hp := by
    rcases mem_pending_sendCallback hp with hin | rfl
    · exact List.mem_cons_of_mem _ (h.pending p hin)
    · exact List.mem_cons_self
  status := h.status

/-- A write to a status that keeps its address. -/
private theorem allocated_status (h : Allocated s) {status : StatusId → ConnStatus}
    (hstatus : ∀ sid, (status sid).remoteAddress = (s.status sid).remoteAddress ∧
      (status sid).deleted = (s.status sid).deleted) :
    Allocated { s with status := status } where
  conns := h.conns
  timeouts := h.timeouts
  queued := h.queued
  pending := h.pending
  status a sid hsid := by
    rw [(hstatus sid).1, (hstatus sid).2]
    exact h.status a sid hsid

/-- A write to one status that keeps its address. -/
theorem allocated_entry (h : Allocated s) (sid : StatusId) (f : ConnStatus → ConnStatus)
    (haddr : (f (s.status sid)).remoteAddress = (s.status sid).remoteAddress)
    (hdel : (f (s.status sid)).deleted = (s.status sid).deleted) :
    Allocated { s with status := Function.update s.status sid (f (s.status sid)) } := by
  refine allocated_status h fun sid' => ?_
  by_cases hsid : sid' = sid
  · rw [hsid, Function.update_self]
    exact ⟨haddr, hdel⟩
  · rw [Function.update_of_ne hsid]
    exact ⟨rfl, rfl⟩

/-- A new status is filed under the address of a conn. -/
theorem allocated_addStatus (h : Allocated s) :
    Allocated (s.addStatus c) where
  conns := h.conns
  timeouts t ht := ⟨(h.timeouts t ht).1, Nat.lt_succ_of_lt (h.timeouts t ht).2⟩
  queued := h.queued
  pending := h.pending
  status a sid hsid := by
    by_cases ha : a = (s.conn c).remoteAddress
    · subst ha
      have heq : sid = s.nextStatus := by
        have hinsert : (s.addStatus c).connStatus.lookup (s.conn c).remoteAddress =
          some s.nextStatus := AList.lookup_insert s.connStatus
        exact Option.some.inj (hsid.symm.trans hinsert)
      subst heq
      simp
    · have hold : s.connStatus.lookup a = some sid := by
        rw [← hsid]
        exact (AList.lookup_insert_ne ha).symm
      obtain ⟨hlt, hfields⟩ := h.status a sid hold
      refine ⟨Nat.lt_succ_of_lt hlt, ?_⟩
      rw [addStatus_status, Function.update_of_ne (Nat.ne_of_lt hlt)]
      exact hfields

/-- A status that is unset is no entry's value any more. -/
private theorem allocated_unsetStatus (h : Allocated s) (a : Address) :
    Allocated (s.unsetStatus a) where
  conns := h.conns
  timeouts := h.timeouts
  queued := h.queued
  pending := h.pending
  status a' sid hsid := by
    have hne : a' ≠ a := by
      rintro rfl
      rw [show (s.unsetStatus a').connStatus.lookup a' = none from
        AList.lookup_erase _ _] at hsid
      exact nomatch hsid
    have hold : s.connStatus.lookup a' = some sid := by
      rw [← hsid]
      exact (AList.lookup_erase_ne hne).symm
    obtain ⟨hlt, haddr, hdel⟩ := h.status a' sid hold
    -- Two entries never hold the same status, as each is filed under its own address.
    have hdiff : s.connStatus.lookup a ≠ some sid := fun heq =>
      hne (haddr.symm.trans (h.status a sid heq).2.1)
    rw [unsetStatus_status_apply, if_neg hdiff]
    exact ⟨hlt, haddr, hdel⟩

/-- Early effects refer to what was made before. -/
private theorem allocated_early (hs₀ : Allocated s₀) (hle : s₀.nextConn ≤ s.nextConn)
    (h : Allocated s) (heffect : Early s₀ i s s') : Allocated s' := by
  cases heffect with
  | kernel | leak | close | poll => exact ⟨h.conns, h.timeouts, h.queued, h.pending, h.status⟩
  | note o ho => exact allocated_log h (Obs.isQueued_of_isNote ho)
  | @header c r hd =>
    exact allocated_log (s := s.modifyConn c fun conn => { conn with replyId := hd.replyId })
      (o := .header c hd) ⟨h.conns, h.timeouts, h.queued, h.pending, h.status⟩ rfl
  | @buffer c r sid total waiting =>
    exact allocated_entry h sid (fun status =>
      { status with totalBuffer := total, waitingBuffer := waiting }) rfl rfl
  | ready hlisted _ hnew =>
    exact allocated_sendCallback (allocated_addStatus h) (h.conns _ hlisted) _ _ _ _
  | error msg herrs =>
    exact allocated_sendCallback h ((herrs.reports.allocated hs₀).trans_le hle) _ _ _ _
  | unflag => exact ⟨h.conns, h.timeouts, h.queued, h.pending, h.status⟩

/-- Effects refer to what was made before, or is made by them. -/
theorem allocated_effect (hs₀ : Allocated s₀) (hle : s₀.nextConn ≤ s.nextConn) (h : Allocated s)
    (heffect : Effect s₀ i s s') : Allocated s' := by
  cases heffect with
  | early hearly => exact allocated_early hs₀ hle h hearly
  | @oneWay c =>
    exact allocated_log (s := s.modifyConn c fun conn => { conn with replyId := 0 })
      (o := .oneWay c)
      ⟨h.conns, h.timeouts, h.queued, h.pending, h.status⟩ rfl
  | @datagram c r d =>
    have hlog := allocated_log (s := s.consume c d.bytes.length)
      (o := .datagram c ⟨d.ip, d.port, .udp⟩ d.bytes)
      ⟨h.conns, h.timeouts, h.queued, h.pending, h.status⟩ rfl
    exact ⟨hlog.conns, hlog.timeouts, hlog.queued, hlog.pending, hlog.status⟩
  | opened k =>
    have hlog := allocated_log (o := .opened s.nextConn) h rfl
    refine ⟨?_, ?_, fun p hp => Nat.lt_succ_of_lt (hlog.queued p hp), hlog.pending, hlog.status⟩
    · intro c hc
      rcases List.mem_append.mp hc with hin | hin
      · exact Nat.lt_succ_of_lt (h.conns c hin)
      · rw [List.mem_singleton.mp hin]
        exact Nat.lt_succ_self _
    · intro t ht
      exact ⟨Nat.lt_succ_of_lt (h.timeouts t ht).1, (h.timeouts t ht).2⟩
  | listening _ hlisted => exact allocated_sendCallback h (h.conns _ hlisted) _ _ _ _
  | context => exact ⟨h.conns, h.timeouts, h.queued, h.pending, h.status⟩
  | address => exact ⟨h.conns, h.timeouts, h.queued, h.pending, h.status⟩
  | @get c payload context now w sid o hcalls ho hstart hsid =>
    have hstatus := allocated_entry h sid (fun status => { status with
      nextReplyId := status.nextReplyId + 1
      replyContexts := status.replyContexts.insert status.nextReplyId context }) rfl rfl
    have hgot := allocated_log (s := s.enterGet sid context)
      (o := .got c sid (s.status sid).nextReplyId context true)
      ⟨h.conns, h.timeouts, h.queued, h.pending, hstatus.status⟩ rfl
    -- `msg_get` is called for a conn that there is, and so is its timeout.
    have hlive : c < s₀.nextConn := by
      have hl := hcalls.admits
      simp only [admits, isLive, Bool.and_eq_true, decide_eq_true_eq] at hl
      exact hl.1
    refine ⟨hgot.conns, fun t ht => ?_, hgot.queued, hgot.pending, hgot.status⟩
    rcases List.mem_append.mp ht with hin | hin
    · exact h.timeouts t hin
    · rw [List.mem_singleton.mp hin]
      exact ⟨hlive.trans_le hle, (h.status _ sid hsid).1⟩
  | @failedGet c payload context now w sid =>
    have hstatus := allocated_entry h sid (fun status => { status with
      nextReplyId := status.nextReplyId + 1
      replyContexts := status.replyContexts.insert status.nextReplyId context }) rfl rfl
    exact allocated_log (s := s.enterGet sid context)
      ⟨h.conns, h.timeouts, h.queued, h.pending, hstatus.status⟩ rfl
  | @expire now t rest context data _ _ htimeouts =>
    have hstatus := allocated_entry h t.status (fun status => { status with
      replyContexts := status.replyContexts.erase t.replyId }) rfl rfl
    have hmem : ∀ t' ∈ t :: rest, t' ∈ s.timeouts := fun _ ht => htimeouts ▸ ht
    exact allocated_sendCallback (s := s.timeOut t rest context)
      ⟨h.conns, fun t' ht => h.timeouts t' (hmem t' (List.mem_cons_of_mem _ ht)), h.queued,
        h.pending, hstatus.status⟩ (h.timeouts t (hmem t List.mem_cons_self)).1 _ _ _ _
  | swap _ hphase =>
    refine ⟨h.conns, h.timeouts, h.queued, fun p hp => h.pending p ?_, h.status⟩
    simpa [pending, Phase.saved, hphase, or_comm] using hp
  | phase ph hold hnext _ =>
    refine ⟨h.conns, h.timeouts, h.queued, fun p hp => h.pending p ?_, h.status⟩
    simpa [pending, hold, hnext.saved] using hp
  | removal =>
    obtain ⟨index, heq⟩ := removalPass_eq s
    rw [heq]
    exact ⟨fun c hc => h.conns c (SwapRemove.mem_of_mem_foldl_swapRemove hc), h.timeouts, h.queued,
      h.pending, h.status⟩
  -- The call leaves the queue of the phase, the rest of it goes on the stack.
  | @call call rest junk _ _ hphase =>
    rw [makeCall_eq]
    have hlog := allocated_log (o := .called (s.loaded call junk) call) h rfl
    refine ⟨hlog.conns, hlog.timeouts, hlog.queued, fun p hp => hlog.pending p ?_, hlog.status⟩
    simp only [pending, Phase.saved, log_phase, log_stack, log_immediateCallbacks, hphase,
      List.reverse_cons, List.flatMap_append, List.flatMap_cons, List.flatMap_nil, List.mem_append,
      List.mem_cons] at hp ⊢
    tauto
  -- When it returns, the rest comes back.
  | @finish f stack _ _ hphase hstack =>
    rw [finishCall_eq]
    have hstatus : Allocated { s with status := (s.saveContext f).status } := by
      refine allocated_status h fun sid => ?_
      obtain ⟨connContext, heq⟩ := saveContext_status s f sid
      rw [heq]
      exact ⟨rfl, rfl⟩
    refine ⟨h.conns, h.timeouts, h.queued, fun p hp => h.pending p ?_, hstatus.status⟩
    simpa [pending, Phase.saved, hphase, hstack] using hp

/-- The last effect of a step refers to what was made before, or is made by it. -/
theorem allocated_final (hs₀ : Allocated s₀) (hle : s₀.nextConn ≤ s.nextConn) (h : Allocated s)
    (hfinal : Final s₀ i s s') : Allocated s' := by
  cases hfinal with
  | @handled c r event m hreads =>
    exact allocated_sendCallback
      (s := s.modifyConn c fun conn => { conn with replyContext := null })
      ⟨h.conns, h.timeouts, h.queued, h.pending, h.status⟩ ((hreads.allocated hs₀).trans_le hle)
        _ _ _ _
  | @matched c r event m context data hreads =>
    have hstatus := allocated_entry h m.status (fun status => { status with
      replyContexts := status.replyContexts.erase m.header.replyId }) rfl rfl
    refine allocated_sendCallback (s := s.resolve c m.status m.header.replyId context)
      ⟨h.conns, fun t ht => h.timeouts t (List.mem_of_mem_eraseP ht), h.queued, h.pending,
        hstatus.status⟩ ((hreads.allocated hs₀).trans_le hle) _ _ _ _
  | @unmatched c r m ph hreads _ _ _ hold hnext =>
    have hsent := allocated_sendCallback h ((hreads.allocated hs₀).trans_le hle) .error
      (some (msgNewData "Unrecognized reply_id")) .data
      (.frame (s.conn c).remoteAddress m.status m.header m.data.bytes none)
    refine ⟨hsent.conns, hsent.timeouts, hsent.queued, fun p hp => hsent.pending p ?_,
      hsent.status⟩
    simpa [pending, hold, hnext.saved] using hp
  -- `local_disconnect` deletes a status and queues a call for a conn that was made.
  | @drop c event ph _ hdrops _ hold hnext =>
    have hunset := allocated_unsetStatus h (s.conn c).remoteAddress
    have hsent := allocated_sendCallback hunset ((hdrops.reports.allocated hs₀).trans_le hle) event
      none (s.closingCall c event).toFree (.closing (s.conn c).remoteAddress)
    refine ⟨?_, ?_, ?_, ?_, ?_⟩
    · simpa using hsent.conns
    · simpa using hsent.timeouts
    · simpa [closingCall] using hsent.queued
    · simpa [closingCall, pending, hold, hnext.saved] using hsent.pending
    · simpa using hsent.status
  | @refuse c index soError msg hvisits hstart =>
    subst hstart
    have hlisted : c ∈ s.conns := List.mem_of_getElem? hvisits.listed
    have hsent := allocated_sendCallback h (h.conns _ hlisted) .error (some (msgNewData msg))
      (.conn c) .other
    refine ⟨hsent.conns, hsent.timeouts, hsent.queued, fun p hp => hsent.pending p ?_, hsent.status⟩
    simpa [pending, Phase.saved, hvisits.phase] using hp
  -- The call is for the conn that was just made.
  | fail k msg =>
    exact allocated_sendCallback (allocated_allocConn h k) (Nat.lt_succ_self _) _ _ _ _

end State

/-- In every reachable state the program's pointers are valid. -/
theorem reach_allocated {ok : State → Input → Prop} {s : State} (h : machine.Reach ok s) :
    Allocated s := by
  refine reach_invariant Allocated ?_ ?_ ?_ h
  · exact ⟨fun _ h => absurd h List.not_mem_nil, fun _ h => absurd h List.not_mem_nil,
      fun _ h => absurd h List.not_mem_nil, fun _ h => absurd h List.not_mem_nil,
      fun _ _ h => (Option.some_ne_none _ h.symm).elim⟩
  · intro s₀ s s' i _ hs₀ hsteps hinv heffect
    exact State.allocated_effect hs₀ (State.effects_nextConn_le hsteps) hinv heffect
  · intro s₀ s s' i _ hs₀ hsteps hinv hfinal
    exact State.allocated_final hs₀ (State.effects_nextConn_le hsteps) hinv hfinal

end Msgbox
