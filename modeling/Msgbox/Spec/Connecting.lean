import Msgbox.Spec.Opening
import Msgbox.Spec.Streams
import Msgbox.Spec.Expiry

/-!
# The first event of a connect

A tcp conn that connects is in the tables with an entry that waits to be written to. Until `poll`
reports it, nothing is queued for it; then the visit of the conn queues what it finds, if it finds
it.

## Key results

- `Waits`: the conn has no events yet, and nothing but its visit can queue one
- `waits_path`: this holds until a visit finds that the connect was completed
- `first_event_iff`: the first event is the right one exactly if the error is one of the two that
  are known, or there is none and the address is not known yet
-/

namespace Msgbox

namespace State

variable {s₀ s s' : State} {i : Input} {c : ConnId}

/-! ## The tables -/

/-- The tables are as before. -/
def SameTables (s s' : State) : Prop := s'.conns = s.conns ∧ s'.pollFds = s.pollFds

/-- Tables that stay twice. -/
theorem SameTables.trans {s'' : State} (h : SameTables s s') (h' : SameTables s' s'') :
    SameTables s s'' := ⟨h'.1.trans h.1, h'.2.trans h.2⟩

/-- `remote_address_seen` makes a status, no conn. -/
theorem sameTables_seen (s : State) (c : ConnId) : SameTables s (s.remoteAddressSeen c).1 := by
  unfold remoteAddressSeen
  split <;> exact ⟨rfl, rfl⟩

/-- `local_disconnect` marks a conn and leaves it in its place. -/
theorem sameTables_drop (s : State) (c : ConnId) (event : Event) :
    SameTables s (s.localDisconnect c event) := ⟨by simp, by simp⟩

/-- A header goes to the fields of the conn. -/
private theorem sameTables_header (s : State) (c : ConnId) (raw : List UInt8) :
    SameTables s (s.acceptHeader c raw) := by
  unfold acceptHeader takeHeader
  split <;> exact ⟨rfl, rfl⟩

/-- Reading a header may drop the conn, which stays in its place. -/
private theorem sameTables_readHeader (s : State) (c : ConnId) (r : Recv) :
    SameTables s (s.readHeader c r).1 := by
  unfold readHeader
  split
  · exact ⟨rfl, rfl⟩
  · exact sameTables_drop s c _
  · exact ⟨rfl, rfl⟩
  · exact sameTables_header s c _

/-- So may going on with a body. -/
private theorem sameTables_continueRecv (s : State) (c : ConnId) (sid : StatusId) (r : Recv) :
    SameTables s (s.continueRecv c sid r).1 := by
  unfold continueRecv
  cases s.recvBody c sid r with
  | «over» => exact sameTables_drop s c _
  | _ => exact ⟨rfl, rfl⟩

/-- A body that goes on, up to the message. -/
private theorem sameTables_continue (s : State) (c : ConnId) (sid : StatusId) (header : Header)
    (r : Recv) :
    SameTables s (s.continueMessage c sid header r).1 := by
  have hrecv := sameTables_continueRecv s c sid r
  unfold continueMessage
  cases hcase : s.continueRecv c sid r with
  | mk s₁ received =>
    rw [hcase] at hrecv
    cases received with
    | failed e => exact hrecv.trans ⟨rfl, rfl⟩
    | _ => exact hrecv.trans ⟨rfl, rfl⟩

/-- A tcp read up to the message. -/
private theorem sameTables_recvTcp (s : State) (c : ConnId) (r : ReadIn) :
    SameTables s (s.recvTcp c r).1 := by
  have hseen := sameTables_seen s c
  unfold recvTcp
  cases hcase : s.remoteAddressSeen c with
  | mk s₁ sid =>
    rw [hcase] at hseen
    dsimp only at hseen ⊢
    split
    · have hheader := sameTables_readHeader s₁ c r.peek
      cases hread : s₁.readHeader c r.peek with
      | mk s₂ header =>
        rw [hread] at hheader
        cases header with
        | none => exact hseen.trans hheader
        | some header =>
          dsimp only
          split
          · exact (hseen.trans hheader).trans (sameTables_drop s₂ c _)
          · have hbuffer : SameTables s₂ (s₂.newConnStatusBuffer sid header) := ⟨rfl, rfl⟩
            exact ((hseen.trans hheader).trans hbuffer).trans
              (sameTables_continue _ c sid header r.body)
    · exact hseen.trans (sameTables_continue s₁ c sid _ r.body)

/-- A udp read up to the message. -/
private theorem sameTables_recvUdp (s : State) (c : ConnId) (header : Header) (r : Option Errno) :
    SameTables s (s.recvUdp c header r).1 := by
  unfold recvUdp
  cases s.recvfrom c r with
  | error e => exact ⟨rfl, rfl⟩
  | ok d => exact SameTables.trans ⟨rfl, rfl⟩ (sameTables_seen _ c)

/-- Clearing the fields of the conn. -/
private theorem sameTables_clearOneWay (s : State) (c : ConnId) (header : Header) :
    SameTables s (s.clearOneWay c header) := by
  unfold clearOneWay
  split <;> exact ⟨rfl, rfl⟩

/-- Queueing the call for a message. -/
private theorem sameTables_handleMessage (s : State) (c : ConnId) (event : Event) (m : Message) :
    SameTables s (s.handleMessage c event m).1 := by
  unfold handleMessage
  dsimp only
  split
  · split <;> exact ⟨rfl, rfl⟩
  · exact ⟨rfl, rfl⟩

/-- A new entry that is read from is appended, or the tables are as before. -/
def Appends (s s' : State) : Prop :=
  SameTables s s' ∨ ∃ p : PollFd, s'.conns = s.conns ++ [s.nextConn] ∧ s'.pollFds = s.pollFds ++ [p]

/-- `accept` enters one conn behind the others, or none. -/
private theorem appends_accept (s : State) (c : ConnId) (r : ReadIn) :
    Appends s (s.acceptConn c r) := by
  unfold acceptConn
  split
  · exact .inl ⟨rfl, rfl⟩
  · exact .inl ⟨rfl, rfl⟩
  · dsimp only
    split
    · exact .inl ⟨rfl, rfl⟩
    · split
      · exact .inl ⟨rfl, rfl⟩
      · exact .inr ⟨_, (sameTables_seen _ s.nextConn).1, (sameTables_seen _ s.nextConn).2⟩

/-- A call of `read_from_socket` enters at most one conn, behind the others. -/
private theorem appends_read (s : State) (c : ConnId) (r : ReadIn) :
    Appends s (s.readFromSocket c r).1 := by
  unfold readFromSocket
  split
  · split
    · exact appends_accept s c r
    · have htcp := sameTables_recvTcp s c r
      cases hrecv : s.recvTcp c r with
      | mk s₁ m =>
        rw [hrecv] at htcp
        cases m with
        | none => exact .inl htcp
        | some m =>
          dsimp only
          split
          · exact .inl (htcp.trans (sameTables_drop s₁ c _))
          · exact .inl ((htcp.trans (sameTables_clearOneWay s₁ c m.header)).trans
              (sameTables_handleMessage _ c _ m))
  · have hheader := sameTables_readHeader s c r.peek
    cases hread : s.readHeader c r.peek with
    | mk s₁ header =>
      rw [hread] at hheader
      cases header with
      | none => exact .inl hheader
      | some header =>
        dsimp only
        split
        · exact .inl (hheader.trans (sameTables_drop s₁ c _))
        · have hudp := (hheader.trans (sameTables_clearOneWay s₁ c header)).trans
            (sameTables_recvUdp _ c header r.recvfrom)
          cases hrecv : (s₁.clearOneWay c header).recvUdp c header r.recvfrom with
          | mk s₂ m =>
            rw [hrecv] at hudp
            cases m with
            | none => exact .inl hudp
            | some m => exact .inl (hudp.trans (sameTables_handleMessage s₂ c _ m))

/-- Sending touches no table. -/
private theorem sameTables_sendData (s : State) (c : ConnId) (frame : List UInt8) (w : SendIn) :
    SameTables s (s.sendData c frame w).1 := by
  rw [sendData_fst]
  exact ⟨rfl, rfl⟩

/-- A call by the application makes a new conn, or leaves the tables alone. -/
private theorem appends_appCall (h : Indexed s) (call : AppCall) : Appends s (s.appCall call) := by
  -- Opening lists one conn, or takes it out again.
  have hopen : ∀ address connContext callback forListening o,
      Appends s (s.openSocket address connContext callback forListening o) := by
    intro address connContext callback forListening o
    rcases openSocket_cases s address connContext callback forListening o with
      ⟨-, s₁, k, text, hs₁, heq⟩ | ⟨-, sock, contents, heq⟩
    · rw [heq]
      rcases hs₁ with rfl | ⟨sock, contents, rfl⟩ <;> exact .inl ⟨rfl, rfl⟩
    · rw [heq]
      obtain ⟨hconns, -, hpollFds⟩ := finishOpen_tables s forListening h.length
        (s.openedConn address connContext callback forListening sock) contents
        (connecting address forListening o)
      exact .inr ⟨_, hconns, hpollFds⟩
  have hreport : ∀ (s₁ : State) (c : ConnId) (failed : Option (String × Errno)),
      SameTables s₁ (s₁.reportSend c failed) := by
    intro s₁ c failed
    unfold reportSend
    split <;> exact ⟨rfl, rfl⟩
  cases call with
  | listen address callback o => exact hopen address null callback true o
  | connect address callback connContext o => exact hopen address connContext callback false o
  | unlisten conn result =>
    cases conn with
    | none => exact .inl ⟨rfl, rfl⟩
    | some c =>
      refine .inl ?_
      show SameTables s (s.msgUnlisten c result)
      unfold msgUnlisten
      split
      · exact ⟨rfl, rfl⟩
      · dsimp only
        split
        · exact SameTables.trans ⟨rfl, rfl⟩ (sameTables_drop _ c _)
        · split
          · exact ⟨rfl, rfl⟩
          · exact SameTables.trans ⟨rfl, rfl⟩ (sameTables_drop _ c _)
  | disconnect c w =>
    refine .inl ?_
    show SameTables s (s.msgDisconnect c w)
    unfold msgDisconnect
    have hlog : SameTables s (s.log (.disconnected c (s.conn c).remoteAddress)) := ⟨rfl, rfl⟩
    exact ((hlog.trans (sameTables_sendData _ c _ w)).trans (hreport _ c _)).trans
      (sameTables_drop _ c _)
  | send c payload w =>
    refine .inl ?_
    show SameTables s (s.msgSend c payload w)
    unfold msgSend
    exact (sameTables_sendData s c _ w).trans (hreport _ c _)
  | get c payload context now w =>
    refine .inl ?_
    show SameTables s (s.msgGet c payload context now w)
    unfold msgGet
    split
    · exact ⟨rfl, rfl⟩
    · rename_i sid hsid
      have hsent : SameTables s ((s.enterGet sid context).sendData c
          (setHeader .request (s.status sid).nextReplyId payload.length ++ payload) w).1 :=
        sameTables_sendData (s.enterGet sid context) c _ w
      dsimp only
      split
      · rename_i s₁ name e heq
        obtain rfl := congrArg Prod.fst heq
        exact hsent.trans ⟨rfl, rfl⟩
      · rename_i s₁ heq
        obtain rfl := congrArg Prod.fst heq
        exact hsent.trans ⟨rfl, rfl⟩
  | setConnContext c connContext => exact .inl ⟨rfl, rfl⟩
  | setRemoteAddress c ip port => exact .inl ⟨rfl, rfl⟩

/-- Ending a get touches no table. -/
private theorem sameTables_expire {t : Timeout} {rest : List Timeout}
    (h : s.expire t rest = some s') :
    SameTables s s' := by
  unfold expire at h
  split at h
  · exact absurd h.symm (Option.some_ne_none s')
  · split at h
    · exact absurd h.symm (Option.some_ne_none s')
    · obtain rfl := Option.some.inj h
      exact ⟨rfl, rfl⟩

/-- Nor does the timeout loop. -/
private theorem sameTables_timeouts {now : Nat} {l : List Timeout}
    (h : timeoutLoop now l s = some s') :
    SameTables s s' := by
  induction l generalizing s with
  | nil =>
    obtain rfl := Option.some.inj h
    exact ⟨rfl, rfl⟩
  | cons t rest ih =>
    rw [timeoutLoop] at h
    split at h
    · obtain rfl := Option.some.inj h
      exact ⟨rfl, rfl⟩
    · obtain ⟨s₁, hexpire, hloop⟩ := Option.bind_eq_some_iff.mp h
      exact (sameTables_expire hexpire).trans (ih hloop)

/-! ## Entries that wait to be written to -/

/-- The entry of the conn waits for the connect, and has nothing to read. -/
def WaitsToWrite (s : State) (c : ConnId) : Prop :=
  ∀ (j : Nat) (p : PollFd), s.conns[j]? = some c → s.pollFds[j]? = some p →
    p.events = .write ∧ p.revents.pollin = false

/-- The entry waits as long as the tables stay. -/
private theorem waitsToWrite_same (h : WaitsToWrite s c) (hsame : SameTables s s') :
    WaitsToWrite s' c := by
  intro j p hc hp
  rw [hsame.1] at hc
  rw [hsame.2] at hp
  exact h j p hc hp

/-- A conn that is entered behind has another entry. -/
private theorem waitsToWrite_appends (h : WaitsToWrite s c) (hindexed : Indexed s)
    (hc : c < s.nextConn) (happends : Appends s s') : WaitsToWrite s' c := by
  rcases happends with hsame | ⟨new, hconns, hpollFds⟩
  · exact waitsToWrite_same h hsame
  · intro j p hcj hp
    rw [hconns] at hcj
    rw [hpollFds] at hp
    rcases Nat.lt_or_ge j s.conns.length with hlt | hge
    · rw [List.getElem?_append_left hlt] at hcj
      rw [List.getElem?_append_left (by rw [hindexed.length]; exact hlt)] at hp
      exact h j p hcj hp
    · -- The last position holds the new conn.
      rw [List.getElem?_append_right hge] at hcj
      have hnew := List.mem_of_getElem? hcj
      rw [List.mem_singleton] at hnew
      exact absurd hc (by rw [hnew]; exact Nat.lt_irrefl _)

/-- The removal pass moves entries and conns together. -/
private theorem waitsToWrite_removal (h : WaitsToWrite s c) (hindexed : Indexed s) :
    WaitsToWrite s.removalPass c := by
  obtain ⟨index, heq⟩ := removalPass_eq s
  intro j p hcj hp
  rw [heq] at hcj hp
  obtain ⟨j', hcj', hp'⟩ := SwapRemove.exists_getElem?_foldl_swapRemove hindexed.length hcj hp
  exact h j' p hcj' hp'

/-- `poll` reports something to read only where it was asked for. -/
private theorem waitsToWrite_fill (h : WaitsToWrite s c) (revents : List Revents) :
    WaitsToWrite { s with pollFds := fillRevents s.pollFds revents } c := by
  intro j p hcj hp
  have hp' : (fillRevents s.pollFds revents)[j]? = some p := hp
  rw [fillRevents, List.getElem?_mapIdx, Option.map_eq_some_iff] at hp'
  obtain ⟨old, hold, rfl⟩ := hp'
  have hwrite := (h j old hcj hold).1
  simp [hwrite]

/-- Other entries may be set back to reading. -/
private theorem waitsToWrite_mode (h : WaitsToWrite s c) {index : Nat} {c' : ConnId}
    (hlisted : s.conns[index]? = some c') (hne : c' ≠ c) (mode : PollMode) :
    WaitsToWrite (s.setConnToPollMode index mode) c := by
  intro j p hcj hp
  have hj : index ≠ j := by
    rintro rfl
    exact hne (Option.some.inj (hlisted.symm.trans hcj))
  rw [setConnToPollMode_pollFds, List.getElem?_modify_ne _ _ hj] at hp
  exact h j p hcj hp

/-! ## Nothing is queued -/

/-- The conn that a call names. -/
def AppCall.target : AppCall → Option ConnId
  | .listen _ _ _ => none
  | .connect _ _ _ _ => none
  | .unlisten conn _ => conn
  | .disconnect c _ => some c
  | .send c _ _ => some c
  | .get c _ _ _ _ => some c
  | .setConnContext c _ => some c
  | .setRemoteAddress c _ _ => some c

/-- The step visits the conn and finds that its connect was completed, or refused or timed out. -/
def completes (c : ConnId) (s : State) : Input → Bool
  | .visit soError =>
    match s.phase with
    | .polling index =>
      s.conns[index]? == some c && ((s.reventsAt index).pollout ||
        (s.reventsAt index).pollerr &&
          (soError == some .connRefused || soError == some .timedOut))
    | _ => false
  | _ => false

/-- The connect is not completed yet, and the application, which has not been given the conn, does
    not name it. -/
def leavesAlone (c : ConnId) (s : State) (i : Input) : Prop :=
  completes c s i = false ∧ ∀ call, i = .app call → call.target ≠ some c

/-- The conn has its address, and no events or timeouts. -/
structure Quiet (c : ConnId) (a : Address) (s : State) : Prop where
  made : c < s.nextConn
  quiet : ∀ p, Obs.queued p ∈ s.trace → p.conn ≠ c
  address : (s.conn c).remoteAddress = a
  timeouts : ∀ t ∈ s.timeouts, t.conn ≠ c

/-- A conn without events whose entry waits for the connect. -/
structure Waits (c : ConnId) (a : Address) (s : State) : Prop extends Quiet c a s where
  entry : WaitsToWrite s c
  reading : ∀ {j : Nat}, s.phase = .reading j → s.conns[j]? ≠ some c

variable {a : Address}

/-- A step that is not about the conn queues nothing for it. -/
private theorem not_queued (h : ∀ p, Obs.queued p ∈ s.trace → p.conn ≠ c) (hnot : ¬ i.Concerns s₀ c)
    (hchange : QueueChange s₀ i s s') : ∀ p, Obs.queued p ∈ s'.trace → p.conn ≠ c := by
  intro p hp
  rw [← mem_queuedCalls] at hp
  cases hchange with
  | quiet hqueued | call _ _ _ hqueued | finish hqueued =>
    rw [hqueued, mem_queuedCalls] at hp
    exact h p hp
  | queue hconcerns _ hqueued =>
    rw [hqueued, List.mem_append, List.mem_singleton, mem_queuedCalls] at hp
    rcases hp with hold | rfl
    · exact h p hold
    · rintro rfl
      exact hnot hconcerns

/-- Only a get of the conn adds a timeout for it. -/
private theorem timeouts_effect
    (hget : ∀ payload context now w, ¬ i.Calls s₀ (.get c payload context now w))
    (h : ∀ t ∈ s.timeouts, t.conn ≠ c) (heffect : Effect s₀ i s s') :
    ∀ t ∈ s'.timeouts, t.conn ≠ c := by
  cases heffect with
  | early hearly => cases hearly <;> exact h
  | @get c' payload context now w sid o hcalls =>
    intro t ht
    rcases List.mem_append.mp ht with hold | hnew
    · exact h t hold
    · rw [List.mem_singleton.mp hnew]
      rintro rfl
      exact hget _ _ _ _ hcalls
  | expire _ _ htimeouts =>
    rw [htimeouts] at h
    exact fun t ht => h t (List.mem_cons_of_mem _ ht)
  | removal =>
    obtain ⟨index, heq⟩ := removalPass_eq s
    rw [heq]
    exact h
  | call =>
    rw [makeCall_eq]
    exact h
  | finish =>
    rw [finishCall_eq]
    exact h
  | _ => exact h

/-- An effect of a step that is not about the conn. -/
private theorem quiet_effect (htcp : a.protocolType = .tcp) (hnot : ¬ i.Concerns s₀ c)
    (hget : ∀ payload context now w, ¬ i.Calls s₀ (.get c payload context now w))
    (h : Quiet c a s) (heffect : Effect s₀ i s s') : Quiet c a s' where
  made := Nat.lt_of_lt_of_le h.made (effect_nextConn_le heffect)
  quiet := not_queued h.quiet hnot (effect_queueChange heffect)
  address := by
    have hproto : (s.conn c).protocolType = .tcp := by rw [Conn.protocolType, h.address, htcp]
    rw [keepsTcp_effect heffect c h.made hproto, h.address]
  timeouts := timeouts_effect hget h.timeouts heffect

/-- The last effect of a step that is not about the conn. -/
private theorem quiet_final (htcp : a.protocolType = .tcp) (hnot : ¬ i.Concerns s₀ c)
    (h : Quiet c a s) (hfinal : Final s₀ i s s') : Quiet c a s' where
  made := Nat.lt_of_lt_of_le h.made (final_nextConn_le hfinal)
  quiet := not_queued h.quiet hnot (final_queueChange hfinal)
  address := by
    have hproto : (s.conn c).protocolType = .tcp := by rw [Conn.protocolType, h.address, htcp]
    rw [keepsTcp_final hfinal c h.made hproto, h.address]
  timeouts := fun t ht => h.timeouts t ((final_timeouts hfinal).subset ht)

/-- A step that does not visit the conn is not about it. -/
theorem Waits.not_concerned (h : Waits c a s) (hok : leavesAlone c s i)
    (hvisit : ∀ index soError, ¬ i.Visits s c index soError) : ¬ i.Concerns s c := by
  have hcalls : ∀ {call : AppCall}, i.Calls s call → call.target ≠ some c :=
    fun hcall => hok.2 _ hcall.input
  intro hconcerns
  cases hconcerns with
  | reports hreports =>
    cases hreports with
    | read hreads =>
      obtain ⟨index, hphase, hlisted⟩ := hreads.listed
      exact h.reading hphase hlisted
    | disconnect hcall | unlisten hcall | send hcall | get hcall => exact hcalls hcall rfl
  | visits hvisits => exact hvisit _ _ hvisits
  | due _ hdue hconn => exact h.timeouts _ ((List.takeWhile_sublist _).subset hdue) hconn
  | opened heq => exact Nat.lt_irrefl _ (heq ▸ h.made)

/-- A step that does not visit the conn and leaves it alone. -/
private theorem Waits.quiet_step (h : Waits c a s) (htcp : a.protocolType = .tcp)
    (hok : leavesAlone c s i)
    (hvisit : ∀ index soError, ¬ i.Visits s c index soError) (hstep : step s i = some s') :
    Quiet c a s' := by
  have hnot := h.not_concerned hok hvisit
  have hget : ∀ payload context now w, ¬ i.Calls s (.get c payload context now w) :=
    fun _ _ _ _ hcall => hok.2 _ hcall.input rfl
  obtain ⟨s₁, heffects, hlast⟩ := step_effects hstep
  have hmid : Quiet c a s₁ := by
    clear hlast
    induction heffects with
    | refl => exact h.toQuiet
    | tail _ heffect ih => exact quiet_effect htcp hnot hget ih heffect
  rcases hlast with rfl | hfinal
  · exact hmid
  · exact quiet_final htcp hnot hmid hfinal

/-! ## Until the connect is completed -/

/-- A step begins to read a conn only by its visit. -/
private theorem reading_step (hstep : step s i = some s') {j : Nat}
    (hphase : s'.phase = .reading j) :
    s.phase = .reading j ∨ ∃ soError, i = .visit soError := by
  -- Of all ways to advance, only a visit leads to a read.
  have hnext : ∀ {ph : Phase}, i.Advances s ph → ph = .reading j →
    ∃ soError, i = .visit soError := by
    intro ph hadvances heq
    cases hadvances with
    | read hvisits => exact ⟨_, hvisits.input⟩
    | _ => exact Phase.noConfusion heq
  have heffect : ∀ {s₁ s₂ : State}, Effect s i s₁ s₂ →
      (s₁.phase = .reading j → s.phase = .reading j ∨ ∃ soError, i = .visit soError) →
      s₂.phase = .reading j → s.phase = .reading j ∨ ∃ soError, i = .visit soError := by
    intro s₁ s₂ heffect hold hphase
    cases heffect with
    | early hearly => cases hearly <;> exact hold hphase
    | phase ph _ hadvances => exact .inr (hnext hadvances hphase)
    | swap => exact Phase.noConfusion hphase
    | removal =>
      rw [removalPass_phase] at hphase
      exact hold hphase
    | call =>
      rw [makeCall_eq] at hphase
      exact Phase.noConfusion hphase
    | finish => exact Phase.noConfusion hphase
    | _ => exact hold hphase
  obtain ⟨s₁, heffects, hlast⟩ := step_effects hstep
  have hmid : s₁.phase = .reading j → s.phase = .reading j ∨ ∃ soError, i = .visit soError := by
    clear hlast
    induction heffects with
    | refl => exact .inl
    | tail _ hlast ih => exact heffect hlast ih
  rcases hlast with rfl | hfinal
  · exact hmid hphase
  · cases hfinal with
    | handled | matched | fail => exact hmid hphase
    | unmatched _ _ _ _ _ hadvances => exact .inr (hnext hadvances hphase)
    | drop _ _ _ _ hadvances => exact .inr (hnext hadvances hphase)
    | refuse => exact Phase.noConfusion hphase

/-- The visit of a conn that is refused or timed out. -/
theorem visitConn_refused {index : Nat} {soError : Option Errno}
    (h : (s.reventsAt index).pollerr = true ∧
      (soError = some .connRefused ∨ soError = some .timedOut)) :
    s.visitConn index c soError =
      { ({ s with removals := s.removals ++ [(s.conn c).index] }).sendCallbackOsError c "connect"
          (soError.getD .connRefused) (.conn c) with phase := .polling (index + 1) } :=
  if_pos h

/-- The visit of any other conn. -/
theorem visitConn_other {index : Nat} {soError : Option Errno}
    (h : ¬ ((s.reventsAt index).pollerr = true ∧
      (soError = some .connRefused ∨ soError = some .timedOut))) :
    s.visitConn index c soError =
      { (if (s.reventsAt index).pollout then
            (s.remoteAddressSeen c).1.setConnToPollMode index .read else s) with
        phase := if (s.reventsAt index).pollin then .reading index else .polling (index + 1) } :=
  if_neg h

/-- A visit that does not complete the connect does nothing for the conn. -/
theorem Waits.visit (h : Waits c a s) {index : Nat} {soError : Option Errno}
    (hphase : s.phase = .polling index) (hlisted : s.conns[index]? = some c)
    (hnot : completes c s (.visit soError) = false) :
    s.visitConn index c soError = { s with phase := .polling (index + 1) } := by
  have hpollin : (s.reventsAt index).pollin = false := by
    unfold reventsAt
    cases hp : s.pollFds[index]? with
    | none => rfl
    | some p => exact (h.entry index p hlisted hp).2
  simp only [completes, hphase, hlisted, beq_self_eq_true, Bool.true_and, Bool.or_eq_false_iff,
    Bool.and_eq_false_imp, beq_eq_false_iff_ne] at hnot
  obtain ⟨hpollout, hpollerr⟩ := hnot
  have hother : ¬ ((s.reventsAt index).pollerr = true ∧
      (soError = some .connRefused ∨ soError = some .timedOut)) := by
    rintro ⟨herr, hrefused⟩
    obtain ⟨h₁, h₂⟩ := hpollerr herr
    exact hrefused.elim h₁ h₂
  rw [visitConn_other hother, hpollout, hpollin]
  rfl

/-- A step that is no visit and leaves the positions as they are. -/
theorem Waits.keep (h : Waits c a s) (htcp : a.protocolType = .tcp) (hok : leavesAlone c s i)
    (hstep : Msgbox.step s i = some s') (hvisit : ∀ soError, i ≠ .visit soError)
    (hentry : WaitsToWrite s' c)
    (hconns : ∀ j, s.phase = .reading j → s'.conns[j]? = some c → s.conns[j]? = some c) :
    Waits c a s' := by
  refine ⟨h.quiet_step htcp hok (fun _ _ hv => hvisit _ hv.input) hstep, hentry, ?_⟩
  intro j hphase hcj
  rcases reading_step hstep hphase with hold | ⟨soError, hinput⟩
  · exact h.reading hold (hconns j hold hcj)
  · exact hvisit soError hinput

/-- A visit, of the conn itself or of another one. -/
private theorem Waits.visit_step (h : Waits c a s) (htcp : a.protocolType = .tcp)
    {soError : Option Errno}
    (hok : leavesAlone c s (.visit soError)) (hstep : Msgbox.step s (.visit soError) = some s') :
    Waits c a s' := by
  obtain ⟨index, c', hphase, hlisted, -, rfl⟩ := step_visit hstep
  by_cases hc : c' = c
  · subst hc
    rw [h.visit hphase hlisted hok.1]
    exact ⟨⟨h.made, h.quiet, h.address, h.timeouts⟩, h.entry,
      fun hreading => Phase.noConfusion hreading⟩
  · have hother : ∀ index' soError', ¬ Input.Visits s (.visit soError) c index' soError' := by
      intro index' soError' hv
      obtain rfl := Phase.polling.inj (hv.phase.symm.trans hphase)
      exact hc (Option.some.inj (hlisted.symm.trans hv.listed))
    have hquiet := h.quiet_step htcp hok hother hstep
    by_cases hrefused : (s.reventsAt index).pollerr = true ∧
        (soError = some .connRefused ∨ soError = some .timedOut)
    · rw [visitConn_refused hrefused] at hquiet ⊢
      exact ⟨hquiet, waitsToWrite_same h.entry ⟨rfl, rfl⟩,
        fun hreading => Phase.noConfusion hreading⟩
    · rw [visitConn_other hrefused] at hquiet ⊢
      have hseen := sameTables_seen s c'
      have hwaits : WaitsToWrite (if (s.reventsAt index).pollout then
          (s.remoteAddressSeen c').1.setConnToPollMode index .read else s) c := by
        split
        · exact waitsToWrite_mode (waitsToWrite_same h.entry hseen) (hseen.1 ▸ hlisted) hc _
        · exact h.entry
      have hconns : (if (s.reventsAt index).pollout then
          (s.remoteAddressSeen c').1.setConnToPollMode index .read else s).conns = s.conns := by
        split
        · exact hseen.1
        · rfl
      refine ⟨hquiet, hwaits, ?_⟩
      -- The conn that is read next is the one that was visited.
      intro j hreading hcj
      dsimp only at hreading hcj
      rw [hconns] at hcj
      split at hreading
      · obtain rfl := Phase.reading.inj hreading
        exact hc (Option.some.inj (hlisted.symm.trans hcj))
      · exact Phase.noConfusion hreading

/-- A call of `read_from_socket` enters new conns at the end. -/
private theorem Waits.read_step (h : Waits c a s) (hs : Sound s) (htcp : a.protocolType = .tcp)
    {r : ReadIn} (hok : leavesAlone c s (.read r)) (hstep : Msgbox.step s (.read r) = some s') :
    Waits c a s' := by
  obtain ⟨index, c', hphase, hlisted, -, -, -, hread⟩ := step_read hstep
  have happends : Appends s s' := by
    have hfst := appends_read s c' r
    rw [hread]
    split
    · exact hfst
    · exact hfst
  refine h.keep htcp hok hstep (fun _ => Input.noConfusion)
    (waitsToWrite_appends h.entry hs.tabled.toIndexed h.made happends) ?_
  intro j hreading hcj
  obtain rfl := Phase.reading.inj (hphase.symm.trans hreading)
  rcases happends with hsame | ⟨p, hconns, -⟩
  · exact hsame.1 ▸ hcj
  · rw [hconns, List.getElem?_append_left (List.getElem?_eq_some_iff.mp hlisted).1] at hcj
    exact hcj

/-- The invariant in one step. -/
theorem Waits.step (h : Waits c a s) (hs : Sound s) (htcp : a.protocolType = .tcp)
    (hok : leavesAlone c s i) (hstep : Msgbox.step s i = some s') : Waits c a s' := by
  have hindexed := hs.tabled.toIndexed
  -- Only a visit makes the run loop read.
  have hnever : ∀ {ph : Phase}, s.phase = ph → (∀ j, ph ≠ .reading j) →
      ∀ j, s.phase = .reading j → s'.conns[j]? = some c → s.conns[j]? = some c :=
    fun hphase hnot j hreading => absurd (hphase.symm.trans hreading) (hnot j)
  cases i with
  | env e =>
    have hsame : SameTables s s' := by
      obtain ⟨sock, k, k', -, rfl⟩ := environment_eq (show s.environment e = some s' from hstep)
      exact ⟨rfl, rfl⟩
    exact h.keep htcp hok hstep (fun _ => Input.noConfusion) (waitsToWrite_same h.entry hsame)
      fun j _ hcj => hsame.1 ▸ hcj
  | app call =>
    obtain ⟨happ, -, rfl⟩ := step_app hstep
    exact h.keep htcp hok hstep (fun _ => Input.noConfusion)
      (waitsToWrite_appends h.entry hindexed h.made (appends_appCall hindexed call))
      (hnever happ fun _ => Phase.noConfusion)
  | runloop p =>
    obtain ⟨happ, -, rfl⟩ := step_runloop hstep
    refine h.keep htcp hok hstep (fun _ => Input.noConfusion) ?_
      (hnever happ fun _ => Phase.noConfusion)
    -- The removal pass may move the conn's entry, but the entry stays.
    have hremoval := waitsToWrite_removal h.entry hindexed
    unfold beginRunloop
    dsimp only
    split
    · exact hremoval
    · cases p with
      | ready revents => exact waitsToWrite_fill hremoval revents
      | _ => exact hremoval
  | visit soError => exact h.visit_step htcp hok hstep
  | read r => exact h.read_step hs htcp hok hstep
  | endPoll =>
    obtain ⟨index, hphase, -, rfl⟩ := step_endPoll hstep
    exact h.keep htcp hok hstep (fun _ => Input.noConfusion) (waitsToWrite_removal h.entry hindexed)
      (hnever hphase fun _ => Phase.noConfusion)
  | timeouts now =>
    obtain ⟨hphase, hpass⟩ := step_timeouts hstep
    obtain ⟨s₁, hloop, rfl⟩ := Option.map_eq_some_iff.mp hpass
    exact h.keep htcp hok hstep (fun _ => Input.noConfusion)
      (waitsToWrite_same h.entry ((sameTables_timeouts hloop).trans ⟨rfl, rfl⟩))
      (hnever hphase fun _ => Phase.noConfusion)
  | deliver junk =>
    rcases step_deliver hstep with ⟨hphase, rfl⟩ | ⟨call, rest, hphase, -, rfl⟩
    · exact h.keep htcp hok hstep (fun _ => Input.noConfusion)
        (waitsToWrite_same h.entry ⟨rfl, rfl⟩)
        (hnever hphase fun _ => Phase.noConfusion)
    · refine h.keep htcp hok hstep (fun _ => Input.noConfusion) ?_
        (hnever hphase fun _ => Phase.noConfusion)
      rw [makeCall_eq]
      exact waitsToWrite_same h.entry ⟨rfl, rfl⟩
  | ret =>
    obtain ⟨f, stack, hphase, -, -, rfl⟩ := step_ret hstep
    refine h.keep htcp hok hstep (fun _ => Input.noConfusion) ?_
      (hnever hphase fun _ => Phase.noConfusion)
    rw [finishCall_eq]
    exact waitsToWrite_same h.entry ⟨rfl, rfl⟩

/-- The invariant until the connect is completed. -/
theorem waits_path {s₁ s₂ : State} (hreach : machine.Reach (fun _ _ => True) s₁)
    (htcp : a.protocolType = .tcp) (h : Waits c a s₁)
    (hpath : machine.Path (leavesAlone c) s₁ s₂) : Waits c a s₂ := by
  apply hpath.keeps (fun _ _ _ => trivial) (Waits c a) hreach h
  intro s i s' hs hwaits hok hstep
  exact hwaits.step (reach_sound hs) htcp hok hstep

/-- The invariant holds when the conn was made and its connect is in progress. -/
theorem waits_start (hs : Sound s) {k : Conn} (haddress : k.remoteAddress = a) {contents : Socket}
    (hphase : s.phase = .app) :
    Waits s.nextConn a ((s.enterConn k contents).finishOpen s.nextConn false true) := by
  obtain ⟨hconns, hconn, hpollFds⟩ := finishOpen_tables s false hs.tabled.length k contents true
  refine ⟨⟨Nat.lt_succ_self _, ?_, by rw [hconn, haddress], ?_⟩, ?_, ?_⟩
  · intro p hp
    rcases List.mem_cons.mp hp with hnew | hold
    · exact Obs.noConfusion hnew
    · exact Nat.ne_of_lt (hs.allocated.queued p hold)
  · intro t ht
    exact Nat.ne_of_lt (hs.allocated.timeouts t ht).1
  · -- The conn is at the last position only.
    intro j p hcj hp
    rw [hconns] at hcj
    rw [hpollFds] at hp
    rcases Nat.lt_or_ge j s.conns.length with hlt | hge
    · rw [List.getElem?_append_left hlt] at hcj
      exact absurd (hs.allocated.conns _ (List.mem_of_getElem? hcj)) (Nat.lt_irrefl _)
    · rw [List.getElem?_append_right (by rw [hs.tabled.length]; exact hge)] at hp
      obtain rfl := List.mem_singleton.mp (List.mem_of_getElem? hp)
      exact ⟨rfl, rfl⟩
  · intro j hreading
    have happ : s.phase = .reading j := hreading
    rw [hphase] at happ
    exact Phase.noConfusion happ

end State

open State

/-! ## Main results -/

/-- The events that were queued for a conn, in this order. -/
def eventsOf (s : State) (c : ConnId) : List Event :=
  ((queuedCalls s.trace).filter fun p => p.conn = c).map PendingCall.event

/-- `poll` reports an error for the conn that is visited next. -/
def visitsError (s : State) : Bool :=
  match s.phase with
  | .polling index => (s.reventsAt index).pollerr
  | _ => false

/-- No call, no event. -/
private theorem eventsOf_nil {s : State} {c : ConnId}
    (h : ∀ p, Obs.queued p ∈ s.trace → p.conn ≠ c) :
    eventsOf s c = [] := by
  unfold eventsOf
  rw [List.map_eq_nil_iff, List.filter_eq_nil_iff]
  intro p hp
  simpa using h p (mem_queuedCalls.mp hp)

/-- The events are read off the trace. -/
private theorem eventsOf_congr {s s' : State} (h : s'.trace = s.trace) (c : ConnId) :
    eventsOf s' c = eventsOf s c := by
  rw [eventsOf, h]
  rfl

/-- One call more for the conn. -/
private theorem eventsOf_queue {s s' : State} {c : ConnId} {event : Event} {data : Option MsgData}
    {toFree : ToFree} {cause : Cause}
    (h : s'.trace = .queued ⟨c, event, data, toFree, cause⟩ :: s.trace) :
    eventsOf s' c = eventsOf s c ++ [event] := by
  simp [eventsOf, h]

/-- A `msg_connection_ready` if the address is new. -/
private theorem eventsOf_seen (s : State) (c : ConnId) :
    eventsOf (s.remoteAddressSeen c).1 c =
      eventsOf s c ++ if s.statusOfConn c = none then [.connectionReady] else [] := by
  unfold remoteAddressSeen
  split
  · rename_i sid hsid
    rw [if_neg (by simp [hsid]), List.append_nil]
  · rename_i hnone
    rw [if_pos hnone]
    exact eventsOf_queue (s := s) (by rfl)

/-- What a completing visit of a waiting conn queues. -/
private theorem events_visit {s s' : State} {c : ConnId} {a : Address} {soError : Option Errno}
    (h : Waits c a s) (hcompletes : completes c s (.visit soError) = true)
    (hstep : step s (.visit soError) = some s') :
    eventsOf s' c =
      if visitsError s = true ∧ (soError = some .connRefused ∨ soError = some .timedOut) then
        [.error]
      else if s.connStatus.lookup a = none then [.connectionReady] else [] := by
  have hnil := eventsOf_nil h.quiet
  obtain ⟨index, c', hphase, hlisted, -, rfl⟩ := State.step_visit hstep
  simp only [completes, hphase, hlisted, Bool.and_eq_true, beq_iff_eq, Option.some.injEq,
    Bool.or_eq_true] at hcompletes
  obtain ⟨rfl, hfound⟩ := hcompletes
  have herror : visitsError s = (s.reventsAt index).pollerr := by
    rw [visitsError, hphase]
  rw [herror]
  by_cases hrefused : (s.reventsAt index).pollerr = true ∧
      (soError = some .connRefused ∨ soError = some .timedOut)
  · rw [if_pos hrefused, visitConn_refused hrefused]
    exact (eventsOf_queue (s := s) (by rfl)).trans (by rw [hnil]; rfl)
  · -- The connect was not refused, so `poll` reports that the conn can be written to.
    have hpollout : (s.reventsAt index).pollout = true := by
      rcases hfound with hout | herr
      · exact hout
      · exact absurd herr hrefused
    have hseen := eventsOf_seen s c'
    rw [hnil, List.nil_append, statusOfConn, h.address] at hseen
    rw [if_neg hrefused, visitConn_other hrefused, if_pos hpollout, ← hseen]
    exact eventsOf_congr rfl c'

/-- What a call of `msg_connect` that is not in progress queues. -/
private theorem events_connect {s : State} {address : CString} {connContext : Ptr} {callback : Nat}
    {o : OpenIn} (hs : Sound s) (hopen : connecting address false o = false) :
    eventsOf (s.openSocket address connContext callback false o) s.nextConn =
      if Input.openFails address false o = true then [.error]
      else if s.connStatus.lookup (parseAddressStr address ⟨0, 0, .other⟩).1 = none
        then [.connectionReady] else [] := by
  have hnil : eventsOf s s.nextConn = [] :=
    eventsOf_nil fun p hp => Nat.ne_of_lt (hs.allocated.queued p hp)
  rcases openSocket_cases s address connContext callback false o with
    ⟨hfails, s₁, k, text, hs₁, heq⟩ | ⟨hopens, sock, contents, heq⟩
  -- The error is the first event of the new conn.
  · have hnil₁ : eventsOf (s₁.allocConn k) s.nextConn = [] := by
      have htrace : (s₁.allocConn k).trace = .opened s₁.nextConn :: s.trace := by
        rcases hs₁ with rfl | ⟨sock, contents, rfl⟩ <;> rfl
      rw [eventsOf, htrace, queuedCalls_cons rfl]
      exact hnil
    rw [if_pos hfails, heq]
    exact (eventsOf_queue (s := s₁.allocConn k) (by rfl)).trans (by rw [hnil₁]; rfl)
  · rw [if_neg (by simp [hopens]), heq, hopen]
    generalize hk : s.openedConn address connContext callback false sock = k
    have hnil₁ : eventsOf (s.enterConn k contents) s.nextConn = [] := by
      have htrace : (s.enterConn k contents).trace = .opened s.nextConn :: s.trace := rfl
      rw [eventsOf, htrace, queuedCalls_cons rfl]
      exact hnil
    have hstatus : (s.enterConn k contents).statusOfConn s.nextConn =
        s.connStatus.lookup (parseAddressStr address ⟨0, 0, .other⟩).1 := by
      have hconn : (s.enterConn k contents).conn s.nextConn = k := by simp [enterConn]
      rw [statusOfConn, hconn, ← hk]
      rfl
    -- The first event is that of `remote_address_seen`, if any.
    have hseen := eventsOf_seen (s.enterConn k contents) s.nextConn
    rw [hnil₁, List.nil_append, hstatus] at hseen
    exact hseen

/-- A connect to a tcp address that is not in progress fails unless it is established. -/
private theorem openFails_iff {address : CString} {o : OpenIn} {a : Address} {sock : Sock}
    (haddress : parseAddressStr address ⟨0, 0, .other⟩ = (a, none)) (htcp : a.protocolType = .tcp)
    (hsock : o.socket = .ok sock) (hopen : connecting address false o = false) :
    Input.openFails address false o = true ↔ ¬ (o.nonBlocking = none ∧ o.opener = none) := by
  have hsetup : Input.setupFails address o.socket = false := by
    simp [Input.setupFails, haddress, hsock]
  rw [Input.openFails, hsetup, Bool.false_or]
  cases hblocking : o.nonBlocking with
  | some e => simp [Input.openLeaks, haddress, hsock, hblocking]
  | none =>
    cases hopener : o.opener with
    | none => simp [Input.openLeaks, haddress, hsock, hblocking, hopener]
    | some e =>
      simp only [connecting, hblocking, hopener, haddress, htcp, Option.isNone_none, Bool.not_false,
        Bool.true_and, decide_true, Bool.or_eq_false_iff, decide_eq_false_iff_not] at hopen
      simp [Input.openLeaks, haddress, hsock, hblocking, hopener, hopen.1, hopen.2]

/-- A connect that is in progress has not failed. -/
theorem not_openFails {address : CString} {o : OpenIn} {a : Address} {sock : Sock}
    (haddress : parseAddressStr address ⟨0, 0, .other⟩ = (a, none)) (hsock : o.socket = .ok sock)
    (hopen : connecting address false o = true) : Input.openFails address false o = false := by
  have hsetup : Input.setupFails address o.socket = false := by
    simp [Input.setupFails, haddress, hsock]
  simp only [connecting, haddress, Bool.not_false, Bool.true_and, Bool.and_eq_true,
    decide_eq_true_eq, Option.isNone_iff_eq_none] at hopen
  obtain ⟨⟨hblocking, htcp⟩, hopener⟩ := hopen
  rw [Input.openFails, hsetup, Bool.false_or]
  cases he : o.opener with
  | none =>
    rw [he] at hopener
    exact Bool.noConfusion hopener
  | some e =>
    rw [he] at hopener
    simp only [Bool.or_eq_true, decide_eq_true_eq] at hopener
    simp [Input.openLeaks, haddress, hblocking, he, htcp]
    tauto

/-- The outcome of a connect to a tcp address, for every way it is completed: at once, or later by
    a visit. The first event says whether the connection was established exactly if it was refused
    or timed out, which `poll` reports as an error, or was established to an address that has no
    status yet; an error that occurs at once is always reported. -/
theorem first_event_iff {s s₁ : State} {address : CString} {callback : Nat} {connContext : Ptr}
    {o : OpenIn} {a : Address} {sock : Sock} (hs : machine.Reach (fun _ _ => True) s)
    (hconnect : step s (.app (.connect address callback connContext o)) = some s₁)
    (haddress : parseAddressStr address ⟨0, 0, .other⟩ = (a, none)) (htcp : a.protocolType = .tcp)
    (hsock : o.socket = .ok sock) :
    (connecting address false o = false →
      (eventsOf s₁ s.nextConn =
          [if o.nonBlocking = none ∧ o.opener = none then .connectionReady else .error] ↔
        (o.nonBlocking = none ∧ o.opener = none → s.connStatus.lookup a = none))) ∧
    (connecting address false o = true → ∀ s₂ s₃ soError,
      machine.Path (leavesAlone s.nextConn) s₁ s₂ →
      completes s.nextConn s₂ (.visit soError) = true →
      step s₂ (.visit soError) = some s₃ →
      eventsOf s₂ s.nextConn = [] ∧
      (eventsOf s₃ s.nextConn = [if soError = none then .connectionReady else .error] ↔
        soError = none ∧ s₂.connStatus.lookup a = none ∨
          visitsError s₂ = true ∧ (soError = some .connRefused ∨ soError = some .timedOut))) := by
  have hcall : (if s.phase = .app ∧ s.admits (.connect address callback connContext o) then
      some (s.appCall (.connect address callback connContext o)) else none) = some s₁ := hconnect
  split at hcall
  · rename_i happ
    obtain rfl : s.openSocket address connContext callback false o = s₁ := Option.some.inj hcall
    constructor
    -- The connect was complete at once, or has failed.
    · intro hopen
      have hfails := openFails_iff haddress htcp hsock hopen
      rw [events_connect (reach_sound hs) hopen, haddress]
      -- `remote_address_seen` is silent where the address has a status already.
      by_cases hestablished : o.nonBlocking = none ∧ o.opener = none
      · rw [if_neg fun hfail => hfails.mp hfail hestablished, if_pos hestablished]
        by_cases hnew : s.connStatus.lookup a = none
        · simp [hnew]
        · simp [hnew, hestablished]
      · rw [if_pos (hfails.mpr hestablished), if_neg hestablished]
        simp [hestablished]
    -- The connect is in progress, and nothing is queued for the conn until it is completed.
    · intro hopen s₂ s₃ soError hpath hcompletes hvisit
      have hstart : Waits s.nextConn a (s.openSocket address connContext callback false o) := by
        rcases openSocket_cases s address connContext callback false o with
          ⟨hfails, -⟩ | ⟨-, sock', contents, heq⟩
        · rw [not_openFails haddress hsock hopen] at hfails
          exact Bool.noConfusion hfails
        · rw [heq, hopen]
          apply waits_start (reach_sound hs) _ happ.1
          show (parseAddressStr address ⟨0, 0, .other⟩).1 = a
          rw [haddress]
      have hreach : machine.Reach (fun _ _ => True)
          (s.openSocket address connContext callback false o) :=
        hs.step trivial (show machine.step s (.app (.connect address callback connContext o)) =
          some _ from hconnect)
      have hwaits := waits_path hreach htcp hstart hpath
      refine ⟨eventsOf_nil hwaits.quiet, ?_⟩
      rw [events_visit hwaits hcompletes hvisit]
      -- The visit refuses the connect, or sees the remote, whatever `SO_ERROR` says else.
      by_cases hrefused : visitsError s₂ = true ∧
          (soError = some .connRefused ∨ soError = some .timedOut)
      · have hsome : soError ≠ none := by
          rcases hrefused.2 with h | h <;> simp [h]
        rw [if_pos hrefused, if_neg hsome]
        exact iff_of_true rfl (.inr hrefused)
      · rw [if_neg hrefused]
        by_cases hnew : s₂.connStatus.lookup a = none
        · by_cases hnone : soError = none
          · simp [hnew, hnone]
          · rw [if_pos hnew, if_neg hnone]
            simp [hnone, hrefused]
        · simp [hnew, hrefused]
  · exact absurd hcall.symm (Option.some_ne_none s₁)

/-- A connect that is established at once, and one that is found completed in the next cycle. -/
theorem first_event_ready :
    (∃ s, machine.Reach (fun _ _ => True) s ∧ eventsOf s 0 = [.connectionReady]) ∧
      ∃ s₂ s₃, machine.Reach (fun _ _ => True) s₂ ∧ step s₂ (.visit none) = some s₃ ∧
        eventsOf s₂ 0 = [] ∧ eventsOf s₃ 0 = [.connectionReady] := by
  let address : CString := "tcp://1.2.3.4:80".toList
  constructor
  · have hrun : (step State.init (.app (.connect address 0 null { socket := .ok 3 }))).isSome =
        true := by decide +kernel
    obtain ⟨s, hconnect⟩ := Option.isSome_iff_exists.mp hrun
    have hfirst := (first_event_iff .init hconnect (a := ⟨67305985, 80, .tcp⟩) (by decide +kernel)
      rfl rfl).1 (by decide +kernel)
    exact ⟨s, .step (i := .app (.connect address 0 null { socket := .ok 3 })) .init trivial
      hconnect, hfirst.mpr fun _ => rfl⟩
  · let poll : Input := .runloop (.ready [{ pollout := true }])
    let o : OpenIn := { socket := .ok 3, opener := some .inProgress }
    have hrun : ((step State.init (.app (.connect address 0 null o))).bind fun s₁ =>
        (step s₁ poll).bind fun s₂ => (step s₂ (.visit none)).map fun _ =>
          (completes 0 s₂ (.visit none), (s₂.connStatus.lookup ⟨67305985, 80, .tcp⟩).isNone)) =
        some (true, true) := by decide +kernel
    obtain ⟨s₁, hconnect, hrun⟩ := Option.bind_eq_some_iff.mp hrun
    obtain ⟨s₂, hpoll, hrun⟩ := Option.bind_eq_some_iff.mp hrun
    obtain ⟨s₃, hvisit, hview⟩ := Option.map_eq_some_iff.mp hrun
    obtain ⟨hcompletes, hnew⟩ := Prod.mk.inj hview
    have hpath : machine.Path (leavesAlone 0) s₁ s₂ :=
      .tail (i := poll) .refl ⟨rfl, fun _ => Input.noConfusion⟩ hpoll
    obtain ⟨hquiet, hfirst⟩ := (first_event_iff .init hconnect (a := ⟨67305985, 80, .tcp⟩)
      (by decide +kernel) rfl rfl).2 (by decide +kernel) s₂ s₃ none hpath hcompletes hvisit
    have hreach₁ : machine.Reach (fun _ _ => True) s₁ :=
      .step (i := .app (.connect address 0 null o)) .init trivial hconnect
    exact ⟨s₂, s₃, hreach₁.step (i := poll) trivial hpoll, hvisit, hquiet,
      hfirst.mpr (.inl ⟨rfl, Option.isNone_iff_eq_none.mp hnew⟩)⟩

/-- The connect of conn 1 goes to a network that cannot be reached, which `poll` reports with an
    error; conn 2 is connected to the address of conn 0. -/
def unreachableRun : List Input :=
  connectRun ++ [
    .app (.connect ['t', 'c', 'p', ':', '/', '/', '5', '.', '6', '.', '7', '.', '8', ':', '8', '0']
    0
      null { socket := .ok 4, opener := some .inProgress }),
    .app (.connect ['t', 'c', 'p', ':', '/', '/', '1', '.', '2', '.', '3', '.', '4', ':', '8', '0']
    0
      null { socket := .ok 5 }),
    .runloop (.ready [{}, { pollout := true, pollerr := true }]), .visit none,
    .visit (some (.other "No route to host"))]

/-- A connect that failed is reported as established, and one that was established is not reported
    at all. -/
theorem first_event_wrong : ∃ s, machine.Reach (fun _ _ => True) s ∧
    eventsOf s 1 = [.connectionReady] ∧ eventsOf s 2 = [] := by
  obtain ⟨s, hreach, hview⟩ := machine.exists_reach_of_run (P := fun _ _ => True)
    (fun _ _ => true) (fun _ _ _ => trivial) unreachableRun
    (fun s => (eventsOf s 1, eventsOf s 2)) ([.connectionReady], []) (by decide +kernel)
  simp only [Prod.mk.injEq] at hview
  exact ⟨s, hreach, hview⟩

end Msgbox
