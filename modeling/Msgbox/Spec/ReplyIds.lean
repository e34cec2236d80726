import Msgbox.Spec.Resolution

/-!
# The ids and entries of gets

`msg_get` takes its id from a 16-bit counter of the status and enters the reply context before it
sends the frame. The counter comes back to 0 after 65535 gets, and the entry of a get that could
not be sent stays.

## Key results

- `Issued`: the counter and the entries of each status, by the number of its gets
- `steps_issued`: this holds in every run
- `ids_fresh_iff`: all gets of a run have fresh ids exactly if no status has more than 65535
- `failed_get_iff`: a failed get leaves nothing behind exactly if it entered nothing new
-/

namespace Msgbox

/-! ## Gets of a run -/

/-- The status that a step calls `msg_get` on. -/
def getsOn (s : State) : Input → Option StatusId
  | .app (.get c _ _ _ _) => s.statusOfConn c
  | _ => none

/-- The number of gets on a status in a run. -/
def gets (run : List (State × Input)) (sid : StatusId) : Nat :=
  run.countP fun x => getsOn x.1 x.2 == some sid

/-- If the step is a get, its id is not 0 and is no key of the status's `reply_contexts`. -/
def freshGet (s : State) (i : Input) : Prop :=
  ∀ sid, getsOn s i = some sid →
    (s.status sid).nextReplyId ≠ 0 ∧ s.entry sid (s.status sid).nextReplyId = none

/-- The counters have counted the gets, and the entries have ids that were handed out. -/
structure Issued (n : StatusId → Nat) (s : State) : Prop where
  unused : ∀ sid, s.nextStatus ≤ sid → n sid = 0
  next : ∀ sid, (s.status sid).nextReplyId = UInt16.ofNat (1 + n sid)
  entries : ∀ sid id, (s.entry sid id).isSome = true →
    ∃ k, 1 ≤ k ∧ k ≤ n sid ∧ id = UInt16.ofNat k

/-- One more step makes at most one more get on a status. -/
theorem gets_cons (run : List (State × Input)) (s : State) (i : Input) (sid : StatusId) :
    gets ((s, i) :: run) sid =
      if getsOn s i = some sid then gets run sid + 1 else gets run sid := by
  by_cases h : getsOn s i = some sid
  · rw [if_pos h, gets, List.countP_cons_of_pos (by simp [h])]
    rfl
  · rw [if_neg h, gets, List.countP_cons_of_neg (by simpa using h)]
    rfl

namespace State

variable {s₀ s s' : State} {i : Input} {n : StatusId → Nat} {c : ConnId} {sid : StatusId}

/-! ## Steps that are no gets -/

/-- The counters stay, and no entry is added. -/
private theorem issued_keeps (h : Issued n s) (hle : s.nextStatus ≤ s'.nextStatus)
    (hnext : ∀ sid, (s'.status sid).nextReplyId = (s.status sid).nextReplyId)
    (hentries : ∀ sid id, (s'.entry sid id).isSome = true → (s.entry sid id).isSome = true) :
    Issued n s' where
  unused sid hsid := h.unused sid (hle.trans hsid)
  next sid := by rw [hnext, h.next]
  entries sid id hsome := h.entries sid id (hentries sid id hsome)

/-- The same statuses agree with the same counts. -/
private theorem issued_of_eq (h : Issued n s) (hnext : s'.nextStatus = s.nextStatus)
    (hstatus : s'.status = s.status) : Issued n s' := by
  apply issued_keeps h hnext.ge
  · intro sid
    rw [hstatus]
  · intro sid id
    rw [entry, entry, hstatus]
    exact fun hsome => hsome

/-- One status is written, its counter not, and it gets no new entry. -/
private theorem issued_update (h : Issued n s) (hnext : s'.nextStatus = s.nextStatus)
    {status : ConnStatus} (hstatus : s'.status = Function.update s.status sid status)
    (hcounter : status.nextReplyId = (s.status sid).nextReplyId)
    (hentries : ∀ id, (status.replyContexts.lookup id).isSome = true →
      (s.entry sid id).isSome = true) : Issued n s' := by
  apply issued_keeps h hnext.ge
  · intro sid'
    rw [hstatus]
    by_cases hsid : sid' = sid
    · rw [hsid, Function.update_self, hcounter]
    · rw [Function.update_of_ne hsid]
  · intro sid' id
    rw [entry, hstatus]
    by_cases hsid : sid' = sid
    · rw [hsid, Function.update_self]
      exact hentries id
    · rw [Function.update_of_ne hsid]
      exact fun hsome => hsome

/-- Early effects issue no ids. -/
private theorem issued_early (h : Issued n s) (hearly : Early s₀ i s s') : Issued n s' := by
  cases hearly with
  | buffer => exact issued_update h rfl rfl rfl fun _ hsome => hsome
  | ready =>
    -- The new status has the counter and the entries of one that was not used.
    have hzero := h.unused s.nextStatus (Nat.le_refl _)
    apply issued_keeps h (Nat.le_succ _)
    · intro sid
      by_cases hsid : sid = s.nextStatus
      · subst hsid
        rw [h.next, hzero]
        simp
      · simp [Function.update_of_ne hsid]
    · intro sid id hsome
      by_cases hsid : sid = s.nextStatus
      · subst hsid
        simp [entry] at hsome
      · simpa [entry, Function.update_of_ne hsid] using hsome
  | _ => exact issued_of_eq h rfl rfl

/-- Taking an id out of the entries makes no other one appear. -/
private theorem issued_erase {id : UInt16} {id' : UInt16}
    (hsome : (((s.status sid).replyContexts.erase id).lookup id').isSome = true) :
    (s.entry sid id').isSome = true := by
  rw [AList.lookup_erase_eq_ite] at hsome
  split at hsome
  · exact Bool.noConfusion hsome
  · exact hsome

/-- An effect of a step that is no get issues no ids. -/
private theorem issued_effect (hget : getsOn s₀ i = none) (h : Issued n s)
    (heffect : Effect s₀ i s s') :
    Issued n s' := by
  cases heffect with
  | early hearly => exact issued_early h hearly
  -- The input makes no get on the status.
  | get hcalls _ hstart hsid | failedGet hcalls _ hstart hsid =>
    rw [hcalls.input, getsOn] at hget
    rw [hstart] at hsid
    exact absurd (hget.symm.trans hsid) (Option.some_ne_none _).symm
  | expire => exact issued_update h rfl rfl rfl fun _ => issued_erase
  | removal =>
    obtain ⟨index, heq⟩ := removalPass_eq s
    rw [heq]
    exact issued_of_eq h rfl rfl
  | call =>
    rw [makeCall_eq]
    exact issued_of_eq h rfl rfl
  | @finish f stack =>
    rw [finishCall_eq]
    refine issued_keeps h ?_ ?_ ?_
    · exact Nat.le_refl s.nextStatus
    · intro sid
      obtain ⟨connContext, heq⟩ := saveContext_status s f sid
      show ((s.saveContext f).status sid).nextReplyId = _
      rw [heq]
    · intro sid id hsome
      obtain ⟨connContext, heq⟩ := saveContext_status s f sid
      have hentry : (((s.saveContext f).status sid).replyContexts.lookup id).isSome = true := hsome
      rw [heq] at hentry
      exact hentry
  | _ => exact issued_of_eq h rfl rfl

/-- Neither does the last effect of a step. -/
private theorem issued_final (h : Issued n s) (hfinal : Final s₀ i s s') : Issued n s' := by
  cases hfinal with
  | matched => exact issued_update h rfl rfl rfl fun _ => issued_erase
  | drop =>
    apply issued_keeps h (by simp)
    · intro sid
      simp only [localDisconnect_status, unsetStatus_status_apply]
      split <;> rfl
    · intro sid id
      simp only [entry, localDisconnect_status, unsetStatus_status_apply]
      split <;> exact fun hsome => hsome
  | _ => exact issued_of_eq h rfl rfl

/-- A step that is no get issues no ids. -/
private theorem issued_other (hget : getsOn s i = none) (h : Issued n s)
    (hstep : step s i = some s') :
    Issued n s' := by
  obtain ⟨s₁, heffects, hlast⟩ := step_effects hstep
  have hmid : Issued n s₁ := by
    clear hlast
    induction heffects with
    | refl => exact h
    | tail _ heffect ih => exact issued_effect hget ih heffect
  rcases hlast with rfl | hfinal
  · exact hmid
  · exact issued_final hmid hfinal

/-! ## Gets -/

/-- Whether a get fails does not depend on what was entered for it. -/
theorem getFails_eq (payload : List UInt8) (context : Ptr) (w : SendIn)
    (hsid : s.statusOfConn c = some sid) :
    s.getFails c payload w = ((s.enterGet sid context).sendData c
      (setHeader .request (s.status sid).nextReplyId payload.length ++ payload) w).2.isSome := by
  have hsame : ((s.enterGet sid context).sendData c
      (setHeader .request (s.status sid).nextReplyId payload.length ++ payload) w).2 =
        (s.sendData c (setHeader .request (s.status sid).nextReplyId payload.length ++
          payload) w).2 :=
    sendData_congr (by rfl) (by rfl) _ w
  rw [getFails, hsid, hsame]
  rfl

/-- A failed get on a conn with a status: the id is used and the context entered, and an error is
    queued. -/
private theorem msgGet_failed {payload : List UInt8} (context : Ptr) (now : Nat) {w : SendIn}
    (hsid : s.statusOfConn c = some sid) (hfails : s.getFails c payload w = true) :
    ∃ trace text, s.msgGet c payload context now w =
      { s.enterGet sid context with
        trace := trace
        immediateCallbacks := s.immediateCallbacks ++
          [⟨c, .error, some (msgNewData text), .nothing, .other⟩] } := by
  have hsent := sendData_fst (s.enterGet sid context) c
    (setHeader .request (s.status sid).nextReplyId payload.length ++ payload) w
  rw [getFails_eq payload context w hsid] at hfails
  unfold msgGet
  rw [hsid]
  dsimp only
  split
  · rename_i s₁ name e heq
    have heq' : (s.enterGet sid context).sendData c
        (setHeader .request (s.status sid).nextReplyId payload.length ++ payload) w =
          (s₁, some (name, e)) := heq
    rw [heq'] at hsent
    obtain rfl : s₁ = _ := hsent
    exact ⟨_, _, rfl⟩
  · rename_i s₁ heq
    have heq' : (s.enterGet sid context).sendData c
        (setHeader .request (s.status sid).nextReplyId payload.length ++ payload) w =
          (s₁, none) := heq
    rw [heq'] at hfails
    exact Bool.noConfusion hfails

/-- A get that is sent: the id is used, the context entered, and a timeout added. -/
private theorem msgGet_sent {payload : List UInt8} (context : Ptr) (now : Nat) {w : SendIn}
    (hsid : s.statusOfConn c = some sid) (hfails : s.getFails c payload w = false) :
    ∃ trace, s.msgGet c payload context now w =
      { s.enterGet sid context with
        trace := trace
        timeouts := s.timeouts ++ [⟨now + udpTimeout, c, sid, (s.status sid).nextReplyId⟩] } := by
  have hsent := sendData_fst (s.enterGet sid context) c
    (setHeader .request (s.status sid).nextReplyId payload.length ++ payload) w
  rw [getFails_eq payload context w hsid] at hfails
  unfold msgGet
  rw [hsid]
  dsimp only
  split
  · rename_i s₁ name e heq
    have heq' : (s.enterGet sid context).sendData c
        (setHeader .request (s.status sid).nextReplyId payload.length ++ payload) w =
          (s₁, some (name, e)) := heq
    rw [heq'] at hfails
    exact Bool.noConfusion hfails
  · rename_i s₁ heq
    have heq' : (s.enterGet sid context).sendData c
        (setHeader .request (s.status sid).nextReplyId payload.length ++ payload) w =
          (s₁, none) := heq
    rw [heq'] at hsent
    obtain rfl : s₁ = _ := hsent
    exact ⟨_, rfl⟩

/-- Sent or not, a get on a conn with a status is entered, and other fields than the timeouts, the
    queue and the history stay. -/
private theorem msgGet_enters (s : State) (payload : List UInt8) (context : Ptr) (now : Nat)
    (w : SendIn) (hsid : s.statusOfConn c = some sid) :
    ∃ timeouts immediateCallbacks trace, s.msgGet c payload context now w =
      { s.enterGet sid context with
        timeouts := timeouts
        immediateCallbacks := immediateCallbacks
        trace := trace } := by
  cases hfails : s.getFails c payload w with
  | true =>
    obtain ⟨trace, text, heq⟩ := msgGet_failed context now hsid hfails
    exact ⟨_, _, _, heq⟩
  | false =>
    obtain ⟨trace, heq⟩ := msgGet_sent context now hsid hfails
    exact ⟨_, _, _, heq⟩

/-- A get moves the counter of its status, and enters an id that the counter gave. -/
private theorem issued_get (hlt : sid < s.nextStatus) {context : Ptr} (h : Issued n s)
    (hstatus : s'.status = (s.enterGet sid context).status) (hnext : s'.nextStatus = s.nextStatus) :
    Issued (fun sid' => if sid' = sid then n sid' + 1 else n sid') s' := by
  constructor
  · intro sid' hle
    rw [hnext] at hle
    have hne : sid' ≠ sid := Nat.ne_of_gt (Nat.lt_of_lt_of_le hlt hle)
    rw [if_neg hne, h.unused sid' hle]
  · intro sid'
    rw [hstatus, enterGet_status]
    by_cases hsid : sid' = sid
    · subst hsid
      rw [Function.update_self, if_pos rfl, h.next, ← Nat.add_assoc, UInt16.ofNat_add _ 1]
      rfl
    · rw [Function.update_of_ne hsid, if_neg hsid, h.next]
  · intro sid' id hsome
    rw [entry_enterGet s sid context sid' id hstatus] at hsome
    split at hsome
    · rename_i hnew
      obtain ⟨rfl, rfl⟩ := hnew
      rw [if_pos rfl, h.next]
      exact ⟨1 + n sid', by omega, by omega, rfl⟩
    · obtain ⟨k, hpos, hle, hid⟩ := h.entries sid' id hsome
      refine ⟨k, hpos, ?_, hid⟩
      split <;> omega

end State

open State

/-! ## Runs -/

/-- In the beginning nothing is counted. -/
private theorem issued_init : Issued (fun _ => 0) State.init where
  unused _ _ := rfl
  next _ := rfl
  entries _ _ hsome := Bool.noConfusion hsome

/-- The counters and the entries agree with the gets of a run. -/
theorem steps_issued {run : List (State × Input)} {s : State} (h : machine.Steps run s) :
    Issued (gets run) s := by
  induction h with
  | init => exact issued_init
  | @step run s s' i hrun hstep ih =>
    cases hget : getsOn s i with
    | none =>
      have hsame : gets ((s, i) :: run) = gets run := by
        funext sid
        rw [gets_cons, if_neg (by simp [hget])]
      rw [hsame]
      exact issued_other hget ih hstep
    | some sid =>
      have hgets : gets ((s, i) :: run) =
          fun sid' => if sid' = sid then gets run sid' + 1 else gets run sid' := by
        funext sid'
        rw [gets_cons, hget]
        simp [eq_comm]
      rw [hgets]
      -- Only a call of `msg_get` on a conn with a status is counted.
      unfold getsOn at hget
      split at hget
      · rename_i c payload context now w
        have hlt := ((reach_allocated hrun.reach).status _ sid hget).1
        obtain ⟨timeouts, immediateCallbacks, trace, heq⟩ :=
          msgGet_enters s payload context now w hget
        have hstep' : (if s.phase = .app ∧ s.admits (.get c payload context now w) then
            some (s.appCall (.get c payload context now w)) else none) = some s' := hstep
        split at hstep'
        · obtain rfl : s.msgGet c payload context now w = s' := Option.some.inj hstep'
          rw [heq]
          exact issued_get hlt ih rfl rfl
        · exact absurd hstep'.symm (Option.some_ne_none _)
      · exact absurd hget.symm (Option.some_ne_none _)

/-- The id of the next get on a status is fresh if it is one of the first 65535. -/
private theorem fresh_of_few {n : StatusId → Nat} {s : State} (h : Issued n s) {sid : StatusId}
    (hfew : n sid < 65535) :
    (s.status sid).nextReplyId ≠ 0 ∧ s.entry sid (s.status sid).nextReplyId = none := by
  have hid : (UInt16.ofNat (1 + n sid)).toNat = 1 + n sid := UInt16.toNat_ofNat_of_lt' (by
    show 1 + n sid < 65536
    omega)
  rw [h.next]
  constructor
  · intro hzero
    rw [hzero] at hid
    have : (0 : UInt16).toNat = 0 := rfl
    omega
  · rw [← Option.not_isSome_iff_eq_none]
    intro hsome
    obtain ⟨k, hpos, hle, heq⟩ := h.entries sid _ hsome
    have hk : (UInt16.ofNat k).toNat = k := UInt16.toNat_ofNat_of_lt' (by
      show k < 65536
      omega)
    rw [heq, hk] at hid
    omega

/-- The 65536th get on a status is given the id 0. -/
private theorem zero_of_many {n : StatusId → Nat} {s : State} (h : Issued n s) {sid : StatusId}
    (hmany : n sid = 65535) : (s.status sid).nextReplyId = 0 := by
  rw [h.next, hmany]
  rfl

/-- Where every get had a fresh id, there were at most 65535 of them for each status. -/
private theorem few_of_fresh {run : List (State × Input)} {s : State} (h : machine.Steps run s)
    (hfresh : ∀ x ∈ run, freshGet x.1 x.2) (sid : StatusId) : gets run sid ≤ 65535 := by
  induction h with
  | init => exact Nat.zero_le _
  | @step run s s' i hrun hstep ih =>
    have hbefore := ih fun x hx => hfresh x (List.mem_cons_of_mem _ hx)
    rw [gets_cons]
    split
    · rename_i hget
      -- The counter has not come back to 0.
      have hne : gets run sid ≠ 65535 := fun hmany =>
        (hfresh (s, i) List.mem_cons_self sid hget).1 (zero_of_many (steps_issued hrun) hmany)
      omega
    · exact hbefore

/-- In every run the gets have fresh ids exactly if no status has more than 65535 of them. -/
theorem ids_fresh_iff {run : List (State × Input)} {s : State} (h : machine.Steps run s) :
    (∀ x ∈ run, freshGet x.1 x.2) ↔ ∀ sid, gets run sid ≤ 65535 := by
  constructor
  · exact few_of_fresh h
  · intro hfew
    induction h with
    | init => exact fun x hx => absurd hx List.not_mem_nil
    | @step run s s' i hrun hstep ih =>
      have hbefore : ∀ sid, gets run sid ≤ gets ((s, i) :: run) sid := by
        intro sid
        rw [gets_cons]
        split <;> omega
      intro x hx
      rcases List.mem_cons.mp hx with rfl | hold
      · intro sid hget
        have hlast := hfew sid
        rw [gets_cons, if_pos hget] at hlast
        exact fresh_of_few (steps_issued hrun) (by omega)
      · exact ih (fun sid => (hbefore sid).trans (hfew sid)) x hold

/-- A run with any number of gets on one conn. -/
private theorem run_of_gets (k : Nat) : ∃ run s, machine.Steps run s ∧
    (∀ sid, gets run sid = if sid = 0 then k else 0) ∧ s.phase = .app ∧ s.isLive 0 = true ∧
      s.statusOfConn 0 = some 0 := by
  induction k with
  | zero =>
    -- The conn is connected without a get.
    obtain ⟨run, s, hsteps, hview⟩ := machine.exists_steps_of_run connectRun
      (fun x => (x.2.phase, x.2.isLive 0, x.2.statusOfConn 0,
        x.1.all fun y => (getsOn y.1 y.2).isNone))
      (.app, true, some 0, true) (by decide +kernel)
    simp only [Prod.mk.injEq] at hview
    obtain ⟨hphase, hlive, hsid, hgets⟩ := hview
    refine ⟨run, s, hsteps, ?_, hphase, hlive, hsid⟩
    intro sid
    have hnone : ∀ x ∈ run, getsOn x.1 x.2 = none := fun x hx =>
      Option.isNone_iff_eq_none.mp (List.all_eq_true.mp hgets x hx)
    rw [gets, List.countP_eq_zero.mpr fun x hx => by simp [hnone x hx]]
    split <;> rfl
  | succ k ih =>
    obtain ⟨run, s, hsteps, hgets, hphase, hlive, hsid⟩ := ih
    obtain ⟨timeouts, immediateCallbacks, trace, heq⟩ := msgGet_enters s [] 0 0 {} hsid
    have hstep : machine.step s (.app (.get 0 [] 0 0 {})) = some (s.msgGet 0 [] 0 0 {}) := by
      show (if s.phase = .app ∧ s.isLive 0 = true then some (s.msgGet 0 [] 0 0 {}) else none) = _
      rw [if_pos ⟨hphase, hlive⟩]
    refine ⟨_, _, hsteps.step hstep, ?_, ?_, ?_, ?_⟩
    · intro sid
      have hget : getsOn s (.app (.get 0 [] 0 0 {})) = some 0 := hsid
      rw [gets_cons, hget, hgets]
      by_cases hzero : sid = 0
      · simp [hzero]
      · simp [hzero, Ne.symm hzero]
    · rw [heq]
      exact hphase
    · rw [heq]
      exact hlive
    · rw [heq]
      exact hsid

/-- Three gets on one conn. -/
theorem ids_fresh_gets : ∃ run s, machine.Steps run s ∧ gets run 0 = 3 ∧
    ∀ x ∈ run, freshGet x.1 x.2 := by
  obtain ⟨run, s, hsteps, hgets, -⟩ := run_of_gets 3
  refine ⟨run, s, hsteps, hgets 0, (ids_fresh_iff hsteps).mpr fun sid => ?_⟩
  rw [hgets]
  split <;> omega

/-- The 65536th get on a conn is given the id 0. -/
theorem ids_not_fresh : ∃ run s s' c payload context now w,
    machine.Steps ((s, .app (.get c payload context now w)) :: run) s' ∧
      s.statusOfConn c = some 0 ∧ (s.status 0).nextReplyId = 0 ∧
      ¬ freshGet s (.app (.get c payload context now w)) := by
  obtain ⟨run, s, hsteps, hgets, hphase, hlive, hsid⟩ := run_of_gets 65535
  have hzero := zero_of_many (steps_issued hsteps) (hgets 0)
  have hstep : machine.step s (.app (.get 0 [] 0 0 {})) = some (s.msgGet 0 [] 0 0 {}) := by
    show (if s.phase = .app ∧ s.isLive 0 = true then some (s.msgGet 0 [] 0 0 {}) else none) = _
    rw [if_pos ⟨hphase, hlive⟩]
  exact ⟨run, s, _, 0, [], 0, 0, {}, hsteps.step hstep, hsid, hzero, fun hfresh =>
    (hfresh 0 hsid).1 hzero⟩

/-! ## Gets that fail -/

/-- A failed get leaves nothing behind exactly if the conn has no status, or if the same context was
    entered with the same id already. It queues one error for the conn. -/
theorem failed_get_iff (s : State) (c : ConnId) (payload : List UInt8) (context : Ptr) (now : Nat)
    (w : SendIn) (hfails : s.getFails c payload w = true) :
    ((∀ sid id, (s.msgGet c payload context now w).entry sid id = s.entry sid id) ∧
      (s.msgGet c payload context now w).timeouts = s.timeouts ∧
      ∃ data cause, (s.msgGet c payload context now w).immediateCallbacks =
        s.immediateCallbacks ++ [⟨c, .error, some data, .nothing, cause⟩]) ↔
    ∀ sid, s.statusOfConn c = some sid →
      s.entry sid (s.status sid).nextReplyId = some context := by
  cases hsid : s.statusOfConn c with
  -- Without a status the get fails before it enters anything.
  | none =>
    have heq : s.msgGet c payload context now w = s.sendCallbackError c (snprintf 1024
        ("No known connection with " ++ String.ofList (addressAsStr (s.conn c).remoteAddress)))
        .nothing .other := by
      unfold msgGet
      rw [hsid]
    rw [heq]
    exact iff_of_true ⟨fun _ _ => rfl, rfl, _, _, rfl⟩ fun _ h => absurd h.symm
      (Option.some_ne_none _)
  | some sid =>
    obtain ⟨trace, text, heq⟩ := msgGet_failed context now hsid hfails
    -- The entry made before the send stays when the send fails.
    have hentry : ∀ sid' id, (s.msgGet c payload context now w).entry sid' id =
        if sid' = sid ∧ id = (s.status sid).nextReplyId then some context else s.entry sid' id :=
      fun sid' id => entry_enterGet s sid context sid' id (by rw [heq])
    constructor
    · rintro ⟨hsame, -⟩ sid' hsid'
      obtain rfl := Option.some.inj hsid'
      rw [← hsame, hentry, if_pos ⟨rfl, rfl⟩]
    · intro hthere
      refine ⟨fun sid' id => ?_, by rw [heq]; rfl, by rw [heq]; exact ⟨_, _, rfl⟩⟩
      rw [hentry]
      split
      · rename_i hnew
        obtain ⟨rfl, rfl⟩ := hnew
        exact (hthere sid' rfl).symm
      · rfl

/-- A get on a conn whose connect is in progress, while a get on another conn is pending. -/
theorem failed_get_unknown : ∃ s, machine.Reach (fun _ _ => True) s ∧ s.conns = [0, 1] ∧
    s.entry 0 1 = some 7 ∧ s.timeouts.length = 1 ∧
      (∀ sid id, (s.msgGet 1 [65] 9 0 {}).entry sid id = s.entry sid id) ∧
      (s.msgGet 1 [65] 9 0 {}).timeouts = s.timeouts := by
  obtain ⟨s, hreach, hview⟩ := machine.exists_reach_of_run (P := fun _ _ => True)
    (fun _ _ => true) (fun _ _ _ => trivial)
    (connectRun ++ [.app (.get 0 [65] 7 0 {}), .app (.connect "tcp://1.2.3.5:80".toList 0 null
      { socket := .ok 4, opener := some .inProgress })])
    (fun s => (s.conns, s.entry 0 1, s.timeouts.length, s.statusOfConn 1, s.getFails 1 [65] {}))
    ([0, 1], some 7, 1, none, true) (by decide +kernel)
  simp only [Prod.mk.injEq] at hview
  obtain ⟨hconns, hentry, htimeouts, hunknown, hfails⟩ := hview
  have hclean := (failed_get_iff s 1 [65] 9 0 {} hfails).mpr fun sid hsid =>
    absurd (hunknown.symm.trans hsid) (Option.some_ne_none sid).symm
  exact ⟨s, hreach, hconns, hentry, htimeouts, hclean.1, hclean.2.1⟩

/-- The connection fails while a get is sent. Its entry stays, and a reply frame that was already on
    its way is matched with it. -/
theorem failed_get_pending : (∃ s, machine.Reach (fun _ _ => True) s ∧ s.isLive 0 = true ∧
      s.getFails 0 [65] { schedule := [.fail .connReset] } = true ∧ s.entry 0 1 = none ∧
      (s.msgGet 0 [65] 7 0 { schedule := [.fail .connReset] }).entry 0 1 = some 7) ∧
    ∃ s, machine.Reach (fun _ _ => True) s ∧ .got 0 0 1 7 false ∈ s.trace ∧
      s.immediateCallbacks.map PendingCall.event = [.error, .reply] ∧
        (s.conn 0).replyContext = 7 := by
  constructor
  · obtain ⟨s, hreach, hview⟩ := machine.exists_reach_of_run (P := fun _ _ => True)
      (fun _ _ => true) (fun _ _ _ => trivial) connectRun
      (fun s => (s.isLive 0, s.getFails 0 [65] { schedule := [.fail .connReset] }, s.entry 0 1,
        (s.msgGet 0 [65] 7 0 { schedule := [.fail .connReset] }).entry 0 1))
      (true, true, none, some 7) (by decide +kernel)
    simp only [Prod.mk.injEq] at hview
    exact ⟨s, hreach, hview⟩
  · obtain ⟨s, hreach, hview⟩ := machine.exists_reach_of_run (P := fun _ _ => True)
      (fun _ _ => true) (fun _ _ _ => trivial)
      (connectRun ++ [.app (.get 0 [65] 7 0 { schedule := [.fail .connReset] }),
        .env (.arrive 3 (setHeader .reply 1 1 ++ [66])), .runloop (.ready [{ pollin := true }]),
        .visit none, .read { peek := .upTo 8, body := .upTo 1 }])
      (fun s => (decide (.got 0 0 1 7 false ∈ s.trace), s.immediateCallbacks.map PendingCall.event,
        (s.conn 0).replyContext)) (true, [.error, .reply], 7) (by decide +kernel)
    simp only [Prod.mk.injEq, decide_eq_true_eq] at hview
    exact ⟨s, hreach, hview⟩

end Msgbox
