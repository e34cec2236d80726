import Msgbox.Spec.Tables

/-!
# The callback queue

Calls are queued for conns that the step is about, wait in the order in which they were
queued, and are made one at a time. A conn is freed after a call whose `to_free` it is.

## Key results

- `Input.Concerns`: the conns for which a step may queue calls
- `effect_queueChange`, `final_queueChange`: what one effect does to the queue
- `effect_queued`, `effects_freeing`: only a final effect queues a call that frees a conn
- `reach_sound_invariant`: the invariant rule with all that holds in every reachable state
-/

namespace Msgbox

/-! ## Queued and made calls -/

def Obs.queuedCall : Obs → Option PendingCall
  | .queued p => some p
  | _ => none

def Obs.madeCall : Obs → Option PendingCall
  | .called _ p => some p
  | _ => none

/-- The calls that were queued, in this order. -/
def queuedCalls (t : List Obs) : List PendingCall := (t.filterMap Obs.queuedCall).reverse

/-- The calls that were made, in this order. -/
def calledCalls (t : List Obs) : List PendingCall := (t.filterMap Obs.madeCall).reverse

/-- The newest observation is the last call. -/
@[simp] theorem queuedCalls_queued (p : PendingCall) (t : List Obs) :
    queuedCalls (.queued p :: t) = queuedCalls t ++ [p] := by
  simp [queuedCalls, Obs.queuedCall]

/-- The newest observation is the last call that was made. -/
@[simp] theorem calledCalls_called (k : Conn) (p : PendingCall) (t : List Obs) :
    calledCalls (.called k p :: t) = calledCalls t ++ [p] := by
  simp [calledCalls, Obs.madeCall]

/-- Other observations queue nothing. -/
theorem queuedCalls_cons {o : Obs} (ho : o.queuedCall = none) (t : List Obs) :
    queuedCalls (o :: t) = queuedCalls t := by
  rw [queuedCalls, List.filterMap_cons_none ho]
  rfl

/-- Other observations make no call. -/
theorem calledCalls_cons {o : Obs} (ho : o.madeCall = none) (t : List Obs) :
    calledCalls (o :: t) = calledCalls t := by
  rw [calledCalls, List.filterMap_cons_none ho]
  rfl

/-- The calls that were queued are those that the trace says were queued. -/
theorem mem_queuedCalls {p : PendingCall} {t : List Obs} :
    p ∈ queuedCalls t ↔ Obs.queued p ∈ t := by
  rw [queuedCalls, List.mem_reverse, List.mem_filterMap]
  constructor
  · rintro ⟨o, ho, hp⟩
    cases o with
    | queued q => exact Option.some.inj hp ▸ ho
    | _ => exact absurd hp.symm (Option.some_ne_none p)
  · exact fun hp => ⟨_, hp, rfl⟩

/-- The conn is freed after the call. -/
def PendingCall.frees (p : PendingCall) (c : ConnId) : Bool := p.toFree = .conn c

/-- A call frees the conn that its `to_free` names. -/
theorem PendingCall.frees_iff {p : PendingCall} {c c' : ConnId} (h : p.toFree = .conn c) :
    p.frees c' = true ↔ c' = c := by
  rw [frees, h, decide_eq_true_eq, ToFree.conn.injEq]
  exact eq_comm

/-- A call whose `to_free` is no conn frees none. -/
theorem PendingCall.frees_eq_false {p : PendingCall} (h : ∀ c, p.toFree ≠ .conn c) (c : ConnId) :
    p.frees c = false :=
  decide_eq_false (h c)

/-- The `to_free` of a call is its own conn, if it is a conn. -/
def PendingCall.Own (p : PendingCall) : Prop := ∀ c, p.frees c = true → c = p.conn

namespace State

/-- A call that frees the conn was queued. -/
def freeing (s : State) (c : ConnId) : Bool := (queuedCalls s.trace).any fun p => p.frees c

/-- The calls whose callbacks are running. -/
def running (s : State) : List PendingCall := s.stack.map Frame.call

/-- A conn is to be freed if a call that frees it was queued at any time. -/
theorem freeing_iff {s : State} {c : ConnId} :
    s.freeing c = true ↔ ∃ p, Obs.queued p ∈ s.trace ∧ p.frees c = true := by
  rw [freeing, List.any_eq_true]
  simp only [mem_queuedCalls]

end State

/-- A step is about a conn: it reads or visits it, serves a call by the application for it,
    finds one of its gets overdue, or makes it. -/
inductive Input.Concerns (s : State) (i : Input) (c : ConnId) : Prop
  | reports (h : i.Reports s c)
  | visits {index : Nat} {soError : Option Errno} (h : i.Visits s c index soError)
  | due {now : Nat} {t : Timeout} (hinput : i = .timeouts now)
      (hdue : t ∈ s.timeouts.takeWhile fun t => t.at_ ≤ now) (h : t.conn = c)
  | opened (h : c = s.nextConn)

/-- `remote_address_seen` is called for a conn that the step is about. -/
theorem Input.Sees.concerns {s₀ s : State} {i : Input} {c : ConnId} (h : i.Sees s₀ s c) :
    i.Concerns s₀ c := by
  cases h with
  | visit h => exact .visits h
  | tcp h => exact .reports (.read h)
  | udp h => exact .reports (.read h)
  | opened h => exact .opened h

/-- What an effect does to the calls: nothing, one is queued, the first one is made, or the
    callback that was called last returns. -/
inductive QueueChange (s₀ : State) (i : Input) (s s' : State) : Prop
  | quiet (hqueued : queuedCalls s'.trace = queuedCalls s.trace)
      (hcalled : calledCalls s'.trace = calledCalls s.trace) (hpending : s'.pending = s.pending)
      (hrunning : s'.running = s.running) (hfreed : s'.freed = s.freed)
  | queue {p : PendingCall} (hconcerns : i.Concerns s₀ p.conn) (hown : p.Own)
      (hqueued : queuedCalls s'.trace = queuedCalls s.trace ++ [p])
      (hcalled : calledCalls s'.trace = calledCalls s.trace)
      (hpending : s'.pending = s.pending ++ [p])
      (hrunning : s'.running = s.running) (hfreed : s'.freed = s.freed)
  | call {p : PendingCall} {rest : List PendingCall} {junk : State.Junk}
      (hinput : i = .deliver junk) (hstart : s = s₀) (hphase : s.phase = .delivering (p :: rest))
      (hqueued : queuedCalls s'.trace = queuedCalls s.trace)
      (hcalled : calledCalls s'.trace = calledCalls s.trace ++ [p])
      (hpending : s'.pending =
        s.stack.reverse.flatMap Frame.rest ++ (rest ++ s.immediateCallbacks))
      (hrunning : s'.running = p :: s.running) (hfreed : s'.freed = s.freed)
  | finish {f : Frame} (hqueued : queuedCalls s'.trace = queuedCalls s.trace)
      (hcalled : calledCalls s'.trace = calledCalls s.trace) (hpending : s'.pending = s.pending)
      (hrunning : s.running = f.call :: s'.running) (hfreed : s'.freed = s.freedBy f)

namespace State

variable {s₀ s s' : State} {i : Input}

/-! ## One effect -/

/-- What does not touch the calls is quiet. -/
private theorem queueChange_of_eq (htrace : s'.trace = s.trace) (hpending : s'.pending = s.pending)
    (hrunning : s'.running = s.running) (hfreed : s'.freed = s.freed) :
    QueueChange s₀ i s s' := by
  refine .quiet ?_ ?_ hpending hrunning hfreed
  · rw [htrace]
  · rw [htrace]

/-- An observation that is about no call is quiet. -/
private theorem queueChange_log {o : Obs} (hqueued : o.queuedCall = none)
    (hmade : o.madeCall = none)
    (htrace : s'.trace = o :: s.trace) (hpending : s'.pending = s.pending)
    (hrunning : s'.running = s.running) (hfreed : s'.freed = s.freed) :
    QueueChange s₀ i s s' := by
  refine .quiet ?_ ?_ hpending hrunning hfreed
  · rw [htrace, queuedCalls_cons hqueued]
  · rw [htrace, calledCalls_cons hmade]

/-- `send_callback` appends one call to the queue and to the trace. -/
private theorem queueChange_queue {p : PendingCall} (hconcerns : i.Concerns s₀ p.conn)
    (hown : p.Own) (htrace : s'.trace = .queued p :: s.trace)
    (hcallbacks : s'.immediateCallbacks = s.immediateCallbacks ++ [p])
    (hsaved : s'.phase.saved = s.phase.saved) (hstack : s'.stack = s.stack)
    (hfreed : s'.freed = s.freed) : QueueChange s₀ i s s' := by
  refine .queue hconcerns hown ?_ ?_ ?_ ?_ hfreed
  · rw [htrace, queuedCalls_queued]
  · rw [htrace, calledCalls_cons rfl]
  · rw [pending, pending, hcallbacks, hsaved, hstack, List.append_assoc, List.append_assoc,
      List.append_assoc]
  · rw [running, running, hstack]

/-- A call that frees nothing. -/
private theorem own_nothing {c : ConnId} {event : Event} {data : Option MsgData} {cause : Cause} :
    PendingCall.Own ⟨c, event, data, .nothing, cause⟩ := by
  intro c' h
  simp [PendingCall.frees] at h

/-- A call that frees its own conn. -/
private theorem own_conn {c : ConnId} {event : Event} {data : Option MsgData} {cause : Cause} :
    PendingCall.Own ⟨c, event, data, .conn c, cause⟩ := by
  intro c' h
  simp only [PendingCall.frees, ToFree.conn.injEq, decide_eq_true_eq] at h
  exact h.symm

/-- The call for a closing frees its own conn, or none. -/
theorem own_closingCall (s : State) (c : ConnId) (event : Event) : (s.closingCall c event).Own := by
  intro c' h
  unfold PendingCall.frees closingCall at h
  split at h
  · simp at h
  · simp only [ToFree.conn.injEq, decide_eq_true_eq] at h
    exact h.symm

/-- Notes are about no calls. -/
theorem calls_of_isNote {o : Obs} (h : o.isNote = true) :
    o.queuedCall = none ∧ o.madeCall = none := by
  cases o <;> first | exact ⟨rfl, rfl⟩ | exact Bool.noConfusion h

/-- An early effect queues at most one call, and makes none. -/
private theorem early_queueChange (heffect : Early s₀ i s s') : QueueChange s₀ i s s' := by
  cases heffect with
  | kernel | leak | close | poll => exact queueChange_of_eq rfl rfl rfl rfl
  | note o ho =>
    obtain ⟨hqueued, hmade⟩ := calls_of_isNote ho
    exact queueChange_log hqueued hmade rfl rfl rfl rfl
  | @header c r hd => exact queueChange_log (o := .header c hd) rfl rfl rfl rfl rfl rfl
  | buffer => exact queueChange_of_eq rfl rfl rfl rfl
  | ready _ hsees => exact queueChange_queue hsees.concerns own_nothing rfl rfl rfl rfl rfl
  | error _ herrs =>
    exact queueChange_queue (.reports herrs.reports) own_nothing rfl rfl rfl rfl rfl
  | unflag => exact queueChange_of_eq rfl rfl rfl rfl

/-- What one effect does to the calls. -/
theorem effect_queueChange (heffect : Effect s₀ i s s') : QueueChange s₀ i s s' := by
  cases heffect with
  | early hearly => exact early_queueChange hearly
  | @oneWay c => exact queueChange_log (o := .oneWay c) rfl rfl rfl rfl rfl rfl
  | @datagram c r d =>
    exact queueChange_log (o := .datagram c ⟨d.ip, d.port, .udp⟩ d.bytes) rfl rfl rfl rfl rfl rfl
  | opened => exact queueChange_log (o := .opened s.nextConn) rfl rfl rfl rfl rfl rfl
  | listening hopened => exact queueChange_queue (.opened hopened) own_nothing rfl rfl rfl rfl rfl
  | context => exact queueChange_of_eq rfl rfl rfl rfl
  | address => exact queueChange_of_eq rfl rfl rfl rfl
  | @get c payload context now w sid =>
    exact queueChange_log (o := .got c sid (s.status sid).nextReplyId context true) rfl rfl rfl rfl
      rfl rfl
  | @failedGet c payload context now w sid =>
    exact queueChange_log (o := .got c sid (s.status sid).nextReplyId context false) rfl rfl rfl rfl
      rfl rfl
  | expire hinput hdue =>
    exact queueChange_queue (.due hinput hdue rfl) own_nothing rfl rfl rfl rfl rfl
  | swap _ hphase =>
    -- The queue becomes the saved calls, so the same calls are pending.
    refine queueChange_of_eq rfl ?_ rfl rfl
    simp [pending, Phase.saved, hphase]
  | phase ph hold hnext =>
    refine queueChange_of_eq rfl ?_ rfl rfl
    rw [pending, pending, hold, hnext.saved]
  | removal =>
    obtain ⟨index, heq⟩ := removalPass_eq s
    rw [heq]
    exact queueChange_of_eq rfl rfl rfl rfl
  | @call call rest junk hinput hstart hphase =>
    rw [makeCall_eq]
    -- The first of the saved calls is made, and the others wait on the stack.
    refine .call hinput hstart hphase ?_ ?_ ?_ rfl rfl
    · exact queuedCalls_cons rfl s.trace
    · exact calledCalls_called _ _ _
    · simp [pending, Phase.saved]
  | @finish f stack _ _ hphase hstack =>
    rw [finishCall_eq]
    -- The calls that waited on the stack are the saved ones again.
    refine .finish (f := f) rfl rfl ?_ ?_ rfl
    · simp [pending, Phase.saved, hphase, hstack]
    · rw [running, hstack]
      rfl

/-- The last effect of a step queues one call. -/
theorem final_queueChange (hfinal : Final s₀ i s s') : QueueChange s₀ i s s' := by
  cases hfinal with
  | handled hreads =>
    exact queueChange_queue (.reports (.read hreads)) own_nothing rfl rfl rfl rfl rfl
  | matched hreads =>
    exact queueChange_queue (.reports (.read hreads)) own_nothing rfl rfl rfl rfl rfl
  | unmatched hreads _ _ _ hold hnext =>
    refine queueChange_queue (.reports (.read hreads)) ?_ rfl rfl (hnext.saved.trans hold.symm)
      rfl rfl
    intro c h
    simp [PendingCall.frees] at h
  | @drop c event ph _ hdrops _ hold hnext =>
    exact queueChange_queue (p := s.closingCall c event) (.reports hdrops.reports)
      (own_closingCall s c event) (by simp) (by simp) (hnext.saved.trans hold.symm) (by simp)
        (by simp)
  | refuse msg hvisits hstart =>
    refine queueChange_queue (.visits hvisits) own_conn rfl rfl ?_ rfl rfl
    rw [hstart, hvisits.phase]
    rfl
  | fail k msg _ hconn =>
    refine .queue (p := ⟨s.nextConn, .error, some (msgNewData msg), .conn s.nextConn, .other⟩)
      (.opened hconn) own_conn ?_ ?_ ?_ rfl rfl
    -- Two things are observed, the conn and its error, and only the error is queued.
    · exact (queuedCalls_queued _ _).trans (by rw [allocConn_trace, queuedCalls_cons rfl])
    · exact (calledCalls_cons rfl _).trans (by rw [allocConn_trace, calledCalls_cons rfl])
    · simp [pending]

/-! ## Calls that free a conn -/

/-- Only a queued call changes which conns are to be freed. -/
theorem freeing_eq (htrace : queuedCalls s'.trace = queuedCalls s.trace) (c : ConnId) :
    s'.freeing c = s.freeing c := by
  rw [freeing, htrace]
  rfl

/-- One more call: the conn that it frees is to be freed as well. -/
theorem freeing_queue {p : PendingCall}
    (htrace : queuedCalls s'.trace = queuedCalls s.trace ++ [p]) (c : ConnId) :
    s'.freeing c = (s.freeing c || p.frees c) := by
  rw [freeing, htrace, List.any_append, List.any_cons, List.any_nil, Bool.or_false]
  rfl

/-- A call without a `to_free` leaves the conns that are to be freed as they are. -/
theorem freeing_queue_nothing {c' : ConnId} {event : Event} {data : Option MsgData} {cause : Cause}
    (htrace : s'.trace = .queued ⟨c', event, data, .nothing, cause⟩ :: s.trace) (c : ConnId) :
    s'.freeing c = s.freeing c := by
  have hqueued : queuedCalls s'.trace =
      queuedCalls s.trace ++ [⟨c', event, data, .nothing, cause⟩] := by
    rw [htrace, queuedCalls_queued]
  rw [freeing_queue hqueued]
  simp [PendingCall.frees]

/-- Nothing but the end of a step queues a call that frees something. -/
theorem effect_queued (heffect : Effect s₀ i s s') :
    ∃ ps, queuedCalls s'.trace = queuedCalls s.trace ++ ps ∧ ∀ p ∈ ps, p.toFree = .nothing := by
  -- An effect queues no call, or one that frees nothing.
  have hquiet : ∀ {t : List Obs}, queuedCalls t = queuedCalls s.trace →
      ∃ ps, queuedCalls t = queuedCalls s.trace ++ ps ∧ ∀ p ∈ ps, p.toFree = .nothing :=
    fun h => ⟨[], h.trans (List.append_nil _).symm, fun _ hp => absurd hp List.not_mem_nil⟩
  have hqueue : ∀ {p : PendingCall}, p.toFree = .nothing →
      ∃ ps, queuedCalls (.queued p :: s.trace) = queuedCalls s.trace ++ ps ∧
        ∀ p ∈ ps, p.toFree = .nothing :=
    fun h => ⟨[_], queuedCalls_queued _ _, fun _ hp => List.mem_singleton.mp hp ▸ h⟩
  cases heffect with
  | early hearly =>
    cases hearly with
    | note o ho => exact hquiet (queuedCalls_cons (calls_of_isNote ho).1 _)
    | header => exact hquiet (queuedCalls_cons rfl _)
    | ready | error => exact hqueue rfl
    | _ => exact hquiet rfl
  | oneWay | datagram | opened | get | failedGet => exact hquiet (queuedCalls_cons rfl _)
  | listening | expire => exact hqueue rfl
  | removal =>
    obtain ⟨index, heq⟩ := removalPass_eq s
    rw [heq]
    exact hquiet rfl
  | call =>
    rw [makeCall_eq]
    exact hquiet (queuedCalls_cons rfl _)
  | finish =>
    rw [finishCall_eq]
    exact hquiet rfl
  | _ => exact hquiet rfl

/-- Before the last effect of a step no conn is given up. -/
theorem effect_freeing (heffect : Effect s₀ i s s') (c : ConnId) :
    s'.freeing c = s.freeing c := by
  obtain ⟨ps, htrace, hps⟩ := effect_queued heffect
  have hnone : ps.any (fun p => p.frees c) = false := by
    rw [List.any_eq_false]
    intro p hp
    rw [PendingCall.frees, hps p hp]
    exact Bool.false_ne_true
  rw [freeing, htrace, List.any_append, hnone, Bool.or_false]
  rfl

/-- A chain of effects gives up no conn. -/
theorem effects_freeing (h : Relation.ReflTransGen (Effect s₀ i) s₀ s) (c : ConnId) :
    s.freeing c = s₀.freeing c := by
  induction h with
  | refl => rfl
  | tail _ heffect ih => exact (effect_freeing heffect c).trans ih

end State

/-! ## What holds in every reachable state -/

/-- Pointers are valid, the tables match, a call frees its own conn or none, and what is freed
    or running was queued before. -/
structure Sound (s : State) : Prop where
  allocated : Allocated s
  tabled : Tabled s
  own : ∀ p ∈ queuedCalls s.trace, p.Own
  running : ∀ p ∈ s.running, p ∈ queuedCalls s.trace
  freed : ∀ c, s.freed c = true → s.freeing c = true

namespace State

variable {s₀ s s' : State} {i : Input}

/-- The last three parts. -/
private theorem sound_queueChange (h : Sound s) (ha : Allocated s') (ht : Tabled s')
    (hchange : QueueChange s₀ i s s') : Sound s' := by
  cases hchange with
  | quiet hqueued hcalled hpending hrunning hfreed =>
    refine ⟨ha, ht, ?_, ?_, fun c hc => ?_⟩
    · rw [hqueued]
      exact h.own
    · rw [hqueued, hrunning]
      exact h.running
    · rw [freeing_eq hqueued]
      exact h.freed c (hfreed ▸ hc)
  | @queue p hconcerns hown hqueued hcalled hpending hrunning hfreed =>
    refine ⟨ha, ht, ?_, ?_, fun c hc => ?_⟩
    · intro q hq
      rw [hqueued, List.mem_append, List.mem_singleton] at hq
      rcases hq with hold | rfl
      · exact h.own q hold
      · exact hown
    · intro q hq
      rw [hrunning] at hq
      rw [hqueued]
      exact List.mem_append_left _ (h.running q hq)
    · rw [freeing_queue hqueued, h.freed c (hfreed ▸ hc)]
      rfl
  | @call p rest junk hinput hstart hphase hqueued hcalled hpending hrunning hfreed =>
    -- A call is made only if it was pending, and those are queued.
    have hp : p ∈ queuedCalls s.trace := by
      refine mem_queuedCalls.mpr (h.allocated.pending p ?_)
      simp [pending, Phase.saved, hphase]
    refine ⟨ha, ht, ?_, ?_, fun c hc => ?_⟩
    · rw [hqueued]
      exact h.own
    · intro q hq
      rw [hrunning] at hq
      rw [hqueued]
      rcases List.mem_cons.mp hq with rfl | hold
      · exact hp
      · exact h.running q hold
    · rw [freeing_eq hqueued]
      exact h.freed c (hfreed ▸ hc)
  | @finish f hqueued hcalled hpending hrunning hfreed =>
    refine ⟨ha, ht, ?_, ?_, fun c hc => ?_⟩
    · rw [hqueued]
      exact h.own
    · intro q hq
      rw [hqueued]
      exact h.running q (hrunning ▸ List.mem_cons_of_mem _ hq)
    · rw [freeing_eq hqueued]
      rw [hfreed, freedBy, Bool.or_eq_true] at hc
      rcases hc with hfree | hold
      · -- The callback that returns was running, so its call was queued.
        refine List.any_eq_true.mpr ⟨f.call, h.running f.call ?_, hfree⟩
        rw [hrunning]
        exact List.mem_cons_self
      · exact h.freed c hold

/-- All that holds in every reachable state, after one effect. -/
theorem sound_effect (hs₀ : Sound s₀) (hsteps : Relation.ReflTransGen (Effect s₀ i) s₀ s)
    (h : Sound s) (heffect : Effect s₀ i s s') : Sound s' :=
  sound_queueChange h
    (allocated_effect hs₀.allocated (effects_nextConn_le hsteps) h.allocated heffect)
    (tabled_effect hs₀.tabled hsteps h.tabled h.allocated heffect) (effect_queueChange heffect)

/-- All that holds in every reachable state, after the last effect of a step. -/
theorem sound_final (hs₀ : Sound s₀) (hsteps : Relation.ReflTransGen (Effect s₀ i) s₀ s)
    (h : Sound s) (hfinal : Final s₀ i s s') : Sound s' :=
  sound_queueChange h
    (allocated_final hs₀.allocated (effects_nextConn_le hsteps) h.allocated hfinal)
    (tabled_final hs₀.tabled h.tabled h.allocated hfinal hsteps) (final_queueChange hfinal)

/-- All that holds in every reachable state holds at the start. -/
private theorem sound_init : Sound State.init := by
  have hstart : machine.Reach (fun _ _ => True) machine.init := .init
  exact ⟨reach_allocated hstart, reach_tabled hstart, fun _ hp => absurd hp List.not_mem_nil,
    fun _ hp => absurd hp List.not_mem_nil, fun _ hc => Bool.noConfusion hc⟩

/-- A conn that was not made yet is not about to be freed. -/
theorem freeing_nextConn (h : Sound s) {c : ConnId} (hc : s.nextConn ≤ c) :
    s.freeing c = false := by
  rw [Bool.eq_false_iff]
  intro hfreeing
  obtain ⟨p, hp, hfrees⟩ := freeing_iff.mp hfreeing
  have hlt := h.allocated.queued p hp
  -- The call would be one for this conn, but calls are for conns that were made.
  rw [← h.own p (mem_queuedCalls.mpr hp) c hfrees] at hlt
  exact absurd hc (Nat.not_le.mpr hlt)

end State

/-- The invariant rule for one step, for invariants that are kept in sound states. -/
theorem step_sound_invariant (Inv : State → Prop) {s s' : State} {i : Input} (hs : Sound s)
    (hinv : Inv s)
    (heffect : ∀ {s₁ s₂ : State}, Relation.ReflTransGen (Effect s i) s s₁ → Sound s₁ → Inv s₁ →
      Effect s i s₁ s₂ → Inv s₂)
    (hfinal : ∀ {s₁ s₂ : State}, Relation.ReflTransGen (Effect s i) s s₁ → Sound s₁ → Inv s₁ →
      Final s i s₁ s₂ → Inv s₂)
    (h : step s i = some s') : Sound s' ∧ Inv s' := by
  refine step_invariant (fun s => Sound s ∧ Inv s) ⟨hs, hinv⟩ ?_ ?_ h
  · rintro s₁ s₂ hsteps ⟨hs₁, hinv₁⟩ he
    exact ⟨State.sound_effect hs hsteps hs₁ he, heffect hsteps hs₁ hinv₁ he⟩
  · rintro s₁ s₂ hsteps ⟨hs₁, hinv₁⟩ hf
    exact ⟨State.sound_final hs hsteps hs₁ hf, hfinal hsteps hs₁ hinv₁ hf⟩

/-- The invariant rule, for invariants that are kept in sound states. -/
theorem reach_sound_invariant {ok : State → Input → Prop} (Inv : State → Prop)
    (hinit : Inv State.init)
    (heffect : ∀ {s₀ s s' : State} {i : Input}, ok s₀ i → Sound s₀ → Inv s₀ →
      Relation.ReflTransGen (Effect s₀ i) s₀ s → Sound s → Inv s → Effect s₀ i s s' → Inv s')
    (hfinal : ∀ {s₀ s s' : State} {i : Input}, ok s₀ i → Sound s₀ → Inv s₀ →
      Relation.ReflTransGen (Effect s₀ i) s₀ s → Sound s → Inv s → Final s₀ i s s' → Inv s')
    {s : State} (h : machine.Reach ok s) : Sound s ∧ Inv s := by
  refine @Machine.Reach.invariant _ _ machine ok (fun s => Sound s ∧ Inv s)
    ⟨State.sound_init, hinit⟩ ?_ s h
  rintro s₀ i s' - ⟨hs₀, hinv₀⟩ hok hs
  exact step_sound_invariant Inv hs₀ hinv₀ (heffect hok hs₀ hinv₀) (hfinal hok hs₀ hinv₀) hs

/-- All that holds in every reachable state. -/
theorem reach_sound {ok : State → Input → Prop} {s : State} (h : machine.Reach ok s) : Sound s :=
  (reach_sound_invariant (fun _ => True) trivial (fun _ _ _ _ _ _ _ => trivial)
    (fun _ _ _ _ _ _ _ => trivial) h).1

end Msgbox
