import Msgbox.Spec.Queue

/-!
# Every queued call is made once, in order, and not in the pass that queued it

The queue is swapped before a delivery pass, so the pass makes the calls that were queued
before it, and what its callbacks queue waits for the next pass.

## Key results

- `plain`: the callbacks do not call `msg_runloop`
- `InOrder`: the calls that were queued are those that were made, followed by those that wait
- `path_stuck`: where the next call is for a conn that was freed, no further call is made
- `delivered_in_order`: the order of all calls, when the next one is made, and what one
  delivery pass makes
- `delivered_not_all`: a call that is queued and never made
-/

namespace Msgbox

/-- `msg_runloop` is not called by a callback. -/
def plain (s : State) : Input → Bool
  | .runloop _ => s.stack.isEmpty
  | _ => true

/-- The calls are made in the order in which they were queued, and one callback runs at a
    time, only while the application is in control. -/
structure InOrder (s : State) : Prop where
  order : queuedCalls s.trace = calledCalls s.trace ++ s.pending
  depth : s.stack.length ≤ 1
  alone : s.phase ≠ .app → s.stack = []

/-- No callback runs while the next call is about to be made. -/
theorem InOrder.idle {s : State} (h : InOrder s) {calls : List PendingCall}
    (hphase : s.phase = .delivering calls) : s.stack = [] := by
  apply h.alone
  rw [hphase]
  exact Phase.noConfusion

namespace State

variable {s₀ s s' : State} {i : Input}

/-! ## The stack -/

/-- Only the two halves of `make_call` change the stack. -/
theorem effects_stack (h : Relation.ReflTransGen (Effect s₀ i) s₀ s)
    (hdeliver : ∀ junk, i ≠ .deliver junk) (hret : i ≠ .ret) : s.stack = s₀.stack := by
  induction h with
  | refl => rfl
  | @tail s₁ s₂ _ heffect ih =>
    rw [← ih]
    cases heffect with
    | early hearly => cases hearly <;> rfl
    | removal =>
      obtain ⟨index, heq⟩ := removalPass_eq s₁
      rw [heq]
    | call hinput => exact absurd hinput (hdeliver _)
    | finish hinput => exact absurd hinput hret
    | _ => rfl

/-- Where `msg_runloop` moves on, no callback is running. -/
private theorem stack_advances (hok : plain s₀ i = true) (h₀ : InOrder s₀)
    (hsteps : Relation.ReflTransGen (Effect s₀ i) s₀ s) {ph : Phase} (hnext : i.Advances s₀ ph)
    (hph : ph ≠ .app) : s.stack = [] := by
  -- Only `deliver` and `ret` change the stack of callbacks.
  have hkeep : (∀ junk, i ≠ .deliver junk) → i ≠ .ret → s₀.phase ≠ .app → s.stack = [] := by
    intro hdeliver hret hphase
    rw [effects_stack hsteps hdeliver hret]
    exact h₀.alone hphase
  have hrunloop : ∀ p, i = .runloop p → s.stack = [] := by
    rintro p rfl
    rw [effects_stack hsteps (fun _ h => Input.noConfusion h) (fun h => Input.noConfusion h)]
    exact List.isEmpty_iff.mp hok
  have hvisit : ∀ {index c soError}, i.Visits s₀ c index soError → s.stack = [] := by
    intro index c soError hvisits
    apply hkeep
    · intro junk h
      exact Input.noConfusion (hvisits.input.symm.trans h)
    · intro h
      exact Input.noConfusion (hvisits.input.symm.trans h)
    · rw [hvisits.phase]
      exact Phase.noConfusion
  cases hnext with
  | idle hinput hphase =>
    rcases hinput with rfl | ⟨p, hinput⟩
    · exact hkeep (fun _ h => Input.noConfusion h) (fun h => Input.noConfusion h) (hphase rfl)
    · exact hrunloop p hinput
  | poll hinput => exact hrunloop _ hinput
  | read hvisits => exact hvisit hvisits
  | skip hvisits => exact hvisit hvisits
  | next hinput hphase =>
    subst hinput
    apply hkeep (fun _ h => Input.noConfusion h) (fun h => Input.noConfusion h)
    rw [hphase]
    exact Phase.noConfusion
  | back => exact absurd rfl hph
  | done => exact absurd rfl hph

/-! ## One effect -/

/-- What is queued is what was called and what is pending, in this order, whatever a step adds
    to it. -/
private theorem order_queueChange (h : InOrder s) (hchange : QueueChange s₀ i s s') :
    queuedCalls s'.trace = calledCalls s'.trace ++ s'.pending := by
  cases hchange with
  | quiet hqueued hcalled hpending =>
    rw [hqueued, hcalled, hpending]
    exact h.order
  | queue _ _ hqueued hcalled hpending =>
    rw [hqueued, hcalled, hpending, h.order, List.append_assoc]
  | call _ _ hphase hqueued hcalled hpending =>
    -- No callback is running, so the call that is made is the first one that waits.
    have hstack := h.idle hphase
    rw [hqueued, hcalled, hpending, h.order, pending, hphase, hstack]
    simp [Phase.saved]
  | finish hqueued hcalled hpending =>
    rw [hqueued, hcalled, hpending]
    exact h.order

/-- The order stays where the stack does. -/
private theorem inOrder_same (h : InOrder s) (hchange : QueueChange s₀ i s s')
    (hstack : s'.stack = s.stack) (hphase : s'.phase ≠ .app → s'.stack = []) : InOrder s' :=
  ⟨order_queueChange h hchange, hstack ▸ h.depth, hphase⟩

/-- Every effect keeps the order. -/
private theorem inOrder_effect (hok : plain s₀ i = true) (h₀ : InOrder s₀)
    (hsteps : Relation.ReflTransGen (Effect s₀ i) s₀ s) (h : InOrder s)
    (heffect : Effect s₀ i s s') : InOrder s' := by
  have hchange := effect_queueChange heffect
  cases heffect with
  | early hearly => cases hearly <;> exact inOrder_same h hchange rfl h.alone
  | swap _ hphase =>
    apply inOrder_same h hchange rfl
    intro _
    apply h.alone
    rw [hphase]
    exact Phase.noConfusion
  | phase ph _ hnext =>
    exact inOrder_same h hchange rfl (stack_advances hok h₀ hsteps hnext)
  | removal =>
    obtain ⟨index, heq⟩ := removalPass_eq s
    rw [heq] at hchange ⊢
    exact inOrder_same h hchange rfl h.alone
  | call _ _ hphase =>
    have hstack := h.idle hphase
    rw [makeCall_eq] at hchange ⊢
    refine ⟨order_queueChange h hchange, ?_, fun happ => absurd rfl happ⟩
    simp [hstack]
  | @finish f stack _ _ _ hstack =>
    -- One callback at most is running, so none is left.
    have hrest : stack = [] := by
      have hdepth := h.depth
      rw [hstack, List.length_cons] at hdepth
      exact List.length_eq_zero_iff.mp (by omega)
    rw [finishCall_eq] at hchange ⊢
    exact ⟨order_queueChange h hchange, by simp [hrest], fun _ => hrest⟩
  | _ => exact inOrder_same h hchange rfl h.alone

/-- So does the last effect of a step. -/
private theorem inOrder_final (hok : plain s₀ i = true) (h₀ : InOrder s₀)
    (hsteps : Relation.ReflTransGen (Effect s₀ i) s₀ s) (h : InOrder s)
    (hfinal : Final s₀ i s s') : InOrder s' := by
  have hchange := final_queueChange hfinal
  cases hfinal with
  | unmatched _ _ _ _ _ hnext =>
    exact inOrder_same h hchange rfl (stack_advances hok h₀ hsteps hnext)
  | @drop c event ph _ _ _ _ hnext =>
    apply inOrder_same h hchange
    · simp
    · intro hph
      simpa using stack_advances hok h₀ hsteps hnext hph
  | refuse msg hvisits =>
    have hstack := stack_advances hok h₀ hsteps (.skip hvisits) Phase.noConfusion
    exact inOrder_same h hchange rfl (fun _ => hstack)
  | handled | matched | fail => exact inOrder_same h hchange rfl h.alone

/-! ## Within a pass -/

/-- A change that queues nothing leaves the calls for the end of the cycle. -/
private theorem immediate_quiet (hqueued : queuedCalls s'.trace = queuedCalls s.trace)
    (hsame : s'.immediateCallbacks = s.immediateCallbacks) :
    ∃ new, queuedCalls s'.trace = queuedCalls s.trace ++ new ∧
      s'.immediateCallbacks = s.immediateCallbacks ++ new :=
  ⟨[], by rw [hqueued, List.append_nil], by rw [hsame, List.append_nil]⟩

/-- Between two swaps of the queue, what is queued goes to its end and waits there. -/
private theorem effect_immediate (heffect : Effect s₀ i s s') (hinput : ∀ now, i ≠ .timeouts now) :
    ∃ new, queuedCalls s'.trace = queuedCalls s.trace ++ new ∧
      s'.immediateCallbacks = s.immediateCallbacks ++ new := by
  cases heffect with
  | early hearly =>
    cases hearly with
    | note o ho => exact immediate_quiet (queuedCalls_cons (calls_of_isNote ho).1 _) rfl
    | header => exact immediate_quiet (queuedCalls_cons rfl _) rfl
    | ready => exact ⟨_, queuedCalls_queued _ _, rfl⟩
    | error => exact ⟨_, queuedCalls_queued _ _, rfl⟩
    | _ => exact immediate_quiet rfl rfl
  | oneWay | datagram | opened | get | failedGet =>
    exact immediate_quiet (queuedCalls_cons rfl _) rfl
  | listening => exact ⟨_, queuedCalls_queued _ _, rfl⟩
  | expire hexpire => exact absurd hexpire (hinput _)
  | swap hswap => exact absurd hswap (hinput _)
  | removal =>
    obtain ⟨index, heq⟩ := removalPass_eq s
    rw [heq]
    exact immediate_quiet rfl rfl
  | call =>
    rw [makeCall_eq]
    exact immediate_quiet (queuedCalls_cons rfl _) rfl
  | finish =>
    rw [finishCall_eq]
    exact immediate_quiet rfl rfl
  | _ => exact immediate_quiet rfl rfl

/-- The last effect of a step adds what it queues to the calls for the end of the cycle. -/
private theorem final_immediate (hfinal : Final s₀ i s s') :
    ∃ new, queuedCalls s'.trace = queuedCalls s.trace ++ new ∧
      s'.immediateCallbacks = s.immediateCallbacks ++ new := by
  cases hfinal with
  | @drop c event =>
    refine ⟨[s.closingCall c event], ?_, by simp⟩
    show queuedCalls (s.localDisconnect c event).trace = _
    rw [localDisconnect_trace, queuedCalls_queued]
  | fail k msg =>
    refine ⟨_, (queuedCalls_queued _ _).trans ?_, rfl⟩
    rw [allocConn_trace, queuedCalls_cons rfl]
  | handled | matched | unmatched | refuse => exact ⟨_, queuedCalls_queued _ _, rfl⟩

/-- So does every step but the pass over the timeouts. -/
theorem step_immediate (h : step s i = some s') (hinput : ∀ now, i ≠ .timeouts now) :
    ∃ new, queuedCalls s'.trace = queuedCalls s.trace ++ new ∧
      s'.immediateCallbacks = s.immediateCallbacks ++ new := by
  obtain ⟨s₁, heffects, hlast⟩ := step_effects h
  have htrans : ∀ {s₂ s₃ : State}, (∃ new, queuedCalls s₂.trace = queuedCalls s.trace ++ new ∧
      s₂.immediateCallbacks = s.immediateCallbacks ++ new) →
      (∃ new, queuedCalls s₃.trace = queuedCalls s₂.trace ++ new ∧
        s₃.immediateCallbacks = s₂.immediateCallbacks ++ new) →
      ∃ new, queuedCalls s₃.trace = queuedCalls s.trace ++ new ∧
        s₃.immediateCallbacks = s.immediateCallbacks ++ new := by
    rintro s₂ s₃ ⟨new₁, hqueued₁, hwait₁⟩ ⟨new₂, hqueued₂, hwait₂⟩
    refine ⟨new₁ ++ new₂, ?_, ?_⟩
    · rw [hqueued₂, hqueued₁, List.append_assoc]
    · rw [hwait₂, hwait₁, List.append_assoc]
  have hsteps : ∃ new, queuedCalls s₁.trace = queuedCalls s.trace ++ new ∧
      s₁.immediateCallbacks = s.immediateCallbacks ++ new := by
    clear hlast
    induction heffects with
    | refl => exact ⟨[], (List.append_nil _).symm, (List.append_nil _).symm⟩
    | tail _ heffect ih => exact htrans ih (effect_immediate heffect hinput)
  rcases hlast with rfl | hfinal
  · exact hsteps
  · exact htrans hsteps (final_immediate hfinal)

/-- A pass begins with an empty queue. -/
private theorem timeoutPass_immediate {now : Nat} (h : step s (.timeouts now) = some s') :
    s'.immediateCallbacks = [] := by
  obtain ⟨s₁, -, rfl⟩ := Option.map_eq_some_iff.mp (step_timeouts h).2
  rfl

/-! ## Calls that are made -/

/-- A call is made only by `msg_runloop`, where it is the next one. -/
theorem step_called (h : step s i = some s') :
    calledCalls s'.trace = calledCalls s.trace ∨
      ∃ p rest junk, i = .deliver junk ∧ s.phase = .delivering (p :: rest) ∧
        calledCalls s'.trace = calledCalls s.trace ++ [p] := by
  by_cases hdeliver : ∃ junk, i = .deliver junk
  · obtain ⟨junk, rfl⟩ := hdeliver
    rcases step_deliver h with ⟨-, rfl⟩ | ⟨p, rest, hphase, -, rfl⟩
    · exact .inl rfl
    · refine .inr ⟨p, rest, junk, rfl, hphase, ?_⟩
      rw [makeCall_eq]
      exact calledCalls_called _ _ _
  · -- The effects of the other steps make no call.
    have hquiet : ∀ {s₁ s₂ : State}, QueueChange s i s₁ s₂ →
        calledCalls s₂.trace = calledCalls s₁.trace := by
      intro s₁ s₂ hchange
      cases hchange with
      | call hinput => exact absurd ⟨_, hinput⟩ hdeliver
      | quiet _ hcalled => exact hcalled
      | queue _ _ _ hcalled => exact hcalled
      | finish _ hcalled => exact hcalled
    obtain ⟨s₁, heffects, hlast⟩ := step_effects h
    have hsteps : calledCalls s₁.trace = calledCalls s.trace := by
      clear hlast
      induction heffects with
      | refl => rfl
      | tail _ heffect ih => exact (hquiet (effect_queueChange heffect)).trans ih
    refine .inl ?_
    rcases hlast with rfl | hfinal
    · exact hsteps
    · exact (hquiet (final_queueChange hfinal)).trans hsteps

/-- The next call can be made exactly if its conn was not freed. -/
private theorem deliver_called_iff {p : PendingCall} {rest : List PendingCall}
    (hphase : s.phase = .delivering (p :: rest)) (junk : Junk) :
    (∃ s', step s (.deliver junk) = some s' ∧
      calledCalls s'.trace = calledCalls s.trace ++ [p]) ↔ s.freed p.conn = false := by
  constructor
  · rintro ⟨s', h, -⟩
    rcases step_deliver h with ⟨hnil, -⟩ | ⟨p', rest', hphase', hlive, -⟩
    · exact absurd (Phase.delivering.inj (hphase.symm.trans hnil)) (List.cons_ne_nil p rest)
    · obtain ⟨rfl, -⟩ := List.cons.inj (Phase.delivering.inj (hphase.symm.trans hphase'))
      exact hlive
  · intro hlive
    refine ⟨s.makeCall p rest junk, ?_, ?_⟩
    · simp [step, hphase, hlive]
    · rw [makeCall_eq]
      exact calledCalls_called _ _ _

/-- Where the next call is for a conn that was freed, only the network goes on. -/
theorem step_stuck {p : PendingCall} {rest : List PendingCall}
    (hphase : s.phase = .delivering (p :: rest)) (hfreed : s.freed p.conn = true)
    (h : step s i = some s') :
    s'.phase = s.phase ∧ s'.freed = s.freed ∧ calledCalls s'.trace = calledCalls s.trace := by
  cases i with
  | env e =>
    obtain ⟨sock, k, k', -, rfl⟩ := environment_eq (show s.environment e = some s' from h)
    exact ⟨rfl, rfl, rfl⟩
  | deliver junk =>
    rcases step_deliver h with ⟨hnil, -⟩ | ⟨p', rest', hphase', hlive, -⟩
    · exact absurd (Phase.delivering.inj (hphase.symm.trans hnil)) (List.cons_ne_nil p rest)
    · obtain ⟨rfl, -⟩ := List.cons.inj (Phase.delivering.inj (hphase.symm.trans hphase'))
      exact absurd (hfreed.symm.trans hlive) Bool.noConfusion
  | app => exact Phase.noConfusion (hphase.symm.trans (step_app h).1)
  | runloop => exact Phase.noConfusion (hphase.symm.trans (step_runloop h).1)
  | visit =>
    obtain ⟨_, _, hphase', -⟩ := step_visit h
    exact Phase.noConfusion (hphase.symm.trans hphase')
  | read =>
    obtain ⟨_, _, hphase', -⟩ := step_read h
    exact Phase.noConfusion (hphase.symm.trans hphase')
  | endPoll =>
    obtain ⟨_, hphase', -⟩ := step_endPoll h
    exact Phase.noConfusion (hphase.symm.trans hphase')
  | timeouts => exact Phase.noConfusion (hphase.symm.trans (step_timeouts h).1)
  | ret =>
    obtain ⟨_, _, hphase', -⟩ := step_ret h
    exact Phase.noConfusion (hphase.symm.trans hphase')

/-- No call is made any more once the next one is for a conn that was freed. -/
theorem path_stuck {ok : State → Input → Prop} {p : PendingCall} {rest : List PendingCall}
    (hphase : s.phase = .delivering (p :: rest)) (hfreed : s.freed p.conn = true)
    (hpath : machine.Path ok s s') :
    s'.phase = s.phase ∧ s'.freed = s.freed ∧ calledCalls s'.trace = calledCalls s.trace := by
  induction hpath with
  | refl => exact ⟨rfl, rfl, rfl⟩
  | @tail s₁ s₂ _ _ _ hstep ih =>
    obtain ⟨hphase₁, hfreed₁, hcalled₁⟩ := ih
    obtain ⟨hphase₂, hfreed₂, hcalled₂⟩ :=
      step_stuck (hphase₁.trans hphase) (by rw [hfreed₁]; exact hfreed) hstep
    exact ⟨hphase₂.trans hphase₁, hfreed₂.trans hfreed₁, hcalled₂.trans hcalled₁⟩

end State

/-- In every plain run calls are made in the order in which they were queued. -/
theorem reach_inOrder {s : State} (h : machine.Reach (fun s i => plain s i = true) s) :
    InOrder s := by
  apply reach_invariant InOrder _ _ _ h
  · exact ⟨rfl, Nat.zero_le 1, fun happ => absurd rfl happ⟩
  · intro s₀ s s' i hok h₀ hsteps hinv heffect
    exact State.inOrder_effect hok h₀ hsteps hinv heffect
  · intro s₀ s s' i hok h₀ hsteps hinv hfinal
    exact State.inOrder_final hok h₀ hsteps hinv hfinal

/-- In every run whose callbacks do not call `msg_runloop`: the calls that were queued are
    those that were made, in this order, and then those that wait. A call is made only by
    `msg_runloop`. A delivery pass makes its next call exactly if the conn of the call was not
    freed, and otherwise neither this call nor any other is ever made. From the swap of the
    queue to the next one it makes no call that was queued after its begin, and when it is over
    it has made all that were queued before. -/
theorem delivered_in_order {s : State} (h : machine.Reach (fun s i => plain s i = true) s) :
    queuedCalls s.trace = calledCalls s.trace ++ s.pending ∧
    (∀ i s', step s i = some s' → calledCalls s'.trace = calledCalls s.trace ∨
      ∃ p rest junk, i = .deliver junk ∧ s.phase = .delivering (p :: rest) ∧
        calledCalls s'.trace = calledCalls s.trace ++ [p]) ∧
    (∀ p rest, s.phase = .delivering (p :: rest) →
      (∀ junk, (∃ s', step s (.deliver junk) = some s' ∧
        calledCalls s'.trace = calledCalls s.trace ++ [p]) ↔ s.freed p.conn = false) ∧
      (s.freed p.conn = true → ∀ s', machine.Path (fun _ _ => True) s s' →
        s'.phase = s.phase ∧ calledCalls s'.trace = calledCalls s.trace)) ∧
    ∀ now s₁ s₂, step s (.timeouts now) = some s₁ →
      machine.Path (fun s i => plain s i = true ∧ ∀ now, i ≠ .timeouts now) s₁ s₂ →
        ∃ left new, queuedCalls s₁.trace = calledCalls s₂.trace ++ left ∧
          queuedCalls s₂.trace = queuedCalls s₁.trace ++ new ∧ s₂.immediateCallbacks = new ∧
            (s₂.phase = .app → s₂.stack = [] → left = []) := by
  refine ⟨(reach_inOrder h).order, fun i s' hs => State.step_called hs,
    fun p rest hphase => ⟨State.deliver_called_iff hphase, fun hfreed s' hpath => ?_⟩, ?_⟩
  · obtain ⟨hsame, -, hcalled⟩ := State.path_stuck hphase hfreed hpath
    exact ⟨hsame, hcalled⟩
  intro now s₁ s₂ hstart hpath
  have hreach : machine.Reach (fun s i => plain s i = true) s₁ :=
    h.step (i := .timeouts now) rfl hstart
  have hempty := State.timeoutPass_immediate hstart
  have hnew : ∃ new, queuedCalls s₂.trace = queuedCalls s₁.trace ++ new ∧
      s₂.immediateCallbacks = new := by
    refine hpath.keeps (fun _ _ hok => hok.1) (fun s₂ => ∃ new, queuedCalls s₂.trace =
      queuedCalls s₁.trace ++ new ∧ s₂.immediateCallbacks = new) hreach ?_ ?_
    · exact ⟨[], (List.append_nil _).symm, hempty⟩
    · rintro s₃ i s₄ - ⟨new, hqueued, hwait⟩ hok hs
      obtain ⟨more, hmore, hwait'⟩ := State.step_immediate hs hok.2
      exact ⟨new ++ more, by rw [hmore, hqueued, List.append_assoc], by rw [hwait', hwait]⟩
  obtain ⟨new, hqueued, hwait⟩ := hnew
  -- What was queued during the pass is the end of what waits, so the rest was queued before.
  have horder := (reach_inOrder (hpath.reach (fun _ _ hok => hok.1) hreach)).order
  refine ⟨s₂.stack.reverse.flatMap Frame.rest ++ s₂.phase.saved, new, ?_, hqueued, hwait, ?_⟩
  · rw [hqueued, State.pending, hwait, ← List.append_assoc] at horder
    exact List.append_cancel_right horder
  · intro hphase hstack
    rw [hphase, hstack]
    rfl

/-- After `msg_connect` one call waits, and the pass of the next cycle makes it. -/
theorem delivered_in_order_ready :
    ∃ s, machine.Reach (fun s i => plain s i = true) s ∧ s.phase = .timing ∧
      s.pending.length = 1 ∧ queuedCalls s.trace = calledCalls s.trace ++ s.pending := by
  obtain ⟨s, hreach, hview⟩ := machine.exists_reach_of_run plain (fun _ _ h => h)
    (connectRun.take 2) (fun s => (s.phase, s.pending.length)) (.timing, 1) (by decide +kernel)
  rw [Prod.mk.injEq] at hview
  exact ⟨s, hreach, hview.1, hview.2, (delivered_in_order hreach).1⟩

/-- Two connections. On the first a message and then the end of the stream are read in one
    cycle, and the callback for the message closes the conn. -/
def closedTwice : List Input :=
  connectRun ++
    [.app (.connect ['t', 'c', 'p', ':', '/', '/', '1', '.', '2', '.', '3', '.', '4', ':', '8', '1']
        0 null { socket := .ok 4 }),
      .env (.arrive 3 (setHeader .oneWay 0 1 ++ [65])), .env (.hangUp 3),
      .runloop (.ready [{ pollin := true }]), .visit none,
      .read { peek := .upTo 8, body := .upTo 1 }, .read { peek := .upTo 8 }, .visit none,
      .endPoll, .timeouts 0, .deliver {}, .ret, .deliver {}, .app (.disconnect 0 {}), .ret,
      .deliver {}, .ret, .deliver {}, .runloop .nothing, .timeouts 0]

/-- The delivery pass has come to a call that was queued, was not made and is for a conn that
    was freed. -/
def State.comesToFreed (s : State) : Bool :=
  match s.phase with
  | .delivering (p :: _) =>
    s.freed p.conn && decide (p ∈ queuedCalls s.trace) && !decide (p ∈ calledCalls s.trace)
  | _ => false

/-- A conn that is freed twice leaves a call that was queued and is never made. -/
theorem delivered_not_all :
    ∃ s p, machine.Reach (fun s i => plain s i = true) s ∧ p ∈ queuedCalls s.trace ∧
      ∀ s', machine.Path (fun _ _ => True) s s' → p ∉ calledCalls s'.trace := by
  obtain ⟨s, hreach, hview⟩ := machine.exists_reach_of_run plain (fun _ _ h => h)
    closedTwice State.comesToFreed true (by decide +kernel)
  rw [State.comesToFreed] at hview
  split at hview
  · rename_i p rest hphase
    simp only [Bool.and_eq_true, Bool.not_eq_true', decide_eq_true_eq, decide_eq_false_iff_not]
      at hview
    obtain ⟨⟨hfreed, hqueued⟩, hnot⟩ := hview
    refine ⟨s, p, hreach, hqueued, fun s' hpath => ?_⟩
    obtain ⟨-, -, hcalled⟩ := State.path_stuck hphase hfreed hpath
    rw [hcalled]
    exact hnot
  · exact nomatch hview

end Msgbox
