import Mathlib.Logic.Function.Basic
import Msgbox.Lib.Machine

/-!
# Two processes and a link

Two processes that run the same machine, in any interleaving. A link carries what comes out of the
one to the other: in its order, in pieces of any size, and after any time. So what went into a
process by now is a part from the front of what came out of the other by now, and the rest is under
way.

Nothing here depends on a particular machine.

## Key results

- `Exchange`: the runs of the two processes
- `Exchange.each`: what holds of each process, by induction on its steps
- `Exchange.steps`, `Exchange.reach`: each process runs the machine
- `Exchange.carries`: what the link has done at any time
- `Exchange.before`: what had happened in both processes when one of them took a step
-/

namespace Machine

variable {σ ι π : Type}

/-- A link between two processes: what a process has put into it in a given state, and what it has
    taken out, the oldest first. -/
structure Link (σ π : Type) where
  put : Bool → σ → List π
  taken : Bool → σ → List π

/-- Each process has taken out a part from the front of what the other has put in. -/
def Link.Carries (link : Link σ π) (now : Bool → σ) : Prop :=
  ∀ b, link.taken b (now b) <+: link.put (!b) (now !b)

instance [DecidableEq π] (link : Link σ π) (now : Bool → σ) : Decidable (link.Carries now) := by
  unfold Link.Carries
  infer_instance

/-- Two processes: the steps that each has taken, the newest first, and the states they are in. -/
structure Pair (σ ι : Type) where
  past : Bool → List (σ × ι)
  now : Bool → σ

namespace Pair

/-- One of the processes takes a step. -/
def next (w : Pair σ ι) (b : Bool) (i : ι) (s' : σ) : Pair σ ι where
  past := Function.update w.past b ((w.now b, i) :: w.past b)
  now := Function.update w.now b s'

variable {w : Pair σ ι} {b : Bool} {i : ι} {s' : σ}

@[simp] theorem next_past_self : (w.next b i s').past b = (w.now b, i) :: w.past b :=
  Function.update_self b _ _

@[simp] theorem next_now_self : (w.next b i s').now b = s' := Function.update_self b _ _

/-- A step of one side is not in the past of the other. -/
theorem next_past_of_ne {b' : Bool} (h : b' ≠ b) : (w.next b i s').past b' = w.past b' :=
  Function.update_of_ne h _ _

/-- A step of one side leaves the state of the other. -/
theorem next_now_of_ne {b' : Bool} (h : b' ≠ b) : (w.next b i s').now b' = w.now b' :=
  Function.update_of_ne h _ _

/-- Nothing is forgotten. -/
theorem past_suffix_next (w : Pair σ ι) (b b' : Bool) (i : ι) (s' : σ) :
    w.past b' <:+ (w.next b i s').past b' := by
  by_cases h : b' = b
  · subst h
    rw [next_past_self]
    exact List.suffix_cons _ _
  · simp only [next_past_of_ne h, List.suffix_rfl]

end Pair

/-- The runs of two processes from the initial state. Each step is one step of one process, which
    meets `ok`, and leaves the link able to have carried what was taken out of it. -/
inductive Exchange (m : Machine σ ι) (ok : Bool → σ → ι → Prop) (link : Link σ π) :
    Pair σ ι → Prop
  | init : Exchange m ok link ⟨fun _ => [], fun _ => m.init⟩
  | step {w : Pair σ ι} {b : Bool} {i : ι} {s' : σ} :
      Exchange m ok link w → ok b (w.now b) i → m.step (w.now b) i = some s' →
        link.Carries (w.next b i s').now → Exchange m ok link (w.next b i s')

namespace Exchange

variable {m : Machine σ ι} {ok : Bool → σ → ι → Prop} {link : Link σ π} {w : Pair σ ι}

/-- What the steps of a process preserve holds of it at any time, whatever the other one does. -/
theorem each {b : Bool} {P : List (σ × ι) → σ → Prop} (h : Exchange m ok link w)
    (hinit : P [] m.init)
    (hpreserved : ∀ {past s i s'}, P past s → ok b s i → m.step s i = some s' →
      P ((s, i) :: past) s') : P (w.past b) (w.now b) := by
  induction h with
  | init => exact hinit
  | @step w b' i s' _ hok hstep _ ih =>
    by_cases hb : b = b'
    · subst hb
      rw [Pair.next_past_self, Pair.next_now_self]
      exact hpreserved ih hok hstep
    · -- A step of the other process.
      rw [Pair.next_past_of_ne hb, Pair.next_now_of_ne hb]
      exact ih

/-- Each side has taken the steps of its past. -/
theorem steps (h : Exchange m ok link w) (b : Bool) : m.Steps (w.past b) (w.now b) :=
  h.each .init fun hsteps _ hstep => hsteps.step hstep

/-- Each side is in a state that it reaches by itself. -/
theorem reach (h : Exchange m ok link w) (b : Bool) : m.Reach (ok b) (w.now b) :=
  h.each (P := fun _ s => m.Reach (ok b) s) .init fun hreach hok hstep => hreach.step hok hstep

/-- All steps meet the condition. -/
theorem meets (h : Exchange m ok link w) {b : Bool} {x : σ × ι} (hx : x ∈ w.past b) :
    ok b x.1 x.2 := by
  have hall : ∀ x ∈ w.past b, ok b x.1 x.2 := by
    apply h.each (P := fun past _ => ∀ x ∈ past, ok b x.1 x.2)
    · exact fun x hx => absurd hx List.not_mem_nil
    · intro past s i s' hpast hok _ x hx
      rcases List.mem_cons.mp hx with rfl | hx
      · exact hok
      · exact hpast x hx
  exact hall x hx

/-- What the link carries it carries throughout. -/
theorem carries (hinit : link.Carries fun _ => m.init) (h : Exchange m ok link w) :
    link.Carries w.now := by
  cases h with
  | init => exact hinit
  | step _ _ _ hcarries => exact hcarries

/-- When one of the processes took a step, both had taken some of their steps, and all that holds of
    such runs held. -/
theorem before (h : Exchange m ok link w) {b : Bool} {x : σ × ι} (hx : x ∈ w.past b) :
    ∃ w₀, Exchange m ok link w₀ ∧ w₀.now b = x.1 ∧ x :: w₀.past b <:+ w.past b ∧
      ∀ b', w₀.past b' <:+ w.past b' := by
  induction h with
  | init => exact absurd hx List.not_mem_nil
  | @step w b' i s' hw _ _ _ ih =>
    by_cases hlast : b = b' ∧ x = (w.now b', i)
    · -- The last step, so both have now taken what they had taken then.
      obtain ⟨rfl, rfl⟩ := hlast
      refine ⟨w, hw, rfl, ?_, fun b'' => Pair.past_suffix_next w b b'' i s'⟩
      simp only [Pair.next_past_self, List.suffix_rfl]
    · have hold : x ∈ w.past b := by
        by_cases hb : b = b'
        · subst hb
          rw [Pair.next_past_self] at hx
          exact (List.mem_cons.mp hx).resolve_left fun heq => hlast ⟨rfl, heq⟩
        · rw [Pair.next_past_of_ne hb] at hx
          exact hx
      obtain ⟨w₀, hw₀, hnow, hcons, hsuffix⟩ := ih hold
      exact ⟨w₀, hw₀, hnow, hcons.trans (Pair.past_suffix_next w b' b i s'),
        fun b'' => (hsuffix b'').trans (Pair.past_suffix_next w b' b'' i s')⟩

/-- Run a list of inputs, each by one of the processes, with all checks. -/
def runFrom [DecidableEq π] (m : Machine σ ι) (ok : Bool → σ → ι → Bool) (link : Link σ π)
    (w : Pair σ ι) : List (Bool × ι) → Option (Pair σ ι)
  | [] => some w
  | (b, i) :: is =>
    if ok b (w.now b) i then
      match m.step (w.now b) i with
      | some s' =>
        if link.Carries (w.next b i s').now then runFrom m ok link (w.next b i s') is else none
      | none => none
    else none

/-- A run of both sides goes on as an exchange. -/
theorem of_runFrom [DecidableEq π] {ok : Bool → σ → ι → Bool} {is : List (Bool × ι)}
    {w' : Pair σ ι} (h : Exchange m (fun b s i => ok b s i = true) link w)
    (hrun : runFrom m ok link w is = some w') :
    Exchange m (fun b s i => ok b s i = true) link w' := by
  induction is generalizing w with
  | nil => exact Option.some.inj hrun ▸ h
  | cons x is ih =>
    obtain ⟨b, i⟩ := x
    simp only [runFrom] at hrun
    split at hrun
    · rename_i hok
      split at hrun
      · rename_i s' hstep
        split at hrun
        · rename_i hcarries
          exact ih (h.step hok hstep hcarries) hrun
        · exact absurd hrun.symm (Option.some_ne_none w')
      · exact absurd hrun.symm (Option.some_ne_none w')
    · exact absurd hrun.symm (Option.some_ne_none w')

/-- A concrete run shows that there is one with a given view. -/
theorem exists_of_run [DecidableEq π] (m : Machine σ ι) {α : Type} (ok : Bool → σ → ι → Bool)
    (link : Link σ π) (is : List (Bool × ι)) (view : Pair σ ι → α) (a : α)
    (hrun : (runFrom m ok link ⟨fun _ => [], fun _ => m.init⟩ is).map view = some a) :
    ∃ w, Exchange m (fun b s i => ok b s i = true) link w ∧ view w = a := by
  obtain ⟨w, hw, hview⟩ := Option.map_eq_some_iff.mp hrun
  exact ⟨w, of_runFrom .init hw, hview⟩

end Exchange

end Machine
