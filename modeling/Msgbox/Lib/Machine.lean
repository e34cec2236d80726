/-!
# Machines driven by inputs

A machine has an initial state and a partial step function: `step s i = none` means that
the machine has no next state on the input `i`. `Reach ok` collects the states of the
runs all of whose steps meet a condition `ok` on the state before the step and the input.

Nothing here depends on a particular machine.

## Key results

- `Reach.invariant`: what holds at the start and is kept by every step holds in every
  reachable state
- `Reach.mono`: a weaker condition reaches at least as much
- `Path.keeps`: what holds at a state and is kept by every step holds along every path from it
- `Steps`: the runs with all their steps
- `clocked`, `Reach.clocked_invariant`: runs whose steps read a clock that never goes back
- `noting`, `Path.noting_keeps`: runs with a note of what their steps did
- `reach_of_run`: a concrete run whose steps all pass a check reaches its last state
- `exists_steps_of_run`: a concrete run shows that there is one with a given view
-/

/-- A machine with states `σ` that is driven by inputs `ι`. -/
structure Machine (σ ι : Type) where
  init : σ
  step : σ → ι → Option σ

namespace Machine

variable {σ ι : Type} (m : Machine σ ι)

/-- The states of the runs in which every step meets `ok`. -/
inductive Reach (ok : σ → ι → Prop) : σ → Prop
  | init : Reach ok m.init
  | step {s s' : σ} {i : ι} :
      Reach ok s → ok s i → m.step s i = some s' → Reach ok s'

variable {m}

/-- The invariant rule: an assertion that holds initially and is preserved by every
    permitted step holds in every reachable state. -/
theorem Reach.invariant {ok : σ → ι → Prop} {Inv : σ → Prop} (hinit : Inv m.init)
    (hstep : ∀ s i s', m.Reach ok s → Inv s → ok s i → m.step s i = some s' → Inv s')
    {s : σ} (h : m.Reach ok s) : Inv s := by
  induction h with
  | init => exact hinit
  | step hr hok hs ih => exact hstep _ _ _ hr ih hok hs

/-- Runs that meet a condition meet every weaker one. -/
theorem Reach.mono {ok ok' : σ → ι → Prop} (hle : ∀ s i, ok s i → ok' s i)
    {s : σ} (h : m.Reach ok s) : m.Reach ok' s := by
  induction h with
  | init => exact .init
  | step _ hok hs ih => exact ih.step (hle _ _ hok) hs

variable (m) in
/-- The runs, given as their steps, the newest first, each with the state before it and its
    input. -/
inductive Steps : List (σ × ι) → σ → Prop
  | init : Steps [] m.init
  | step {run : List (σ × ι)} {s s' : σ} {i : ι} :
      Steps run s → m.step s i = some s' → Steps ((s, i) :: run) s'

theorem Steps.reach {run : List (σ × ι)} {s : σ} (h : m.Steps run s) :
    m.Reach (fun _ _ => True) s := by
  induction h with
  | init => exact .init
  | step _ hs ih => exact ih.step trivial hs

variable (m) in
/-- The states that are reached from `s` by steps that meet `ok`. -/
inductive Path (ok : σ → ι → Prop) (s : σ) : σ → Prop
  | refl : Path ok s s
  | tail {s₁ s₂ : σ} {i : ι} :
      Path ok s s₁ → ok s₁ i → m.step s₁ i = some s₂ → Path ok s s₂

/-- A path from a reachable state leads to reachable states. -/
theorem Path.reach {P Q : σ → ι → Prop} (hle : ∀ s i, Q s i → P s i) {s s' : σ}
    (h : m.Path Q s s') (hs : m.Reach P s) : m.Reach P s' := by
  induction h with
  | refl => exact hs
  | tail _ hok hstep ih => exact ih.step (hle _ _ hok) hstep

/-- Paths that meet a condition meet every weaker one. -/
theorem Path.mono {P Q : σ → ι → Prop} (hle : ∀ s i, Q s i → P s i) {s s' : σ}
    (h : m.Path Q s s') : m.Path P s s' := by
  induction h with
  | refl => exact .refl
  | tail _ hok hstep ih => exact ih.tail (hle _ _ hok) hstep

/-- The invariant rule for paths from a reachable state. -/
theorem Path.keeps {P Q : σ → ι → Prop} (hle : ∀ s i, Q s i → P s i) {s s' : σ}
    (h : m.Path Q s s') (Inv : σ → Prop) (hs : m.Reach P s) (hstart : Inv s)
    (hstep : ∀ s₁ i s₂, m.Reach P s₁ → Inv s₁ → Q s₁ i → m.step s₁ i = some s₂ → Inv s₂) :
    Inv s' := by
  induction h with
  | refl => exact hstart
  | tail hpath hok hs' ih => exact hstep _ _ _ (hpath.reach hle hs) ih hok hs'

/-! ## Clocks -/

variable (m) in
/-- The machine together with the last value that its steps read from a clock; no step reads
    an earlier value. -/
def clocked (reads : σ → ι → Option Nat) : Machine (σ × Nat) ι where
  init := (m.init, 0)
  step s i :=
    match reads s.1 i with
    | none => (m.step s.1 i).map fun s' => (s', s.2)
    | some now => if s.2 ≤ now then (m.step s.1 i).map fun s' => (s', now) else none

/-- The invariant rule for runs with a clock: the clock may be taken to have its new value
    when the step begins. -/
theorem Reach.clocked_invariant {reads : σ → ι → Option Nat} (Inv : Nat → σ → Prop)
    (hinit : Inv 0 m.init) (hmono : ∀ {n n' : Nat} {s : σ}, n ≤ n' → Inv n s → Inv n' s)
    (hstep : ∀ n s i s', Inv n s → (∀ now, reads s i = some now → now = n) →
      m.step s i = some s' → Inv n s')
    {ok : σ × Nat → ι → Prop} {s : σ × Nat} (h : (m.clocked reads).Reach ok s) : Inv s.2 s.1 := by
  induction h with
  | init => exact hinit
  | @step s s' i _ _ hs ih =>
    simp only [clocked] at hs
    split at hs
    · rename_i hread
      obtain ⟨s₁, hs₁, rfl⟩ := Option.map_eq_some_iff.mp hs
      exact hstep s.2 s.1 i s₁ ih (fun now hnow => by rw [hread] at hnow; exact nomatch hnow) hs₁
    · rename_i now hread
      split at hs
      · rename_i hle
        obtain ⟨s₁, hs₁, rfl⟩ := Option.map_eq_some_iff.mp hs
        apply hstep now s.1 i s₁ (hmono hle ih) _ hs₁
        intro now' hnow'
        rw [hread] at hnow'
        exact (Option.some.inj hnow').symm
      · exact nomatch hs

/-! ## Notes -/

section Noting

variable {ν : Type} (note : ν → σ → ι → ν)

variable (m) in
/-- The machine together with a note, to which every step may add. -/
def noting (start : ν) : Machine (σ × ν) ι where
  init := (m.init, start)
  step s i := (m.step s.1 i).map fun s' => (s', note s.2 s.1 i)

variable {note}

/-- The invariant rule for paths with a note, from a reachable state. -/
theorem Path.noting_keeps {P : σ → ι → Prop} {Q : σ × ν → ι → Prop}
    (hle : ∀ x i, Q x i → P x.1 i) {start : ν} {x x' : σ × ν}
    (h : (m.noting note start).Path Q x x') (Inv : ν → σ → Prop) (hs : m.Reach P x.1)
    (hstart : Inv x.2 x.1)
    (hstep : ∀ n s i s', m.Reach P s → Inv n s → Q (s, n) i → m.step s i = some s' →
      Inv (note n s i) s') : m.Reach P x'.1 ∧ Inv x'.2 x'.1 := by
  induction h with
  | refl => exact ⟨hs, hstart⟩
  | tail _ hok hs' ih =>
    obtain ⟨hreach, hinv⟩ := ih
    obtain ⟨s₂, hs₂, rfl⟩ := Option.map_eq_some_iff.mp hs'
    exact ⟨hreach.step (hle _ _ hok) hs₂, hstep _ _ _ _ hreach hinv hok hs₂⟩

end Noting

/-- Run a list of inputs from `s`, checking `ok` before each step. -/
def runFrom (m : Machine σ ι) (ok : σ → ι → Bool) (s : σ) : List ι → Option σ
  | [] => some s
  | i :: is =>
    if ok s i then
      match m.step s i with
      | some s' => m.runFrom ok s' is
      | none => none
    else none

/-- Run a list of inputs from the initial state, checking `ok` before each step. -/
def run (m : Machine σ ι) (ok : σ → ι → Bool) (is : List ι) : Option σ :=
  m.runFrom ok m.init is

/-- A checked run from a reachable state ends in a reachable state. -/
theorem Reach.runFrom {P : σ → ι → Prop} {ok : σ → ι → Bool}
    (hok : ∀ s i, ok s i = true → P s i) {s s' : σ} (h : m.Reach P s) {is : List ι}
    (hrun : m.runFrom ok s is = some s') : m.Reach P s' := by
  induction is generalizing s with
  | nil =>
    simp only [Machine.runFrom, Option.some.injEq] at hrun
    exact hrun ▸ h
  | cons i is ih =>
    simp only [Machine.runFrom] at hrun
    split at hrun
    · rename_i hi
      split at hrun
      · rename_i s₁ hs
        exact ih (h.step (hok s i hi) hs) hrun
      · exact nomatch hrun
    · exact nomatch hrun

/-- A checked run from a state is a path. -/
theorem Path.of_run {P : σ → ι → Prop} {ok : σ → ι → Bool}
    (hok : ∀ s i, ok s i = true → P s i) {s s₁ s' : σ} (h : m.Path P s s₁) {is : List ι}
    (hrun : m.runFrom ok s₁ is = some s') : m.Path P s s' := by
  induction is generalizing s₁ with
  | nil =>
    simp only [Machine.runFrom, Option.some.injEq] at hrun
    exact hrun ▸ h
  | cons i is ih =>
    simp only [Machine.runFrom] at hrun
    split at hrun
    · rename_i hi
      split at hrun
      · rename_i s₂ hs
        exact ih (h.tail (hok s₁ i hi) hs) hrun
      · exact nomatch hrun
    · exact nomatch hrun

/-- Go on with a run, given as its steps and its last state. -/
def trail (m : Machine σ ι) : List (σ × ι) × σ → List ι → Option (List (σ × ι) × σ)
  | run, [] => some run
  | (run, s), i :: is =>
    match m.step s i with
    | some s' => m.trail ((s, i) :: run, s') is
    | none => none

theorem Steps.trail {run run' : List (σ × ι) × σ} (h : m.Steps run.1 run.2) {is : List ι}
    (htrail : m.trail run is = some run') : m.Steps run'.1 run'.2 := by
  induction is generalizing run with
  | nil =>
    simp only [Machine.trail, Option.some.injEq] at htrail
    exact htrail ▸ h
  | cons i is ih =>
    simp only [Machine.trail] at htrail
    split at htrail
    · rename_i s hs
      exact @ih ((run.2, i) :: run.1, s) (h.step hs) htrail
    · exact nomatch htrail

/-- A concrete run shows that there is one with a given view. -/
theorem exists_steps_of_run (m : Machine σ ι) {α : Type} (is : List ι)
    (view : List (σ × ι) × σ → α) (a : α) (htrail : (m.trail ([], m.init) is).map view = some a) :
    ∃ run s, m.Steps run s ∧ view (run, s) = a := by
  obtain ⟨run, hrun, hview⟩ := Option.map_eq_some_iff.mp htrail
  exact ⟨run.1, run.2, @Steps.trail _ _ m ([], m.init) run .init is hrun, hview⟩

/-- A run from the initial state all of whose steps pass the check reaches its last state. -/
theorem reach_of_run {P : σ → ι → Prop} {ok : σ → ι → Bool}
    (hok : ∀ s i, ok s i = true → P s i) {s : σ} {is : List ι}
    (hrun : m.run ok is = some s) : m.Reach P s :=
  Reach.init.runFrom hok hrun

/-- A concrete run shows that a state with a given view is reachable. -/
theorem exists_reach_of_run (m : Machine σ ι) {α : Type} {P : σ → ι → Prop} (ok : σ → ι → Bool)
    (hok : ∀ s i, ok s i = true → P s i) (is : List ι) (view : σ → α) (a : α)
    (hrun : (m.run ok is).map view = some a) : ∃ s, m.Reach P s ∧ view s = a := by
  obtain ⟨s, hs, hview⟩ := Option.map_eq_some_iff.mp hrun
  exact ⟨s, reach_of_run hok hs, hview⟩

end Machine
