import Mathlib.Data.List.Infix

/-!
# Cycles

Something is opened, goes on and is closed, and then the same again. `Cycles` describes the events
of this one after the other; `Cycles.split` is the same as a regular expression would say it.

Nothing here depends on what the events are.

## Key results

- `Cycles.of_prefix`: what is cut short still runs in cycles
- `Cycles.split`: whole cycles, and then perhaps the beginning of one
- `count_closing_le`: what cannot be a list of cycles
-/

variable {α : Type} {opening closing : α} {body : α → Prop}

/-- The events run in cycles; the last cycle goes on exactly if the flag is set. -/
inductive Cycles (opening closing : α) (body : α → Prop) : List α → Bool → Prop
  | nil : Cycles opening closing body [] false
  | opens {xs : List α} : Cycles opening closing body xs false →
      Cycles opening closing body (xs ++ [opening]) true
  | goes {xs : List α} {x : α} : Cycles opening closing body xs true → body x →
      Cycles opening closing body (xs ++ [x]) true
  | closes {xs : List α} : Cycles opening closing body xs true →
      Cycles opening closing body (xs ++ [closing]) false

/-- One cycle from its beginning to its end. -/
def IsCycle (opening closing : α) (body : α → Prop) (xs : List α) : Prop :=
  ∃ ys, xs = opening :: (ys ++ [closing]) ∧ ∀ y ∈ ys, body y

/-- The beginning of a cycle, or nothing. -/
def IsBegun (opening : α) (body : α → Prop) (xs : List α) : Prop :=
  xs = [] ∨ ∃ ys, xs = opening :: ys ∧ ∀ y ∈ ys, body y

namespace Cycles

/-- What is cut short still runs in cycles. -/
theorem of_prefix {xs ys : List α} {live : Bool} (h : Cycles opening closing body xs live)
    (hys : ys <+: xs) : ∃ live, Cycles opening closing body ys live := by
  induction h with
  | nil =>
    rw [List.prefix_nil.mp hys]
    exact ⟨false, .nil⟩
  | opens h ih =>
    rcases List.prefix_concat_iff.mp hys with rfl | hys
    · exact ⟨true, h.opens⟩
    · exact ih hys
  | goes h hx ih =>
    rcases List.prefix_concat_iff.mp hys with rfl | hys
    · exact ⟨true, h.goes hx⟩
    · exact ih hys
  | closes h ih =>
    rcases List.prefix_concat_iff.mp hys with rfl | hys
    · exact ⟨false, h.closes⟩
    · exact ih hys

/-- If only such events go on in between, the cycles are of these. -/
theorem restrict {body' : α → Prop} {xs : List α} {live : Bool}
    (h : Cycles opening closing body xs live) (hxs : ∀ x ∈ xs, body x → body' x) :
    Cycles opening closing body' xs live := by
  induction h with
  | nil => exact .nil
  | opens h ih => exact (ih fun x hx => hxs x (List.mem_append_left _ hx)).opens
  | @goes xs x h hx ih =>
    have hlast : body' x := hxs x (List.mem_append_right xs (List.mem_singleton_self x)) hx
    exact (ih fun y hy => hxs y (List.mem_append_left _ hy)).goes hlast
  | closes h ih => exact (ih fun x hx => hxs x (List.mem_append_left _ hx)).closes

/-- The cycles that are over, and the one that goes on. -/
theorem parts {xs : List α} {live : Bool} (h : Cycles opening closing body xs live) :
    ∃ (full : List (List α)) (ys : List α),
      xs = full.flatten ++ (if live then opening :: ys else []) ∧
      (∀ x ∈ full, IsCycle opening closing body x) ∧ ∀ y ∈ ys, body y := by
  induction h with
  | nil => exact ⟨[], [], by simp, by simp, by simp⟩
  | opens h ih =>
    obtain ⟨full, ys, rfl, hfull, -⟩ := ih
    exact ⟨full, [], by simp, hfull, by simp⟩
  | @goes _ x h hx ih =>
    obtain ⟨full, ys, rfl, hfull, hys⟩ := ih
    refine ⟨full, ys ++ [x], by simp, hfull, fun y hy => ?_⟩
    rcases List.mem_append.mp hy with hy | hy
    · exact hys y hy
    · exact List.mem_singleton.mp hy ▸ hx
  | closes h ih =>
    -- The cycle that went on is the last of those that are over.
    obtain ⟨full, ys, rfl, hfull, hys⟩ := ih
    refine ⟨full ++ [opening :: (ys ++ [closing])], [], by simp, fun x hx => ?_, by simp⟩
    rcases List.mem_append.mp hx with hx | hx
    · exact hfull x hx
    · exact ⟨ys, List.mem_singleton.mp hx, hys⟩

/-- Whole cycles, and then perhaps the beginning of one. -/
theorem split {xs : List α} {live : Bool} (h : Cycles opening closing body xs live) :
    ∃ (full : List (List α)) (last : List α),
      xs = full.flatten ++ last ∧ (∀ x ∈ full, IsCycle opening closing body x) ∧
      IsBegun opening body last := by
  obtain ⟨full, ys, hxs, hfull, hys⟩ := h.parts
  refine ⟨full, _, hxs, hfull, ?_⟩
  cases live with
  | false => exact .inl rfl
  | true => exact .inr ⟨ys, rfl, hys⟩

end Cycles

/-- In cycles nothing is closed more often than it was opened. -/
theorem count_closing_le [DecidableEq α] {full : List (List α)} {last : List α}
    (hne : opening ≠ closing) (hbody : ¬ body closing)
    (hfull : ∀ x ∈ full, IsCycle opening closing body x) (hlast : IsBegun opening body last) :
    (full.flatten ++ last).count closing ≤ (full.flatten ++ last).count opening := by
  have hnone : ∀ ys : List α, (∀ y ∈ ys, body y) → ys.count closing = 0 :=
    fun ys hys => List.count_eq_zero_of_not_mem fun hmem => hbody (hys closing hmem)
  induction full with
  | nil =>
    rcases hlast with rfl | ⟨ys, rfl, hys⟩
    · simp
    · simp [List.count_cons_of_ne hne, hnone ys hys]
  | cons x full ih =>
    obtain ⟨ys, rfl, hys⟩ := hfull x List.mem_cons_self
    have hrest := ih fun x hx => hfull x (List.mem_cons_of_mem _ hx)
    -- The first cycle is closed once, and opened at least once.
    have hclosed : (opening :: (ys ++ [closing])).count closing = 1 := by
      simp [List.count_cons_of_ne hne, hnone ys hys]
    have hopened : 1 ≤ (opening :: (ys ++ [closing])).count opening := by simp
    rw [List.flatten_cons, List.append_assoc, List.count_append, hclosed,
      List.count_append (a := opening)]
    exact Nat.add_le_add hopened hrest
