import Mathlib.Data.List.Nodup
import Mathlib.Data.List.Perm.Basic

/-!
# Items in buckets

A list of buckets in which every item lies in the bucket that is computed from it. What such a
list holds is described by its concatenation, up to order: the lemmas say what inserting,
overwriting, removing and moving an item does to that.

## Key results

- `Placed`: every item lies in its own bucket
- `Placed.mem_iff`: looking in one bucket is enough
- `flatten_insert_perm`, `flatten_remove_perm`, `flatten_move_perm`: what the buckets hold
-/

namespace Buckets

variable {α : Type}

/-- The items in the bucket at `i`. -/
def at_ (buckets : List (List α)) (i : Nat) : List α := buckets.getD i []

/-- Within the array, `at_` is the bucket. -/
theorem at_eq_getElem {buckets : List (List α)} {i : Nat} (hi : i < buckets.length) :
    at_ buckets i = buckets[i] := by
  rw [at_, List.getD_eq_getElem?_getD, List.getElem?_eq_getElem hi, Option.getD_some]

/-- Modifying one bucket leaves the others. -/
@[simp] theorem at_modify (buckets : List (List α)) (i j : Nat) (f : List α → List α)
    (hj : j < buckets.length) :
    at_ (buckets.modify i f) j = if i = j then f (at_ buckets j) else at_ buckets j := by
  simp only [at_, List.getD_eq_getElem?_getD, List.getElem?_modify, List.getElem?_eq_getElem hj]
  split <;> rfl

/-- What is modified is the bucket behind the part in front. -/
theorem modify_append_cons {β : Type} (f : β → β) (pre : List β) (x : β) (suf : List β) :
    (pre ++ x :: suf).modify pre.length f = pre ++ f x :: suf := by
  induction pre with
  | nil => rfl
  | cons y pre ih =>
    rw [List.cons_append, List.length_cons, List.modify_succ_cons, ih]
    rfl

/-! ## What the buckets hold -/

/-- The bucket at `i`, and the other ones. -/
theorem flatten_perm {buckets : List (List α)} {i : Nat} (hi : i < buckets.length) :
    buckets.flatten.Perm (at_ buckets i ++ (buckets.eraseIdx i).flatten) := by
  induction buckets generalizing i with
  | nil => exact absurd hi (Nat.not_lt_zero i)
  | cons bucket buckets ih =>
    cases i with
    | zero => exact .refl _
    | succ i =>
      have hrest := ih (i := i) (by simpa using hi)
      show (bucket ++ buckets.flatten).Perm (at_ buckets i ++
        (bucket ++ (buckets.eraseIdx i).flatten))
      have hswap := List.perm_append_comm_assoc bucket (at_ buckets i) (buckets.eraseIdx i).flatten
      exact (hrest.append_left bucket).trans hswap

/-- Modifying a bucket modifies its part of all elements. -/
theorem flatten_modify_perm {buckets : List (List α)} {i : Nat} (hi : i < buckets.length)
    (f : List α → List α) :
    (buckets.modify i f).flatten.Perm (f (at_ buckets i) ++ (buckets.eraseIdx i).flatten) := by
  have hi' : i < (buckets.modify i f).length := by simpa using hi
  have hperm := flatten_perm hi'
  rw [at_modify _ _ _ _ hi, if_pos rfl, List.eraseIdx_modify_of_eq] at hperm
  exact hperm

/-- Inserting into a bucket inserts into all elements. -/
theorem flatten_insert_perm {buckets : List (List α)} {i : Nat} (hi : i < buckets.length) (x : α) :
    (buckets.modify i (x :: ·)).flatten.Perm (x :: buckets.flatten) :=
  (flatten_modify_perm hi (x :: ·)).trans ((flatten_perm hi).symm.cons x)

/-- Only the buckets of the list hold items. -/
theorem lt_of_getElem? {buckets : List (List α)} {i j : Nat} {x : α}
    (hx : (at_ buckets i)[j]? = some x) : i < buckets.length := by
  by_contra hi
  rw [at_, List.getD_eq_getElem?_getD, List.getElem?_eq_none (Nat.not_lt.mp hi)] at hx
  exact absurd hx.symm (Option.some_ne_none x)

/-- So it is with removing. -/
theorem flatten_remove_perm {buckets : List (List α)} {i j : Nat} {x : α}
    (hx : (at_ buckets i)[j]? = some x) :
    buckets.flatten.Perm (x :: (buckets.modify i (·.eraseIdx j)).flatten) := by
  have hi : i < buckets.length := lt_of_getElem? hx
  obtain ⟨hj, rfl⟩ := List.getElem?_eq_some_iff.mp hx
  have herase := (List.getElem_cons_eraseIdx_perm hj).append_right (buckets.eraseIdx i).flatten
  exact (flatten_perm hi).trans (herase.symm.trans
    ((flatten_modify_perm hi (·.eraseIdx j)).symm.cons _))

/-- Replacing is removing the old and inserting the new. -/
theorem flatten_set_perm {buckets : List (List α)} {i j : Nat} {x : α}
    (hx : (at_ buckets i)[j]? = some x) (y : α) :
    (buckets.modify i (·.set j y)).flatten.Perm (y ::
      (buckets.modify i (·.eraseIdx j)).flatten) := by
  have hi : i < buckets.length := lt_of_getElem? hx
  have hj := (List.getElem?_eq_some_iff.mp hx).1
  have hy : (at_ (buckets.modify i (·.set j y)) i)[j]? = some y := by
    rw [at_modify _ _ _ _ hi, if_pos rfl, List.getElem?_set_self hj]
  have hperm := flatten_remove_perm hy
  rw [List.modify_modify_eq] at hperm
  have hcomp : ((·.eraseIdx j) ∘ (·.set j y) : List α → List α) = (·.eraseIdx j) := by
    funext bucket
    exact List.eraseIdx_set_eq
  rw [hcomp] at hperm
  exact hperm

/-- An item is taken out of one bucket and put in front of another one. -/
theorem flatten_move_perm {buckets : List (List α)} {i j k : Nat} {x : α}
    (hx : (at_ buckets i)[j]? = some x) (hk : k < buckets.length) :
    ((buckets.modify i (·.eraseIdx j)).modify k (x :: ·)).flatten.Perm buckets.flatten :=
  (flatten_insert_perm (by simpa using hk) x).trans (flatten_remove_perm hx).symm

/-! ## Buckets without duplicates -/

/-- The elements of a bucket are among all elements. -/
theorem mem_flatten_of_at {buckets : List (List α)} {i : Nat} {x : α} (hx : x ∈ at_ buckets i) :
    x ∈ buckets.flatten := by
  obtain ⟨j, hj⟩ := List.mem_iff_getElem?.mp hx
  have hi := lt_of_getElem? hj
  rw [at_eq_getElem hi] at hx
  exact List.mem_flatten.mpr ⟨_, List.getElem_mem hi, hx⟩

/-- Without duplicates altogether there are none in a bucket. -/
theorem nodup_at {buckets : List (List α)} (h : buckets.flatten.Nodup) (i : Nat) :
    (at_ buckets i).Nodup := by
  by_cases hi : i < buckets.length
  · rw [at_eq_getElem hi]
    exact (List.nodup_flatten.mp h).1 _ (List.getElem_mem hi)
  · rw [at_, List.getD_eq_getElem?_getD, List.getElem?_eq_none (Nat.not_lt.mp hi)]
    exact List.nodup_nil

/-- An item is in one bucket only. -/
theorem eq_of_mem_at {buckets : List (List α)} (h : buckets.flatten.Nodup) {i j : Nat} {x : α}
    (hxi : x ∈ at_ buckets i) (hxj : x ∈ at_ buckets j) : i = j := by
  have hpairs := List.pairwise_iff_getElem.mp (List.nodup_flatten.mp h).2
  obtain ⟨k, hk⟩ := List.mem_iff_getElem?.mp hxi
  obtain ⟨l, hl⟩ := List.mem_iff_getElem?.mp hxj
  have hi := lt_of_getElem? hk
  have hj := lt_of_getElem? hl
  rw [at_eq_getElem hi] at hxi
  rw [at_eq_getElem hj] at hxj
  rcases Nat.lt_trichotomy i j with hlt | heq | hlt
  · exact absurd hxj (hpairs i j hi hj hlt hxi)
  · exact heq
  · exact absurd hxi (hpairs j i hj hi hlt hxj)

/-! ## Placed items -/

/-- Every item lies in the bucket that `place` gives it. -/
def Placed (place : α → Nat) (buckets : List (List α)) : Prop :=
  ∀ i, i < buckets.length → ∀ x ∈ at_ buckets i, place x = i

variable {place : α → Nat} {buckets : List (List α)}

/-- An item is in its own bucket if it is in any. -/
theorem Placed.mem_iff (h : Placed place buckets) {x : α} (hx : place x < buckets.length) :
    x ∈ at_ buckets (place x) ↔ x ∈ buckets.flatten := by
  rw [List.mem_flatten]
  constructor
  · intro hmem
    rw [at_eq_getElem hx] at hmem
    exact ⟨_, List.getElem_mem hx, hmem⟩
  · rintro ⟨bucket, hbucket, hmem⟩
    obtain ⟨i, hi, rfl⟩ := List.getElem_of_mem hbucket
    rw [← at_eq_getElem hi] at hmem
    rw [h i hi x hmem]
    exact hmem

/-- Changing one bucket leaves the items placed if what is new in it belongs there. -/
theorem Placed.modify (h : Placed place buckets) {i : Nat} {f : List α → List α}
    (hf : ∀ x ∈ f (at_ buckets i), x ∈ at_ buckets i ∨ place x = i) :
    Placed place (buckets.modify i f) := by
  intro j hj x hx
  rw [List.length_modify] at hj
  rw [at_modify _ _ _ _ hj] at hx
  split at hx
  · rename_i hij
    subst hij
    rcases hf x hx with hold | hnew
    · exact h i hj x hold
    · exact hnew
  · exact h j hj x hx

end Buckets
