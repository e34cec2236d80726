import Mathlib.Data.List.AList

/-!
# Maps and arrays with keys

What an entry that is found after `insert` or `erase` says about the map before, and what
removing the first item with a key does to an array without two items of one key.

## Key results

- `AList.lookup_insert_eq_some`, `AList.lookup_erase_eq_some`: the entries of the updated map
- `List.eraseP_eq_filter_of_nodup_map`: exactly the item with the key is removed
- `List.takeWhile_le_eq_filter`, `List.dropWhile_le_eq_filter`: the items up to a bound are a
  prefix of a sorted array
-/

namespace AList

variable {α β : Type} [DecidableEq α] {m : AList fun _ : α => β} {k k' : α} {v v' : β}

theorem lookup_insert_eq_some :
    (m.insert k v).lookup k' = some v' ↔ k' = k ∧ v' = v ∨ k' ≠ k ∧ m.lookup k' = some v' := by
  by_cases hk : k' = k
  · subst hk
    have hself : (m.insert k' v).lookup k' = some v := lookup_insert m
    rw [hself]
    simp [eq_comm]
  · have hne : (m.insert k v).lookup k' = m.lookup k' := lookup_insert_ne hk
    rw [hne]
    simp [hk]

theorem lookup_erase_eq_some :
    (m.erase k).lookup k' = some v ↔ k' ≠ k ∧ m.lookup k' = some v := by
  by_cases hk : k' = k
  · subst hk
    have hself : (m.erase k').lookup k' = none := lookup_erase k' m
    rw [hself]
    simp
  · have hne : (m.erase k).lookup k' = m.lookup k' := lookup_erase_ne hk
    rw [hne]
    simp [hk]

theorem lookup_erase_eq_ite :
    (m.erase k).lookup k' = if k' = k then none else m.lookup k' := by
  by_cases hk : k' = k
  · subst hk
    rw [if_pos rfl]
    exact lookup_erase k' m
  · rw [if_neg hk]
    exact lookup_erase_ne hk

end AList

namespace List

variable {α κ : Type}

/-- With one item for each key, removing the first item of a key removes the only one. -/
theorem eraseP_eq_filter_of_nodup_map {f : α → κ} {l : List α} (h : (l.map f).Nodup)
    {p : α → Bool} {k : κ} (hp : ∀ a, p a = true ↔ f a = k) :
    l.eraseP p = l.filter fun a => !p a := by
  induction l with
  | nil => rfl
  | cons a l ih =>
    rw [map_cons, nodup_cons] at h
    cases ha : p a with
    | false =>
      rw [eraseP_cons_of_neg (by simp [ha]), ih h.2, filter_cons_of_pos (by simp [ha])]
    | true =>
      rw [eraseP_cons_of_pos ha, filter_cons_of_neg (by simp [ha]), eq_comm, filter_eq_self]
      -- No other item has the key of the one that is removed.
      intro b hb
      rw [Bool.not_eq_true', Bool.eq_false_iff, ne_eq, hp]
      rintro rfl
      refine h.1 (mem_map.mpr ⟨b, hb, ?_⟩)
      exact ((hp a).mp ha).symm

/-- In an array that is sorted by a number, the items up to a bound come first. -/
theorem takeWhile_le_eq_filter {f : α → Nat} {l : List α} (h : l.Pairwise (f · ≤ f ·)) (n : Nat) :
    (l.takeWhile fun a => f a ≤ n) = l.filter fun a => f a ≤ n := by
  induction l with
  | nil => rfl
  | cons a l ih =>
    rw [pairwise_cons] at h
    by_cases ha : f a ≤ n
    · rw [takeWhile_cons_of_pos (by simpa using ha), filter_cons_of_pos (by simpa using ha), ih h.2]
    · rw [takeWhile_cons_of_neg (by simpa using ha), filter_cons_of_neg (by simpa using ha),
        eq_comm, filter_eq_nil_iff]
      intro b hb
      have hle := h.1 b hb
      simp only [decide_eq_true_eq]
      omega

theorem dropWhile_le_eq_filter {f : α → Nat} {l : List α} (h : l.Pairwise (f · ≤ f ·)) (n : Nat) :
    (l.dropWhile fun a => f a ≤ n) = l.filter fun a => n < f a := by
  induction l with
  | nil => rfl
  | cons a l ih =>
    rw [pairwise_cons] at h
    by_cases ha : f a ≤ n
    · rw [dropWhile_cons_of_pos (by simpa using ha),
        filter_cons_of_neg (by simp only [decide_eq_true_eq]; omega), ih h.2]
    · rw [dropWhile_cons_of_neg (by simpa using ha), eq_comm, filter_eq_self]
      intro b hb
      simp only [decide_eq_true_eq]
      rcases mem_cons.mp hb with rfl | hb
      · omega
      · have hle := h.1 b hb
        omega

end List
