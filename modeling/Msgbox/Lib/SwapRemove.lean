import Mathlib.Data.List.Nodup
import Mathlib.Data.List.NodupEquivFin
import Mathlib.Data.Finset.Card
import Mathlib.Data.Finset.Range
import Mathlib.Data.List.Range

/-!
# Removing array elements by filling the hole with the last one

`swapRemove l i` overwrites position `i` with the last element and drops the last position.
Removing several elements with indices that were recorded beforehand can go wrong, because
an element may have moved before its index is used. This file says exactly when it does not.

## Key results

- `getElem?_foldl_swapRemove`: where each element ends up (`landing`)
- `mem_foldl_swapRemove_iff`: exactly the elements at unrecorded positions are left if and
  only if every unrecorded position `Lands`
-/

namespace SwapRemove

variable {α : Type}

/-- Overwrite position `i` with the last element, and drop the last position. -/
def swapRemove (l : List α) (i : Nat) : List α :=
  match l.getLast? with
  | none => []
  | some x => (l.set i x).dropLast

@[simp] theorem length_swapRemove (l : List α) (i : Nat) :
    (swapRemove l i).length = l.length - 1 := by
  unfold swapRemove
  split
  · rename_i h
    rw [List.getLast?_eq_none_iff] at h
    simp [h]
  · simp

/-- Each removal shortens the list by one, until it is empty. -/
theorem length_foldl_swapRemove (l : List α) (rs : List Nat) :
    (rs.foldl swapRemove l).length = l.length - rs.length := by
  induction rs generalizing l with
  | nil => simp
  | cons r rs ih => rw [List.foldl_cons, ih, length_swapRemove, List.length_cons]; omega

/-- The last element fills the gap, and the others stay. -/
theorem getElem?_swapRemove (l : List α) (i q : Nat) :
    (swapRemove l i)[q]? =
      if q + 1 < l.length then (if q = i then l[l.length - 1]? else l[q]?) else none := by
  unfold swapRemove
  split
  · rename_i h
    rw [List.getLast?_eq_none_iff] at h
    simp [h]
  · rename_i x h
    rw [List.getLast?_eq_getElem?] at h
    rw [List.getElem?_dropLast, List.length_set]
    by_cases hq : q + 1 < l.length
    · rw [if_pos (by omega), if_pos hq, List.getElem?_set]
      by_cases hqi : q = i
      · rw [if_pos hqi.symm, if_pos (by omega), if_pos hqi, h]
      · rw [if_neg (Ne.symm hqi), if_neg hqi]
    · rw [if_neg (by omega), if_neg hq]

/-- Removals commute with mapping. -/
theorem map_foldl_swapRemove {β : Type} (f : α → β) (l : List α) (rs : List Nat) :
    (rs.foldl swapRemove l).map f = rs.foldl swapRemove (l.map f) := by
  induction rs generalizing l with
  | nil => rfl
  | cons r rs ih =>
    have hmap : (swapRemove l r).map f = swapRemove (l.map f) r := by
      unfold swapRemove
      rw [List.getLast?_map]
      cases l.getLast? with
      | none => rfl
      | some x => simp [List.map_dropLast, List.map_set]
    rw [List.foldl_cons, List.foldl_cons, ih, hmap]

/-- Distinct positions of `swapRemove l i` hold elements from distinct positions of `l`. -/
theorem nodup_swapRemove {l : List α} (h : l.Nodup) (i : Nat) : (swapRemove l i).Nodup := by
  rw [List.nodup_iff_getElem?_ne_getElem?] at h ⊢
  intro q q' hlt hq'
  rw [length_swapRemove] at hq'
  rw [getElem?_swapRemove, getElem?_swapRemove, if_pos (show q + 1 < l.length by omega),
    if_pos (show q' + 1 < l.length by omega)]
  by_cases hq : q = i
  · rw [if_pos hq, if_neg (by omega)]
    exact (h q' (l.length - 1) (by omega) (by omega)).symm
  · rw [if_neg hq]
    by_cases hq'i : q' = i
    · rw [if_pos hq'i]
      exact h q (l.length - 1) (by omega) (by omega)
    · rw [if_neg hq'i]
      exact h q q' hlt (by omega)

/-- Removals make no duplicates. -/
theorem nodup_foldl_swapRemove {l : List α} (h : l.Nodup) (rs : List Nat) :
    (rs.foldl swapRemove l).Nodup := by
  induction rs generalizing l with
  | nil => exact h
  | cons r rs ih => exact ih (nodup_swapRemove h r)

/-! ## Where elements end up -/

/-- The final position of the element at position `p` of an array of `n` elements, if it is
    not lost, after `swapRemove` with each index of a list. -/
def landing : Nat → List Nat → Nat → Option Nat
  | _, [], p => some p
  | n, r :: rs, p =>
    if p = r then none
    else if p + 1 = n then (if r < n then landing (n - 1) rs r else none)
    else landing (n - 1) rs p

/-- What stands at a place after the removals landed there. -/
theorem getElem?_foldl_swapRemove (l : List α) (rs : List Nat) (q : Nat) (x : α) :
    (rs.foldl swapRemove l)[q]? = some x ↔
      ∃ p, l[p]? = some x ∧ landing l.length rs p = some q := by
  induction rs generalizing l with
  | nil => simp [landing]
  | cons r rs ih =>
    rw [List.foldl_cons, ih, length_swapRemove]
    constructor
    -- From where an element ends back to where it began.
    · rintro ⟨p, hx, hland⟩
      rw [getElem?_swapRemove] at hx
      split at hx
      · rename_i hp
        split at hx
        · -- Position `r` was filled by the last element.
          rename_i hpr
          subst hpr
          refine ⟨l.length - 1, hx, ?_⟩
          rw [landing, if_neg (by omega), if_pos (by omega), if_pos (by omega), hland]
        · rename_i hpr
          refine ⟨p, hx, ?_⟩
          rw [landing, if_neg hpr, if_neg (by omega), hland]
      · exact nomatch hx
    · rintro ⟨p, hx, hland⟩
      have hp : p < l.length := (List.getElem?_eq_some_iff.mp hx).1
      rw [landing] at hland
      split at hland
      · exact nomatch hland
      · rename_i hpr
        split at hland
        · rename_i hlast
          split at hland
          · rename_i hr
            refine ⟨r, ?_, hland⟩
            rw [getElem?_swapRemove, if_pos (by omega), if_pos rfl,
              show l.length - 1 = p by omega, hx]
          · exact nomatch hland
        · refine ⟨p, ?_, hland⟩
          rw [getElem?_swapRemove, if_pos (by omega), if_neg hpr, hx]

/-- The elements that are left are those that have landed. -/
theorem mem_foldl_swapRemove (l : List α) (rs : List Nat) (x : α) :
    x ∈ rs.foldl swapRemove l ↔
      ∃ p, l[p]? = some x ∧ (landing l.length rs p).isSome := by
  rw [List.mem_iff_getElem?]
  simp only [getElem?_foldl_swapRemove, Option.isSome_iff_exists]
  constructor
  · rintro ⟨q, p, hx, hq⟩
    exact ⟨p, hx, q, hq⟩
  · rintro ⟨p, hx, q, hq⟩
    exact ⟨q, p, hx, hq⟩

/-- Removals add nothing. -/
theorem mem_of_mem_foldl_swapRemove {l : List α} {rs : List Nat} {x : α}
    (h : x ∈ rs.foldl swapRemove l) : x ∈ l := by
  obtain ⟨p, hp, -⟩ := (mem_foldl_swapRemove l rs x).mp h
  exact List.mem_of_getElem? hp

/-- Items that stood at one position of two arrays still do after a pass over both. -/
theorem exists_getElem?_foldl_swapRemove {β : Type} {l : List α} {l' : List β}
    (hlength : l'.length = l.length) {rs : List Nat} {q : Nat} {x : α} {y : β}
    (hx : (rs.foldl swapRemove l)[q]? = some x) (hy : (rs.foldl swapRemove l')[q]? = some y) :
    ∃ p : Nat, l[p]? = some x ∧ l'[p]? = some y := by
  have hfst : (rs.foldl swapRemove (l.zip l')).map Prod.fst = rs.foldl swapRemove l := by
    rw [map_foldl_swapRemove, List.map_fst_zip (by omega)]
  have hsnd : (rs.foldl swapRemove (l.zip l')).map Prod.snd = rs.foldl swapRemove l' := by
    rw [map_foldl_swapRemove, List.map_snd_zip (by omega)]
  rw [← hfst, List.getElem?_map, Option.map_eq_some_iff] at hx
  rw [← hsnd, List.getElem?_map, Option.map_eq_some_iff] at hy
  obtain ⟨pair, hpair, rfl⟩ := hx
  obtain ⟨pair', hpair', rfl⟩ := hy
  obtain rfl := Option.some.inj (hpair.symm.trans hpair')
  obtain ⟨p, hp⟩ := List.mem_iff_getElem?.mp
    (mem_of_mem_foldl_swapRemove (List.mem_of_getElem? hpair))
  rw [List.getElem?_zip_eq_some] at hp
  exact ⟨p, hp.1, hp.2⟩

/-- If no unrecorded position is lost then every recorded one is: as many elements are left
    as there are unrecorded positions. -/
theorem landing_isSome_iff {n : Nat} {rs : List Nat} (hrs : rs.Nodup) (hlt : ∀ r ∈ rs, r < n)
    (hkeep : ∀ p < n, p ∉ rs → (landing n rs p).isSome) {p : Nat} (hp : p < n) :
    (landing n rs p).isSome ↔ p ∉ rs := by
  let left := rs.foldl swapRemove (List.range n)
  -- The positions that survive, as the list of what is left of `0, ..., n - 1`.
  have hleft : ∀ p, p ∈ left ↔ p < n ∧ (landing n rs p).isSome := by
    intro p
    rw [mem_foldl_swapRemove, List.length_range]
    constructor
    · rintro ⟨p', hp', hland⟩
      obtain ⟨hlt', heq⟩ := List.getElem?_eq_some_iff.mp hp'
      rw [List.length_range] at hlt'
      rw [List.getElem_range] at heq
      exact ⟨heq ▸ hlt', heq ▸ hland⟩
    · rintro ⟨hpn, hland⟩
      exact ⟨p, by rw [List.getElem?_range hpn], hland⟩
  -- Each removal takes one element, so as many survive as are not removed.
  have hcard : left.toFinset.card = n - rs.length := by
    rw [List.toFinset_card_of_nodup (nodup_foldl_swapRemove List.nodup_range rs),
      length_foldl_swapRemove, List.length_range]
  have hsub : Finset.range n \ rs.toFinset ⊆ left.toFinset := by
    intro p hp
    rw [Finset.mem_sdiff, Finset.mem_range, List.mem_toFinset] at hp
    rw [List.mem_toFinset, hleft]
    exact ⟨hp.1, hkeep p hp.1 hp.2⟩
  have hunrec : (Finset.range n \ rs.toFinset).card = n - rs.length := by
    rw [Finset.card_sdiff_of_subset, Finset.card_range, List.toFinset_card_of_nodup hrs]
    intro r hr
    exact Finset.mem_range.mpr (hlt r (List.mem_toFinset.mp hr))
  have heq := Finset.eq_of_subset_of_card_le hsub (by omega)
  have hmem : p ∈ left.toFinset ↔ p ∉ rs := by
    rw [← heq, Finset.mem_sdiff, Finset.mem_range, List.mem_toFinset]
    exact and_iff_right hp
  rw [← hmem, List.mem_toFinset, hleft]
  exact (and_iff_right hp).symm

/-! ## The condition on the recorded indices -/

/-- The chain of moves that starts with the element at position `p` of `n` elements ends at
    a position that is kept: the element at a position `p` that is cut off is last when entry
    `n - 1 - p` is used, and moves to the index recorded there, which must be below `p`. -/
inductive Lands (n : Nat) (rs : List Nat) : Nat → Prop
  | kept {p : Nat} : p + rs.length < n → Lands n rs p
  | moved {p r : Nat} :
      p < n → n ≤ p + rs.length → rs[n - 1 - p]? = some r → r < p → Lands n rs r → Lands n rs p

/-- The steps of the pass from entry `j` on follow the chain of moves. -/
theorem landing_drop_iff_lands {n : Nat} {rs : List Nat} (hrs : rs.Nodup)
    (j : Nat) (hj : j ≤ rs.length) {p : Nat} (hp : p + j < n) (hmem : p ∉ rs.drop j) :
    (landing (n - j) (rs.drop j) p).isSome ↔ Lands n rs p := by
  induction hd : rs.length - j generalizing j p with
  | zero =>
    rw [List.drop_eq_nil_of_le (by omega), landing]
    exact ⟨fun _ => .kept (by omega), fun _ => rfl⟩
  | succ d ih =>
    have hlt : j < rs.length := by omega
    rw [List.drop_eq_getElem_cons hlt] at hmem ⊢
    rw [List.mem_cons, not_or] at hmem
    have hnotin : rs[j] ∉ rs.drop (j + 1) := by
      have hnodup := hrs.sublist (List.drop_sublist j rs)
      rw [List.drop_eq_getElem_cons hlt] at hnodup
      exact (List.nodup_cons.mp hnodup).1
    rw [landing, if_neg hmem.1, show n - j - 1 = n - (j + 1) by omega]
    by_cases hlast : p + 1 = n - j
    -- `p` is last when the entry at `j` is removed, so it moves there.
    · have hentry : rs[n - 1 - p]? = some rs[j] := by
        rw [show n - 1 - p = j by omega, List.getElem?_eq_getElem hlt]
      rw [if_pos hlast]
      by_cases hr : rs[j] < n - j
      · have hne := hmem.1
        rw [if_pos hr, ih (j + 1) (by omega) (by omega) hnotin (by omega)]
        constructor
        · exact fun h => .moved (by omega) (by omega) hentry (by omega) h
        · intro h
          cases h with
          | kept hkept => omega
          | moved _ _ hr' _ h' =>
            rw [hentry, Option.some.injEq] at hr'
            exact hr' ▸ h'
      · rw [if_neg hr]
        constructor
        · intro h
          exact nomatch h
        · intro h
          cases h with
          | kept hkept => omega
          | moved _ _ hr' hlt' _ =>
            rw [hentry, Option.some.injEq] at hr'
            omega
    -- Not the last element: this removal leaves it alone.
    · rw [if_neg hlast]
      exact ih (j + 1) (by omega) (by omega) hmem.2 (by omega)

/-- Whether a place lands can be read off the removals, if they are distinct and it is none of
    them. -/
theorem landing_iff_lands {n : Nat} {rs : List Nat} (hrs : rs.Nodup)
    {p : Nat} (hp : p < n) (hmem : p ∉ rs) : (landing n rs p).isSome ↔ Lands n rs p := by
  simpa using landing_drop_iff_lands hrs 0 (Nat.zero_le _) (p := p) (by omega) (by simpa)

/-- No more distinct positions are recorded than there are. -/
theorem length_le_of_nodup {n : Nat} {rs : List Nat} (hrs : rs.Nodup) (hlt : ∀ r ∈ rs, r < n) :
    rs.length ≤ n := by
  have hsub : rs ⊆ List.range n := fun r hr => List.mem_range.mpr (hlt r hr)
  simpa using (hrs.subperm hsub).length_le

/-- A pass over distinct recorded positions leaves exactly the elements at the other
    positions if and only if each of these lands. -/
theorem mem_foldl_swapRemove_iff {l : List α} (hl : l.Nodup) {rs : List Nat} (hrs : rs.Nodup)
    (hlt : ∀ r ∈ rs, r < l.length) :
    (∀ x, x ∈ rs.foldl swapRemove l ↔ ∃ p, l[p]? = some x ∧ p ∉ rs) ↔
      ∀ p < l.length, p ∉ rs → Lands l.length rs p := by
  have hk := length_le_of_nodup hrs hlt
  constructor
  · intro hexact p hp hmem
    have hin : l[p] ∈ rs.foldl swapRemove l :=
      (hexact l[p]).mpr ⟨p, List.getElem?_eq_getElem hp, hmem⟩
    obtain ⟨p', hp', hland⟩ := (mem_foldl_swapRemove l rs l[p]).mp hin
    obtain ⟨hlt', heq⟩ := List.getElem?_eq_some_iff.mp hp'
    have hpp : p' = p := (hl.getElem_inj_iff).mp heq
    exact (landing_iff_lands hrs hp hmem).mp (hpp ▸ hland)
  · intro hlands x
    have hkeep : ∀ p < l.length, p ∉ rs → (landing l.length rs p).isSome :=
      fun p hp hmem => (landing_iff_lands hrs hp hmem).mpr (hlands p hp hmem)
    rw [mem_foldl_swapRemove]
    constructor
    · rintro ⟨p, hx, hland⟩
      have hp := (List.getElem?_eq_some_iff.mp hx).1
      exact ⟨p, hx, (landing_isSome_iff hrs hlt hkeep hp).mp hland⟩
    · rintro ⟨p, hx, hmem⟩
      have hp := (List.getElem?_eq_some_iff.mp hx).1
      exact ⟨p, hx, hkeep p hp hmem⟩

end SwapRemove
