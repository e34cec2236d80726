import Mathlib.Tactic.NormNum
import Msgbox.Map

/-!
# Doubling the buckets of the hash map

`double_size` unlinks pairs from the bucket it walks through while it puts them in front of
others. The invariant of its loops: a pair that is not in its own bucket is in a bucket of the
first half that is still to be walked through.

## Key results

- `addZeroedItems_eq`: for which sizes the array can be enlarged
- `doubleSize_spec`: the buckets hold the same pairs afterwards, each in its own one
-/

namespace Msgbox

open Buckets

/-! ## Arithmetic -/

theorem bucketIndex_lt {n : Nat} (hpos : 0 < n) (hn : n < 4294967296) (h : Int32) :
    bucketIndex h n < n := by
  rw [bucketIndex, UInt32.toNat_mod, UInt32.toNat_ofNat', Nat.mod_eq_of_lt hn]
  exact Nat.mod_lt _ hpos

/-- The size in bytes is computed as an `int`, which holds it if it is below 2³¹. -/
theorem addZeroedItems_eq {α : Type} (items : List (List α)) (n : Nat) :
    addZeroedItems items n =
      if (items.length + n) * 8 < 2147483648 then some (items ++ List.replicate n []) else
        none := by
  have hsize : (Int32.ofNat (items.length + n) * 8).toInt = ((items.length + n : Nat) : Int) * 8 ↔
      (items.length + n) * 8 < 2147483648 := by
    generalize items.length + n = count
    constructor
    · intro h
      have hlt := Int32.toInt_lt (Int32.ofNat count * 8)
      omega
    · intro h
      have height : (8 : Int32).toInt = 8 := rfl
      rw [Int32.toInt_mul, Int32.toInt_ofNat_of_lt (by omega), height]
      exact Int.bmod_eq_of_le (by omega) (by omega)
  unfold addZeroedItems
  simp only [hsize]

/-! ## One bucket -/

namespace MapStruct

variable {κ ν : Type} (fns : MapFns κ) {n index entry : Nat}
  {buckets : List (List (KeyValue κ ν))}

@[simp] theorem length_rehashBucket (fuel : Nat) :
    (rehashBucket fns n index fuel entry buckets).length = buckets.length := by
  induction fuel generalizing entry buckets with
  | zero => rfl
  | succ fuel ih =>
    rw [rehashBucket]
    split
    · rfl
    · dsimp only
      split
      · exact ih
      · rw [ih, List.length_modify, List.length_modify]

/-- The walk through a bucket only moves pairs. -/
private theorem rehashBucket_perm (index fuel entry : Nat) (hpos : 0 < n) (hn : n < 4294967296)
    (hlen : buckets.length = n) :
    (rehashBucket fns n index fuel entry buckets).flatten.Perm buckets.flatten := by
  induction fuel generalizing entry buckets with
  | zero => exact .refl _
  | succ fuel ih =>
    rw [rehashBucket]
    split
    · exact .refl _
    · rename_i pair hpair
      dsimp only
      split
      · exact ih _ hlen
      · have hnew : bucketIndex (fns.hash pair.key) n < buckets.length := by
          rw [hlen]
          exact bucketIndex_lt hpos hn _
        exact (ih _ (by simpa using hlen)).trans (flatten_move_perm hpair hnew)

/-- The bucket in which a pair is looked for. -/
def placeOf (n : Nat) (pair : KeyValue κ ν) : Nat := bucketIndex (fns.hash pair.key) n

/-- A walk that has reached the end of its bucket. -/
private theorem settled_of_end {P : Nat → Prop} (hend : (at_ buckets index).length ≤ entry)
    (hbefore : ∀ j < entry, ∀ pair, (at_ buckets index)[j]? = some pair →
      placeOf fns n pair = index)
    (hothers : ∀ i < buckets.length, i ≠ index → ∀ pair ∈ at_ buckets i,
      placeOf fns n pair = i ∨ P i) :
    ∀ i < buckets.length, ∀ pair ∈ at_ buckets i,
      placeOf fns n pair = i ∨ (i ≠ index ∧ P i) := by
  intro i hi pair hpair
  by_cases heq : i = index
  · subst heq
    obtain ⟨j, hj⟩ := List.mem_iff_getElem?.mp hpair
    have hlt := (List.getElem?_eq_some_iff.mp hj).1
    exact .inl (hbefore j (by omega) pair hj)
  · rcases hothers i hi heq pair hpair with hplaced | hP
    · exact .inl hplaced
    · exact .inr ⟨heq, hP⟩

/-- After the walk from the link at `entry` on, if the pairs before it belong there, all pairs in
    the bucket do, and what came into other buckets belongs there. -/
private theorem rehashBucket_settled {P : Nat → Prop} (fuel : Nat) (hindex : index < buckets.length)
    (hfuel : (at_ buckets index).length ≤ entry + fuel)
    (hbefore : ∀ j < entry, ∀ pair, (at_ buckets index)[j]? = some pair →
      placeOf fns n pair = index)
    (hothers : ∀ i < buckets.length, i ≠ index → ∀ pair ∈ at_ buckets i,
      placeOf fns n pair = i ∨ P i) :
    ∀ i < buckets.length, ∀ pair ∈ at_ (rehashBucket fns n index fuel entry buckets) i,
      placeOf fns n pair = i ∨ (i ≠ index ∧ P i) := by
  induction fuel generalizing entry buckets with
  | zero => exact settled_of_end fns hfuel hbefore hothers
  | succ fuel ih =>
    rw [rehashBucket]
    split
    · rename_i hnone
      exact settled_of_end fns (List.getElem?_eq_none_iff.mp hnone) hbefore hothers
    · rename_i pair hpair
      have hentry := (List.getElem?_eq_some_iff.mp hpair).1
      dsimp only
      split
      · -- The pair stays, and the walk goes on behind it.
        rename_i hplaced
        refine ih hindex (by omega) ?_ hothers
        intro j hj p hp
        rcases Nat.lt_succ_iff_lt_or_eq.mp hj with hlt | rfl
        · exact hbefore j hlt p hp
        · rw [hpair] at hp
          exact Option.some.inj hp ▸ hplaced
      · -- The pair moves; the next one is now at the same link.
        rename_i hmoves
        have hbucket : at_ ((buckets.modify index (·.eraseIdx entry)).modify
            (bucketIndex (fns.hash pair.key) n) (pair :: ·)) index =
              (at_ buckets index).eraseIdx entry := by
          rw [at_modify _ _ _ _ (by simpa using hindex), if_neg hmoves, at_modify _ _ _ _ hindex,
            if_pos rfl]
        have hlength : ((buckets.modify index (·.eraseIdx entry)).modify
            (bucketIndex (fns.hash pair.key) n) (pair :: ·)).length = buckets.length := by simp
        rw [← hlength]
        apply ih
        · rw [hlength]
          exact hindex
        · rw [hbucket, List.length_eraseIdx_of_lt hentry]
          omega
        · intro j hj p hp
          rw [hbucket, List.getElem?_eraseIdx, if_pos hj] at hp
          exact hbefore j hj p hp
        · intro i hi hne p hp
          rw [hlength] at hi
          rw [at_modify _ _ _ _ (by simpa using hi), at_modify _ _ _ _ hi,
            if_neg (Ne.symm hne)] at hp
          split at hp
          · rename_i hnew
            rcases List.mem_cons.mp hp with rfl | hold
            · exact .inl hnew
            · exact hothers i hi hne p hold
          · exact hothers i hi hne p hp

/-! ## All buckets -/

theorem rehash_spec (start num : Nat) (hpos : 0 < n) (hn : n < 4294967296)
    (hlen : buckets.length = n) (hrange : start + num = n) (hstart : start ≤ n / 2)
    (hsettled : ∀ i < buckets.length, ∀ pair ∈ at_ buckets i,
      placeOf fns n pair = i ∨ (start ≤ i ∧ i < n / 2)) :
    (rehash fns n (List.range' start num) buckets).length = n ∧
      (rehash fns n (List.range' start num) buckets).flatten.Perm buckets.flatten ∧
      Placed (placeOf fns n) (rehash fns n (List.range' start num) buckets) := by
  induction num generalizing start buckets with
  | zero => omega
  | succ num ih =>
    rw [List.range'_succ, rehash]
    -- What walking through one bucket does to the others.
    have hwalk := rehashBucket_settled fns (P := fun i => start ≤ i ∧ i < n / 2)
      (at_ buckets start).length (hlen ▸ (by omega : start < n)) (Nat.zero_add _).ge
      (fun j hj => absurd hj (Nat.not_lt_zero j)) (fun i hi _ => hsettled i hi)
    have hperm := rehashBucket_perm fns start (at_ buckets start).length 0 hpos hn hlen
    have hlength : (rehashBucket fns n start (at_ buckets start).length 0 buckets).length = n := by
      rw [length_rehashBucket, hlen]
    generalize rehashBucket fns n start (at_ buckets start).length 0 buckets = walked at *
    split
    · -- The first half has been walked through.
      refine ⟨hlength, hperm, ?_⟩
      intro i hi pair hpair
      rcases hwalk i (by omega) pair hpair with hplaced | ⟨hne, hle, hlt⟩
      · exact hplaced
      · omega
    -- The buckets left to walk through are those from the next one on.
    · have hrest : ∀ i < walked.length, ∀ pair ∈ at_ walked i,
          placeOf fns n pair = i ∨ (start + 1 ≤ i ∧ i < n / 2) := by
        intro i hi pair hpair
        rcases hwalk i (by omega) pair hpair with hplaced | ⟨hne, hle, hlt⟩
        · exact .inl hplaced
        · exact .inr ⟨by omega, hlt⟩
      obtain ⟨hlen', hperm', hplaced⟩ := ih (start + 1) hlength (by omega) (by omega) hrest
      exact ⟨hlen', hperm'.trans hperm, hplaced⟩

/-- `double_size` loses, duplicates and misplaces no pair. It fails if the new buckets take 2³¹
    bytes or more. -/
theorem doubleSize_spec (hpos : 0 < buckets.length) :
    match doubleSize fns buckets with
    | some doubled => buckets.length * 16 < 2147483648 ∧ doubled.length = 2 * buckets.length ∧
        doubled.flatten.Perm buckets.flatten ∧ Placed (placeOf fns doubled.length) doubled
    | none => 2147483648 ≤ buckets.length * 16 := by
  unfold doubleSize
  rw [addZeroedItems_eq]
  by_cases hsize : (buckets.length + buckets.length) * 8 < 2147483648
  · rw [if_pos hsize, Option.map_some]
    have hlen : (buckets ++ List.replicate buckets.length []).length = 2 * buckets.length := by
      rw [List.length_append, List.length_replicate]
      omega
    have hflatten : (buckets ++ List.replicate buckets.length []).flatten = buckets.flatten := by
      simp
    dsimp only
    rw [List.range_eq_range']
    -- The new half is empty.
    obtain ⟨hlen', hperm, hplaced⟩ := rehash_spec fns 0 (2 * buckets.length) (by omega)
      (by omega) hlen (by omega) (Nat.zero_le _) (by
        intro i hi pair hpair
        refine .inr ⟨Nat.zero_le i, ?_⟩
        by_contra hnew
        rw [at_, List.getD_eq_getElem?_getD, List.getElem?_append_right (by omega),
          List.getElem?_replicate] at hpair
        split at hpair <;> exact absurd hpair List.not_mem_nil)
    rw [hlen]
    refine ⟨by omega, hlen', hflatten ▸ hperm, ?_⟩
    rw [hlen']
    exact hplaced
  · rw [if_neg hsize]
    show 2147483648 ≤ buckets.length * 16
    omega

end MapStruct

end Msgbox
