import Mathlib.Data.List.GetD
import Mathlib.Data.List.InsertIdx
import Msgbox.MapMemory
import Msgbox.Spec.LinkedLists
import Msgbox.Spec.Rehash

/-!
# Buckets in memory

The lists of a heap hold pointers, and the pointers stand for the pairs of a map whose buckets are
values. What the walk of `double_size` does to the links is what it does to the values.

## Key results

- `BucketLists.find`: the entry that is found is the link to the pair that is found
- `rehashBucket_spec`, `rehash_spec`: the two loops of `double_size`
-/

namespace Msgbox

open Links Buckets

variable {κ ν : Type} {h h' : Heap Nat Nat} {ids : Nat → List Nat} {ptrs : List (List Nat)}
  {pair : Nat → Option (KeyValue κ ν)} {buckets : List (List (KeyValue κ ν))}

/-! ## Pointers and pairs -/

/-- The pointers point to the pairs. -/
structure PointsTo (pair : Nat → Option (KeyValue κ ν)) (ptrs : List (List Nat))
    (buckets : List (List (KeyValue κ ν))) : Prop where
  length : ptrs.length = buckets.length
  items : ∀ i, (at_ ptrs i).map pair = (at_ buckets i).map some

/-- Behind the array there are no buckets. -/
theorem at_of_le {α : Type} {buckets : List (List α)} {i : Nat} (hi : buckets.length ≤ i) :
    at_ buckets i = [] :=
  List.getD_eq_default _ _ hi

/-- The pointers of a bucket lead to its pairs, place by place. -/
private theorem PointsTo.getElem? (hpoints : PointsTo pair ptrs buckets) (i j : Nat) :
    ((at_ ptrs i)[j]?).map pair = ((at_ buckets i)[j]?).map some := by
  rw [← List.getElem?_map, ← List.getElem?_map, hpoints.items]

/-- There are as many pointers in a bucket as pairs. -/
theorem PointsTo.length_at (hpoints : PointsTo pair ptrs buckets) (i : Nat) :
    (at_ ptrs i).length = (at_ buckets i).length := by
  have hlen := congrArg List.length (hpoints.items i)
  rwa [List.length_map, List.length_map] at hlen

/-- A pointer in a bucket, and the pair behind it. -/
theorem PointsTo.entry (hpoints : PointsTo pair ptrs buckets) {i j : Nat} {keyValue : KeyValue κ ν}
    (hentry : (at_ buckets i)[j]? = some keyValue) :
    ∃ p, (at_ ptrs i)[j]? = some p ∧ pair p = some keyValue := by
  have hitem := hpoints.getElem? i j
  rw [hentry] at hitem
  cases hp : (at_ ptrs i)[j]? with
  | none =>
    rw [hp] at hitem
    exact absurd hitem.symm (Option.some_ne_none _)
  | some p =>
    rw [hp] at hitem
    exact ⟨p, rfl, Option.some.inj hitem⟩

/-- One bucket changes in the same way on both sides. -/
theorem PointsTo.modify (hpoints : PointsTo pair ptrs buckets) (i : Nat) {f : List Nat → List Nat}
    {g : List (KeyValue κ ν) → List (KeyValue κ ν)}
    (hfg : (f (at_ ptrs i)).map pair = (g (at_ buckets i)).map some) :
    PointsTo pair (ptrs.modify i f) (buckets.modify i g) where
  length := by rw [List.length_modify, List.length_modify, hpoints.length]
  items j := by
    by_cases hj : j < ptrs.length
    · rw [at_modify _ _ _ _ hj, at_modify _ _ _ _ (hpoints.length ▸ hj)]
      split
      · rename_i hij
        rw [← hij, hfg]
      · exact hpoints.items j
    · have hlen := hpoints.length
      rw [at_of_le (by rw [List.length_modify]; omega),
        at_of_le (by rw [List.length_modify]; omega)]
      rfl

/-- A pointer in front of a bucket is a pair in front of it. -/
theorem PointsTo.insert (hpoints : PointsTo pair ptrs buckets) (i : Nat) {p : Nat}
    {keyValue : KeyValue κ ν} (hp : pair p = some keyValue) :
    PointsTo pair (ptrs.modify i (p :: ·)) (buckets.modify i (keyValue :: ·)) := by
  apply hpoints.modify
  rw [List.map_cons, List.map_cons, hpoints.items, hp]

/-- A pointer taken out of a bucket is a pair taken out of it. -/
theorem PointsTo.remove (hpoints : PointsTo pair ptrs buckets) (i j : Nat) :
    PointsTo pair (ptrs.modify i (·.eraseIdx j)) (buckets.modify i (·.eraseIdx j)) := by
  apply hpoints.modify
  rw [← List.eraseIdx_map, ← List.eraseIdx_map, hpoints.items]

/-- Only the pointers that are there matter. -/
theorem PointsTo.congr (hpoints : PointsTo pair ptrs buckets) {pair' : Nat → Option (KeyValue κ ν)}
    (hsame : ∀ p ∈ ptrs.flatten, pair' p = pair p) : PointsTo pair' ptrs buckets where
  length := hpoints.length
  items i := by
    rw [← hpoints.items]
    apply List.map_congr_left
    intro p hp
    exact hsame p (mem_flatten_of_at hp)

/-! ## Lists of pointers -/

/-- The lists of the heap hold these pointers. -/
structure BucketLists (h : Heap Nat Nat) (ids : Nat → List Nat) (ptrs : List (List Nat)) : Prop
    extends Holds h ids where
  items : ∀ i, h.items (ids i) = at_ ptrs i

/-- A bucket has a node for each pointer. -/
theorem BucketLists.length (hb : BucketLists h ids ptrs) (i : Nat) :
    (ids i).length = (at_ ptrs i).length := by
  rw [← hb.items, length_items (hb.seg i).alloc]

/-- The nodes of a bucket before and behind an entry. -/
theorem BucketLists.split (hb : BucketLists h ids ptrs) {i j p : Nat}
    (hp : (at_ ptrs i)[j]? = some p) :
    ∃ n, ids i = (ids i).take j ++ n :: (ids i).drop (j + 1) ∧ h.itemOf n = some p := by
  have hj : j < (ids i).length := by
    rw [hb.length]
    exact (List.getElem?_eq_some_iff.mp hp).1
  obtain ⟨item, hitem⟩ := hb.itemOf (List.getElem_mem hj)
  refine ⟨(ids i)[j], ?_, ?_⟩
  · rw [← List.drop_eq_getElem_cons hj, List.take_append_drop]
  · have hdrop := (items_take (hb.seg i).alloc j).2
    rw [List.drop_eq_getElem_cons hj, items_cons hitem, hb.items] at hdrop
    rw [← hp, ← List.head?_drop, ← hdrop, hitem]
    rfl

/-- A pointer is put in front of a bucket. -/
theorem BucketLists.insert (hb : BucketLists h ids ptrs) {i : Nat} (hi : i < ptrs.length)
    (p : Nat) :
    ∃ h', listInsert h (.root i) p = some h' ∧ h'.fresh = h.fresh + 1 ∧
      BucketLists h' (Function.update ids i (h.fresh :: ids i)) (ptrs.modify i (p :: ·)) := by
  obtain ⟨h', hinsert, hh', hfresh, hitem⟩ :=
    listInsert_spec hb.toHolds (show ids i = [] ++ ids i from rfl) p
  refine ⟨h', hinsert, hfresh, hh', fun j => ?_⟩
  have hold : ∀ n ∈ ids j, h'.itemOf n = h.itemOf n := fun n hn => by
    rw [hitem, Function.update_of_ne (Nat.ne_of_lt (hb.lt hn))]
  have hnew : h'.itemOf h.fresh = some p := by rw [hitem, Function.update_self]
  by_cases hj : j = i
  · subst hj
    rw [at_modify _ _ _ _ hi, if_pos rfl, Function.update_self, items_cons hnew, items_congr hold,
      hb.items]
  · rw [Function.update_of_ne hj, items_congr hold, hb.items]
    by_cases hlt : j < ptrs.length
    · rw [at_modify _ _ _ _ hlt, if_neg (Ne.symm hj)]
    · rw [at_of_le (Nat.not_lt.mp hlt),
        at_of_le (by rw [List.length_modify]; exact Nat.not_lt.mp hlt)]

/-- The entry at a link is removed. -/
theorem BucketLists.remove (hb : BucketLists h ids ptrs) {i j p : Nat}
    (hp : (at_ ptrs i)[j]? = some p) :
    ∃ h', listRemoveFirst h (placeAfter i ((ids i).take j)) = some (h', some p) ∧
      h'.fresh = h.fresh ∧
      BucketLists h' (Function.update ids i ((ids i).take j ++ (ids i).drop (j + 1)))
        (ptrs.modify i (·.eraseIdx j)) := by
  obtain ⟨n, hids, hn⟩ := hb.split hp
  obtain ⟨h', hremove, hh', hfreed⟩ := listRemoveFirst_spec hb.toHolds hids
  have hnodup := hb.nodup i
  rw [hids, List.nodup_middle, List.nodup_cons] at hnodup
  have hmem : n ∈ ids i := hids ▸ List.mem_append_right _ List.mem_cons_self
  refine ⟨h', hn ▸ hremove, hfreed.fresh, hh', fun k => ?_⟩
  have hi : i < ptrs.length := lt_of_getElem? hp
  by_cases hk : k = i
  -- In its own bucket the pointer goes.
  · subst hk
    have hsame : ∀ m ∈ (ids k).take j ++ (ids k).drop (j + 1), h'.itemOf m = h.itemOf m := by
      intro m hm
      apply hfreed.item
      rintro rfl
      exact hnodup.1 hm
    have htake := (items_take (hb.seg k).alloc j).1
    have hdrop := (items_take (hb.seg k).alloc (j + 1)).2
    rw [at_modify _ _ _ _ hi, if_pos rfl, Function.update_self, items_congr hsame, items_append,
      htake, hdrop, hb.items, ← List.eraseIdx_eq_take_drop_succ]
  -- The other buckets share no node with it.
  · have hsame : ∀ m ∈ ids k, h'.itemOf m = h.itemOf m := by
      intro m hm
      apply hfreed.item
      rintro rfl
      exact hb.disjoint i k (Ne.symm hk) m hmem hm
    rw [Function.update_of_ne hk, items_congr hsame, hb.items]
    by_cases hlt : k < ptrs.length
    · rw [at_modify _ _ _ _ hlt, if_neg (Ne.symm hk)]
    · rw [at_of_le (Nat.not_lt.mp hlt),
        at_of_le (by rw [List.length_modify]; exact Nat.not_lt.mp hlt)]

/-! ## Looking for a pair -/

/-- The entry that is found is the link to the pair that is found. -/
theorem BucketLists.find (hb : BucketLists h ids ptrs) (hpoints : PointsTo pair ptrs buckets)
    (found : Nat → Bool) (eq : KeyValue κ ν → Bool)
    (hfound : ∀ p keyValue, pair p = some keyValue → found p = eq keyValue) (i : Nat) :
    listFindEntry h (.root i) found =
      some (((at_ buckets i).findIdx? eq).map fun j => placeAfter i ((ids i).take j)) := by
  have hfind : (at_ ptrs i).findIdx? found = (at_ buckets i).findIdx? eq := by
    have hitems := hpoints.items i
    generalize at_ ptrs i = ps at hitems
    generalize at_ buckets i = keyValues at hitems
    induction ps generalizing keyValues with
    | nil =>
      obtain rfl := List.map_eq_nil_iff.mp hitems.symm
      rfl
    | cons p ps ih =>
      cases keyValues with
      | nil => exact absurd hitems (List.cons_ne_nil _ _)
      | cons keyValue keyValues =>
        rw [List.map_cons, List.map_cons, List.cons.injEq] at hitems
        rw [List.findIdx?_cons, List.findIdx?_cons, hfound p keyValue hitems.1, ih _ hitems.2]
  rw [listFindEntry_spec hb.toHolds, hb.items, hfind]

/-! ## Doubling the buckets -/

variable {n index : Nat} (fns : MapFns κ)

/-- The walk through a bucket, from the link behind its first nodes on, moves the pointers as it
    moves the pairs. -/
theorem rehashBucket_spec (hpos : 0 < n) (hn : n < 4294967296) (hlen : ptrs.length = n)
    {pre suf : List Nat} {fuel fuel' : Nat} (hb : BucketLists h ids ptrs)
    (hpoints : PointsTo pair ptrs buckets) (hids : ids index = pre ++ suf)
    (hfuel : suf.length < fuel) (hfuel' : suf.length ≤ fuel') :
    ∃ h' ids' ptrs',
      MapMemory.rehashBucket fns pair n index fuel (placeAfter index pre) h = some h' ∧
      BucketLists h' ids' ptrs' ∧ ptrs'.length = n ∧ ptrs'.flatten.Perm ptrs.flatten ∧
      PointsTo pair ptrs' (MapStruct.rehashBucket fns n index fuel' pre.length buckets) := by
  -- The walk stands at the link behind `pre`, and what is left of the bucket is `suf`.
  induction suf generalizing h ids ptrs buckets pre fuel fuel' with
  | nil =>
    obtain ⟨fuel, rfl⟩ := Nat.exists_eq_succ_of_ne_zero (Nat.ne_of_gt hfuel)
    obtain ⟨mid, hp⟩ := around_of hb.toHolds hids
    refine ⟨h, ids, ptrs, ?_, hb, hlen, .refl _, ?_⟩
    · rw [MapMemory.rehashBucket, hp.read, hp.behind]
      rfl
    · -- The link that the walk has come to is the last one.
      have hend : (at_ buckets index)[pre.length]? = none := by
        apply List.getElem?_eq_none
        rw [← hpoints.length_at, ← hb.length, hids, List.append_nil]
      cases fuel' with
      | zero => exact hpoints
      | succ fuel' =>
        rw [MapStruct.rehashBucket, hend]
        exact hpoints
  | cons m suf ih =>
    obtain ⟨fuel, rfl⟩ := Nat.exists_eq_succ_of_ne_zero (Nat.ne_of_gt (Nat.zero_lt_of_lt hfuel))
    obtain ⟨fuel', rfl⟩ := Nat.exists_eq_succ_of_ne_zero (Nat.ne_of_gt (Nat.zero_lt_of_lt hfuel'))
    obtain ⟨mid, hp⟩ := around_of hb.toHolds hids
    obtain ⟨hmid, node, hnode, -⟩ := hp.behind
    have hlt : pre.length < (at_ buckets index).length := by
      rw [← hpoints.length_at, ← hb.length, hids]
      simp
    obtain ⟨p, hptr, hpair⟩ := hpoints.entry (List.getElem?_eq_getElem hlt)
    have htake : (ids index).take pre.length = pre := by rw [hids, List.take_left]
    have hdrop : (ids index).drop (pre.length + 1) = suf := by
      rw [hids, List.drop_length_add_append]
      rfl
    have hitem : h.itemOf m = some p := by
      obtain ⟨m', hsplit, hm'⟩ := hb.split hptr
      rw [htake, hdrop, hids] at hsplit
      have hcons := List.append_cancel_left hsplit
      rw [List.cons.injEq] at hcons
      rw [hcons.1, hm']
    simp only [MapMemory.rehashBucket, hp.read, hmid, Option.bind_some, hitem, hpair,
      MapStruct.rehashBucket, List.getElem?_eq_getElem hlt]
    by_cases hsame : bucketIndex (fns.hash (at_ buckets index)[pre.length].key) n = index
    · -- The pair stays, and the walk goes on behind its node.
      rw [if_pos hsame, if_pos hsame]
      have hids' : ids index = (pre ++ [m]) ++ suf := by rw [hids, List.append_assoc]; rfl
      have hnext := ih hlen hb hpoints hids' (Nat.lt_of_succ_lt_succ hfuel)
        (show suf.length ≤ fuel' from Nat.le_of_succ_le_succ hfuel')
      rw [placeAfter_concat, List.length_append] at hnext
      exact hnext
    -- The pair moves to the front of another bucket, and the walk goes on at the same link.
    · rw [if_neg hsame, if_neg hsame]
      generalize htarget : bucketIndex (fns.hash (at_ buckets index)[pre.length].key) n = target
        at hsame ⊢
      have hlt' : target < n := htarget ▸ bucketIndex_lt hpos hn _
      obtain ⟨h₁, hremove, hfresh₁, hb₁⟩ := hb.remove hptr
      obtain ⟨h₂, hinsert, hfresh₂, hb₂⟩ :=
        hb₁.insert (show target < (ptrs.modify index (·.eraseIdx pre.length)).length by
          rw [List.length_modify, hlen]; exact hlt') p
      rw [htake] at hremove
      rw [htake, hdrop] at hb₁ hb₂
      have hpoints₂ := (hpoints.remove index pre.length).insert target hpair
      -- What is left of this bucket is not touched by that.
      have hids₂ : Function.update (Function.update ids index (pre ++ suf)) target
          (h₁.fresh :: Function.update ids index (pre ++ suf) target) index = pre ++ suf := by
        rw [Function.update_of_ne (Ne.symm hsame), Function.update_self]
      obtain ⟨h', ids', ptrs', hloop, hb', hlen', hperm, hpoints'⟩ :=
        ih (by rw [List.length_modify, List.length_modify, hlen]) hb₂ hpoints₂ hids₂
          (Nat.lt_of_succ_lt_succ hfuel)
          (show suf.length ≤ fuel' from Nat.le_of_succ_le_succ hfuel')
      refine ⟨h', ids', ptrs', ?_, hb', hlen', ?_, hpoints'⟩
      · simp only [hremove, Option.bind_some, MapMemory.bucketPtr, if_pos hlt', hinsert, hloop]
      · exact hperm.trans (flatten_move_perm hptr (hlen ▸ hlt'))

/-- The walks through the buckets. -/
theorem rehash_spec (indices : List Nat) (hpos : 0 < n) (hn : n < 4294967296)
    (hindices : ∀ i ∈ indices, i < n) (hlen : ptrs.length = n) (hb : BucketLists h ids ptrs)
    (hpoints : PointsTo pair ptrs buckets) :
    ∃ h' ids' ptrs', MapMemory.rehash fns pair n indices h = some h' ∧ BucketLists h' ids' ptrs' ∧
      ptrs'.length = n ∧ ptrs'.flatten.Perm ptrs.flatten ∧
      PointsTo pair ptrs' (MapStruct.rehash fns n indices buckets) := by
  -- One bucket after the other, up to half of them.
  induction indices generalizing h ids ptrs buckets with
  | nil => exact ⟨h, ids, ptrs, rfl, hb, hlen, .refl _, hpoints⟩
  | cons index indices ih =>
    have hlt : index < n := hindices index List.mem_cons_self
    have hle := length_le_fresh hb.toHolds index
    obtain ⟨h₁, ids₁, ptrs₁, hwalk, hb₁, hlen₁, hperm₁, hpoints₁⟩ :=
      rehashBucket_spec fns hpos hn hlen hb hpoints
        (show ids index = [] ++ ids index from rfl) (Nat.lt_succ_of_le hle)
        (show (ids index).length ≤ (at_ buckets index).length by rw [hb.length, hpoints.length_at])
    have hwalk : MapMemory.rehashBucket fns pair n index (h.fresh + 1) (.root index) h = some h₁ :=
      hwalk
    simp only [MapMemory.rehash, MapMemory.bucketPtr, if_pos hlt, Option.bind_some, hwalk,
      MapStruct.rehash]
    split
    · exact ⟨h₁, ids₁, ptrs₁, rfl, hb₁, hlen₁, hperm₁, hpoints₁⟩
    · obtain ⟨h', ids', ptrs', hrest, hb', hlen', hperm', hpoints'⟩ :=
        ih (fun i hi => hindices i (List.mem_cons_of_mem index hi)) hlen₁ hb₁ hpoints₁
      exact ⟨h', ids', ptrs', hrest, hb', hlen', hperm'.trans hperm₁, hpoints'⟩

end Msgbox
