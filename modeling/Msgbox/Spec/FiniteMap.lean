import Mathlib.Data.Set.Card
import Mathlib.Data.List.Induction
import Mathlib.Data.List.AList
import Msgbox.Spec.Rehash

/-!
# The hash map is a finite map

Every pair lies in the bucket of its key and no key occurs twice, so looking through one bucket
finds the pair of a key. The map grows with the number of its keys, up to the size at which its
array can not be enlarged any more.

## Key results

- `Valid`: the invariant of the map
- `set_spec`, `unset_spec`, `get_eq_some_iff`: what the operations do to the pairs
- `lastValue`: the value that a sequence of calls leaves for a key
- `tables_are_maps`: both tables of `msgbox.c` implement it for every sequence of calls, up to
  that size
-/

namespace Msgbox

open Buckets

/-! ## Keys -/

/-- The equality of the map is that of the keys. -/
def MapFns.Exact {κ : Type} (fns : MapFns κ) : Prop := ∀ a b, fns.eq a b = true ↔ a = b

/-- `address_eq` decides equality, and equal addresses have one hash. -/
private theorem addressFns_exact : addressFns.Exact := by
  intro a b
  have hip := a.ip.toNat_lt
  have hip' := b.ip.toNat_lt
  have hport := a.port.toNat_lt
  have hport' := b.port.toNat_lt
  have hprotocol := a.protocolType.toNat_lt
  have hprotocol' := b.protocolType.toNat_lt
  constructor
  · intro h
    have hbytes : a.bytes = b.bytes := eq_of_beq h
    simp only [RawAddress.bytes, List.cons.injEq, ← UInt8.toNat_inj, UInt8.toNat_ofNat'] at hbytes
    obtain ⟨h0, h1, h2, h3, h4, h5, h6, h7, -⟩ := hbytes
    have hips : a.ip = b.ip := UInt32.toNat_inj.mp (by omega)
    have hports : a.port = b.port := UInt16.toNat_inj.mp (by omega)
    have hprotocols : a.protocolType = b.protocolType := UInt16.toNat_inj.mp (by omega)
    cases a
    cases b
    simp only at hips hports hprotocols
    rw [hips, hports, hprotocols]
  · rintro rfl
    exact beq_self_eq_true _

/-- The same holds of reply ids, compared and hashed as pointers. -/
private theorem replyIdFns_exact : replyIdFns.Exact := by
  intro a b
  show (a.toUInt64.toUInt16 == b.toUInt64.toUInt16) = true ↔ a = b
  rw [UInt16.toUInt16_toUInt64, UInt16.toUInt16_toUInt64, beq_iff_eq]

namespace MapStruct

variable {κ ν : Type} {fns : MapFns κ} {map map' : MapStruct κ ν} {key : κ} {value : ν}

/-- The pairs of a map. -/
def pairs (map : MapStruct κ ν) : List (KeyValue κ ν) := map.buckets.flatten

/-- The invariant of the map: how many buckets there are, that every pair is in its own one,
    and no key twice, and that the map has not outgrown its buckets. -/
structure Valid (fns : MapFns κ) (map : MapStruct κ ν) : Prop where
  size : ∃ k ≤ 23, map.buckets.length = 16 * 2 ^ k
  placed : Placed (placeOf fns map.buckets.length) map.buckets
  nodup : (map.pairs.map KeyValue.key).Nodup
  count : map.count = Int32.ofNat map.pairs.length
  load : map.pairs.length < 3 * map.buckets.length

/-- A valid map has at least one bucket. -/
private theorem Valid.length_pos (h : Valid fns map) : 0 < map.buckets.length := by
  obtain ⟨k, -, hk⟩ := h.size
  have hpow := Nat.pow_pos (n := k) (by decide : 0 < 2)
  omega

/-- A valid map has at most 2^27 buckets. -/
theorem Valid.length_le (h : Valid fns map) : map.buckets.length ≤ 134217728 := by
  obtain ⟨k, hle, hk⟩ := h.size
  have hpow : 2 ^ k ≤ 2 ^ 23 := Nat.pow_le_pow_right (by decide) hle
  omega

/-- Every hash falls into one of the buckets. -/
theorem Valid.index_lt (h : Valid fns map) (hash : Int32) :
    bucketIndex hash map.buckets.length < map.buckets.length := by
  have hle := h.length_le
  exact bucketIndex_lt h.length_pos (by omega) hash

/-- The limit is never reached. -/
theorem Valid.length_lt (h : Valid fns map) : map.pairs.length < 402653184 := by
  have hle := h.length_le
  have hload := h.load
  omega

/-- An empty map of 16 buckets is valid. -/
private theorem valid_new (fns : MapFns κ) : Valid fns (new : MapStruct κ ν) where
  size := ⟨0, by decide, rfl⟩
  placed := by
    intro i hi pair hpair
    rw [at_, new, List.getD_eq_getElem?_getD, List.getElem?_replicate] at hpair
    split at hpair <;> exact absurd hpair List.not_mem_nil
  nodup := List.nodup_nil
  count := rfl
  load := show 0 < 3 * minBuckets by decide

/-! ## Looking for a key -/

/-- The link that is found holds the key. -/
private theorem findWithHash_some (hfns : fns.Exact) {index entry : Nat}
    (hfind : findWithHash fns map key (fns.hash key) = some (index, entry)) :
    ∃ old, (at_ map.buckets index)[entry]? = some old ∧ old.key = key := by
  unfold findWithHash at hfind
  obtain ⟨entry', hentry, heq⟩ := Option.map_eq_some_iff.mp hfind
  rw [Prod.mk.injEq] at heq
  obtain ⟨rfl, rfl⟩ := heq
  obtain ⟨hlt, hkey, -⟩ := List.findIdx?_eq_some_iff_getElem.mp hentry
  exact ⟨_, List.getElem?_eq_getElem hlt, (hfns _ _).mp hkey⟩

/-- Where none is found, the key is not in the map. -/
private theorem findWithHash_none (hfns : fns.Exact) (h : Valid fns map)
    (hfind : findWithHash fns map key (fns.hash key) = none) :
    ∀ pair ∈ map.pairs, pair.key ≠ key := by
  rintro pair hpair rfl
  unfold findWithHash at hfind
  have hnone := List.findIdx?_eq_none_iff.mp (Option.map_eq_none_iff.mp hfind)
  have hmem := hnone pair ((h.placed.mem_iff (h.index_lt _)).mpr hpair)
  rw [(hfns _ _).mpr rfl] at hmem
  exact Bool.noConfusion hmem

/-- A key has one pair. -/
theorem Valid.unique (h : Valid fns map) {p q : KeyValue κ ν} (hp : p ∈ map.pairs)
    (hq : q ∈ map.pairs) (hkey : p.key = q.key) : p = q :=
  List.inj_on_of_nodup_map h.nodup hp hq hkey

/-- A pair found in a bucket is a pair of the map. -/
private theorem mem_pairs {index entry : Nat} {pair : KeyValue κ ν}
    (hpair : (at_ map.buckets index)[entry]? = some pair) : pair ∈ map.pairs :=
  (flatten_remove_perm hpair).mem_iff.mpr List.mem_cons_self

/-- `map__get` finds exactly the pairs of a valid map, by their key. -/
theorem get_eq_some_iff (hfns : fns.Exact) (h : Valid fns map) (pair : KeyValue κ ν) :
    map.get fns key = some pair ↔ pair ∈ map.pairs ∧ pair.key = key := by
  unfold get
  cases hfind : findWithHash fns map key (fns.hash key) with
  | none =>
    constructor
    · intro hget
      exact absurd hget.symm (Option.some_ne_none pair)
    · rintro ⟨hpair, hkey⟩
      exact absurd hkey (findWithHash_none hfns h hfind pair hpair)
  | some link =>
    obtain ⟨index, entry⟩ := link
    obtain ⟨old, hold, holdkey⟩ := findWithHash_some hfns hfind
    rw [Option.bind_some]
    dsimp only
    rw [hold, Option.some.injEq]
    constructor
    · rintro rfl
      exact ⟨mem_pairs hold, holdkey⟩
    · rintro ⟨hpair, hkey⟩
      exact h.unique (mem_pairs hold) hpair (holdkey.trans hkey.symm)

/-! ## Changing the map -/

/-- Taking out a pair takes out its key. -/
private theorem Valid.mem_rest (h : Valid fns map) {old : KeyValue κ ν} {rest : List (KeyValue κ ν)}
    (hperm : map.pairs.Perm (old :: rest)) (p : KeyValue κ ν) :
    p ∈ rest ↔ p ∈ map.pairs ∧ p.key ≠ old.key := by
  have hnodup := (hperm.map KeyValue.key).nodup_iff.mp h.nodup
  rw [List.map_cons, List.nodup_cons] at hnodup
  rw [hperm.mem_iff, List.mem_cons]
  constructor
  · intro hp
    refine ⟨.inr hp, ?_⟩
    intro hkey
    exact hnodup.1 (hkey ▸ List.mem_map_of_mem hp)
  · rintro ⟨rfl | hp, hkey⟩
    · exact absurd rfl hkey
    · exact hp

/-- Where the map is kept from changing its size. -/
theorem Valid.modify (h : Valid fns map) {index : Nat}
    {f : List (KeyValue κ ν) → List (KeyValue κ ν)} {count : Int32}
    (hplaced : ∀ p ∈ f (at_ map.buckets index),
      p ∈ at_ map.buckets index ∨ placeOf fns map.buckets.length p = index)
    (hnodup : ((map.buckets.modify index f).flatten.map KeyValue.key).Nodup)
    (hcount : count = Int32.ofNat (map.buckets.modify index f).flatten.length)
    (hload : (map.buckets.modify index f).flatten.length < 3 * map.buckets.length) :
    Valid fns ⟨count, map.buckets.modify index f⟩ where
  size := by
    rw [List.length_modify]
    exact h.size
  placed := by
    rw [List.length_modify]
    exact h.placed.modify hplaced
  nodup := hnodup
  count := hcount
  load := by
    rw [List.length_modify]
    exact hload

/-- `map__set` on a key that is in the map. -/
private theorem set_old (h : Valid fns map) {index entry : Nat} {old : KeyValue κ ν}
    (hold : (at_ map.buckets index)[entry]? = some old) (hkey : old.key = key) :
    Valid fns { map with buckets := map.buckets.modify index (·.set entry ⟨key, value⟩) } ∧
      ∀ p, p ∈ (map.buckets.modify index (·.set entry ⟨key, value⟩)).flatten ↔
        p = ⟨key, value⟩ ∨ p ∈ map.pairs ∧ p.key ≠ key := by
  have hperm := flatten_remove_perm hold
  have hnew := flatten_set_perm hold ⟨key, value⟩
  have hlen : (map.buckets.modify index (·.set entry ⟨key, value⟩)).flatten.length =
      map.pairs.length := by
    rw [hnew.length_eq, pairs, hperm.length_eq]
    rfl
  constructor
  · apply h.modify
    · intro p hp
      rcases List.mem_or_eq_of_mem_set hp with hmem | rfl
      · exact .inl hmem
      · -- The new pair has the key, so the place, of the old one.
        refine .inr ?_
        have hplace := h.placed index (lt_of_getElem? hold) old (List.mem_of_getElem? hold)
        rw [← hplace, placeOf, placeOf, hkey]
    · have hnodup := (hperm.map KeyValue.key).nodup_iff.mp h.nodup
      rw [(hnew.map KeyValue.key).nodup_iff]
      rw [List.map_cons, hkey] at hnodup
      exact hnodup
    · rw [hlen]
      exact h.count
    · rw [hlen]
      exact h.load
  · intro p
    rw [hnew.mem_iff, List.mem_cons, h.mem_rest hperm, hkey]

/-- `map__unset` on a key that is in the map. -/
private theorem unset_old (h : Valid fns map) {index entry : Nat} {old : KeyValue κ ν}
    (hold : (at_ map.buckets index)[entry]? = some old) :
    Valid fns ⟨map.count - 1, map.buckets.modify index (·.eraseIdx entry)⟩ ∧
      ∀ p, p ∈ (map.buckets.modify index (·.eraseIdx entry)).flatten ↔
        p ∈ map.pairs ∧ p.key ≠ old.key := by
  have hperm := flatten_remove_perm hold
  have hlen : map.pairs.length =
      (map.buckets.modify index (·.eraseIdx entry)).flatten.length + 1 := hperm.length_eq
  constructor
  · apply h.modify
    · intro p hp
      exact .inl (List.mem_of_mem_eraseIdx hp)
    · have hnodup := (hperm.map KeyValue.key).nodup_iff.mp h.nodup
      rw [List.map_cons, List.nodup_cons] at hnodup
      exact hnodup.2
    · rw [h.count, hlen, Int32.ofNat_add]
      exact Int32.add_sub_cancel _ _
    · have hload := h.load
      omega
  · exact h.mem_rest hperm

/-! ## Growing -/

/-- The integer division of `load` by the number of buckets reaches 3, the least above 2.5, at
    the third key a bucket. -/
private theorem load_iff {len n : Nat} (hlen : len < 402653184) (hpos : 0 < n)
    (hn : n ≤ 134217728) :
    3 ≤ (Int32.ofNat len + 1) / Int32.ofNat n ↔ 3 * n ≤ len + 1 := by
  have hsum : Int32.ofNat len + 1 = Int32.ofNat (len + 1) := (Int32.ofNat_add len 1).symm
  have hne : Int32.ofNat n ≠ -1 := by
    intro heq
    have htoInt := congrArg Int32.toInt heq
    rw [Int32.toInt_ofNat_of_lt (by omega)] at htoInt
    have hneg : (-1 : Int32).toInt = -1 := rfl
    omega
  have hthree : (3 : Int32).toInt = 3 := rfl
  rw [hsum, Int32.le_iff_toInt_le, Int32.toInt_div_of_ne_right _ _ hne,
    Int32.toInt_ofNat_of_lt (by omega), Int32.toInt_ofNat_of_lt (by omega), hthree,
    ← Int.ofNat_tdiv]
  have hdiv := Nat.le_div_iff_mul_le hpos (x := 3) (y := len + 1)
  omega

/-- The buckets into which `map__set` puts a new pair. -/
def grown (fns : MapFns κ) (map : MapStruct κ ν) : Option (List (List (KeyValue κ ν))) :=
  if 3 ≤ (map.count + 1) / Int32.ofNat map.buckets.length then doubleSize fns map.buckets
  else some map.buckets

/-- They hold the pairs of the map and have room for one more, unless the map is at its limit. -/
private theorem grown_spec (h : Valid fns map) :
    match grown fns map with
    | some buckets => (∃ k ≤ 23, buckets.length = 16 * 2 ^ k) ∧
        Placed (placeOf fns buckets.length) buckets ∧ buckets.flatten.Perm map.pairs ∧
        map.pairs.length + 1 < 3 * buckets.length
    | none => 402653184 ≤ map.pairs.length + 1 := by
  unfold grown
  rw [h.count]
  have hload := h.load
  simp only [load_iff h.length_lt h.length_pos h.length_le]
  split
  · rename_i buckets hbuckets
    split at hbuckets
    · have hspec := doubleSize_spec fns h.length_pos
      rw [hbuckets] at hspec
      obtain ⟨hsize, hlen, hperm, hplaced⟩ := hspec
      -- `double_size` succeeds while the buckets are fewer than `2 ^ 27`.
      obtain ⟨k, hk, hold⟩ := h.size
      refine ⟨⟨k + 1, ?_, ?_⟩, hplaced, hperm, by omega⟩
      · have hpow : 2 ^ k < 2 ^ 23 := by omega
        exact (Nat.pow_lt_pow_iff_right (by decide)).mp hpow
      · rw [hlen, hold, Nat.pow_succ]
        omega
    · rw [← Option.some.inj hbuckets]
      exact ⟨h.size, h.placed, .refl _, by omega⟩
  · rename_i hnone
    split at hnone
    · have hspec := doubleSize_spec fns h.length_pos
      rw [hnone] at hspec
      omega
    -- Below the load limit the buckets stay as they are.
    · exact absurd hnone (Option.some_ne_none _)

/-- `map__set` on a key that is not in the map. -/
private theorem set_new (h : Valid fns map) (hkey : ∀ p ∈ map.pairs, p.key ≠ key) {buckets}
    (hgrown : grown fns map = some buckets) :
    Valid fns ⟨map.count + 1, buckets.modify (bucketIndex (fns.hash key) buckets.length)
        (⟨key, value⟩ :: ·)⟩ ∧
      ∀ p, p ∈ (buckets.modify (bucketIndex (fns.hash key) buckets.length)
        (⟨key, value⟩ :: ·)).flatten ↔ p = ⟨key, value⟩ ∨ p ∈ map.pairs ∧ p.key ≠ key := by
  have hspec := grown_spec h
  rw [hgrown] at hspec
  obtain ⟨⟨k, hk, hlen⟩, hplaced, hperm, hroom⟩ := hspec
  -- The number of buckets fits the 32-bit index.
  have hpow : 2 ^ k ≤ 2 ^ 23 := Nat.pow_le_pow_right (by decide) hk
  have hpos := Nat.pow_pos (n := k) (by decide : 0 < 2)
  have hnew := (flatten_insert_perm (bucketIndex_lt (by omega) (by omega) (fns.hash key))
    (⟨key, value⟩ : KeyValue κ ν)).trans (hperm.cons _)
  constructor
  · refine ⟨?_, ?_, ?_, ?_, ?_⟩
    · rw [List.length_modify]
      exact ⟨k, hk, hlen⟩
    · rw [List.length_modify]
      apply hplaced.modify
      intro p hp
      rcases List.mem_cons.mp hp with rfl | hold
      · exact .inr rfl
      · exact .inl hold
    · rw [pairs, (hnew.map KeyValue.key).nodup_iff, List.map_cons, List.nodup_cons]
      refine ⟨?_, h.nodup⟩
      intro hmem
      -- The key was not there, so it is there once now.
      obtain ⟨p, hp, hpkey⟩ := List.mem_map.mp hmem
      exact hkey p hp hpkey
    · rw [pairs, hnew.length_eq, h.count, List.length_cons, Int32.ofNat_add]
      rfl
    · rw [pairs, hnew.length_eq, List.length_cons, List.length_modify]
      exact hroom
  · intro p
    rw [hnew.mem_iff, List.mem_cons]
    constructor
    · rintro (rfl | hp)
      · exact .inl rfl
      · exact .inr ⟨hp, hkey p hp⟩
    · rintro (rfl | ⟨hp, -⟩)
      · exact .inl rfl
      · exact .inr hp

/-! ## The operations -/

/-- `map__set` of a key that is found overwrites the value in its place. -/
private theorem set_of_some {index entry : Nat}
    (hfind : findWithHash fns map key (fns.hash key) = some (index, entry)) :
    map.set fns key value =
      some { map with buckets := map.buckets.modify index (·.set entry ⟨key, value⟩) } := by
  simp only [set, hfind]

/-- `map__set` of a key that is not found adds the pair in front of its bucket, after any
    doubling. -/
private theorem set_of_none (hfind : findWithHash fns map key (fns.hash key) = none) :
    map.set fns key value = (grown fns map).map fun buckets =>
      ⟨map.count + 1, buckets.modify (bucketIndex (fns.hash key) buckets.length)
        (⟨key, value⟩ :: ·)⟩ := by
  simp only [set, hfind]
  rfl

/-- `map__set` replaces the pair of its key, unless the key is new and the map at its limit. -/
theorem set_spec (hfns : fns.Exact) (h : Valid fns map) (key : κ) (value : ν) :
    match map.set fns key value with
    | some map' => Valid fns map' ∧
        ∀ p, p ∈ map'.pairs ↔ p = ⟨key, value⟩ ∨ p ∈ map.pairs ∧ p.key ≠ key
    | none => (∀ p ∈ map.pairs, p.key ≠ key) ∧ 402653184 ≤ map.pairs.length + 1 := by
  cases hfind : findWithHash fns map key (fns.hash key) with
  | some link =>
    obtain ⟨index, entry⟩ := link
    obtain ⟨old, hold, hkey⟩ := findWithHash_some hfns hfind
    rw [set_of_some hfind]
    exact set_old h hold hkey
  | none =>
    have hnew := findWithHash_none hfns h hfind
    rw [set_of_none hfind]
    cases hgrown : grown fns map with
    | some buckets => exact set_new h hnew hgrown
    | none =>
      have hspec := grown_spec h
      rw [hgrown] at hspec
      exact ⟨hnew, hspec⟩

/-- `map__unset` takes out the pair of its key. -/
theorem unset_spec (hfns : fns.Exact) (h : Valid fns map) (key : κ) :
    Valid fns (map.unset fns key) ∧
      ∀ p, p ∈ (map.unset fns key).pairs ↔ p ∈ map.pairs ∧ p.key ≠ key := by
  unfold unset
  cases hfind : findWithHash fns map key (fns.hash key) with
  | some link =>
    obtain ⟨index, entry⟩ := link
    obtain ⟨old, hold, rfl⟩ := findWithHash_some hfns hfind
    exact unset_old h hold
  | none =>
    refine ⟨h, fun p => ?_⟩
    constructor
    · intro hp
      exact ⟨hp, findWithHash_none hfns h hfind p hp⟩
    · rintro ⟨hp, -⟩
      exact hp

end MapStruct

/-! ## Sequences of calls -/

/-- A call of `map__set`, `map__unset` or `map__get`. -/
inductive MapCall (κ ν : Type)
  | set (key : κ) (value : ν)
  | unset (key : κ)
  | get (needle : κ)

/-- The effect of a call; `none` where the array of buckets can not be enlarged. -/
def MapStruct.call {κ ν : Type} (fns : MapFns κ) (map : MapStruct κ ν) :
    MapCall κ ν → Option (MapStruct κ ν)
  | .set key value => map.set fns key value
  | .unset key => some (map.unset fns key)
  | .get _ => some map

/-- The calls, in this order, on a new map. -/
def MapStruct.calls {κ ν : Type} (fns : MapFns κ) (calls : List (MapCall κ ν)) :
    Option (MapStruct κ ν) :=
  calls.foldlM (MapStruct.call fns) MapStruct.new

section Values

variable {κ ν : Type} [DecidableEq κ]

/-- The call sets or unsets the key. -/
def MapCall.changes (key : κ) : MapCall κ ν → Bool
  | .set key' _ => key' = key
  | .unset key' => key' = key
  | .get _ => false

/-- What the last call that sets or unsets the key leaves for it. -/
def lastValue (calls : List (MapCall κ ν)) (key : κ) : Option ν :=
  match calls.reverse.find? (MapCall.changes key) with
  | some (.set _ value) => some value
  | _ => none

/-- The keys that were set and not unset again. -/
def present (calls : List (MapCall κ ν)) : Set κ := {key | (lastValue calls key).isSome = true}

/-- Never as many keys at a time that the array of buckets outgrows an `int`. -/
def FewKeys (calls : List (MapCall κ ν)) : Prop :=
  ∀ before, before <+: calls → (present before).ncard < 402653184

/-- The last call decides the value of its own key and leaves the others. -/
private theorem lastValue_append (calls : List (MapCall κ ν)) (call : MapCall κ ν) (key : κ) :
    lastValue (calls ++ [call]) key =
      match call with
      | .set key' value => if key' = key then some value else lastValue calls key
      | .unset key' => if key' = key then none else lastValue calls key
      | .get _ => lastValue calls key := by
  unfold lastValue
  rw [List.reverse_append, List.reverse_singleton, List.singleton_append, List.find?_cons]
  cases call with
  | set key' value =>
    by_cases hkey : key' = key
    · simp [MapCall.changes, hkey]
    · simp [MapCall.changes, hkey]
  | unset key' =>
    by_cases hkey : key' = key
    · simp [MapCall.changes, hkey]
    · simp [MapCall.changes, hkey]
  | get needle => rfl

/-- Few keys altogether means few at every call before. -/
private theorem FewKeys.of_append {calls : List (MapCall κ ν)} {call : MapCall κ ν}
    (h : FewKeys (calls ++ [call])) : FewKeys calls :=
  fun before hbefore => h before (hbefore.trans (List.prefix_append calls [call]))

end Values

/-- A map with the values that a sequence of calls leaves: `map__get` finds them, `count` is the
    number of keys, and every pair is in its bucket, before and after the buckets are doubled. -/
structure IsFiniteMap {κ ν : Type} [DecidableEq κ] (fns : MapFns κ) (calls : List (MapCall κ ν))
    (map : MapStruct κ ν) : Prop where
  get : ∀ key, (map.get fns key).map KeyValue.value = lastValue calls key
  key : ∀ key pair, map.get fns key = some pair → pair.key = key
  count : map.count.toInt = (present calls).ncard
  placed : Placed (MapStruct.placeOf fns map.buckets.length) map.buckets
  once : (map.pairs.map KeyValue.key).Nodup
  doubled : ∀ buckets, MapStruct.doubleSize fns map.buckets = some buckets →
    buckets.length = 2 * map.buckets.length ∧ buckets.flatten.Perm map.pairs ∧
      Placed (MapStruct.placeOf fns buckets.length) buckets

namespace MapStruct

variable {κ ν : Type} [DecidableEq κ] {fns : MapFns κ} {map : MapStruct κ ν}
  {sequence : List (MapCall κ ν)}

/-- The pairs are the values that the calls leave. -/
def Holds (map : MapStruct κ ν) (sequence : List (MapCall κ ν)) : Prop :=
  ∀ pair, pair ∈ map.pairs ↔ lastValue sequence pair.key = some pair.value

/-- The keys that are present are those of the pairs. -/
private theorem Holds.present_eq (h : map.Holds sequence) :
    present sequence = {key | key ∈ map.pairs.map KeyValue.key} := by
  ext key
  show (lastValue sequence key).isSome = true ↔ key ∈ map.pairs.map KeyValue.key
  rw [Option.isSome_iff_exists, List.mem_map]
  constructor
  · rintro ⟨value, hvalue⟩
    exact ⟨⟨key, value⟩, (h ⟨key, value⟩).mpr hvalue, rfl⟩
  · rintro ⟨pair, hpair, rfl⟩
    exact ⟨pair.value, (h pair).mp hpair⟩

/-- There are as many keys present as there are pairs. -/
private theorem Holds.ncard (h : map.Holds sequence) (hvalid : Valid fns map) :
    (present sequence).ncard = map.pairs.length := by
  rw [h.present_eq, ← List.coe_toFinset, Set.ncard_coe_finset,
    List.toFinset_card_of_nodup hvalid.nodup, List.length_map]

/-- What one call does. -/
private theorem call_spec (hfns : fns.Exact) (hvalid : Valid fns map) (h : map.Holds sequence)
    (call : MapCall κ ν) :
    match map.call fns call with
    | some map' => Valid fns map' ∧ map'.Holds (sequence ++ [call])
    | none => 402653184 ≤ (present (sequence ++ [call])).ncard := by
  cases call with
  | set key value =>
    rw [MapStruct.call]
    have hspec := set_spec hfns hvalid key value
    cases hset : map.set fns key value with
    | some map' =>
      rw [hset] at hspec
      refine ⟨hspec.1, ?_⟩
      intro pair
      rw [hspec.2 pair, h pair, lastValue_append]
      dsimp only
      split
      · rename_i hkey
        subst hkey
        rw [Option.some.injEq]
        constructor
        · rintro (heq | ⟨-, hne⟩)
          · rw [heq]
          · exact absurd rfl hne
        · rintro rfl
          exact .inl rfl
      · rename_i hkey
        constructor
        · rintro (heq | ⟨hvalue, -⟩)
          · exact absurd (congrArg KeyValue.key heq).symm hkey
          · exact hvalue
        · intro hvalue
          exact .inr ⟨hvalue, Ne.symm hkey⟩
    | none =>
      -- The key is new, so there is one more of them.
      rw [hset] at hspec
      have hnot : key ∉ present sequence := by
        rw [h.present_eq]
        intro hmem
        obtain ⟨pair, hpair, hkey⟩ := List.mem_map.mp hmem
        exact hspec.1 pair hpair hkey
      have hinsert : present (sequence ++ [.set key value]) = insert key (present sequence) := by
        ext key'
        show (lastValue (sequence ++ [.set key value]) key').isSome = true ↔
          key' = key ∨ (lastValue sequence key').isSome = true
        rw [lastValue_append]
        by_cases hkey : key = key'
        · simp [hkey]
        · simp [hkey, Ne.symm hkey]
      have hfinite : (present sequence).Finite := by
        rw [h.present_eq]
        exact List.finite_toSet _
      rw [hinsert, Set.ncard_insert_of_notMem hnot hfinite, h.ncard hvalid]
      exact hspec.2
  | unset key =>
    have hspec := unset_spec hfns hvalid key
    refine ⟨hspec.1, ?_⟩
    intro pair
    rw [hspec.2 pair, h pair, lastValue_append]
    dsimp only
    split
    · rename_i hkey
      constructor
      · rintro ⟨-, hne⟩
        exact absurd hkey.symm hne
      · intro hvalue
        exact absurd hvalue.symm (Option.some_ne_none _)
    · rename_i hkey
      exact ⟨And.left, fun hvalue => ⟨hvalue, Ne.symm hkey⟩⟩
  | get needle =>
    refine ⟨hvalid, ?_⟩
    intro pair
    rw [lastValue_append]
    exact h pair

/-- The invariant of a run: up to the limit there is a map, and it holds what it should. -/
private theorem calls_spec (hfns : fns.Exact) (sequence : List (MapCall κ ν)) :
    match calls fns sequence with
    | some map => Valid fns map ∧ map.Holds sequence ∧ FewKeys sequence
    | none => ¬ FewKeys sequence := by
  induction sequence using List.reverseRecOn with
  | nil =>
    refine ⟨valid_new fns, ?_, ?_⟩
    · intro pair
      constructor
      · intro hpair
        simp [pairs, new] at hpair
      · intro hvalue
        exact absurd hvalue.symm (Option.some_ne_none _)
    · intro before hbefore
      rw [List.prefix_nil.mp hbefore]
      have hnone : present ([] : List (MapCall κ ν)) = ∅ := by
        ext key
        simp [present, lastValue]
      rw [hnone, Set.ncard_empty]
      decide
  | append_singleton sequence call ih =>
    -- A longer sequence makes its last call on what the rest has left.
    have hcalls : calls fns (sequence ++ [call]) =
        (calls fns sequence).bind fun map => map.call fns call := by
      rw [calls, List.foldlM_append]
      show (List.foldlM (MapStruct.call fns) new sequence).bind _ = _
      congr 1
      funext map
      show (map.call fns call).bind some = map.call fns call
      cases map.call fns call <;> rfl
    rw [hcalls]
    cases hmap : calls fns sequence with
    | none =>
      rw [hmap] at ih
      intro hfew
      exact ih hfew.of_append
    | some map =>
      rw [hmap] at ih
      obtain ⟨hvalid, hholds, hfew⟩ := ih
      rw [Option.bind_some]
      have hspec := call_spec hfns hvalid hholds call
      -- The call fails only where doubling does, with too many keys present.
      cases hcall : map.call fns call with
      | none =>
        rw [hcall] at hspec
        intro hfew'
        exact absurd (hfew' _ List.prefix_rfl) (Nat.not_lt.mpr hspec)
      | some map' =>
        rw [hcall] at hspec
        refine ⟨hspec.1, hspec.2, ?_⟩
        intro before hbefore
        rcases List.prefix_concat_iff.mp hbefore with rfl | hold
        · rw [hspec.2.ncard hspec.1]
          exact hspec.1.length_lt
        · exact hfew before hold

/-- A valid map that holds a sequence of calls is the finite map of that sequence. -/
private theorem Holds.isFiniteMap (hfns : fns.Exact) (hvalid : Valid fns map)
    (h : map.Holds sequence) :
    IsFiniteMap fns sequence map where
  get := by
    intro key
    -- A pair found is the last one set; where none is found, none was set.
    cases hget : map.get fns key with
    | some pair =>
      obtain ⟨hpair, rfl⟩ := (get_eq_some_iff hfns hvalid pair).mp hget
      exact ((h pair).mp hpair).symm
    | none =>
      cases hvalue : lastValue sequence key with
      | none => rfl
      | some value =>
        have hpair := (get_eq_some_iff hfns hvalid ⟨key, value⟩).mpr ⟨(h _).mpr hvalue, rfl⟩
        rw [hget] at hpair
        exact absurd hpair.symm (Option.some_ne_none _)
  key := fun key pair hget => ((get_eq_some_iff hfns hvalid pair).mp hget).2
  count := by
    have hlt := hvalid.length_lt
    rw [hvalid.count, Int32.toInt_ofNat_of_lt (by omega), h.ncard hvalid]
  placed := hvalid.placed
  once := hvalid.nodup
  doubled := by
    intro buckets hbuckets
    have hspec := doubleSize_spec fns hvalid.length_pos
    rw [hbuckets] at hspec
    exact hspec.2

/-- A run ends in a map exactly as long as it has not too many keys. -/
private theorem exists_map_iff (hfns : fns.Exact) (sequence : List (MapCall κ ν)) :
    (∃ map, calls fns sequence = some map ∧ IsFiniteMap fns sequence map) ↔ FewKeys sequence := by
  have hspec := calls_spec hfns sequence
  cases hmap : calls fns sequence with
  | none =>
    rw [hmap] at hspec
    constructor
    · rintro ⟨map, hsome, -⟩
      exact absurd hsome.symm (Option.some_ne_none map)
    · intro hfew
      exact absurd hfew hspec
  | some map =>
    rw [hmap] at hspec
    constructor
    · intro _
      exact hspec.2.2
    · intro _
      exact ⟨map, rfl, hspec.2.1.isFiniteMap hfns hspec.1⟩

end MapStruct

/-! ## The tables of the model -/

/-- The same call on an association list, which stands for a table in `State`. -/
def MapCall.onAList {κ ν : Type} [DecidableEq κ] (table : AList (fun _ : κ => ν)) :
    MapCall κ ν → AList (fun _ : κ => ν)
  | .set key value => table.insert key value
  | .unset key => table.erase key
  | .get _ => table

/-- Mathlib's association lists agree with `lastValue`. -/
private theorem lookup_onAList {κ ν : Type} [DecidableEq κ] (calls : List (MapCall κ ν)) (key : κ) :
    (calls.foldl MapCall.onAList ∅).lookup key = lastValue calls key := by
  induction calls using List.reverseRecOn with
  | nil => rfl
  | append_singleton calls call ih =>
    rw [List.foldl_append, List.foldl_cons, List.foldl_nil, lastValue_append, ← ih]
    cases call with
    | set key' value =>
      by_cases hkey : key' = key
      · subst hkey
        simp [MapCall.onAList]
      · simp [MapCall.onAList, hkey, AList.lookup_insert_ne (Ne.symm hkey)]
    | unset key' =>
      by_cases hkey : key' = key
      · subst hkey
        simp [MapCall.onAList]
      · simp [MapCall.onAList, hkey, AList.lookup_erase_ne (Ne.symm hkey)]
    | get needle => rfl

/-- As long as the buckets suffice, looking up a key in the model's table gives what `map__get`
    finds. -/
theorem IsFiniteMap.get_eq_lookup {κ ν : Type} [DecidableEq κ] {fns : MapFns κ}
    {calls : List (MapCall κ ν)} {map : MapStruct κ ν} (h : IsFiniteMap fns calls map) (key : κ) :
    (map.get fns key).map KeyValue.value = (calls.foldl MapCall.onAList ∅).lookup key :=
  (h.get key).trans (lookup_onAList calls key).symm

/-! ## Main results -/

/-- There are only 65536 reply ids. -/
private theorem fewKeys_replyIds {ν : Type} (calls : List (MapCall UInt16 ν)) : FewKeys calls := by
  intro before _
  have hinj : Set.InjOn UInt16.toNat (present before) :=
    fun _ _ _ _ heq => UInt16.toNat_inj.mp heq
  have hle : (present before).ncard ≤ (Finset.range 65536 : Set Nat).ncard := by
    apply Set.ncard_le_ncard_of_injOn UInt16.toNat _ hinj (Finset.finite_toSet _)
    intro key _
    exact Finset.mem_coe.mpr (Finset.mem_range.mpr key.toNat_lt)
  rw [Set.ncard_coe_finset, Finset.card_range] at hle
  omega

/-- Messages from `n` different addresses. -/
def newAddresses (n : Nat) : List (MapCall RawAddress StatusId) :=
  (List.range n).map fun i => .set ⟨UInt32.ofNat i, 80, 2⟩ i

/-- The keys of `newAddresses n` are the addresses with the first `n` ips. -/
private theorem present_newAddresses (n : Nat) :
    present (newAddresses n) =
      (fun i => ⟨UInt32.ofNat i, 80, 2⟩) '' (Finset.range n : Set Nat) := by
  induction n with
  | zero =>
    ext key
    simp [present, lastValue, newAddresses]
  | succ n ih =>
    have happend : newAddresses (n + 1) =
        newAddresses n ++ [.set ⟨UInt32.ofNat n, 80, 2⟩ n] := by
      rw [newAddresses, List.range_succ, List.map_append]
      rfl
    rw [happend, Finset.range_add_one, Finset.coe_insert, Set.image_insert_eq, ← ih]
    ext key
    show (lastValue (newAddresses n ++ [.set ⟨UInt32.ofNat n, 80, 2⟩ n]) key).isSome = true ↔
      key = ⟨UInt32.ofNat n, 80, 2⟩ ∨ (lastValue (newAddresses n) key).isSome = true
    rw [lastValue_append]
    by_cases hkey : (⟨UInt32.ofNat n, 80, 2⟩ : RawAddress) = key
    · simp [hkey]
    · simp [hkey, Ne.symm hkey]

/-- These are `n` different keys. -/
private theorem ncard_newAddresses {n : Nat} (hn : n ≤ 4294967296) :
    (present (newAddresses n)).ncard = n := by
  have hinj : Set.InjOn (fun i => (⟨UInt32.ofNat i, 80, 2⟩ : RawAddress))
      (Finset.range n : Set Nat) := by
    intro i hi j hj heq
    have hi := Finset.mem_range.mp (Finset.mem_coe.mp hi)
    have hj := Finset.mem_range.mp (Finset.mem_coe.mp hj)
    have hip := congrArg (fun address => address.ip.toNat) heq
    simp only [UInt32.toNat_ofNat'] at hip
    omega
  rw [present_newAddresses, hinj.ncard_image, Set.ncard_coe_finset, Finset.card_range]

/-- At the limit the map is given up. -/
private theorem calls_newAddresses {n : Nat} (hlimit : 402653184 ≤ n) (hn : n ≤ 4294967296) :
    MapStruct.calls addressFns (newAddresses n) = none := by
  have hspec := MapStruct.calls_spec addressFns_exact (newAddresses n)
  cases hmap : MapStruct.calls addressFns (newAddresses n) with
  | none => rfl
  | some map =>
    rw [hmap] at hspec
    have hlt := hspec.2.2 _ List.prefix_rfl
    rw [ncard_newAddresses hn] at hlt
    omega

/-- `conn_status` is a finite map for a sequence of calls if and only if there are never
    402653184 addresses in it; `reply_contexts` is one for every sequence of calls. -/
theorem tables_are_maps (ν : Type) :
    (∀ calls : List (MapCall RawAddress ν),
      (∃ map, MapStruct.calls addressFns calls = some map ∧ IsFiniteMap addressFns calls map) ↔
        FewKeys calls) ∧
    ∀ calls : List (MapCall UInt16 ν),
      ∃ map, MapStruct.calls replyIdFns calls = some map ∧ IsFiniteMap replyIdFns calls map :=
  ⟨MapStruct.exists_map_iff addressFns_exact, fun calls =>
    (MapStruct.exists_map_iff replyIdFns_exact calls).mpr (fewKeys_replyIds calls)⟩

/-- For the 402653184th address the array of buckets of `conn_status` can not be enlarged: the
    size of 2²⁸ buckets in bytes is not an `int`. -/
theorem table_outgrown :
    ¬ ∃ map, MapStruct.calls addressFns (newAddresses 402653184) = some map ∧
      IsFiniteMap addressFns (newAddresses 402653184) map := by
  rintro ⟨map, hmap, -⟩
  rw [calls_newAddresses (Nat.le_refl _) (by decide)] at hmap
  exact absurd hmap.symm (Option.some_ne_none map)

end Msgbox
