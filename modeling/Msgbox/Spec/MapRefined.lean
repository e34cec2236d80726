import Msgbox.Spec.BucketLists

/-!
# The hash map in memory is the hash map

`map.c` on linked lists and pointers does what it does on buckets that are values. It touches no
memory that is not allocated, keeps no memory that nothing points to, and releases a key or a value
exactly when it leaves the map.

## Key results

- `MapUse.run_spec`: one call
- `map_memory_refined`: every sequence of calls, and the end of the map
- `map_releases_once`: every key and every value is released exactly once
-/

namespace Msgbox

open Links Buckets

variable {κ ν : Type}

/-! ## What memory a map owns -/

/-- The memory of a map holds the pairs of `m`, and nothing else. -/
structure Stored (map : MapMemory κ ν) (ids : Nat → List Nat) (ptrs : List (List Nat))
    (m : MapStruct κ ν) : Prop where
  lists : BucketLists map.heap ids ptrs
  points : PointsTo map.pair ptrs m.buckets
  count : map.count = m.count
  numBuckets : map.numBuckets = m.buckets.length
  pos : 0 < map.numBuckets
  size : map.numBuckets * 8 < 2147483648
  nodup : ptrs.flatten.Nodup
  used : ∀ p, (map.pair p).isSome = true → p ∈ ptrs.flatten
  fresh : ∀ p ∈ ptrs.flatten, p < map.freshPair

/-- What the releasers are called for between two states. -/
structure Released (map map' : MapMemory κ ν) (keys : List κ) (values : List ν) : Prop where
  keyReleaser : map'.keyReleaser = map.keyReleaser
  valueReleaser : map'.valueReleaser = map.valueReleaser
  keys : map'.releasedKeys = map.releasedKeys ++ if map.keyReleaser then keys else []
  values : map'.releasedValues = map.releasedValues ++ if map.valueReleaser then values else []

/-- A map that is left alone releases nothing. -/
theorem Released.none (map : MapMemory κ ν) : Released map map [] [] := by
  constructor <;> simp

/-- What two calls release is released in their order. -/
theorem Released.trans {map map₁ map₂ : MapMemory κ ν} {keys₁ keys₂ : List κ}
    {values₁ values₂ : List ν}
    (h₁ : Released map map₁ keys₁ values₁) (h₂ : Released map₁ map₂ keys₂ values₂) :
    Released map map₂ (keys₁ ++ keys₂) (values₁ ++ values₂) where
  keyReleaser := h₂.keyReleaser.trans h₁.keyReleaser
  valueReleaser := h₂.valueReleaser.trans h₁.valueReleaser
  keys := by
    rw [h₂.keys, h₁.keys, h₁.keyReleaser, List.append_assoc]
    split <;> rfl
  values := by
    rw [h₂.values, h₁.values, h₁.valueReleaser, List.append_assoc]
    split <;> rfl

/-- Only the logs matter. -/
theorem Released.congr {map map₁ map₂ : MapMemory κ ν} {keys : List κ} {values : List ν}
    (h : Released map map₁ keys values) (hkey : map₂.keyReleaser = map₁.keyReleaser)
    (hvalue : map₂.valueReleaser = map₁.valueReleaser)
    (hkeys : map₂.releasedKeys = map₁.releasedKeys)
    (hvalues : map₂.releasedValues = map₁.releasedValues) : Released map map₂ keys values where
  keyReleaser := hkey.trans h.keyReleaser
  valueReleaser := hvalue.trans h.valueReleaser
  keys := hkeys.trans h.keys
  values := hvalues.trans h.values

/-- The pairs are now `pair`, and the logs apart, nothing else has changed. -/
structure SameBut (map map' : MapMemory κ ν) (pair : Nat → Option (KeyValue κ ν)) : Prop where
  count : map'.count = map.count
  numBuckets : map'.numBuckets = map.numBuckets
  heap : map'.heap = map.heap
  pair : map'.pair = pair
  freshPair : map'.freshPair = map.freshPair

/-- A map is the same as itself, pairs included. -/
theorem SameBut.refl (map : MapMemory κ ν) : SameBut map map map.pair := ⟨rfl, rfl, rfl, rfl, rfl⟩

/-- Changes of pairs compose. -/
theorem SameBut.trans {map map₁ map₂ : MapMemory κ ν} {pair₁ pair₂ : Nat → Option (KeyValue κ ν)}
    (h₁ : SameBut map map₁ pair₁) (h₂ : SameBut map₁ map₂ pair₂) : SameBut map map₂ pair₂ :=
  ⟨h₂.count.trans h₁.count, h₂.numBuckets.trans h₁.numBuckets, h₂.heap.trans h₁.heap, h₂.pair,
    h₂.freshPair.trans h₁.freshPair⟩

/-- Releasing a key changes nothing but what is released. -/
private theorem releaseKey_same (map : MapMemory κ ν) (key : κ) :
    SameBut map (map.releaseKey key) map.pair ∧ Released map (map.releaseKey key) [key] [] := by
  unfold MapMemory.releaseKey
  cases hr : map.keyReleaser with
  | false => exact ⟨.refl map, by constructor <;> simp [hr]⟩
  | true => exact ⟨⟨rfl, rfl, rfl, rfl, rfl⟩, by constructor <;> simp [hr]⟩

/-- So does releasing a value. -/
private theorem releaseValue_same (map : MapMemory κ ν) (value : ν) :
    SameBut map (map.releaseValue value) map.pair ∧
      Released map (map.releaseValue value) [] [value] := by
  unfold MapMemory.releaseValue
  cases hr : map.valueReleaser with
  | false => exact ⟨.refl map, by constructor <;> simp [hr]⟩
  | true => exact ⟨⟨rfl, rfl, rfl, rfl, rfl⟩, by constructor <;> simp [hr]⟩

/-- A pointer that is kept is not released. -/
private theorem releaseReplaced_same [DecidableEq κ] [DecidableEq ν] (map : MapMemory κ ν)
    (old new : KeyValue κ ν) :
    let map₁ := if old.key ≠ new.key then map.releaseKey old.key else map
    let map₂ := if old.value ≠ new.value then map₁.releaseValue old.value else map₁
    SameBut map map₂ map.pair ∧
      Released map map₂ ([old.key].filter (· ≠ new.key)) ([old.value].filter (· ≠ new.value)) := by
  intro map₁ map₂
  have h₁ : SameBut map map₁ map.pair ∧ Released map map₁ ([old.key].filter (· ≠ new.key)) [] := by
    by_cases hkey : old.key = new.key
    · simp [map₁, hkey, SameBut.refl, Released.none]
    · simpa [map₁, hkey] using releaseKey_same map old.key
  have h₂ : SameBut map₁ map₂ map₁.pair ∧
      Released map₁ map₂ [] ([old.value].filter (· ≠ new.value)) := by
    by_cases hvalue : old.value = new.value
    · simp [map₂, hvalue, SameBut.refl, Released.none]
    · simpa [map₂, hvalue] using releaseValue_same map₁ old.value
  have hreleased := h₁.2.trans h₂.2
  rw [List.append_nil, List.nil_append] at hreleased
  exact ⟨h₁.1.pair ▸ h₁.1.trans h₂.1, hreleased⟩

variable {map : MapMemory κ ν} {ids : Nat → List Nat} {ptrs : List (List Nat)} {m : MapStruct κ ν}
  {fns : MapFns κ}

/-- There is a list of pairs for each bucket. -/
theorem Stored.length (hs : Stored map ids ptrs m) : ptrs.length = map.numBuckets := by
  rw [hs.points.length, hs.numBuckets]

/-- Every hash falls into one of the buckets. -/
theorem Stored.index_lt (hs : Stored map ids ptrs m) (h : Int32) :
    bucketIndex h map.numBuckets < map.numBuckets := by
  have hsize := hs.size
  exact bucketIndex_lt hs.pos (by omega) h

/-- A new map stores the empty one. -/
private theorem stored_new (keyReleaser valueReleaser : Bool) :
    Stored (MapMemory.new keyReleaser valueReleaser : MapMemory κ ν) (fun _ => [])
      (List.replicate minBuckets []) MapStruct.new where
  lists := by
    refine ⟨holds_empty, fun i => ?_⟩
    rw [at_, List.getD_eq_getElem?_getD, List.getElem?_replicate]
    split <;> rfl
  points := by
    refine ⟨by simp [MapStruct.new], fun i => ?_⟩
    rw [at_, at_, MapStruct.new, List.getD_eq_getElem?_getD, List.getD_eq_getElem?_getD,
      List.getElem?_replicate, List.getElem?_replicate]
    split <;> rfl
  count := rfl
  numBuckets := by simp [MapMemory.new, MapStruct.new]
  pos := show 0 < minBuckets by decide
  size := show minBuckets * 8 < 2147483648 by decide
  nodup := by simp [List.flatten_replicate_nil]
  used p hp := Bool.noConfusion hp
  fresh p hp := by simp [List.flatten_replicate_nil] at hp

/-! ## Looking for a pair -/

/-- The entry of a key is the link to its pair. -/
theorem Stored.find (hs : Stored map ids ptrs m) (fns : MapFns κ) (needle : κ) (h : Int32) :
    map.findWithHash fns needle h =
      some ((m.findWithHash fns needle h).map fun link =>
        placeAfter link.1 ((ids link.1).take link.2)) := by
  have hfind := hs.lists.find hs.points (map.pairMatches fns needle)
    (fun pair => fns.eq pair.key needle)
    (fun p keyValue hp => by simp only [MapMemory.pairMatches, hp]) (bucketIndex h map.numBuckets)
  simp only [MapMemory.findWithHash, MapMemory.bucketPtr, if_pos (hs.index_lt h), Option.bind_some,
    MapMemory.bucketFind, hfind, MapStruct.findWithHash, MapStruct.bucketFind, Option.map_map,
    ← hs.numBuckets]
  rfl

/-- The pointer at an entry. -/
theorem Stored.entryItem (hs : Stored map ids ptrs m) {i j p : Nat}
    (hp : (at_ ptrs i)[j]? = some p) :
    map.entryItem (placeAfter i ((ids i).take j)) = some p := by
  obtain ⟨n, hids, hn⟩ := hs.lists.split hp
  obtain ⟨mid, ha⟩ := around_of hs.lists.toHolds hids
  rw [MapMemory.entryItem, ha.read, ha.behind.1]
  exact hn

/-- The link of a key leads to a pair. -/
private theorem findWithHash_entry {needle : κ} {h : Int32} {i j : Nat}
    (hfind : m.findWithHash fns needle h = some (i, j)) :
    ∃ keyValue, (at_ m.buckets i)[j]? = some keyValue := by
  simp only [MapStruct.findWithHash, MapStruct.bucketFind, Option.map_eq_some_iff,
    Prod.mk.injEq] at hfind
  obtain ⟨entry, hentry, rfl, rfl⟩ := hfind
  have hlt := (List.findIdx?_eq_some_iff_getElem.mp hentry).1
  exact ⟨_, List.getElem?_eq_getElem hlt⟩

/-- A key that is looked for is there, with its place in memory, or it is not. -/
private theorem Stored.find_cases (hs : Stored map ids ptrs m) (fns : MapFns κ) (key : κ) :
    (m.findWithHash fns key (fns.hash key) = none ∧ m.get fns key = none ∧
      map.findWithHash fns key (fns.hash key) = some none) ∨
    ∃ i j p keyValue, m.findWithHash fns key (fns.hash key) = some (i, j) ∧
      m.get fns key = some keyValue ∧
      map.findWithHash fns key (fns.hash key) = some (some (placeAfter i ((ids i).take j))) ∧
      (at_ ptrs i)[j]? = some p ∧ map.pair p = some keyValue := by
  have hmem := hs.find fns key (fns.hash key)
  cases hfind : m.findWithHash fns key (fns.hash key) with
  | none =>
    refine .inl ⟨rfl, ?_, by rw [hmem, hfind]; rfl⟩
    rw [MapStruct.get, hfind]
    rfl
  | some link =>
    obtain ⟨i, j⟩ := link
    obtain ⟨keyValue, hentry⟩ := findWithHash_entry hfind
    obtain ⟨p, hp, hpair⟩ := hs.points.entry hentry
    refine .inr ⟨i, j, p, keyValue, rfl, ?_, by rw [hmem, hfind]; rfl, hp, hpair⟩
    rw [MapStruct.get, hfind]
    exact hentry

/-! ## Setting -/

/-- A pair is overwritten in place. -/
private theorem Stored.overwrite (hs : Stored map ids ptrs m) {i j p : Nat}
    (hp : (at_ ptrs i)[j]? = some p) (keyValue : KeyValue κ ν) :
    PointsTo (Function.update map.pair p (some keyValue)) ptrs
      (m.buckets.modify i (·.set j keyValue)) where
  length := by rw [List.length_modify, hs.points.length]
  items k := by
    have hpi : p ∈ at_ ptrs i := List.mem_of_getElem? hp
    have hi : i < m.buckets.length := by
      rw [← hs.points.length]
      exact lt_of_getElem? hp
    have hitems := hs.points.items k
    by_cases hk : i = k
    · subst hk
      rw [at_modify _ _ _ _ hi, if_pos rfl, List.map_set, ← hitems]
      apply List.ext_getElem?
      intro l
      rw [List.getElem?_map, List.getElem?_set, List.length_map, List.getElem?_map]
      have hj := (List.getElem?_eq_some_iff.mp hp).1
      -- Only the entry at `j` points to the pair written.
      by_cases hl : j = l
      · subst hl
        rw [if_pos rfl, if_pos hj, hp, Option.map_some, Function.update_self]
      · rw [if_neg hl]
        cases hq : (at_ ptrs i)[l]? with
        | none => rfl
        | some q =>
          have hne : q ≠ p := by
            rintro rfl
            exact hl ((List.getElem?_inj hj (nodup_at hs.nodup i)).mp (hp.trans hq.symm))
          rw [Option.map_some, Option.map_some, Function.update_of_ne hne]
    -- The other buckets point to other pairs.
    · have hsame : (at_ ptrs k).map (Function.update map.pair p (some keyValue)) =
          (at_ ptrs k).map map.pair := by
        apply List.map_congr_left
        intro q hq
        apply Function.update_of_ne
        rintro rfl
        exact hk (eq_of_mem_at hs.nodup hpi hq)
      rw [hsame, hitems]
      by_cases hlt : k < m.buckets.length
      · rw [at_modify _ _ _ _ hlt, if_neg hk]
      · rw [at_of_le (Nat.not_lt.mp hlt),
          at_of_le (by rw [List.length_modify]; exact Nat.not_lt.mp hlt)]

/-- New buckets are empty, and so are the variables behind the array. -/
private theorem addZeroedBuckets_spec (hlists : BucketLists map.heap ids ptrs)
    (hpoints : PointsTo map.pair ptrs m.buckets) (hnum : map.numBuckets = m.buckets.length)
    {buckets : List (List (KeyValue κ ν))}
    (hadd : addZeroedItems m.buckets m.buckets.length = some buckets) :
    map.addZeroedBuckets map.numBuckets = some { map with numBuckets := buckets.length } ∧
      ∃ ptrs', BucketLists map.heap ids ptrs' ∧ PointsTo map.pair ptrs' buckets ∧
        ptrs'.flatten = ptrs.flatten := by
  simp only [addZeroedItems] at hadd
  split at hadd
  · rename_i hbytes
    obtain rfl := Option.some.inj hadd
    have hlen := hpoints.length
    have hat : ∀ {α : Type} (items : List (List α)) (n i : Nat),
        at_ (items ++ List.replicate n []) i = at_ items i := by
      intro α items n i
      rw [at_, at_, List.getD_eq_getElem?_getD, List.getD_eq_getElem?_getD, List.getElem?_append]
      split
      · rfl
      · rename_i hi
        rw [List.getElem?_replicate, List.getElem?_eq_none (Nat.not_lt.mp hi)]
        split <;> rfl
    -- The variables behind the array were `NULL` anyway, since no bucket is there.
    have hroot : (fun i => if map.numBuckets ≤ i ∧ i < map.numBuckets + map.numBuckets then none
        else map.heap.root i) = map.heap.root := by
      funext i
      split
      · rename_i hi
        have hnil : ids i = [] := by
          apply List.length_eq_zero_iff.mp
          rw [hlists.length, at_of_le (by omega)]
          rfl
        have hseg := hlists.seg i
        rw [hnil] at hseg
        exact Eq.symm hseg
      · rfl
    constructor
    · rw [← hnum] at hbytes
      simp only [MapMemory.addZeroedBuckets, if_pos hbytes, hroot, List.length_append,
        List.length_replicate, ← hnum]
    · refine ⟨ptrs ++ List.replicate m.buckets.length [], ⟨hlists.toHolds, fun i => ?_⟩,
        ⟨?_, fun i => ?_⟩, ?_⟩
      · rw [hat, hlists.items]
      · simp [hlen]
      · rw [hat, hat, hpoints.items]
      · simp
  · exact absurd hadd.symm (Option.some_ne_none buckets)

/-- `double_size` in memory. -/
private theorem doubleSize_stored (map : MapMemory κ ν) (hlists : BucketLists map.heap ids ptrs)
    (hpoints : PointsTo map.pair ptrs m.buckets) (hnum : map.numBuckets = m.buckets.length)
    (hpos : 0 < map.numBuckets) {buckets : List (List (KeyValue κ ν))}
    (hdouble : MapStruct.doubleSize fns m.buckets = some buckets) :
    ∃ h' ids' ptrs', map.doubleSize fns =
        some { map with numBuckets := buckets.length, heap := h' } ∧ BucketLists h' ids' ptrs' ∧
      PointsTo map.pair ptrs' buckets ∧ ptrs'.flatten.Perm ptrs.flatten ∧ 0 < buckets.length ∧
      buckets.length * 8 < 2147483648 := by
  obtain ⟨bigger, hadd, rfl⟩ := Option.map_eq_some_iff.mp hdouble
  obtain ⟨hzeroed, ptrs₁, hlists₁, hpoints₁, hflatten⟩ :=
    addZeroedBuckets_spec hlists hpoints hnum hadd
  have hsize : 0 < bigger.length ∧ bigger.length * 8 < 2147483648 := by
    rw [addZeroedItems_eq] at hadd
    split at hadd
    · obtain rfl := Option.some.inj hadd
      rw [List.length_append, List.length_replicate]
      omega
    · exact absurd hadd.symm (Option.some_ne_none bigger)
  obtain ⟨h', ids', ptrs', hrehash, hlists', hlen', hperm, hpoints'⟩ :=
    rehash_spec fns (List.range bigger.length) hsize.1 (by omega)
      (fun i hi => List.mem_range.mp hi) hpoints₁.length hlists₁ hpoints₁
  have hlen : (MapStruct.rehash fns bigger.length (List.range bigger.length) bigger).length =
      bigger.length := by rw [← hpoints'.length, hlen']
  refine ⟨h', ids', ptrs', ?_, hlists', hpoints', hflatten ▸ hperm, by rw [hlen]; exact hsize.1,
    by rw [hlen]; exact hsize.2⟩
  simp only [MapMemory.doubleSize, hzeroed, Option.bind_some, hrehash, Option.map_some, hlen]

section Calls

variable [DecidableEq κ] [DecidableEq ν]

/-- A key that is there gets another pair. -/
private theorem set_stored_old (hs : Stored map ids ptrs m) {key : κ} (value : ν) {i j p : Nat}
    {old : KeyValue κ ν}
    (hmem : map.findWithHash fns key (fns.hash key) = some (some (placeAfter i ((ids i).take j))))
    (hp : (at_ ptrs i)[j]? = some p) (hold : map.pair p = some old) :
    ∃ map', map.set fns key value = some (map', p) ∧ map'.pair p = some ⟨key, value⟩ ∧
      Stored map' ids ptrs { m with buckets := m.buckets.modify i (·.set j ⟨key, value⟩) } ∧
      Released map map' ([old.key].filter (· ≠ key)) ([old.value].filter (· ≠ value)) := by
  have hin : p ∈ ptrs.flatten := mem_flatten_of_at (List.mem_of_getElem? hp)
  obtain ⟨hsame, hreleased⟩ := releaseReplaced_same map old ⟨key, value⟩
  dsimp only at hsame hreleased
  -- The releasers touch neither the pairs nor the buckets.
  generalize hmap₂ : (if old.value ≠ value then
    (if old.key ≠ key then map.releaseKey old.key else map).releaseValue old.value
    else if old.key ≠ key then map.releaseKey old.key else map) = map₂ at hsame hreleased
  refine ⟨{ map₂ with pair := Function.update map₂.pair p (some ⟨key, value⟩) }, ?_, ?_, ?_, ?_⟩
  · simp only [MapMemory.set, hmem, Option.bind_some, hs.entryItem hp, hold, Option.map_some, hmap₂]
  · exact Function.update_self ..
  · refine ⟨hsame.heap.symm ▸ hs.lists, hsame.pair.symm ▸ hs.overwrite hp _,
      hsame.count.trans hs.count, ?_, hsame.numBuckets.symm ▸ hs.pos,
      hsame.numBuckets.symm ▸ hs.size, hs.nodup, fun q hq => ?_, hsame.freshPair.symm ▸ hs.fresh⟩
    · rw [List.length_modify]
      exact hsame.numBuckets.trans hs.numBuckets
    · by_cases hqp : q = p
      · exact hqp ▸ hin
      · dsimp only at hq
        rw [Function.update_of_ne hqp, hsame.pair] at hq
        exact hs.used q hq
  · exact hreleased.congr rfl rfl rfl rfl

/-- A new key gets a new pair, perhaps after the buckets were doubled. -/
private theorem set_stored_new (hs : Stored map ids ptrs m) {key : κ} {value : ν}
    {m' : MapStruct κ ν} (hfind : m.findWithHash fns key (fns.hash key) = none)
    (hmem : map.findWithHash fns key (fns.hash key) = some none)
    (hset : m.set fns key value = some m') :
    ∃ map' p ids' ptrs', map.set fns key value = some (map', p) ∧ map'.pair p = some ⟨key, value⟩ ∧
      Stored map' ids' ptrs' m' ∧ Released map map' [] [] := by
  let p := map.freshPair
  let map₁ : MapMemory κ ν := { map with
    pair := Function.update map.pair p (some ⟨key, value⟩), freshPair := p + 1 }
  have hpoints₁ : PointsTo map₁.pair ptrs m.buckets := by
    apply hs.points.congr
    intro q hq
    exact Function.update_of_ne (Nat.ne_of_lt (hs.fresh q hq)) _ _
  simp only [MapStruct.set, hfind, Option.map_eq_some_iff] at hset
  obtain ⟨buckets, hgrown, rfl⟩ := hset
  -- Doubled or not, the buckets hold the same pairs as before.
  have hgrow : ∃ h' ids' ptrs', (if 3 ≤ (map₁.count + 1) / Int32.ofNat map₁.numBuckets then
        map₁.doubleSize fns else some map₁) =
        some { map₁ with numBuckets := buckets.length, heap := h' } ∧ BucketLists h' ids' ptrs' ∧
      PointsTo map₁.pair ptrs' buckets ∧ ptrs'.flatten.Perm ptrs.flatten ∧ 0 < buckets.length ∧
      buckets.length * 8 < 2147483648 := by
    rw [← hs.count, ← hs.numBuckets] at hgrown
    split at hgrown
    · rename_i hload
      obtain ⟨h', ids', ptrs', hdouble, hrest⟩ :=
        doubleSize_stored map₁ hs.lists hpoints₁ hs.numBuckets hs.pos hgrown
      exact ⟨h', ids', ptrs', (if_pos hload).trans hdouble, hrest⟩
    · rename_i hload
      obtain rfl := Option.some.inj hgrown
      refine ⟨map.heap, ids, ptrs, (if_neg hload).trans ?_, hs.lists, hpoints₁, .refl _,
        hs.numBuckets ▸ hs.pos, hs.numBuckets ▸ hs.size⟩
      rw [← hs.numBuckets]
  obtain ⟨h', ids', ptrs', hgrow, hlists', hpoints', hperm, hpos, hsize⟩ := hgrow
  have hlt : bucketIndex (fns.hash key) buckets.length < buckets.length :=
    bucketIndex_lt hpos (by omega) _
  obtain ⟨h'', hinsert, -, hlists''⟩ :=
    hlists'.insert (show bucketIndex (fns.hash key) buckets.length < ptrs'.length by
      rw [hpoints'.length]; exact hlt) p
  have hflatten := (@flatten_insert_perm _ ptrs' _
    (by rw [hpoints'.length]; exact hlt) p).trans (hperm.cons p)
  -- `malloc` gave memory that no bucket points to.
  have hnew : p ∉ ptrs.flatten := fun hin => Nat.lt_irrefl _ (hs.fresh p hin)
  refine ⟨{ map₁ with numBuckets := buckets.length, heap := h'', count := map.count + 1 }, p, _, _,
    ?_, Function.update_self .., ⟨hlists'', hpoints'.insert _ (Function.update_self ..),
      ?_, ?_, hpos, hsize, ?_, fun q hq => ?_, fun q hq => ?_⟩, ?_⟩
  · simp only [MapMemory.set, hmem, Option.bind_some]
    show ((if 3 ≤ (map₁.count + 1) / Int32.ofNat map₁.numBuckets then
        map₁.doubleSize fns else some map₁).bind _) = _
    rw [hgrow]
    simp only [Option.bind_some, MapMemory.bucketPtr, if_pos hlt]
    rw [hinsert]
    rfl
  · show map.count + 1 = m.count + 1
    rw [hs.count]
  · rw [List.length_modify]
  · rw [hflatten.nodup_iff, List.nodup_cons]
    exact ⟨hnew, hs.nodup⟩
  · rw [hflatten.mem_iff, List.mem_cons]
    by_cases hqp : q = p
    · exact .inl hqp
    · dsimp only [map₁] at hq
      rw [Function.update_of_ne hqp] at hq
      exact .inr (hs.used q hq)
  · rw [hflatten.mem_iff, List.mem_cons] at hq
    rcases hq with rfl | hq
    · exact Nat.lt_succ_self _
    · exact Nat.lt_succ_of_lt (hs.fresh q hq)
  · exact (Released.none map).congr rfl rfl rfl rfl

end Calls

/-! ## Unsetting -/

/-- A pair is released and freed. -/
private theorem releaseAndFreePair_spec {p : Nat} {keyValue : KeyValue κ ν}
    (hp : map.pair p = some keyValue) :
    ∃ map', map.releaseAndFreePair p = some map' ∧
      SameBut map map' (Function.update map.pair p none) ∧
      Released map map' [keyValue.key] [keyValue.value] := by
  obtain ⟨hsame₁, hreleased₁⟩ := releaseKey_same map keyValue.key
  obtain ⟨hsame₂, hreleased₂⟩ := releaseValue_same (map.releaseKey keyValue.key) keyValue.value
  have hsame := hsame₁.trans hsame₂
  have hreleased := hreleased₁.trans hreleased₂
  generalize hmap₂ : (map.releaseKey keyValue.key).releaseValue keyValue.value = map₂
    at hsame hreleased
  refine ⟨{ map₂ with pair := Function.update map₂.pair p none }, ?_,
    ⟨hsame.count, hsame.numBuckets, hsame.heap, ?_, hsame.freshPair⟩,
    hreleased.congr rfl rfl rfl rfl⟩
  · rw [MapMemory.releaseAndFreePair, hp, ← hmap₂]
    rfl
  · rw [hsame.pair, hsame₁.pair]

/-- A key that is there goes. -/
private theorem unset_stored (hs : Stored map ids ptrs m) {key : κ} {i j p : Nat}
    {old : KeyValue κ ν} (hmem : map.findWithHash fns key (fns.hash key) =
      some (some (placeAfter i ((ids i).take j))))
    (hp : (at_ ptrs i)[j]? = some p) (hold : map.pair p = some old) :
    ∃ map' ids' ptrs', map.unset fns key = some map' ∧
      Stored map' ids' ptrs'
        { count := m.count - 1, buckets := m.buckets.modify i (·.eraseIdx j) } ∧
      Released map map' [old.key] [old.value] := by
  -- The pair is released first, then its entry is taken off the list.
  obtain ⟨map₁, hfree, hsame, hreleased⟩ := releaseAndFreePair_spec hold
  obtain ⟨h', hremove, -, hlists'⟩ := hs.lists.remove hp
  have hperm := flatten_remove_perm hp
  have hnodup := hs.nodup
  rw [hperm.nodup_iff, List.nodup_cons] at hnodup
  refine ⟨{ map₁ with heap := h', count := map₁.count - 1 }, _, _, ?_,
    ⟨hlists', (hs.points.remove i j).congr ?_, ?_, ?_, hsame.numBuckets.symm ▸ hs.pos,
      hsame.numBuckets.symm ▸ hs.size, hnodup.2, fun q hq => ?_, fun q hq => ?_⟩,
    hreleased.congr rfl rfl rfl rfl⟩
  · simp only [MapMemory.unset, hmem, Option.bind_some, hs.entryItem hp, hfree, hsame.heap, hremove,
      Option.map_some]
  · intro q hq
    dsimp only
    rw [hsame.pair]
    -- No other entry points to the freed pair.
    apply Function.update_of_ne
    rintro rfl
    exact hnodup.1 hq
  · show map₁.count - 1 = m.count - 1
    rw [hsame.count, ← hs.count]
  · rw [List.length_modify]
    exact hsame.numBuckets.trans hs.numBuckets
  -- The pairs in use are the old ones but the freed one.
  · dsimp only at hq
    rw [hsame.pair] at hq
    by_cases hqp : q = p
    · subst hqp
      rw [Function.update_self] at hq
      exact Bool.noConfusion hq
    · rw [Function.update_of_ne hqp] at hq
      exact (List.mem_cons.mp (hperm.mem_iff.mp (hs.used q hq))).resolve_left hqp
  · show q < map₁.freshPair
    rw [hsame.freshPair]
    exact hs.fresh q (hperm.mem_iff.mpr (List.mem_cons_of_mem p hq))

/-! ## Clearing -/

/-- The pairs of a bucket are released and freed in order. -/
private theorem releasePairs_spec (map : MapMemory κ ν) {ps : List Nat}
    {keyValues : List (KeyValue κ ν)} (hnodup : ps.Nodup)
    (hps : ps.map map.pair = keyValues.map some) :
    ∃ map', ps.foldlM MapMemory.releaseAndFreePair map = some map' ∧
      SameBut map map' (fun p => if p ∈ ps then none else map.pair p) ∧
      Released map map' (keyValues.map KeyValue.key) (keyValues.map KeyValue.value) := by
  induction ps generalizing map keyValues with
  | nil =>
    obtain rfl := List.map_eq_nil_iff.mp hps.symm
    exact ⟨map, rfl, by simpa using SameBut.refl map, .none map⟩
  | cons p ps ih =>
    cases keyValues with
    | nil => exact absurd hps (List.cons_ne_nil _ _)
    | cons keyValue keyValues =>
      rw [List.map_cons, List.map_cons, List.cons.injEq] at hps
      rw [List.nodup_cons] at hnodup
      obtain ⟨map₁, hfree, hsame₁, hreleased₁⟩ := releaseAndFreePair_spec hps.1
      -- The other pairs of the bucket are still there, since no pair is in it twice.
      have hps₁ : ps.map map₁.pair = keyValues.map some := by
        rw [← hps.2, hsame₁.pair]
        apply List.map_congr_left
        intro q hq
        apply Function.update_of_ne
        rintro rfl
        exact hnodup.1 hq
      obtain ⟨map', hfold, hsame', hreleased'⟩ := ih _ hnodup.2 hps₁
      have hpair : (fun q => if q ∈ ps then none else map₁.pair q) =
          fun q => if q ∈ p :: ps then none else map.pair q := by
        funext q
        by_cases hqp : q = p
        · subst hqp
          simp [hsame₁.pair]
        · simp [hsame₁.pair, hqp]
      refine ⟨map', ?_, hpair ▸ hsame₁.trans hsame', hreleased₁.trans hreleased'⟩
      rw [List.foldlM_cons, hfree]
      exact hfold

/-- One bucket is emptied. -/
private theorem releaseBucket_stored (hs : Stored map ids ptrs m) {i : Nat}
    (hi : i < map.numBuckets) :
    ∃ map', map.releaseBucket (.root i) = some map' ∧
      Stored map' (Function.update ids i []) (ptrs.modify i fun _ => [])
        { m with buckets := m.buckets.modify i fun _ => [] } ∧
      Released map map' ((at_ m.buckets i).map KeyValue.key)
        ((at_ m.buckets i).map KeyValue.value) := by
  obtain ⟨h', hdelete, hh', hitem, -, -⟩ :=
    listDeleteAndRelease_spec hs.lists.toHolds (show ids i = [] ++ ids i from rfl)
  have hdelete : listDeleteAndRelease map.heap (.root i) = some (h', at_ ptrs i) :=
    hs.lists.items i ▸ hdelete
  obtain ⟨map', hfold, hsame, hreleased⟩ :=
    releasePairs_spec { map with heap := h' } (nodup_at hs.nodup i) (hs.points.items i)
  have hlt : i < ptrs.length := hs.length.symm ▸ hi
  have hrest : (ptrs.modify i fun _ => []).flatten.Perm (ptrs.eraseIdx i).flatten :=
    flatten_modify_perm hlt _
  have hall := flatten_perm hlt
  have hnodup := hs.nodup
  rw [hall.nodup_iff] at hnodup
  -- Only pairs of this bucket are freed.
  have hapart : ∀ q ∈ (ptrs.eraseIdx i).flatten, q ∉ at_ ptrs i := fun q hq hq' =>
    List.disjoint_of_nodup_append hnodup hq' hq
  refine ⟨map', ?_, ⟨⟨hsame.heap.symm ▸ hh', fun k => ?_⟩, (hs.points.modify i rfl).congr ?_,
    hsame.count.trans hs.count, ?_, hsame.numBuckets.symm ▸ hs.pos, hsame.numBuckets.symm ▸ hs.size,
    ?_, fun q hq => ?_, fun q hq => ?_⟩, ?_⟩
  · simp only [MapMemory.releaseBucket, hdelete, Option.bind_some, hfold]
  · rw [hsame.heap]
    by_cases hk : k = i
    · subst hk
      rw [Function.update_self, at_modify _ _ _ _ hlt, if_pos rfl]
      rfl
    · have hsame' : ∀ n ∈ ids k, h'.itemOf n = map.heap.itemOf n := fun n hn =>
        hitem n fun hn' => hs.lists.disjoint k i hk n hn hn'
      rw [Function.update_of_ne hk, items_congr hsame', hs.lists.items]
      by_cases hkl : k < ptrs.length
      · rw [at_modify _ _ _ _ hkl, if_neg (Ne.symm hk)]
      · rw [at_of_le (Nat.not_lt.mp hkl),
          at_of_le (by rw [List.length_modify]; exact Nat.not_lt.mp hkl)]
  · intro q hq
    rw [hsame.pair]
    exact if_neg (hapart q (hrest.mem_iff.mp hq))
  · rw [List.length_modify]
    exact hsame.numBuckets.trans hs.numBuckets
  · rw [hrest.nodup_iff]
    exact hnodup.of_append_right
  · rw [hsame.pair] at hq
    dsimp only at hq
    split at hq
    · exact Bool.noConfusion hq
    · rename_i hnot
      exact hrest.mem_iff.mpr
        ((List.mem_append.mp (hall.mem_iff.mp (hs.used q hq))).resolve_left hnot)
  · rw [hsame.freshPair]
    exact hs.fresh q (hall.mem_iff.mpr (List.mem_append_right _ (hrest.mem_iff.mp hq)))
  · exact ⟨hreleased.keyReleaser, hreleased.valueReleaser, hreleased.keys, hreleased.values⟩

/-- The loop over the buckets, from the first one that is not empty. -/
private theorem releaseBuckets_stored {rest : List (List (KeyValue κ ν))} {k : Nat}
    (hs : Stored map ids ptrs m) (hbuckets : m.buckets = List.replicate k [] ++ rest) :
    ∃ map' ids' ptrs', MapMemory.releaseBuckets (List.range' k rest.length) map = some map' ∧
      Stored map' ids' ptrs' { m with buckets := List.replicate m.buckets.length [] } ∧
      Released map map' (rest.flatten.map KeyValue.key) (rest.flatten.map KeyValue.value) := by
  induction rest generalizing map ids ptrs m k with
  | nil =>
    refine ⟨map, ids, ptrs, rfl, ?_, .none map⟩
    rw [List.append_nil] at hbuckets
    rw [hbuckets, List.length_replicate, ← hbuckets]
    exact hs
  | cons bucket rest ih =>
    have hlen : m.buckets.length = k + (rest.length + 1) := by rw [hbuckets]; simp
    have hk : k < map.numBuckets := by
      rw [hs.numBuckets, hlen]
      omega
    have hat : at_ m.buckets k = bucket := by
      rw [hbuckets, at_, List.getD_eq_getElem?_getD, List.getElem?_append_right (by simp)]
      simp
    -- One more bucket in front is empty now.
    have hmodify : m.buckets.modify k (fun _ => []) = List.replicate (k + 1) [] ++ rest := by
      have hmid := modify_append_cons (fun _ => []) (List.replicate k []) bucket rest
      rw [List.length_replicate] at hmid
      rw [hbuckets, hmid, List.replicate_succ', List.append_assoc]
      rfl
    obtain ⟨map₁, hrelease, hs₁, hreleased₁⟩ := releaseBucket_stored hs hk
    obtain ⟨map', ids', ptrs', hloop, hs', hreleased'⟩ := ih hs₁ hmodify
    refine ⟨map', ids', ptrs', ?_, ?_, ?_⟩
    · rw [List.length_cons, List.range'_succ]
      simp only [MapMemory.releaseBuckets, MapMemory.bucketPtr, if_pos hk, Option.bind_some,
        hrelease, hloop]
    · rw [List.length_modify] at hs'
      exact hs'
    · rw [hat] at hreleased₁
      rw [List.flatten_cons, List.map_append, List.map_append]
      exact hreleased₁.trans hreleased'

/-- All pairs are released, in the order of the buckets. -/
private theorem releaseAll_stored (hs : Stored map ids ptrs m) :
    ∃ map' ids' ptrs', MapMemory.releaseBuckets (List.range map.numBuckets) map = some map' ∧
      Stored map' ids' ptrs' { m with buckets := List.replicate m.buckets.length [] } ∧
      Released map map' (m.buckets.flatten.map KeyValue.key)
        (m.buckets.flatten.map KeyValue.value) := by
  rw [hs.numBuckets, List.range_eq_range']
  exact releaseBuckets_stored hs rfl

/-! ## Walking through a map -/

/-- A map has no more pairs than nodes were allocated. -/
private theorem Stored.length_flatten_le (hs : Stored map ids ptrs m) :
    ptrs.flatten.length ≤ map.heap.fresh := by
  have hnodup : ((List.range ptrs.length).flatMap ids).Nodup := by
    rw [List.nodup_flatMap]
    refine ⟨fun i _ => hs.lists.nodup i, List.nodup_range.imp fun {i j} hne => ?_⟩
    exact List.disjoint_left.mpr (hs.lists.disjoint i j hne)
  have hsub : (List.range ptrs.length).flatMap ids ⊆ List.range map.heap.fresh := by
    intro n hn
    obtain ⟨i, -, hn⟩ := List.mem_flatMap.mp hn
    exact List.mem_range.mpr (hs.lists.lt hn)
  have hle := (hnodup.subperm hsub).length_le
  have hptrs : ptrs = (List.range ptrs.length).map (at_ ptrs) := by
    apply List.ext_getElem
    · simp
    · intro i hi _
      simp [at_eq_getElem hi]
  have hlen : ptrs.flatten.length = ((List.range ptrs.length).flatMap ids).length := by
    conv_lhs => rw [hptrs]
    rw [List.flatten_eq_flatMap, List.flatMap_map, List.length_flatMap, List.length_flatMap]
    congr 1
    apply List.map_congr_left
    intro i _
    exact (hs.lists.length i).symm
  rw [hlen]
  rwa [List.length_range] at hle

/-- What is still to come: the rest of a list, and the buckets that were not begun. -/
def toVisit (map : MapMemory κ ν) (ptrs : List (List Nat)) (ns : List Nat) (k : Nat) : List Nat :=
  map.heap.items ns ++ (ptrs.drop k).flatten

/-- The loop of `map__next`, with `k` buckets begun, gets to the next node or to the end. -/
private theorem skipEmpty_spec (hs : Stored map ids ptrs m) (fuel : Nat) {p : Option Nat}
    {ns : List Nat} {k : Nat}
    (hseg : Seg map.heap p ns none) (hk : k ≤ map.numBuckets) (hfuel : map.numBuckets - k < fuel) :
    ∃ (k' : Nat) (entry : Option Nat) (ns' : List Nat),
      map.skipEmpty fuel ((k : Int) - 1) p = some ((k' : Int) - 1, entry) ∧
      Seg map.heap entry ns' none ∧ k' ≤ map.numBuckets ∧ (entry = none → k' = map.numBuckets) ∧
      toVisit map ptrs ns' k' = toVisit map ptrs ns k := by
  induction fuel generalizing p ns k with
  | zero => exact absurd hfuel (Nat.not_lt_zero _)
  | succ fuel ih =>
    rw [MapMemory.skipEmpty]
    split
    · rename_i hcond
      obtain ⟨rfl, hlt⟩ := hcond
      have hlt : k < map.numBuckets := by omega
      -- The entry is null, so the bucket has been walked to its end.
      have hns : ns = [] := by
        cases ns with
        | nil => rfl
        | cons n ns => exact absurd hseg.1.symm (Option.some_ne_none n)
      obtain ⟨k', entry, ns', hskip, hrest⟩ :=
        ih (hs.lists.seg k) (k := k + 1) (by omega) (by omega)
      have hindex : ((k : Int) - 1 + 1).toNat = k := by omega
      have hnext : ((k + 1 : Nat) : Int) - 1 = (k : Int) - 1 + 1 := by omega
      rw [hnext] at hskip
      refine ⟨k', entry, ns', ?_, hrest.1, hrest.2.1, hrest.2.2.1, hrest.2.2.2.trans ?_⟩
      · simp only [hindex, MapMemory.bucketPtr, if_pos hlt, Option.bind_some, Heap.read, hskip]
      · rw [toVisit, toVisit, hns, hs.lists.items,
          List.drop_eq_getElem_cons (hs.length.symm ▸ hlt : k < ptrs.length),
          at_eq_getElem (hs.length.symm ▸ hlt : k < ptrs.length)]
        rfl
    -- The walk stops at an entry, or behind the last bucket.
    · rename_i hcond
      refine ⟨k, p, ns, rfl, hseg, hk, fun hnone => ?_, rfl⟩
      have hnot : ¬ ((k : Int) - 1 < (map.numBuckets : Int) - 1) := fun hlt => hcond ⟨hnone, hlt⟩
      omega

/-- `map__next` gives the first of what is to come, unless there is nothing. -/
private theorem next_spec (hs : Stored map ids ptrs m) {p : Option Nat} {ns : List Nat} {k : Nat}
    (hseg : Seg map.heap p ns none) (hk : k ≤ map.numBuckets) :
    (toVisit map ptrs ns k = [] ∧ map.next ((k : Int) - 1) p = some none) ∨
    ∃ (item k' : Nat) (p' : Option Nat) (ns' : List Nat),
      map.next ((k : Int) - 1) p = some (some (item, (k' : Int) - 1, p')) ∧
      Seg map.heap p' ns' none ∧ k' ≤ map.numBuckets ∧
      toVisit map ptrs ns k = item :: toVisit map ptrs ns' k' := by
  obtain ⟨k', entry, ns', hskip, hseg', hk', hend, hvisit⟩ :=
    skipEmpty_spec hs (map.numBuckets + 1) hseg hk (by omega)
  rw [← hvisit, MapMemory.next, hskip]
  -- After the empty buckets there is an entry, or none is left.
  cases ns' with
  | nil =>
    obtain rfl : entry = none := hseg'
    obtain rfl := hend rfl
    refine .inl ⟨?_, if_pos ⟨rfl, rfl⟩⟩
    rw [toVisit, ← hs.length, List.drop_length]
    rfl
  | cons n ns' =>
    obtain ⟨rfl, node, hnode, hseg'⟩ := hseg'
    refine .inr ⟨node.item, k', node.next, ns', ?_, hseg', hk', ?_⟩
    · rw [Option.bind_some]
      dsimp only
      rw [if_neg fun h => Option.some_ne_none n h.1, Option.bind_some, hnode]
      rfl
    · rw [toVisit, toVisit, items_cons (show map.heap.itemOf n = some node.item by
        rw [Heap.itemOf, hnode]; rfl)]
      rfl

/-- From any point on, `map__for` visits the pairs that are left in the buckets, each once. -/
private theorem forFrom_spec (hs : Stored map ids ptrs m) {p : Option Nat} {ns : List Nat}
    {k fuel : Nat} (hseg : Seg map.heap p ns none) (hk : k ≤ map.numBuckets)
    (hfuel : (toVisit map ptrs ns k).length < fuel) :
    map.forFrom fuel ((k : Int) - 1) p = some (toVisit map ptrs ns k) := by
  induction fuel generalizing p ns k with
  | zero => exact absurd hfuel (Nat.not_lt_zero _)
  | succ fuel ih =>
    rcases next_spec hs hseg hk with ⟨hnil, hnext⟩ | ⟨item, k', p', ns', hnext, hseg', hk', hvisit⟩
    · rw [MapMemory.forFrom, hnext, hnil]
      rfl
    · rw [hvisit, List.length_cons] at hfuel
      rw [MapMemory.forFrom, hnext, hvisit]
      simp only [Option.bind_some, ih hseg' hk' (Nat.lt_of_succ_lt_succ hfuel), Option.map_some]

/-- `map__for` comes to every pair once. -/
private theorem mapFor_spec (hs : Stored map ids ptrs m) : map.mapFor = some ptrs.flatten := by
  have hle := hs.length_flatten_le
  have hseg : Seg map.heap none [] none := rfl
  exact forFrom_spec hs (k := 0) hseg (Nat.zero_le _) (Nat.lt_succ_of_le hle)

/-- Read through its pointers, a map is the pairs of its buckets. -/
private theorem PointsTo.mapM_flatten {pair : Nat → Option (KeyValue κ ν)}
    {buckets : List (List (KeyValue κ ν))} (hpoints : PointsTo pair ptrs buckets) :
    ptrs.flatten.mapM pair = some buckets.flatten := by
  have hmap : ptrs.flatten.map pair = buckets.flatten.map some := by
    rw [List.map_flatten, List.map_flatten]
    congr 1
    apply List.ext_getElem
    · rw [List.length_map, List.length_map, hpoints.length]
    · intro i hi hi'
      rw [List.length_map] at hi hi'
      rw [List.getElem_map, List.getElem_map, ← at_eq_getElem hi, ← at_eq_getElem hi',
        hpoints.items]
  generalize ptrs.flatten = ps at hmap
  generalize buckets.flatten = keyValues at hmap
  induction ps generalizing keyValues with
  | nil =>
    obtain rfl := List.map_eq_nil_iff.mp hmap.symm
    rfl
  | cons p ps ih =>
    cases keyValues with
    | nil => exact absurd hmap (List.cons_ne_nil _ _)
    | cons keyValue keyValues =>
      rw [List.map_cons, List.map_cons, List.cons.injEq] at hmap
      rw [List.mapM_cons, hmap.1, ih _ hmap.2]
      rfl

/-! ## Sequences of calls -/

namespace MapUse

variable (fns : MapFns κ)

/-- What a call does to a map whose buckets are values. -/
def apply (m : MapStruct κ ν) : MapUse κ ν → Option (MapStruct κ ν × List (KeyValue κ ν))
  | set key value => (m.set fns key value).map fun m => (m, [⟨key, value⟩])
  | unset key => some (m.unset fns key, [])
  | get needle => some (m, (m.get fns needle).toList)
  | clear => some (⟨0, List.replicate m.buckets.length []⟩, [])
  | visit => some (m, m.buckets.flatten)

/-- What leaves the map, of each pair the given part. What is replaced by the same pointer stays. -/
def leaving {β : Type} [DecidableEq β] (part : KeyValue κ ν → β) (m : MapStruct κ ν) :
    MapUse κ ν → List β
  | set key value => ((m.get fns key).toList.map part).filter (· ≠ part ⟨key, value⟩)
  | unset key => (m.get fns key).toList.map part
  | get _ => []
  | clear => m.buckets.flatten.map part
  | visit => []

/-- What enters the map. -/
def entering {β : Type} (part : KeyValue κ ν → β) : MapUse κ ν → List β
  | set key value => [part ⟨key, value⟩]
  | unset _ => []
  | get _ => []
  | clear => []
  | visit => []

/-- What a sequence of calls does, with its results. -/
def applyAll : MapStruct κ ν → List (MapUse κ ν) →
  Option (MapStruct κ ν × List (List (KeyValue κ ν)))
  | m, [] => some (m, [])
  | m, call :: calls =>
    (call.apply fns m).bind fun (m', result) =>
      (applyAll m' calls).map fun (m', results) => (m', result :: results)

/-- What leaves the map in a sequence of calls. -/
def leavingAll {β : Type} [DecidableEq β] (part : KeyValue κ ν → β) :
    MapStruct κ ν → List (MapUse κ ν) → List β
  | _, [] => []
  | m, call :: calls =>
    match call.apply fns m with
    | none => []
    | some (m', _) => call.leaving fns part m ++ leavingAll part m' calls

variable {fns}

/-! ## What leaves the map -/

/-- What leaves the map in a call and what is in it afterwards is what was in it and what enters
    it. -/
private theorem leaving_perm {β : Type} [DecidableEq β] (part : KeyValue κ ν → β)
    (hs : Stored map ids ptrs m) {call : MapUse κ ν} {m' : MapStruct κ ν}
    {result : List (KeyValue κ ν)} (happly : call.apply fns m = some (m', result))
    (hnew : ∀ b ∈ m.buckets.flatten.map part, b ∉ call.entering part) :
    (call.leaving fns part m ++ m'.buckets.flatten.map part).Perm
      (m.buckets.flatten.map part ++ call.entering part) := by
  cases call with
  | set key value =>
    obtain ⟨m₁, hset, hm'⟩ := Option.map_eq_some_iff.mp happly
    obtain ⟨rfl, rfl⟩ := Prod.mk.inj hm'
    have hcomm : ([part ⟨key, value⟩] ++ m.buckets.flatten.map part).Perm
        (m.buckets.flatten.map part ++ [part ⟨key, value⟩]) := List.perm_append_comm
    refine List.Perm.trans ?_ hcomm
    cases hfind : m.findWithHash fns key (fns.hash key) with
    | none =>
      have hget : m.get fns key = none := by
        rw [MapStruct.get, hfind]
        rfl
      simp only [leaving, hget, Option.toList_none, List.map_nil, List.filter_nil, List.nil_append]
      simp only [MapStruct.set, hfind, Option.map_eq_some_iff] at hset
      obtain ⟨buckets, hgrown, rfl⟩ := hset
      have hperm : buckets.flatten.Perm m.buckets.flatten ∧ 0 < buckets.length ∧
          buckets.length < 4294967296 := by
        have hpos := hs.pos
        have hsize := hs.size
        rw [hs.numBuckets] at hpos hsize
        split at hgrown
        · have hspec := MapStruct.doubleSize_spec fns hpos
          rw [hgrown] at hspec
          obtain ⟨hbytes, hlen, hperm, -⟩ := hspec
          exact ⟨hperm, by omega, by omega⟩
        · obtain rfl := Option.some.inj hgrown
          exact ⟨.refl _, hpos, by omega⟩
      have hinsert := flatten_insert_perm (bucketIndex_lt hperm.2.1 hperm.2.2 (fns.hash key))
        (⟨key, value⟩ : KeyValue κ ν)
      exact (hinsert.trans (hperm.1.cons _)).map part
    | some link =>
      obtain ⟨i, j⟩ := link
      obtain ⟨old, hentry⟩ := findWithHash_entry hfind
      have hget : m.get fns key = some old := by
        rw [MapStruct.get, hfind]
        exact hentry
      simp only [MapStruct.set, hfind, Option.some.injEq] at hset
      have hrest := (flatten_remove_perm hentry).map part
      have hset' := (flatten_set_perm hentry ⟨key, value⟩).map part
      -- The pointer is new, so it is not the old one, and the releaser is called for that.
      have hne : part old ≠ part ⟨key, value⟩ := fun heq =>
        hnew (part old) (hrest.mem_iff.mpr List.mem_cons_self) (by simp [entering, heq])
      have hleaving : (set key value).leaving fns part m = [part old] := by
        simp [leaving, hget, hne]
      rw [hleaving, ← hset]
      exact ((hset'.cons _).trans (.swap _ _ _)).trans (hrest.symm.cons _)
  | unset key =>
    obtain ⟨rfl, rfl⟩ := Prod.mk.inj (Option.some.inj happly)
    rw [entering, List.append_nil]
    cases hfind : m.findWithHash fns key (fns.hash key) with
    | none =>
      simp only [leaving, MapStruct.get, MapStruct.unset, hfind, Option.bind_none,
        Option.toList_none, List.map_nil, List.nil_append]
      exact .refl _
    | some link =>
      obtain ⟨i, j⟩ := link
      obtain ⟨old, hentry⟩ := findWithHash_entry hfind
      simp only [leaving, MapStruct.get, MapStruct.unset, hfind, Option.bind_some, hentry,
        Option.toList_some, List.map_cons, List.map_nil]
      exact ((flatten_remove_perm hentry).map part).symm
  | get needle =>
    obtain ⟨rfl, rfl⟩ := Prod.mk.inj (Option.some.inj happly)
    simp [leaving, entering]
  | clear =>
    obtain ⟨rfl, rfl⟩ := Prod.mk.inj (Option.some.inj happly)
    simp [leaving, entering]
  | visit =>
    obtain ⟨rfl, rfl⟩ := Prod.mk.inj (Option.some.inj happly)
    simp [leaving, entering]

/-! ## Calls in memory -/

variable [DecidableEq κ] [DecidableEq ν]

/-- A call in memory does what it does to values. -/
theorem run_spec (hs : Stored map ids ptrs m) {call : MapUse κ ν} {m' : MapStruct κ ν}
    {result : List (KeyValue κ ν)} (happly : call.apply fns m = some (m', result)) :
    ∃ map' ids' ptrs', call.run fns map = some (map', result) ∧ Stored map' ids' ptrs' m' ∧
      Released map map' (call.leaving fns KeyValue.key m) (call.leaving fns KeyValue.value m) := by
  cases call with
  | set key value =>
    obtain ⟨m₁, hset, hm'⟩ := Option.map_eq_some_iff.mp happly
    obtain ⟨rfl, rfl⟩ := Prod.mk.inj hm'
    rcases hs.find_cases fns key with ⟨hfind, hget, hmem⟩ |
      ⟨i, j, p, old, hfind, hget, hmem, hp, hold⟩
    -- The key is new: a pair is made, and put at the front of its bucket.
    · obtain ⟨map', p, ids', ptrs', hrun, hpair, hs', hreleased⟩ :=
        set_stored_new hs hfind hmem hset
      refine ⟨map', ids', ptrs', ?_, hs', ?_⟩
      · simp only [run, hrun, Option.bind_some, hpair, Option.map_some]
      · simp only [leaving, hget]
        exact hreleased
    -- The key is there: the pair is released and written again in place.
    · obtain ⟨map', hrun, hpair, hs', hreleased⟩ := set_stored_old hs value hmem hp hold
      simp only [MapStruct.set, hfind, Option.some.injEq] at hset
      refine ⟨map', ids, ptrs, ?_, hset ▸ hs', ?_⟩
      · simp only [run, hrun, Option.bind_some, hpair, Option.map_some]
      · simp only [leaving, hget]
        exact hreleased
  | unset key =>
    obtain ⟨rfl, rfl⟩ := Prod.mk.inj (Option.some.inj happly)
    rcases hs.find_cases fns key with ⟨hfind, hget, hmem⟩ |
      ⟨i, j, p, old, hfind, hget, hmem, hp, hold⟩
    -- No entry has the key, and nothing changes.
    · refine ⟨map, ids, ptrs, ?_, ?_, ?_⟩
      · simp only [run, MapMemory.unset, hmem, Option.bind_some, Option.map_some]
      · simp only [MapStruct.unset, hfind]
        exact hs
      · simp only [leaving, hget]
        exact .none map
    · obtain ⟨map', ids', ptrs', hrun, hs', hreleased⟩ := unset_stored hs hmem hp hold
      refine ⟨map', ids', ptrs', ?_, ?_, ?_⟩
      · simp only [run, hrun, Option.map_some]
      · simp only [MapStruct.unset, hfind]
        exact hs'
      · simp only [leaving, hget]
        exact hreleased
  | get needle =>
    obtain ⟨rfl, rfl⟩ := Prod.mk.inj (Option.some.inj happly)
    refine ⟨map, ids, ptrs, ?_, hs, .none map⟩
    rcases hs.find_cases fns needle with ⟨-, hget, hmem⟩ | ⟨i, j, p, old, -, hget, hmem, hp, hold⟩
    · simp only [run, MapMemory.get, hmem, hget, Option.bind_some]
      rfl
    · simp only [run, MapMemory.get, hmem, hget, Option.bind_some, hs.entryItem hp,
        Option.map_some, hold]
      rfl
  | clear =>
    obtain ⟨rfl, rfl⟩ := Prod.mk.inj (Option.some.inj happly)
    -- Every bucket is emptied; the number of buckets stays.
    obtain ⟨map', ids', ptrs', hrelease, hs', hreleased⟩ := releaseAll_stored hs
    refine ⟨{ map' with count := 0 }, ids', ptrs', ?_, ?_, hreleased.congr rfl rfl rfl rfl⟩
    · simp only [run, MapMemory.clear, hrelease, Option.map_some]
    · exact ⟨hs'.lists, hs'.points, rfl, hs'.numBuckets, hs'.pos, hs'.size, hs'.nodup, hs'.used,
        hs'.fresh⟩
  | visit =>
    obtain ⟨rfl, rfl⟩ := Prod.mk.inj (Option.some.inj happly)
    refine ⟨map, ids, ptrs, ?_, hs, .none map⟩
    simp only [run, mapFor_spec hs, Option.bind_some, hs.points.mapM_flatten, Option.map_some]

/-- So does a sequence of calls. -/
theorem runAll_spec (hs : Stored map ids ptrs m) {calls : List (MapUse κ ν)} {m' : MapStruct κ ν}
    {results : List (List (KeyValue κ ν))} (happly : applyAll fns m calls = some (m', results)) :
    ∃ map' ids' ptrs', runAll fns map calls = some (map', results) ∧ Stored map' ids' ptrs' m' ∧
      Released map map' (leavingAll fns KeyValue.key m calls)
        (leavingAll fns KeyValue.value m calls) := by
  induction calls generalizing map ids ptrs m results with
  | nil =>
    obtain ⟨rfl, rfl⟩ := Prod.mk.inj (Option.some.inj happly)
    exact ⟨map, ids, ptrs, rfl, hs, .none map⟩
  | cons call calls ih =>
    obtain ⟨⟨m₁, result⟩, hcall, hrest⟩ := Option.bind_eq_some_iff.mp happly
    obtain ⟨⟨m₂, results₂⟩, hcalls, heq⟩ := Option.map_eq_some_iff.mp hrest
    obtain ⟨rfl, rfl⟩ := Prod.mk.inj heq
    obtain ⟨map₁, ids₁, ptrs₁, hrun, hs₁, hreleased₁⟩ := run_spec hs hcall
    obtain ⟨map', ids', ptrs', hruns, hs', hreleased'⟩ := ih hs₁ hcalls
    refine ⟨map', ids', ptrs', ?_, hs', ?_⟩
    · simp only [runAll, hrun, Option.bind_some, hruns, Option.map_some]
    · simp only [leavingAll, hcall]
      exact hreleased₁.trans hreleased'

/-- The same for a sequence of calls that are never given one pointer twice. -/
private theorem leavingAll_perm {β : Type} [DecidableEq β] (part : KeyValue κ ν → β)
    (hs : Stored map ids ptrs m) {calls : List (MapUse κ ν)} {m' : MapStruct κ ν}
    {results : List (List (KeyValue κ ν))} (happly : applyAll fns m calls = some (m', results))
    (hnodup : (m.buckets.flatten.map part ++ calls.flatMap (entering part)).Nodup) :
    (leavingAll fns part m calls ++ m'.buckets.flatten.map part).Perm
      (m.buckets.flatten.map part ++ calls.flatMap (entering part)) := by
  induction calls generalizing map ids ptrs m results with
  | nil =>
    obtain ⟨rfl, rfl⟩ := Prod.mk.inj (Option.some.inj happly)
    simp [leavingAll]
  | cons call calls ih =>
    obtain ⟨⟨m₁, result⟩, hcall, hrest⟩ := Option.bind_eq_some_iff.mp happly
    obtain ⟨⟨m₂, results₂⟩, hcalls, heq⟩ := Option.map_eq_some_iff.mp hrest
    obtain ⟨rfl, rfl⟩ := Prod.mk.inj heq
    obtain ⟨map₁, ids₁, ptrs₁, -, hs₁, -⟩ := run_spec hs hcall
    rw [List.flatMap_cons, ← List.append_assoc] at hnodup ⊢
    have hnew : ∀ b ∈ m.buckets.flatten.map part, b ∉ call.entering part := fun b hb hb' =>
      List.disjoint_of_nodup_append hnodup.of_append_left hb hb'
    have hstep := (leaving_perm part hs hcall hnew).append_right (calls.flatMap (entering part))
    rw [List.append_assoc] at hstep
    have hcalls := ih hs₁ hcalls (hstep.nodup_iff.mpr hnodup).of_append_right
    have hall := (hcalls.append_left (call.leaving fns part m)).trans hstep
    simp only [leavingAll, hcall]
    rwa [← List.append_assoc] at hall

end MapUse

/-! ## The life of a map -/

/-- A map that is deleted owns no memory any more, and what was in it is released. -/
private theorem delete_stored (hs : Stored map ids ptrs m) :
    ∃ map', map.delete = some map' ∧ (∀ n, map'.heap.node n = none) ∧ (∀ p, map'.pair p = none) ∧
      Released map map' (m.buckets.flatten.map KeyValue.key)
        (m.buckets.flatten.map KeyValue.value) := by
  obtain ⟨map', ids', ptrs', hrelease, hs', hreleased⟩ := releaseAll_stored hs
  have hempty : ∀ i, at_ ptrs' i = [] := by
    intro i
    apply List.length_eq_zero_iff.mp
    rw [hs'.points.length_at, at_, List.getD_eq_getElem?_getD, List.getElem?_replicate]
    split <;> rfl
  refine ⟨map', hrelease, fun n => ?_, fun p => ?_, hreleased⟩
  · by_contra hn
    obtain ⟨i, hi⟩ := hs'.lists.used n (Option.isSome_iff_ne_none.mpr hn)
    have hnil : ids' i = [] := by
      apply List.length_eq_zero_iff.mp
      rw [hs'.lists.length, hempty]
      rfl
    rw [hnil] at hi
    exact absurd hi List.not_mem_nil
  · by_contra hp
    obtain ⟨bucket, hbucket, hin⟩ :=
      List.mem_flatten.mp (hs'.used p (Option.isSome_iff_ne_none.mpr hp))
    obtain ⟨i, hi, rfl⟩ := List.getElem_of_mem hbucket
    rw [← at_eq_getElem hi, hempty] at hin
    exact absurd hin List.not_mem_nil

variable [DecidableEq κ] [DecidableEq ν]

/-- For any two functions and any releasers, every sequence of calls on a new map for which the
    array of buckets can be enlarged: none of them touches memory that is not allocated, they give
    what they give on buckets that are values, the memory holds just the pairs of the map, and the
    releasers were called for what has left it. Deleting the map frees and releases the rest. -/
theorem map_memory_refined (fns : MapFns κ) (keyReleaser valueReleaser : Bool)
    (calls : List (MapUse κ ν)) (m : MapStruct κ ν) (results : List (List (KeyValue κ ν)))
    (happly : MapUse.applyAll fns MapStruct.new calls = some (m, results)) :
    ∃ map ids ptrs map',
      MapUse.runAll fns (MapMemory.new keyReleaser valueReleaser) calls = some (map, results) ∧
      Stored map ids ptrs m ∧
      Released (MapMemory.new keyReleaser valueReleaser) map
        (MapUse.leavingAll fns KeyValue.key MapStruct.new calls)
        (MapUse.leavingAll fns KeyValue.value MapStruct.new calls) ∧
      map.delete = some map' ∧ (∀ n, map'.heap.node n = none) ∧ (∀ p, map'.pair p = none) ∧
      Released map map' (m.buckets.flatten.map KeyValue.key)
        (m.buckets.flatten.map KeyValue.value) := by
  obtain ⟨map, ids, ptrs, hrun, hs, hreleased⟩ :=
    MapUse.runAll_spec (stored_new keyReleaser valueReleaser) happly
  obtain ⟨map', hdelete, hnode, hpair, hreleased'⟩ := delete_stored hs
  exact ⟨map, ids, ptrs, map', hrun, hs, hreleased, hdelete, hnode, hpair, hreleased'⟩

/-- Two keys in one bucket, of which the first gets another value and the second goes. -/
theorem map_memory_refined_replaced :
    ∃ map map', MapUse.runAll replyIdFns (MapMemory.new true true)
        [.set 1 10, .set 17 20, .set 1 11, .unset 17, .get 17, .visit] =
      some (map, [[⟨1, 10⟩], [⟨17, 20⟩], [⟨1, 11⟩], [], [], [⟨1, 11⟩]]) ∧
      map.delete = some map' ∧ (∀ n, map'.heap.node n = none) ∧
        map'.releasedValues = [10, 20, 11] := by
  have happly : (MapUse.applyAll replyIdFns (MapStruct.new : MapStruct UInt16 Ptr)
      [.set 1 10, .set 17 20, .set 1 11, .unset 17, .get 17, .visit]).map
        (fun r => (r.1.buckets.flatten, r.2)) =
      some ([⟨1, 11⟩], [[⟨1, 10⟩], [⟨17, 20⟩], [⟨1, 11⟩], [], [], [⟨1, 11⟩]]) := by decide +kernel
  obtain ⟨⟨m, results⟩, happly, heq⟩ := Option.map_eq_some_iff.mp happly
  obtain ⟨hpairs, rfl⟩ := Prod.mk.inj heq
  obtain ⟨map, ids, ptrs, map', hrun, -, hreleased, hdelete, hnode, -, hreleased'⟩ :=
    map_memory_refined replyIdFns true true _ m _ happly
  refine ⟨map, map', hrun, hdelete, hnode, ?_⟩
  rw [(hreleased.trans hreleased').values, hpairs]
  decide +kernel

/-- For every sequence of calls that are never given one pointer twice, from `map__new` to
    `map__delete`: the releasers are called exactly once for every key and every value that
    `map__set` was given. -/
theorem map_releases_once (fns : MapFns κ) (calls : List (MapUse κ ν)) (m : MapStruct κ ν)
    (results : List (List (KeyValue κ ν)))
    (hkeys : (calls.flatMap (MapUse.entering KeyValue.key)).Nodup)
    (hvalues : (calls.flatMap (MapUse.entering KeyValue.value)).Nodup)
    (happly : MapUse.applyAll fns MapStruct.new calls = some (m, results)) :
    ∃ map map', MapUse.runAll fns (MapMemory.new true true) calls = some (map, results) ∧
      map.delete = some map' ∧
      map'.releasedKeys.Perm (calls.flatMap (MapUse.entering KeyValue.key)) ∧
      map'.releasedValues.Perm (calls.flatMap (MapUse.entering KeyValue.value)) := by
  have hnil : (MapStruct.new : MapStruct κ ν).buckets.flatten = [] := List.flatten_replicate_nil
  have hs := @stored_new κ ν true true
  obtain ⟨map, ids, ptrs, hrun, hs', hreleased⟩ := MapUse.runAll_spec hs happly
  obtain ⟨map', hdelete, -, -, hreleased'⟩ := delete_stored hs'
  have hall := hreleased.trans hreleased'
  have hkeys' := MapUse.leavingAll_perm KeyValue.key hs happly (by rw [hnil]; exact hkeys)
  have hvalues' := MapUse.leavingAll_perm KeyValue.value hs happly (by rw [hnil]; exact hvalues)
  rw [hnil] at hkeys' hvalues'
  refine ⟨map, map', hrun, hdelete, ?_, ?_⟩
  · rw [hall.keys]
    exact hkeys'
  · rw [hall.values]
    exact hvalues'

/-- One key goes by `map__unset`, and one with the map. -/
theorem map_releases_once_unset :
    ∃ map map', MapUse.runAll replyIdFns (MapMemory.new true true)
        [.set 1 10, .set 17 20, .unset 17] = some (map, [[⟨1, 10⟩], [⟨17, 20⟩], []]) ∧
      map.delete = some map' ∧ map'.releasedKeys.Perm [1, 17] ∧
        map'.releasedValues.Perm [10, 20] := by
  have happly : (MapUse.applyAll replyIdFns (MapStruct.new : MapStruct UInt16 Ptr)
      [.set 1 10, .set 17 20, .unset 17]).map Prod.snd =
      some [[⟨1, 10⟩], [⟨17, 20⟩], []] := by decide +kernel
  obtain ⟨⟨m, results⟩, happly, rfl⟩ := Option.map_eq_some_iff.mp happly
  exact map_releases_once replyIdFns _ m _ (by decide) (by decide) happly

end Msgbox
