import Msgbox.LinkedList
import Msgbox.Map

/-!
# The hash map in memory

`map.c` with its buckets as the linked lists that they are: an array of links to nodes, whose items
are pointers to pairs. Keys and values are pointers too, and the functions of the map look at what
they point to. A function that reads, writes or frees memory which is not allocated gives `none`,
and so does one that leaves the array of buckets.
-/

namespace Msgbox

open Links

/-- `MapStruct` and the memory that it owns. A variable of the heap is an element of the array
    `buckets`. `releasedKeys` and `releasedValues` are what the releasers were called for. -/
structure MapMemory (κ ν : Type) where
  count : Int32
  numBuckets : Nat
  heap : Heap Nat Nat
  pair : Nat → Option (KeyValue κ ν)
  freshPair : Nat
  keyReleaser : Bool
  valueReleaser : Bool
  releasedKeys : List κ
  releasedValues : List ν

namespace MapMemory

variable {κ ν : Type} (fns : MapFns κ)

/-- `map__new`, and the assignments of the releasers that follow it. -/
def new (keyReleaser valueReleaser : Bool) : MapMemory κ ν where
  count := 0
  numBuckets := minBuckets
  heap := Heap.empty
  pair _ := none
  freshPair := 0
  keyReleaser := keyReleaser
  valueReleaser := valueReleaser
  releasedKeys := []
  releasedValues := []

/-- `array__item_ptr(map->buckets, index)`. -/
def bucketPtr (n index : Nat) : Option (Place Nat) :=
  if index < n then some (.root index) else none

/-! ## Looking for a pair -/

/-- `pair_matches_needle_info`. -/
def pairMatches (map : MapMemory κ ν) (needle : κ) (p : Nat) : Bool :=
  match map.pair p with
  | some pair => fns.eq pair.key needle
  | none => false

/-- `bucket_find`. -/
def bucketFind (map : MapMemory κ ν) (bucket : Place Nat) (needle : κ) :
    Option (Option (Place Nat)) :=
  listFindEntry map.heap bucket (map.pairMatches fns needle)

/-- `find_with_hash`. -/
def findWithHash (map : MapMemory κ ν) (needle : κ) (h : Int32) : Option (Option (Place Nat)) :=
  let n := map.numBuckets
  let index := bucketIndex h n
  (bucketPtr n index).bind fun bucket => map.bucketFind fns bucket needle

/-- `(*entry)->item`. -/
def entryItem (map : MapMemory κ ν) (entry : Place Nat) : Option Nat :=
  (map.heap.read entry).bind fun link => link.bind map.heap.itemOf

/-! ## Doubling the buckets -/

/-- `array__add_zeroed_items(map->buckets, num_items)`, for an array whose capacity is its count.
    `none` where the number of bytes that `realloc` is asked for is not that of the items. -/
def addZeroedBuckets (map : MapMemory κ ν) (numItems : Nat) : Option (MapMemory κ ν) :=
  let newCount := map.numBuckets + numItems
  let itemSize : Int32 := 8
  let numBytes := Int32.ofNat newCount * itemSize
  if numBytes.toInt = newCount * 8 then
    some { map with
      numBuckets := newCount
      heap := { map.heap with
        root := fun index =>
          -- The new buckets are zeroed, that is `NULL`.
          if map.numBuckets ≤ index ∧ index < newCount then none else map.heap.root index } }
  else none

/-- The inner loop of `double_size`, from `entry` on. -/
def rehashBucket (pair : Nat → Option (KeyValue κ ν)) (n index : Nat) :
    Nat → Place Nat → Heap Nat Nat → Option (Heap Nat Nat)
  | 0, _, _ => none
  | fuel + 1, entry, h =>
    (h.read entry).bind fun
      | none => some h
      | some node =>
        (h.itemOf node).bind fun p =>
          (pair p).bind fun keyValue =>
            let newIndex := bucketIndex (fns.hash keyValue.key) n
            if newIndex = index then rehashBucket pair n index fuel (.next node) h
            else
              -- After this, `entry` is the place of the next link.
              (listRemoveFirst h entry).bind fun (h, _) =>
                (bucketPtr n newIndex).bind fun newBucket =>
                  (listInsert h newBucket p).bind fun h => rehashBucket pair n index fuel entry h

/-- The outer loop of `double_size` over the remaining indices. A bucket has no more nodes than were
    allocated. -/
def rehash (pair : Nat → Option (KeyValue κ ν)) (n : Nat) :
    List Nat → Heap Nat Nat → Option (Heap Nat Nat)
  | [], h => some h
  | index :: indices, h =>
    (bucketPtr n index).bind fun bucket =>
      (rehashBucket fns pair n index (h.fresh + 1) bucket h).bind fun h =>
        -- The other half of the buckets is new.
        if n / 2 ≤ index then some h else rehash pair n indices h

/-- `double_size`. -/
def doubleSize (map : MapMemory κ ν) : Option (MapMemory κ ν) :=
  (map.addZeroedBuckets map.numBuckets).bind fun map =>
    let n := map.numBuckets
    (rehash fns map.pair n (List.range n) map.heap).map fun h => { map with heap := h }

/-! ## Releasing -/

/-- `map->key_releaser(key, NULL)`, if there is a releaser. -/
def releaseKey (map : MapMemory κ ν) (key : κ) : MapMemory κ ν :=
  if map.keyReleaser then { map with releasedKeys := map.releasedKeys ++ [key] } else map

/-- `map->value_releaser(value, NULL)`, if there is a releaser. -/
def releaseValue (map : MapMemory κ ν) (value : ν) : MapMemory κ ν :=
  if map.valueReleaser then { map with releasedValues := map.releasedValues ++ [value] } else map

/-- `release_and_free_pair`. -/
def releaseAndFreePair (map : MapMemory κ ν) (p : Nat) : Option (MapMemory κ ν) :=
  (map.pair p).map fun pair =>
    let map := (map.releaseKey pair.key).releaseValue pair.value
    { map with pair := Function.update map.pair p none }

/-- `list__delete_and_release` of a bucket with `release_key_value_pair`, which does not look at the
    nodes. -/
def releaseBucket (map : MapMemory κ ν) (bucket : Place Nat) : Option (MapMemory κ ν) :=
  (listDeleteAndRelease map.heap bucket).bind fun (h, items) =>
    items.foldlM releaseAndFreePair { map with heap := h }

/-- The loop of `map__clear`, and that of `array__clear_with_context` in `map__delete`. -/
def releaseBuckets : List Nat → MapMemory κ ν → Option (MapMemory κ ν)
  | [], map => some map
  | index :: indices, map =>
    (bucketPtr map.numBuckets index).bind fun bucket =>
      (map.releaseBucket bucket).bind (releaseBuckets indices)

/-! ## The functions of the header -/

/-- `map__set`, with the pointer that it returns. -/
def set [DecidableEq κ] [DecidableEq ν] (map : MapMemory κ ν) (key : κ) (value : ν) :
    Option (MapMemory κ ν × Nat) :=
  let h := fns.hash key
  (map.findWithHash fns key h).bind fun
    | some entry =>
      (map.entryItem entry).bind fun p =>
        (map.pair p).map fun old =>
          -- The key and the value are compared as pointers.
          let map := if old.key ≠ key then map.releaseKey old.key else map
          let map := if old.value ≠ value then map.releaseValue old.value else map
          ({ map with pair := Function.update map.pair p (some ⟨key, value⟩) }, p)
    | none =>
      let p := map.freshPair
      let map := { map with
        pair := Function.update map.pair p (some ⟨key, value⟩), freshPair := p + 1 }
      let load := (map.count + 1) / Int32.ofNat map.numBuckets
      -- `double_size` reads the other pairs; the new one is in no bucket yet.
      (if 3 ≤ load then map.doubleSize fns else some map).bind fun map =>
        let n := map.numBuckets
        (bucketPtr n (bucketIndex h n)).bind fun bucket =>
          (listInsert map.heap bucket p).map fun h =>
            ({ map with heap := h, count := map.count + 1 }, p)

/-- `map__unset`. -/
def unset (map : MapMemory κ ν) (key : κ) : Option (MapMemory κ ν) :=
  (map.findWithHash fns key (fns.hash key)).bind fun
    | none => some map
    | some entry =>
      (map.entryItem entry).bind fun p =>
        -- The pair is freed before the node that points to it.
        (map.releaseAndFreePair p).bind fun map =>
          (listRemoveFirst map.heap entry).map fun (h, _) =>
            { map with heap := h, count := map.count - 1 }

/-- `map__get`. -/
def get (map : MapMemory κ ν) (needle : κ) : Option (Option Nat) :=
  (map.findWithHash fns needle (fns.hash needle)).bind fun
    | none => some none
    | some entry => (map.entryItem entry).map some

/-- `map__clear`. -/
def clear (map : MapMemory κ ν) : Option (MapMemory κ ν) :=
  (releaseBuckets (List.range map.numBuckets) map).map fun map => { map with count := 0 }

/-- `map__delete`, without the memory of the array and of the struct. -/
def delete (map : MapMemory κ ν) : Option (MapMemory κ ν) :=
  releaseBuckets (List.range map.numBuckets) map

/-! ## Walking through a map -/

/-- The loop of `map__next`. -/
def skipEmpty (map : MapMemory κ ν) : Nat → Int → Option Nat → Option (Int × Option Nat)
  | 0, _, _ => none
  | fuel + 1, i, entry =>
    if entry = none ∧ i < map.numBuckets - 1 then
      (bucketPtr map.numBuckets (i + 1).toNat).bind fun bucket =>
        (map.heap.read bucket).bind fun entry => skipEmpty map fuel (i + 1) entry
    else some (i, entry)

/-- `map__next`: `some none` if it returns `NULL`. -/
def next (map : MapMemory κ ν) (i : Int) (p : Option Nat) :
    Option (Option (Nat × Int × Option Nat)) :=
  (map.skipEmpty (map.numBuckets + 1) i p).bind fun (i, entry) =>
    if entry = none ∧ i = map.numBuckets - 1 then some none
    else
      entry.bind fun entry =>
        (map.heap.node entry).map fun node => some (node.item, i, node.next)

/-- The calls of `map__next` that `map__for` makes, from a position on: the pairs that it comes
    to. A map has no more nodes than were allocated. -/
def forFrom (map : MapMemory κ ν) : Nat → Int → Option Nat → Option (List Nat)
  | 0, _, _ => none
  | fuel + 1, i, p =>
    (map.next i p).bind fun
      | none => some []
      | some (pair, i, p) => (forFrom map fuel i p).map (pair :: ·)

/-- `map__for`. -/
def mapFor (map : MapMemory κ ν) : Option (List Nat) := map.forFrom (map.heap.fresh + 1) (-1) none

end MapMemory

/-! ## Sequences of calls -/

/-- A call for a map; `visit` is a loop with `map__for`. -/
inductive MapUse (κ ν : Type)
  | set (key : κ) (value : ν)
  | unset (key : κ)
  | get (needle : κ)
  | clear
  | visit

namespace MapUse

variable {κ ν : Type} [DecidableEq κ] [DecidableEq ν] (fns : MapFns κ)

/-- A call, with what the pointers that it gives point to. -/
def run (map : MapMemory κ ν) : MapUse κ ν → Option (MapMemory κ ν × List (KeyValue κ ν))
  | set key value =>
    (map.set fns key value).bind fun (map, p) => (map.pair p).map fun pair => (map, [pair])
  | unset key => (map.unset fns key).map fun map => (map, [])
  | get needle =>
    (map.get fns needle).bind fun
      | none => some (map, [])
      | some p => (map.pair p).map fun pair => (map, [pair])
  | clear => map.clear.map fun map => (map, [])
  | visit => map.mapFor.bind fun ps => (ps.mapM map.pair).map fun pairs => (map, pairs)

/-- Calls in a row, with their results. -/
def runAll : MapMemory κ ν → List (MapUse κ ν) → Option (MapMemory κ ν × List (List (KeyValue κ ν)))
  | map, [] => some (map, [])
  | map, call :: calls =>
    (call.run fns map).bind fun (map, result) =>
      (runAll map calls).map fun (map, results) => (map, result :: results)

end MapUse

end Msgbox
