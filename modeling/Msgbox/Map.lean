import Mathlib.Algebra.Group.Nat.Defs
import Msgbox.Lib.Buckets
import Msgbox.Types

/-!
# The hash map

`map.c` with the two pairs of functions that `msgbox.c` gives it: `address_hash` and
`address_eq` for `conn_status`, `reply_id_hash` and `reply_id_eq` for the reply contexts of a
status. A bucket is a linked list; a pointer to one of its links is the position of the link.
-/

namespace Msgbox

open Buckets (at_)

/-! ## Keys -/

/-- `map__Hash` and `map__Eq`. -/
structure MapFns (κ : Type) where
  hash : κ → Int32
  eq : κ → κ → Bool

/-- The memory of an `Address`. -/
structure RawAddress where
  ip : UInt32
  port : UInt16
  protocolType : UInt16
  deriving DecidableEq, Repr

/-- The bytes of an `Address`, in the byte order of a little-endian host. -/
def RawAddress.bytes (address : RawAddress) : List UInt8 :=
  let byte (v i : Nat) : UInt8 := UInt8.ofNat (v / 256 ^ i)
  [byte address.ip.toNat 0, byte address.ip.toNat 1, byte address.ip.toNat 2,
    byte address.ip.toNat 3, byte address.port.toNat 0, byte address.port.toNat 1,
    byte address.protocolType.toNat 0, byte address.protocolType.toNat 1]

/-- `address_hash`; a `char` is signed. -/
def addressHash (address : RawAddress) : Int32 :=
  address.bytes.foldl (fun hash byte => hash * 234 + byte.toInt8.toInt32) 0

/-- `address_eq`, that is `memcmp`. -/
def addressEq (addr1 addr2 : RawAddress) : Bool := addr1.bytes == addr2.bytes

/-- `(void *)(intptr_t)reply_id`. -/
def replyIdKey (replyId : UInt16) : UInt64 := replyId.toUInt64

/-- `reply_id_hash`. -/
def replyIdHash (replyId : UInt64) : Int32 := replyId.toUInt32.toInt32

/-- `reply_id_eq`. -/
def replyIdEq (replyId1 replyId2 : UInt64) : Bool := replyId1.toUInt16 == replyId2.toUInt16

/-- The functions of `conn_status`. -/
def addressFns : MapFns RawAddress := ⟨addressHash, addressEq⟩

/-- The functions of `reply_contexts`, whose keys are reply ids. -/
def replyIdFns : MapFns UInt16 where
  hash := fun replyId => replyIdHash (replyIdKey replyId)
  eq := fun replyId1 replyId2 => replyIdEq (replyIdKey replyId1) (replyIdKey replyId2)

/-! ## The map -/

/-- `map__key_value`. -/
structure KeyValue (κ ν : Type) where
  key : κ
  value : ν
  deriving DecidableEq, Repr

/-- `MapStruct`, less the functions, which are parameters here. -/
structure MapStruct (κ ν : Type) where
  count : Int32
  buckets : List (List (KeyValue κ ν))

/-- `MIN_BUCKETS`. -/
def minBuckets : Nat := 16

/-- `((unsigned int)h) % n`. -/
def bucketIndex (h : Int32) (n : Nat) : Nat := (h.toUInt32 % UInt32.ofNat n).toNat

/-- `array__add_zeroed_items`, for an array whose capacity is its count; as the number of items
    is doubled here, so is the capacity. `none` where the number of bytes that `realloc` is
    asked for, which is an `int`, is not that of the items. -/
def addZeroedItems {α : Type} (items : List (List α)) (numItems : Nat) : Option (List (List α)) :=
  let newCount := items.length + numItems
  let itemSize : Int32 := 8
  let numBytes := Int32.ofNat newCount * itemSize
  if numBytes.toInt = newCount * 8 then some (items ++ List.replicate numItems []) else none

namespace MapStruct

variable {κ ν : Type} (fns : MapFns κ)

/-- `map__new`. -/
def new : MapStruct κ ν := ⟨0, List.replicate minBuckets []⟩

/-- `bucket_find`. -/
def bucketFind (bucket : List (KeyValue κ ν)) (needle : κ) : Option Nat :=
  bucket.findIdx? fun pair => fns.eq pair.key needle

/-- `find_with_hash`: the bucket and the link in it. -/
def findWithHash (map : MapStruct κ ν) (needle : κ) (h : Int32) : Option (Nat × Nat) :=
  let n := map.buckets.length
  let index := bucketIndex h n
  (bucketFind fns (at_ map.buckets index) needle).map fun entry => (index, entry)

/-- The walk of `double_size` through the bucket at `index`, from the link at `entry` on; the
    fuel is the number of links. -/
def rehashBucket (n index : Nat) :
    Nat → Nat → List (List (KeyValue κ ν)) → List (List (KeyValue κ ν))
  | 0, _, buckets => buckets
  | fuel + 1, entry, buckets =>
    match (at_ buckets index)[entry]? with
    | none => buckets
    | some pair =>
      let newIndex := bucketIndex (fns.hash pair.key) n
      if newIndex = index then rehashBucket n index fuel (entry + 1) buckets
      else
        -- `list__remove_first(entry)` leaves `entry` at the next link.
        let buckets := buckets.modify index (·.eraseIdx entry)
        rehashBucket n index fuel entry (buckets.modify newIndex (pair :: ·))

/-- The loop of `double_size` over the remaining indices. -/
def rehash (n : Nat) :
    List Nat → List (List (KeyValue κ ν)) → List (List (KeyValue κ ν))
  | [], buckets => buckets
  | index :: indices, buckets =>
    let buckets := rehashBucket fns n index (at_ buckets index).length 0 buckets
    -- The other half of the buckets is new.
    if n / 2 ≤ index then buckets else rehash n indices buckets

/-- `double_size`, of the buckets. -/
def doubleSize (buckets : List (List (KeyValue κ ν))) : Option (List (List (KeyValue κ ν))) :=
  (addZeroedItems buckets buckets.length).map fun buckets =>
    rehash fns buckets.length (List.range buckets.length) buckets

/-- `map__set`. The load is a quotient of integers, so it exceeds `MAX_LOAD`, which is 2.5, if
    it is at least 3. -/
def set (map : MapStruct κ ν) (key : κ) (value : ν) : Option (MapStruct κ ν) :=
  let h := fns.hash key
  match findWithHash fns map key h with
  | some (index, entry) =>
    some { map with buckets := map.buckets.modify index (·.set entry ⟨key, value⟩) }
  | none =>
    let load := (map.count + 1) / Int32.ofNat map.buckets.length
    let buckets := if 3 ≤ load then doubleSize fns map.buckets else some map.buckets
    buckets.map fun buckets =>
      let index := bucketIndex h buckets.length
      { count := map.count + 1, buckets := buckets.modify index (⟨key, value⟩ :: ·) }

/-- `map__unset`. -/
def unset (map : MapStruct κ ν) (key : κ) : MapStruct κ ν :=
  match findWithHash fns map key (fns.hash key) with
  | none => map
  | some (index, entry) =>
    { count := map.count - 1, buckets := map.buckets.modify index (·.eraseIdx entry) }

/-- `map__get`. -/
def get (map : MapStruct κ ν) (needle : κ) : Option (KeyValue κ ν) :=
  (findWithHash fns map needle (fns.hash needle)).bind fun (index, entry) =>
    (at_ map.buckets index)[entry]?

end MapStruct

end Msgbox
