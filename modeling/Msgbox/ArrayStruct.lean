import Mathlib.Logic.Function.Basic
import Msgbox.Internal

/-!
# Dynamic arrays

`array.c`, and the two functions on arrays of `msgbox.c`. The items are bytes in one buffer, an item
pointer is an offset in it, and a byte is `none` until it is written. A function gives `none`
where it leaves the buffer, uses one that is freed, or computes an `int` that does not fit.
-/

namespace Msgbox

/-- The bytes of an item. -/
abbrev Item := List (Option UInt8)

/-- An `int` that is not negative, if it fits. -/
def asInt (n : Nat) : Option Nat := if n < 2147483648 then some n else none

/-! ## Memory -/

/-- Read from a buffer. -/
def readBytes (buffer : List (Option UInt8)) (start len : Nat) : Option (List (Option UInt8)) :=
  if start + len ≤ buffer.length then some ((buffer.drop start).take len) else none

/-- `memcpy` from elsewhere. -/
def memcpy (buffer : List (Option UInt8)) (dst : Nat) (bytes : List (Option UInt8)) :
    Option (List (Option UInt8)) :=
  if dst + bytes.length ≤ buffer.length then
    some (buffer.take dst ++ bytes ++ buffer.drop (dst + bytes.length))
  else none

/-- `memmove`. -/
def memmove (buffer : List (Option UInt8)) (dst src len : Nat) : Option (List (Option UInt8)) :=
  (readBytes buffer src len).bind (memcpy buffer dst)

/-- `realloc`. -/
def realloc (buffer : List (Option UInt8)) (numBytes : Nat) : List (Option UInt8) :=
  buffer.take numBytes ++ List.replicate (numBytes - buffer.length) none

/-- `ArrayStruct`. `items` is the buffer, `none` once it is freed. `released` are the items for
    which the releaser was called, and `moved` counts the items that were there when `realloc`
    was. -/
structure ArrayStruct where
  count : Nat
  capacity : Nat
  itemSize : Nat
  releaser : Bool
  items : Option (List (Option UInt8))
  released : List Item
  moved : Nat

namespace ArrayStruct

/-- `array__new`, and the assignment of the releaser that follows it. -/
def new (capacity itemSize : Nat) (releaser : Bool) : Option ArrayStruct :=
  let capacity := if capacity < 1 then 1 else capacity
  (asInt (itemSize * capacity)).map fun numBytes =>
    { count := 0
      capacity := capacity
      itemSize := itemSize
      releaser := releaser
      items := some (List.replicate numBytes none)
      released := []
      moved := 0 }

/-- `array__item_ptr`. -/
def itemPtr (array : ArrayStruct) (index : Nat) : Nat := index * array.itemSize

/-- `array__index_of`. -/
def indexOf (array : ArrayStruct) (item : Nat) : Nat := item / array.itemSize

/-- What a pointer into the buffer points to. -/
def itemAt (array : ArrayStruct) (item : Nat) : Option Item :=
  array.items.bind fun buffer => readBytes buffer item array.itemSize

/-- `array->releaser(item, context)`, if there is a releaser. -/
def release (array : ArrayStruct) (item : Nat) : Option ArrayStruct :=
  if array.releaser then
    (array.itemAt item).map fun bytes => { array with released := array.released ++ [bytes] }
  else some array

/-- Write to the buffer. -/
def modifyItems (array : ArrayStruct) (f : List (Option UInt8) → Option (List (Option UInt8))) :
    Option ArrayStruct :=
  array.items.bind fun buffer => (f buffer).map fun buffer => { array with items := some buffer }

/-- The enlargement of the buffer to the capacity. -/
def reallocItems (array : ArrayStruct) : Option ArrayStruct :=
  (asInt (array.capacity * array.itemSize)).bind fun numBytes =>
    ({ array with moved := array.moved + array.count }).modifyItems fun buffer =>
      some (realloc buffer numBytes)

/-- `array->capacity *= 2; if (array->capacity == 0) array->capacity = 1;` -/
def doubleCapacity (array : ArrayStruct) : Option ArrayStruct :=
  (asInt (array.capacity * 2)).map fun capacity =>
    { array with capacity := if capacity = 0 then 1 else capacity }

/-! ## Adding items -/

/-- `array__new_ptr`. -/
def newPtr (array : ArrayStruct) : Option (ArrayStruct × Nat) :=
  (if array.count = array.capacity then array.doubleCapacity.bind reallocItems
    else some array).map fun array =>
    let array := { array with count := array.count + 1 }
    (array, array.itemPtr (array.count - 1))

/-- `array__add_item_ptr`. -/
def addItemPtr (array : ArrayStruct) (item : Item) : Option ArrayStruct :=
  array.newPtr.bind fun (array, ptr) => array.modifyItems fun buffer => memcpy buffer ptr item

/-- The loop of `array__add_zeroed_items`, with `resize_needed`. -/
def growLoop (newCount : Nat) : Nat → ArrayStruct → Bool → Option (ArrayStruct × Bool)
  | 0, _, _ => none
  | fuel + 1, array, resizeNeeded =>
    if array.capacity < newCount then
      array.doubleCapacity.bind fun array => growLoop newCount fuel array true
    else some (array, resizeNeeded)

/-- `array__add_zeroed_items`. The capacity grows in every round of the loop. -/
def addZeroedItems (array : ArrayStruct) (numItems : Nat) : Option ArrayStruct :=
  (asInt (array.count + numItems)).bind fun newCount =>
    (growLoop newCount (newCount + 1) array false).bind fun (array, resizeNeeded) =>
      (if resizeNeeded then array.reallocItems else some array).bind fun array =>
        (array.modifyItems fun buffer =>
          memcpy buffer (array.itemPtr array.count)
            (List.replicate (numItems * array.itemSize) (some 0))).map fun array =>
          { array with count := newCount }

/-- `array__insert_items`. -/
def insertItems (array : ArrayStruct) (index : Nat) (items : List Item) : Option ArrayStruct :=
  let numItems := items.length
  let numNewItemBytes := numItems * array.itemSize
  if index ≤ array.count then
    let numSuffixBytes := (array.count - index) * array.itemSize
    (array.addZeroedItems numItems).bind fun array =>
      let indexPt := index * array.itemSize
      (array.modifyItems fun buffer =>
        memmove buffer (indexPt + numNewItemBytes) indexPt numSuffixBytes).bind fun array =>
        array.modifyItems fun buffer => memcpy buffer indexPt items.flatten
  else none

/-- The loop of `array__append_array`, from the index `i` on. -/
def appendLoop (src : ArrayStruct) : Nat → Nat → ArrayStruct → Option ArrayStruct
  | 0, _, dst => some dst
  | n + 1, i, dst =>
    (src.itemAt (src.itemPtr i)).bind fun item =>
      (dst.addItemPtr item).bind (appendLoop src n (i + 1))

/-- `array__append_array`, for two different arrays. -/
def appendArray (dst src : ArrayStruct) : Option ArrayStruct := appendLoop src src.count 0 dst

/-! ## Removing items -/

/-- `--(array->count)`, where that is not negative. -/
def decrement (array : ArrayStruct) : Option ArrayStruct :=
  if array.count = 0 then none else some { array with count := array.count - 1 }

/-- `array__remove_item`. -/
def removeItem (array : ArrayStruct) (item : Nat) : Option ArrayStruct :=
  (array.release item).bind fun array =>
    array.decrement.bind fun array =>
      let numLeft := array.count
      let index := array.indexOf item
      -- Nothing is behind the last item.
      if index = numLeft then some array
      else
        array.modifyItems fun buffer =>
          memmove buffer item (item + array.itemSize) ((numLeft - index) * array.itemSize)

/-- `array__remove_last`. -/
def removeLast (array : ArrayStruct) : Option ArrayStruct :=
  array.removeItem (array.itemPtr (array.count - 1))

/-- `array__remove_and_fill`. -/
def removeAndFill (array : ArrayStruct) (index : Nat) : Option ArrayStruct :=
  let elt := array.itemPtr index
  let lastElt := array.itemPtr (array.count - 1)
  (array.release elt).bind fun array =>
    -- The releaser has seen the item by now, and it may be overwritten.
    (if elt ≠ lastElt then
      (array.itemAt lastElt).bind fun bytes => array.modifyItems fun buffer => memcpy buffer
      elt bytes
    else some array).bind decrement

/-- The loop of `array__clear_with_context`, from the index `i` on. -/
def clearLoop : Nat → Nat → ArrayStruct → Option ArrayStruct
  | 0, _, array => some array
  | n + 1, i, array => (array.release (array.itemPtr i)).bind (clearLoop n (i + 1))

/-- `array__clear`. -/
def clear (array : ArrayStruct) : Option ArrayStruct :=
  -- Only the count is reset; the buffer and its capacity stay.
  (if array.releaser then clearLoop array.count 0 array else some array).map fun array =>
    { array with count := 0 }

/-- `array__release`. -/
def releaseArray (array : ArrayStruct) : Option ArrayStruct :=
  array.clear.bind fun array => array.items.map fun _ => { array with items := none, capacity := 0 }

end ArrayStruct

/-! ## Sequences of calls -/

/-- A call for an array. `remove` is `array__remove_item` for the pointer to the item at the
    index, and `read` reads what that pointer points to. -/
inductive ArrayOp
  | add (item : Item)
  | addZeroed (numItems : Nat)
  | insert (index : Nat) (items : List Item)
  | remove (index : Nat)
  | removeLast
  | removeAndFill (index : Nat)
  | clear
  | read (index : Nat)

/-- A call, and the item that it reads. -/
def ArrayOp.run (array : ArrayStruct) : ArrayOp → Option (ArrayStruct × Option Item)
  | add item => (array.addItemPtr item).map fun array => (array, none)
  | addZeroed numItems => (array.addZeroedItems numItems).map fun array => (array, none)
  | insert index items => (array.insertItems index items).map fun array => (array, none)
  | remove index => (array.removeItem (array.itemPtr index)).map fun array => (array, none)
  | removeLast => array.removeLast.map fun array => (array, none)
  | removeAndFill index => (array.removeAndFill index).map fun array => (array, none)
  | clear => array.clear.map fun array => (array, none)
  | read index => (array.itemAt (array.itemPtr index)).map fun item => (array, some item)

/-- A call for one of several arrays, or `array__append_array` for two of them. -/
inductive ArrayCall (ρ : Type)
  | on (r : ρ) (op : ArrayOp)
  | append (dst src : ρ)

namespace ArrayCall

variable {ρ : Type} [DecidableEq ρ]

def run (arrays : ρ → ArrayStruct) : ArrayCall ρ → Option ((ρ → ArrayStruct) × Option Item)
  | on r op => (op.run (arrays r)).map fun (array, item) => (Function.update arrays r array, item)
  | append dst src =>
    ((arrays dst).appendArray (arrays src)).map fun array => (Function.update arrays dst array,
      none)

/-- Calls in a row, with what they read. -/
def runAll : (ρ → ArrayStruct) → List (ArrayCall ρ) →
  Option ((ρ → ArrayStruct) × List (Option Item))
  | arrays, [] => some (arrays, [])
  | arrays, call :: calls =>
    (call.run arrays).bind fun (arrays, result) =>
      (runAll arrays calls).map fun (arrays, results) => (arrays, result :: results)

end ArrayCall

end Msgbox
