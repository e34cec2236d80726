import Msgbox.Lib.Links

/-!
# Linked lists

`list.c`. A `List` is a pointer to a node, or `NULL`, and a `List *` a pointer to a variable of that
type or to the `next` field of a node. A function that reads or writes memory which is not allocated
gives `none`. `malloc` does not fail.
-/

namespace Msgbox

open Links

variable {ρ α : Type} [DecidableEq ρ]

/-- `list__insert`. -/
def listInsert (h : Heap ρ α) (list : Place ρ) (item : α) : Option (Heap ρ α) :=
  (h.read list).bind fun nextList =>
    let newList := h.fresh
    (h.malloc { item := item, next := nextList }).write list (some newList)

/-- `list__remove_first`. -/
def listRemoveFirst (h : Heap ρ α) (list : Place ρ) : Option (Heap ρ α × Option α) :=
  (h.read list).bind fun
    | none => some (h, none)
    | some first =>
      (h.node first).bind fun removedItem =>
        (h.free first).bind fun h =>
          (h.write list removedItem.next).map fun h => (h, some removedItem.item)

/-- `list__move_first`, from `src` to `dst`. -/
def listMoveFirst (h : Heap ρ α) (src dst : Place ρ) : Option (Heap ρ α × Option α) :=
  (h.read src).bind fun
    | none => some (h, none)
    | some a =>
      (h.node a).bind fun node =>
        (h.read dst).bind fun c =>
          (h.write dst (some a)).bind fun h =>
            (h.setNext a c).bind fun h =>
              (h.write src node.next).bind fun h => (h.itemOf a).map fun item => (h, some item)

/-- The loop of `list__delete_and_release`. The items are those for which the releaser is called, in
    this order, if there is one. -/
def listDeleteLoop (list : Place ρ) : Nat → Heap ρ α → Option (Heap ρ α × List α)
  | 0, _ => none
  | fuel + 1, h =>
    (h.read list).bind fun
      | none => some (h, [])
      | some first =>
        (h.node first).bind fun node =>
          (h.free first).bind fun h =>
            (h.write list node.next).bind fun h =>
              (listDeleteLoop list fuel h).map fun rest => (rest.1, node.item :: rest.2)

/-- `list__delete_and_release`, and `list__delete` where there is no releaser. A list has no more
    nodes than were allocated. -/
def listDeleteAndRelease (h : Heap ρ α) (list : Place ρ) : Option (Heap ρ α × List α) :=
  listDeleteLoop list (h.fresh + 1) h

/-- The loop of `list__find_entry`. -/
def listFindEntryLoop (h : Heap ρ α) (valEqNeedle : α → Bool) :
    Nat → Place ρ → Option (Option (Place ρ))
  | 0, _ => none
  | fuel + 1, iter =>
    (h.read iter).bind fun
      | none => some none
      | some n =>
        (h.node n).bind fun node =>
          if valEqNeedle node.item then some (some iter)
          else listFindEntryLoop h valEqNeedle fuel (.next n)

/-- `list__find_entry`. -/
def listFindEntry (h : Heap ρ α) (list : Place ρ) (valEqNeedle : α → Bool) :
    Option (Option (Place ρ)) :=
  listFindEntryLoop h valEqNeedle (h.fresh + 1) list

/-- The loop of `list__find_value`. -/
def listFindValueLoop (h : Heap ρ α) (valEqNeedle : α → Bool) : Nat → Option Nat → Option (Option α)
  | 0, _ => none
  | _ + 1, none => some none
  | fuel + 1, some n =>
    (h.node n).bind fun node =>
      if valEqNeedle node.item then some (some node.item)
      else listFindValueLoop h valEqNeedle fuel node.next

/-- `list__find_value`. -/
def listFindValue (h : Heap ρ α) (list : Place ρ) (valEqNeedle : α → Bool) : Option (Option α) :=
  (h.read list).bind (listFindValueLoop h valEqNeedle (h.fresh + 1))

/-- The loop of `list__reverse`. -/
def listReverseLoop : Nat → Heap ρ α → Option Nat → Option Nat → Int32 →
    Option (Heap ρ α × Option Nat × Int32)
  | 0, _, _, _, _ => none
  | _ + 1, h, iter, none, n => some (h, iter, n)
  | fuel + 1, h, iter, some next, n =>
    (h.node next).bind fun node =>
      (h.setNext next iter).bind fun h => listReverseLoop fuel h (some next) node.next (n + 1)

/-- `list__reverse`. -/
def listReverse (h : Heap ρ α) (list : Place ρ) : Option (Heap ρ α × Int32) :=
  (h.read list).bind fun first =>
    (listReverseLoop (h.fresh + 1) h none first 0).bind fun (h, iter, n) =>
      (h.write list iter).map fun h => (h, n)

/-- The loop of `list__count`. -/
def listCountLoop (h : Heap ρ α) : Nat → Option Nat → Int32 → Option Int32
  | 0, _, _ => none
  | _ + 1, none, n => some n
  | fuel + 1, some iter, n => (h.node iter).bind fun node => listCountLoop h fuel node.next (n + 1)

/-- `list__count`. -/
def listCount (h : Heap ρ α) (list : Place ρ) : Option Int32 :=
  (h.read list).bind fun iter => listCountLoop h (h.fresh + 1) iter 0

/-! ## Sequences of calls -/

/-- A call for lists that variables point to. `insertAt` and `removeAt` are `list__insert` and
    `list__remove_first` for the entry that `list__find_entry` gives, if it gives one. -/
inductive ListCall (ρ α : Type)
  | insert (list : ρ) (item : α)
  | insertAt (list : ρ) (valEqNeedle : α → Bool) (item : α)
  | removeFirst (list : ρ)
  | removeAt (list : ρ) (valEqNeedle : α → Bool)
  | moveFirst (src dst : ρ)
  | delete (list : ρ)
  | findValue (list : ρ) (valEqNeedle : α → Bool)
  | reverse (list : ρ)
  | count (list : ρ)

/-- What a call returns, or the items that it releases. -/
inductive ListResult (α : Type)
  | nothing
  | item (item : Option α)
  | released (items : List α)
  | number (n : Int32)
  deriving DecidableEq

namespace ListCall

def run (h : Heap ρ α) : ListCall ρ α → Option (Heap ρ α × ListResult α)
  | insert list item => (listInsert h (.root list) item).map fun h => (h, .nothing)
  | insertAt list valEqNeedle item =>
    (listFindEntry h (.root list) valEqNeedle).bind fun
      | none => some (h, .nothing)
      | some entry => (listInsert h entry item).map fun h => (h, .nothing)
  | removeFirst list => (listRemoveFirst h (.root list)).map fun (h, item) => (h, .item item)
  | removeAt list valEqNeedle =>
    (listFindEntry h (.root list) valEqNeedle).bind fun
      | none => some (h, .item none)
      | some entry => (listRemoveFirst h entry).map fun (h, item) => (h, .item item)
  | moveFirst src dst =>
    (listMoveFirst h (.root src) (.root dst)).map fun (h, item) => (h, .item item)
  | delete list => (listDeleteAndRelease h (.root list)).map fun (h, items) => (h, .released items)
  | findValue list valEqNeedle =>
    (listFindValue h (.root list) valEqNeedle).map fun item => (h, .item item)
  | reverse list => (listReverse h (.root list)).map fun (h, n) => (h, .number n)
  | count list => (listCount h (.root list)).map fun n => (h, .number n)

/-- Calls in a row, with their results. -/
def runAll : Heap ρ α → List (ListCall ρ α) → Option (Heap ρ α × List (ListResult α))
  | h, [] => some (h, [])
  | h, call :: calls =>
    (call.run h).bind fun (h, result) =>
      (runAll h calls).map fun (h, results) => (h, result :: results)

end ListCall

end Msgbox
