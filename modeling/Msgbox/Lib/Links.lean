import Mathlib.Data.List.Nodup
import Mathlib.Logic.Function.Basic

/-!
# Linked lists in a heap

Nodes that are allocated and freed, variables that point to the first node of a list, and pointers
to either such a variable or the `next` field of a node. `Seg` says that one gets from one link to
another along given nodes, and `Holds` that the heap consists of disjoint lists and nothing else.

Nothing here depends on what the items are.

## Key results

- `read_place`, `write_place`: the link behind the first nodes of a list
- `Holds.changes`: some lists change, and the others stay
-/

namespace Links

/-! ## The heap -/

structure Node (α : Type) where
  item : α
  next : Option Nat
  deriving DecidableEq, Repr

/-- The variables `root`, the nodes that are allocated, and the node that is allocated next. -/
structure Heap (ρ α : Type) where
  root : ρ → Option Nat
  node : Nat → Option (Node α)
  fresh : Nat

/-- A pointer to a link: to a variable, or to the `next` field of a node. -/
inductive Place (ρ : Type)
  | root (r : ρ)
  | next (n : Nat)
  deriving DecidableEq, Repr

variable {ρ α : Type}

namespace Heap

/-- No variable points to a node. -/
def empty : Heap ρ α := ⟨fun _ => none, fun _ => none, 0⟩

/-- The link at a place; `none` if its node is not allocated. -/
def read (h : Heap ρ α) : Place ρ → Option (Option Nat)
  | .root r => some (h.root r)
  | .next n => (h.node n).map Node.next

/-- Write to a `next` field; `none` if its node is not allocated. -/
def setNext (h : Heap ρ α) (n : Nat) (link : Option Nat) : Option (Heap ρ α) :=
  (h.node n).map fun node =>
    { h with node := Function.update h.node n (some { node with next := link }) }

/-- Write to the link at a place. -/
def write [DecidableEq ρ] (h : Heap ρ α) (place : Place ρ) (link : Option Nat) :
    Option (Heap ρ α) :=
  match place with
  | .root r => some { h with root := Function.update h.root r link }
  | .next n => h.setNext n link

/-- A new node. -/
def malloc (h : Heap ρ α) (node : Node α) : Heap ρ α :=
  { h with node := Function.update h.node h.fresh (some node), fresh := h.fresh + 1 }

/-- `none` if the node is not allocated. -/
def free (h : Heap ρ α) (n : Nat) : Option (Heap ρ α) :=
  (h.node n).map fun _ => { h with node := Function.update h.node n none }

/-- The item of a node. -/
def itemOf (h : Heap ρ α) (n : Nat) : Option α := (h.node n).map Node.item

/-- The items of some nodes. -/
def items (h : Heap ρ α) (ns : List Nat) : List α := ns.filterMap h.itemOf

end Heap

variable {h h' : Heap ρ α} {link link' : Option Nat} {ns pre suf : List Nat} {n : Nat} {r : ρ}

/-! ## Segments -/

/-- From one link to another along the given nodes. -/
def Seg (h : Heap ρ α) : Option Nat → List Nat → Option Nat → Prop
  | link, [], link' => link = link'
  | link, n :: ns, link' => link = some n ∧ ∃ node, h.node n = some node ∧ Seg h node.next ns link'

/-- A segment may be cut between any two of its nodes. -/
theorem seg_append : Seg h link (pre ++ suf) link' ↔
    ∃ mid, Seg h link pre mid ∧ Seg h mid suf link' := by
  induction pre generalizing link with
  | nil => simp [Seg]
  | cons n pre ih =>
    simp only [List.cons_append, Seg, ih]
    constructor
    · rintro ⟨hlink, node, hnode, mid, hpre, hsuf⟩
      exact ⟨mid, ⟨hlink, node, hnode, hpre⟩, hsuf⟩
    · rintro ⟨mid, ⟨hlink, node, hnode, hpre⟩, hsuf⟩
      exact ⟨hlink, node, hnode, mid, hpre, hsuf⟩

/-- Only the nodes on the way matter. -/
theorem Seg.congr (hseg : Seg h link ns link') (hnode : ∀ n ∈ ns, h'.node n = h.node n) :
    Seg h' link ns link' := by
  induction ns generalizing link with
  | nil => exact hseg
  | cons n ns ih =>
    obtain ⟨hlink, node, hn, hseg⟩ := hseg
    refine ⟨hlink, node, ?_, ih hseg fun m hm => hnode m (List.mem_cons_of_mem n hm)⟩
    rw [hnode n List.mem_cons_self, hn]

/-- The nodes of a segment are allocated. -/
theorem Seg.alloc (hseg : Seg h link ns link') : ∀ n ∈ ns, (h.node n).isSome = true := by
  induction ns generalizing link with
  | nil => exact fun n hn => absurd hn List.not_mem_nil
  | cons m ns ih =>
    obtain ⟨-, node, hm, hseg⟩ := hseg
    intro n hn
    rcases List.mem_cons.mp hn with rfl | hn
    · rw [hm]
      rfl
    · exact ih hseg n hn

/-- The first item is that of the first node. -/
theorem items_cons {n : Nat} {item : α} (hn : h.itemOf n = some item) (ns : List Nat) :
    h.items (n :: ns) = item :: h.items ns :=
  List.filterMap_cons_some hn

/-- The items of two runs of nodes follow each other. -/
theorem items_append (h : Heap ρ α) (pre suf : List Nat) :
    h.items (pre ++ suf) = h.items pre ++ h.items suf :=
  List.filterMap_append

/-- Cutting the nodes cuts the items at the same place. -/
theorem items_take (halloc : ∀ n ∈ ns, (h.node n).isSome = true) (k : Nat) :
    h.items (ns.take k) = (h.items ns).take k ∧ h.items (ns.drop k) = (h.items ns).drop k := by
  induction ns generalizing k with
  | nil => simp [Heap.items]
  | cons n ns ih =>
    cases k with
    | zero => exact ⟨rfl, rfl⟩
    | succ k =>
      obtain ⟨node, hnode⟩ := Option.isSome_iff_exists.mp (halloc n List.mem_cons_self)
      have hitem : h.itemOf n = some node.item := by rw [Heap.itemOf, hnode]; rfl
      have ih := ih (fun m hm => halloc m (List.mem_cons_of_mem n hm)) k
      rw [List.take_succ_cons, List.drop_succ_cons, items_cons hitem, items_cons hitem,
        List.take_succ_cons, List.drop_succ_cons, ih.1, ih.2]
      exact ⟨rfl, rfl⟩

/-- The items are decided by the nodes alone. -/
theorem items_congr (hitem : ∀ n ∈ ns, h'.itemOf n = h.itemOf n) : h'.items ns = h.items ns :=
  List.filterMap_congr hitem

/-- There are as many items as nodes. -/
theorem length_items (halloc : ∀ n ∈ ns, (h.node n).isSome = true) :
    (h.items ns).length = ns.length := by
  induction ns with
  | nil => rfl
  | cons n ns ih =>
    obtain ⟨node, hnode⟩ := Option.isSome_iff_exists.mp (halloc n List.mem_cons_self)
    have hitem : h.itemOf n = some node.item := by rw [Heap.itemOf, hnode]; rfl
    rw [items_cons hitem, List.length_cons, List.length_cons,
      ih fun m hm => halloc m (List.mem_cons_of_mem n hm)]

/-! ## Places -/

/-- The link behind the first nodes of a list. -/
def placeAfter (r : ρ) (pre : List Nat) : Place ρ :=
  match pre.getLast? with
  | none => .root r
  | some n => .next n

/-- Behind a node stands its own link. -/
theorem placeAfter_concat (r : ρ) (pre : List Nat) (n : Nat) :
    placeAfter r (pre ++ [n]) = .next n := by
  simp [placeAfter]

/-- The link behind a part of the list leads to the rest. -/
theorem read_place (hseg : Seg h (h.root r) pre link) : h.read (placeAfter r pre) = some link := by
  rcases List.eq_nil_or_concat pre with rfl | ⟨pre, n, rfl⟩
  · exact congrArg some hseg
  · rw [List.concat_eq_append] at hseg ⊢
    obtain ⟨mid, -, -, node, hnode, hnext⟩ := seg_append.mp hseg
    rw [placeAfter_concat, Heap.read, hnode]
    exact congrArg some hnext

/-- What a write to a link leaves as it was. -/
structure SameBut [DecidableEq ρ] (h h' : Heap ρ α) (r : ρ) (pre : List Nat) : Prop where
  root : ∀ r', r' ≠ r → h'.root r' = h.root r'
  node : ∀ n, n ∉ pre → h'.node n = h.node n
  item : h'.itemOf = h.itemOf
  fresh : h'.fresh = h.fresh

/-- Changing one link frees no node. -/
theorem SameBut.isSome [DecidableEq ρ] (hsame : SameBut h h' r pre) (n : Nat) :
    (h'.node n).isSome = (h.node n).isSome := by
  have hitem := congrArg Option.isSome (congrFun hsame.item n)
  rwa [Heap.itemOf, Heap.itemOf, Option.isSome_map, Option.isSome_map] at hitem

/-- Changing the link of a node leaves its item. -/
theorem itemOf_update {node : Node α} {n : Nat} (hn : h.node n = some node) (link : Option Nat) :
    ({ h with node := Function.update h.node n (some { node with next := link }) } :
      Heap ρ α).itemOf =
      h.itemOf := by
  funext m
  by_cases hm : m = n
  · subst hm
    simp [Heap.itemOf, hn]
  · simp [Heap.itemOf, Function.update_of_ne hm]

/-- A write to the link behind the first nodes of a list. -/
theorem write_place [DecidableEq ρ] (hseg : Seg h (h.root r) pre link) (hnodup : pre.Nodup)
    (link' : Option Nat) :
    ∃ h', h.write (placeAfter r pre) link' = some h' ∧ Seg h' (h'.root r) pre link' ∧
      SameBut h h' r pre := by
  rcases List.eq_nil_or_concat pre with rfl | ⟨pre, n, rfl⟩
  · refine ⟨_, rfl, by simp [Seg], fun r' hr' => ?_, fun _ _ => rfl, rfl, rfl⟩
    exact Function.update_of_ne hr' _ _
  · rw [List.concat_eq_append] at hseg hnodup ⊢
    obtain ⟨mid, hpre, hmid, node, hnode, hnext⟩ := seg_append.mp hseg
    have hn : n ∉ pre := fun hn => List.disjoint_of_nodup_append hnodup hn
      (List.mem_singleton_self n)
    rw [placeAfter_concat]
    refine ⟨{ h with node := Function.update h.node n (some { node with next := link' }) }, ?_,
      seg_append.mpr ⟨mid, ?_, hmid, { node with next := link' }, Function.update_self .., rfl⟩,
      fun _ _ => rfl, fun m hm => ?_, itemOf_update hnode link', rfl⟩
    · rw [Heap.write, Heap.setNext, hnode]
      rfl
    · apply hpre.congr
      intro m hm
      apply Function.update_of_ne
      rintro rfl
      exact hn hm
    · apply Function.update_of_ne
      rintro rfl
      exact hm (List.mem_append_right _ (List.mem_singleton_self m))

/-! ## Heaps of lists -/

/-- The heap consists of one list for each variable, with the nodes `ids`. -/
structure Holds (h : Heap ρ α) (ids : ρ → List Nat) : Prop where
  seg : ∀ r, Seg h (h.root r) (ids r) none
  nodup : ∀ r, (ids r).Nodup
  disjoint : ∀ r r', r ≠ r' → ∀ n ∈ ids r, n ∉ ids r'
  used : ∀ n, (h.node n).isSome = true → ∃ r, n ∈ ids r
  fresh : ∀ n, (h.node n).isSome = true → n < h.fresh

/-- An empty heap holds empty lists. -/
theorem holds_empty : Holds (Heap.empty : Heap ρ α) fun _ => [] where
  seg _ := rfl
  nodup _ := List.nodup_nil
  disjoint _ _ _ _ hn := absurd hn List.not_mem_nil
  used _ hn := Bool.noConfusion hn
  fresh _ hn := Bool.noConfusion hn

variable {ids : ρ → List Nat}

/-- New nodes are not among those of the lists. -/
theorem Holds.lt (hh : Holds h ids) (hn : n ∈ ids r) : n < h.fresh :=
  hh.fresh n ((hh.seg r).alloc n hn)

/-- Every node of a list has an item. -/
theorem Holds.itemOf (hh : Holds h ids) {n : Nat} (hn : n ∈ ids r) :
    ∃ item, h.itemOf n = some item := by
  obtain ⟨node, hnode⟩ := Option.isSome_iff_exists.mp ((hh.seg r).alloc n hn)
  exact ⟨node.item, by rw [Heap.itemOf, hnode]; rfl⟩

/-- Some lists change, and the others stay. -/
theorem Holds.changes (hh : Holds h ids) {ids' : ρ → List Nat} (changed : ρ → Prop)
    (hseg : ∀ r, changed r → Seg h' (h'.root r) (ids' r) none)
    (hnodup : ∀ r, changed r → (ids' r).Nodup)
    (hsame : ∀ r, ¬ changed r → ids' r = ids r ∧ h'.root r = h.root r ∧
      ∀ n ∈ ids r, h'.node n = h.node n)
    (hnew : ∀ r, changed r → ∀ n ∈ ids' r, ∀ r', r' ≠ r → n ∉ ids' r')
    (hused : ∀ n, (h'.node n).isSome = true → ∃ r, n ∈ ids' r)
    (hfresh : ∀ n, (h'.node n).isSome = true → n < h'.fresh) : Holds h' ids' where
  seg r := by
    by_cases hr : changed r
    · exact hseg r hr
    · obtain ⟨hids, hroot, hnode⟩ := hsame r hr
      rw [hids, hroot]
      exact (hh.seg r).congr hnode
  nodup r := by
    by_cases hr : changed r
    · exact hnodup r hr
    · rw [(hsame r hr).1]
      exact hh.nodup r
  disjoint r r' hne n hn hn' := by
    by_cases hr : changed r
    · exact hnew r hr n hn r' (Ne.symm hne) hn'
    -- Two lists, of which neither, one or both have changed.
    · by_cases hr' : changed r'
      · exact hnew r' hr' n hn' r hne hn
      · rw [(hsame r hr).1] at hn
        rw [(hsame r' hr').1] at hn'
        exact hh.disjoint r r' hne n hn hn'
  used := hused
  fresh := hfresh

/-- One list changes, and nothing else. -/
theorem Holds.change [DecidableEq ρ] (hh : Holds h ids) {r : ρ} (hseg : Seg h' (h'.root r) ns none)
    (hnodup : ns.Nodup) (hroot : ∀ r', r' ≠ r → h'.root r' = h.root r')
    (hsame : ∀ r', r' ≠ r → ∀ n ∈ ids r', h'.node n = h.node n)
    (hnew : ∀ n ∈ ns, ∀ r', r' ≠ r → n ∉ ids r')
    (hused : ∀ n, (h'.node n).isSome = true → n ∈ ns ∨ ∃ r', r' ≠ r ∧ n ∈ ids r')
    (hfresh : ∀ n, (h'.node n).isSome = true → n < h'.fresh) :
    Holds h' (Function.update ids r ns) := by
  refine hh.changes (· = r) ?_ ?_ ?_ ?_ ?_ hfresh
  · rintro r' rfl
    rwa [Function.update_self]
  · rintro r' rfl
    rwa [Function.update_self]
  · intro r' hr'
    exact ⟨Function.update_of_ne hr' _ _, hroot r' hr', hsame r' hr'⟩
  · rintro r₁ rfl n hn r' hr'
    rw [Function.update_self] at hn
    rw [Function.update_of_ne hr']
    exact hnew n hn r' hr'
  · intro n hn
    rcases hused n hn with hns | ⟨r', hr', hn'⟩
    · exact ⟨r, by rwa [Function.update_self]⟩
    · exact ⟨r', by rwa [Function.update_of_ne hr']⟩

end Links
