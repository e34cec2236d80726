import Mathlib.Data.List.Perm.Subperm
import Msgbox.LinkedList

/-!
# Linked lists are lists

Each function of `list.c` does to a heap that consists of lists what its name says: it changes the
list that it is called for, leaves the others alone, and its loops end.

## Key results

- `listInsert_spec` and its siblings: what a call does to the nodes
- `lists_refined`: every sequence of calls does what it would do to lists that are values
-/

namespace Msgbox

open Links

variable {ρ α : Type} {h : Heap ρ α} {ids : ρ → List Nat} {r : ρ} {pre suf ns : List Nat}
  {link : Option Nat}

/-! ## The two parts of a list -/

/-- A list is no longer than the number of nodes that were allocated. -/
theorem length_le_fresh (hh : Holds h ids) (r : ρ) : (ids r).length ≤ h.fresh := by
  have hsub : ids r ⊆ List.range h.fresh := fun n hn => List.mem_range.mpr (hh.lt hn)
  have hle := ((hh.nodup r).subperm hsub).length_le
  rwa [List.length_range] at hle

/-- The nodes before and behind a link of a list. -/
structure Around (h : Heap ρ α) (ids : ρ → List Nat) (r : ρ) (pre suf : List Nat)
    (mid : Option Nat) : Prop where
  before : Seg h (h.root r) pre mid
  behind : Seg h mid suf none
  read : h.read (placeAfter r pre) = some mid
  nodup : (pre ++ suf).Nodup
  disjoint : ∀ n ∈ pre, n ∉ suf
  own : ∀ n ∈ pre ++ suf, n < h.fresh ∧ ∀ r', r' ≠ r → n ∉ ids r'
  other : ∀ r', r' ≠ r → ∀ n ∈ ids r', n < h.fresh ∧ n ∉ pre ∧ n ∉ suf
  used : ∀ n, (h.node n).isSome = true → n ∈ pre ++ suf ∨ ∃ r', r' ≠ r ∧ n ∈ ids r'

/-- Where a list is cut, the link in the middle leads to its second part. -/
theorem around_of (hh : Holds h ids) (hids : ids r = pre ++ suf) :
    ∃ mid, Around h ids r pre suf mid := by
  have hseg := hh.seg r
  have hnodup := hh.nodup r
  rw [hids] at hseg hnodup
  obtain ⟨mid, hpre, hsuf⟩ := seg_append.mp hseg
  have hown : ∀ r', r' ≠ r → ∀ n ∈ ids r', n ∉ pre ++ suf := fun r' hr' n hn =>
    hids ▸ hh.disjoint r' r hr' n hn
  refine ⟨mid, hpre, hsuf, read_place hpre, hnodup, fun n hn hn' => ?_, fun n hn => ⟨?_, ?_⟩,
    fun r' hr' n hn => ⟨hh.lt hn, ?_, ?_⟩, fun n hn => ?_⟩
  · exact List.disjoint_of_nodup_append hnodup hn hn'
  · exact hh.lt (hids ▸ hn : n ∈ ids r)
  · exact fun r' hr' hn' => hown r' hr' n hn' hn
  · exact fun hpre => hown r' hr' n hn (List.mem_append_left suf hpre)
  · exact fun hsuf => hown r' hr' n hn (List.mem_append_right pre hsuf)
  · obtain ⟨r', hr'⟩ := hh.used n hn
    by_cases hr : r' = r
    · exact .inl (hids ▸ hr ▸ hr')
    · exact .inr ⟨r', hr, hr'⟩

/-! ## Searching and counting -/

/-- The entry is the link to the first node whose item is the one. -/
private theorem listFindEntryLoop_spec (hh : Holds h ids) (hids : ids r = pre ++ suf)
    (found : α → Bool) {fuel : Nat} (hfuel : suf.length < fuel) :
    listFindEntryLoop h found fuel (placeAfter r pre) =
      some (((h.items suf).findIdx? found).map fun k => placeAfter r (pre ++ suf.take k)) := by
  induction suf generalizing pre fuel with
  | nil =>
    obtain ⟨fuel, rfl⟩ := Nat.exists_eq_succ_of_ne_zero (Nat.ne_of_gt hfuel)
    obtain ⟨mid, hp⟩ := around_of hh hids
    rw [listFindEntryLoop, hp.read, hp.behind]
    rfl
  | cons n suf ih =>
    obtain ⟨fuel, rfl⟩ := Nat.exists_eq_succ_of_ne_zero (Nat.ne_of_gt (Nat.zero_lt_of_lt hfuel))
    obtain ⟨mid, hp⟩ := around_of hh hids
    obtain ⟨hmid, node, hnode, -⟩ := hp.behind
    have hitem : h.itemOf n = some node.item := by rw [Heap.itemOf, hnode]; rfl
    have hids' : ids r = (pre ++ [n]) ++ suf := by rw [hids, List.append_assoc]; rfl
    have hnext := ih hids' (Nat.lt_of_succ_lt_succ hfuel)
    rw [placeAfter_concat] at hnext
    simp only [listFindEntryLoop, hp.read, hmid, Option.bind_some, hnode, items_cons hitem,
      List.findIdx?_cons]
    split
    · simp
    · rw [hnext, Option.map_map]
      congr 2
      funext k
      simp

/-- `list__find_entry` returns the place of the first item that the condition holds of. -/
theorem listFindEntry_spec (hh : Holds h ids) (r : ρ) (found : α → Bool) :
    listFindEntry h (.root r) found =
      some (((h.items (ids r)).findIdx? found).map fun k => placeAfter r ((ids r).take k)) := by
  have hle := length_le_fresh hh r
  exact listFindEntryLoop_spec hh (show ids r = [] ++ ids r from rfl) found (by omega)

/-- From any node on, the loop of `list__find_value` finds the first such item. -/
private theorem listFindValueLoop_spec (hseg : Seg h link ns none) (found : α → Bool) {fuel : Nat}
    (hfuel : ns.length < fuel) :
    listFindValueLoop h found fuel link = some ((h.items ns).find? found) := by
  induction ns generalizing link fuel with
  | nil =>
    obtain ⟨fuel, rfl⟩ := Nat.exists_eq_succ_of_ne_zero (Nat.ne_of_gt hfuel)
    rw [show link = none from hseg]
    rfl
  | cons n ns ih =>
    obtain ⟨fuel, rfl⟩ := Nat.exists_eq_succ_of_ne_zero (Nat.ne_of_gt (Nat.zero_lt_of_lt hfuel))
    obtain ⟨rfl, node, hnode, hseg⟩ := hseg
    have hitem : h.itemOf n = some node.item := by rw [Heap.itemOf, hnode]; rfl
    simp only [listFindValueLoop, hnode, Option.bind_some, items_cons hitem, List.find?_cons]
    split
    · rename_i hfound
      rw [hfound]
    · rename_i hfound
      rw [Bool.not_eq_true] at hfound
      rw [hfound]
      exact ih hseg (Nat.lt_of_succ_lt_succ hfuel)

/-- So does `list__find_value` from the head. -/
private theorem listFindValue_spec (hh : Holds h ids) (r : ρ) (found : α → Bool) :
    listFindValue h (.root r) found = some ((h.items (ids r)).find? found) := by
  have hle := length_le_fresh hh r
  exact listFindValueLoop_spec (hh.seg r) found (by omega)

/-- The loop of `list__count` adds the number of nodes that are left, wrapping as an int does. -/
private theorem listCountLoop_spec (hseg : Seg h link ns none) {fuel : Nat}
    (hfuel : ns.length < fuel)
    (n : Nat) : listCountLoop h fuel link (Int32.ofNat n) = some (Int32.ofNat (n + ns.length)) := by
  induction ns generalizing link fuel n with
  | nil =>
    obtain ⟨fuel, rfl⟩ := Nat.exists_eq_succ_of_ne_zero (Nat.ne_of_gt hfuel)
    rw [show link = none from hseg]
    rfl
  | cons m ns ih =>
    obtain ⟨fuel, rfl⟩ := Nat.exists_eq_succ_of_ne_zero (Nat.ne_of_gt (Nat.zero_lt_of_lt hfuel))
    obtain ⟨rfl, node, hnode, hseg⟩ := hseg
    have hnext := ih hseg (Nat.lt_of_succ_lt_succ hfuel) (n + 1)
    rw [Int32.ofNat_add, Nat.add_assoc, Nat.add_comm 1] at hnext
    rw [listCountLoop, hnode]
    exact hnext

/-- `list__count` returns the number of nodes, as an int. -/
private theorem listCount_spec (hh : Holds h ids) (r : ρ) :
    listCount h (.root r) = some (Int32.ofNat (ids r).length) := by
  have hle := length_le_fresh hh r
  have hcount := listCountLoop_spec (hh.seg r) (Nat.lt_succ_of_le hle) 0
  rw [Nat.zero_add] at hcount
  exact hcount

/-- The nodes that the loop has come to hang together the other way round. -/
private theorem listReverseLoop_spec {todo done : List Nat} {iter next : Option Nat}
    (hdone : Seg h iter done none) (htodo : Seg h next todo none) (hnodup : (todo ++ done).Nodup)
    {fuel : Nat} (hfuel : todo.length < fuel) (n : Nat) :
    ∃ h' first, listReverseLoop fuel h iter next (Int32.ofNat n) =
        some (h', first, Int32.ofNat (n + todo.length)) ∧
      Seg h' first (todo.reverse ++ done) none ∧ h'.root = h.root ∧ h'.fresh = h.fresh ∧
      h'.itemOf = h.itemOf ∧ ∀ m, m ∉ todo → h'.node m = h.node m := by
  -- The nodes done are linked backwards, those to do are as they were.
  induction todo generalizing h iter next done fuel n with
  | nil =>
    obtain ⟨fuel, rfl⟩ := Nat.exists_eq_succ_of_ne_zero (Nat.ne_of_gt hfuel)
    rw [show next = none from htodo]
    exact ⟨h, iter, rfl, hdone, rfl, rfl, rfl, fun _ _ => rfl⟩
  | cons m todo ih =>
    obtain ⟨fuel, rfl⟩ := Nat.exists_eq_succ_of_ne_zero (Nat.ne_of_gt (Nat.zero_lt_of_lt hfuel))
    obtain ⟨rfl, node, hnode, htodo⟩ := htodo
    rw [List.cons_append, List.nodup_cons] at hnodup
    let h₁ : Heap ρ α :=
      { h with node := Function.update h.node m (some { node with next := iter }) }
    have hset : h.setNext m iter = some h₁ := by
      rw [Heap.setNext, hnode]
      rfl
    have hold : ∀ k, k ≠ m → h₁.node k = h.node k := fun k hk => Function.update_of_ne hk _ _
    have hdone₁ : Seg h₁ (some m) (m :: done) none := by
      refine ⟨rfl, { node with next := iter }, Function.update_self .., hdone.congr fun k hk => ?_⟩
      exact hold k fun heq => hnodup.1 (heq ▸ List.mem_append_right todo hk)
    have htodo₁ : Seg h₁ node.next todo none := htodo.congr fun k hk =>
      hold k fun heq => hnodup.1 (heq ▸ List.mem_append_left done hk)
    have hnodup₁ : (todo ++ m :: done).Nodup := by
      rw [List.nodup_middle, List.nodup_cons]
      exact hnodup
    obtain ⟨h', first, hloop, hseg, hroot, hfresh, hitem, hrest⟩ :=
      ih hdone₁ htodo₁ hnodup₁ (Nat.lt_of_succ_lt_succ hfuel) (n + 1)
    refine ⟨h', first, ?_, by simpa using hseg, hroot, hfresh, ?_, fun k hk => ?_⟩
    · rw [Int32.ofNat_add, Nat.add_assoc, Nat.add_comm 1] at hloop
      rw [listReverseLoop, hnode, Option.bind_some, hset]
      exact hloop
    · rw [hitem]
      exact itemOf_update hnode iter
    · rw [List.mem_cons, not_or] at hk
      rw [hrest k hk.2, hold k hk.1]

variable [DecidableEq ρ]

/-! ## Inserting and removing -/

/-- A new node stands before the link. -/
theorem listInsert_spec (hh : Holds h ids) (hids : ids r = pre ++ suf) (item : α) :
    ∃ h', listInsert h (placeAfter r pre) item = some h' ∧
      Holds h' (Function.update ids r (pre ++ h.fresh :: suf)) ∧ h'.fresh = h.fresh + 1 ∧
      h'.itemOf = Function.update h.itemOf h.fresh (some item) := by
  obtain ⟨mid, hp⟩ := around_of hh hids
  let h₁ := h.malloc { item := item, next := mid }
  have hold : ∀ n, n < h.fresh → h₁.node n = h.node n := fun n hn =>
    Function.update_of_ne (Nat.ne_of_lt hn) _ _
  have hlt : ∀ n ∈ pre ++ suf, n < h.fresh := fun n hn => (hp.own n hn).1
  -- The new node is allocated first, so the lists are as before.
  have hpre₁ : Seg h₁ (h₁.root r) pre mid :=
    hp.before.congr fun n hn => hold n (hlt n (List.mem_append_left suf hn))
  obtain ⟨h', hwrite, hseg', hsame⟩ := write_place hpre₁ hp.nodup.of_append_left (some h.fresh)
  -- It is a node of no list.
  have hnew : h.fresh ∉ pre ++ suf := fun hn => Nat.lt_irrefl _ (hlt _ hn)
  have hnode : h'.node h.fresh = some { item := item, next := mid } := by
    rw [hsame.node _ fun hn => hnew (List.mem_append_left suf hn)]
    exact Function.update_self ..
  -- Writing the link changes the last node of the first part only.
  have hkeep : ∀ n, n < h.fresh → n ∉ pre → h'.node n = h.node n := fun n hn hn' => by
    rw [hsame.node n hn', hold n hn]
  have hsome : ∀ n, (h'.node n).isSome = true → n = h.fresh ∨ (h.node n).isSome = true := by
    intro n hn
    rw [hsame.isSome] at hn
    by_cases hn' : n = h.fresh
    · exact .inl hn'
    · rw [show h₁.node n = h.node n from Function.update_of_ne hn' _ _] at hn
      exact .inr hn
  refine ⟨h', ?_, hh.change ?_ ?_ hsame.root ?_ ?_ ?_ ?_, hsame.fresh, ?_⟩
  · rw [listInsert, hp.read]
    exact hwrite
  · refine seg_append.mpr ⟨some h.fresh, hseg', rfl, _, hnode, hp.behind.congr fun n hn => ?_⟩
    exact hkeep n (hlt n (List.mem_append_right pre hn)) fun hn' => hp.disjoint n hn' hn
  · rw [List.nodup_middle]
    exact List.nodup_cons.mpr ⟨hnew, hp.nodup⟩
  · exact fun r' hr' n hn => hkeep n (hp.other r' hr' n hn).1 (hp.other r' hr' n hn).2.1
  · intro n hn r' hr' hn'
    rcases List.mem_cons.mp (List.perm_middle.mem_iff.mp hn) with rfl | hn
    · exact Nat.lt_irrefl _ (hp.other r' hr' _ hn').1
    · exact (hp.own n hn).2 r' hr' hn'
  · intro n hn
    rw [List.perm_middle.mem_iff, List.mem_cons]
    rcases hsome n hn with heq | hn
    · exact .inl (.inl heq)
    · exact (hp.used n hn).imp_left .inr
  · intro n hn
    rw [hsame.fresh]
    rcases hsome n hn with heq | hn
    · exact heq ▸ Nat.lt_succ_self _
    · exact Nat.lt_succ_of_lt (hh.fresh n hn)
  · rw [hsame.item]
    funext n
    by_cases hn : n = h.fresh
    · subst hn
      simp [Heap.itemOf, h₁, Heap.malloc]
    · simp [Heap.itemOf, h₁, Heap.malloc, Function.update_of_ne hn]

/-- There is nothing to remove at the end of a list. -/
private theorem listRemoveFirst_nil (hh : Holds h ids) :
    listRemoveFirst h (placeAfter r (ids r)) = some (h, none) := by
  obtain ⟨mid, hp⟩ := around_of hh (List.append_nil (ids r)).symm
  rw [listRemoveFirst, hp.read, hp.behind]
  rfl

/-- What is freed is gone. -/
structure Freed (h h' : Heap ρ α) (n : Nat) : Prop where
  gone : h'.node n = none
  item : ∀ m, m ≠ n → h'.itemOf m = h.itemOf m
  fresh : h'.fresh = h.fresh

/-- The node behind the link is taken out and freed. -/
theorem listRemoveFirst_spec {n : Nat} (hh : Holds h ids) (hids : ids r = pre ++ n :: suf) :
    ∃ h', listRemoveFirst h (placeAfter r pre) = some (h', h.itemOf n) ∧
      Holds h' (Function.update ids r (pre ++ suf)) ∧ Freed h h' n := by
  obtain ⟨mid, hp⟩ := around_of hh hids
  obtain ⟨hmid, node, hnode, hnext⟩ := hp.behind
  have hn := hp.nodup
  rw [List.nodup_middle, List.nodup_cons] at hn
  have hnpre : n ∉ pre := fun hn' => hn.1 (List.mem_append_left suf hn')
  let h₁ : Heap ρ α := { h with node := Function.update h.node n none }
  have hold : ∀ m, m ≠ n → h₁.node m = h.node m := fun m hm => Function.update_of_ne hm _ _
  -- The part in front does not use the node that is freed.
  have hpre₁ : Seg h₁ (h₁.root r) pre mid :=
    hp.before.congr fun m hm => hold m fun heq => hnpre (heq ▸ hm)
  obtain ⟨h', hwrite, hseg', hsame⟩ := write_place hpre₁ hn.2.of_append_left node.next
  have hgone : h'.node n = none := by
    rw [hsame.node n hnpre]
    exact Function.update_self ..
  -- All other nodes are as before.
  have hkeep : ∀ m, m ≠ n → m ∉ pre → h'.node m = h.node m := fun m hm hm' => by
    rw [hsame.node m hm', hold m hm]
  have hsome : ∀ m, (h'.node m).isSome = true → m ≠ n ∧ (h.node m).isSome = true := by
    intro m hm
    have hne : m ≠ n := by
      rintro rfl
      rw [hgone] at hm
      exact Bool.noConfusion hm
    rw [hsame.isSome, hold m hne] at hm
    exact ⟨hne, hm⟩
  refine ⟨h', ?_, hh.change ?_ hn.2 hsame.root ?_ ?_ ?_ ?_, hgone, fun m hm => ?_, hsame.fresh⟩
  · simp only [listRemoveFirst, hp.read, hmid, Option.bind_some, hnode, Heap.free, Option.map_some]
    rw [show h₁.write (placeAfter r pre) node.next = some h' from hwrite]
    simp [Heap.itemOf, hnode]
  · refine seg_append.mpr ⟨node.next, hseg', hnext.congr fun m hm => hkeep m ?_ ?_⟩
    · rintro rfl
      exact hn.1 (List.mem_append_right pre hm)
    · exact fun hm' => hp.disjoint m hm' (List.mem_cons_of_mem n hm)
  · intro r' hr' m hm
    have hother := hp.other r' hr' m hm
    exact hkeep m (fun heq => hother.2.2 (heq ▸ List.mem_cons_self)) hother.2.1
  · intro m hm r' hr'
    exact (hp.own m (List.perm_middle.mem_iff.mpr (List.mem_cons_of_mem n hm))).2 r' hr'
  · intro m hm
    obtain ⟨hne, hm⟩ := hsome m hm
    refine (hp.used m hm).imp_left fun hin => ?_
    exact (List.mem_cons.mp (List.perm_middle.mem_iff.mp hin)).resolve_left hne
  · intro m hm
    rw [hsame.fresh]
    exact hh.fresh m (hsome m hm).2
  · rw [hsame.item]
    simp [Heap.itemOf, h₁, Function.update_of_ne hm]

/-- The first node behind one link is moved to another one, in another list. -/
private theorem listMoveFirst_spec {a : Nat} {r' : ρ} {pre' suf' : List Nat} (hne : r ≠ r')
    (hh : Holds h ids) (hids : ids r = pre ++ a :: suf) (hids' : ids r' = pre' ++ suf') :
    ∃ h', listMoveFirst h (placeAfter r pre) (placeAfter r' pre') = some (h', h.itemOf a) ∧
      Holds h' (Function.update (Function.update ids r (pre ++ suf)) r' (pre' ++ a :: suf')) ∧
      h'.itemOf = h.itemOf := by
  obtain ⟨mid, hp⟩ := around_of hh hids
  obtain ⟨mid', hp'⟩ := around_of hh hids'
  obtain ⟨hmid, node, hnode, hnext⟩ := hp.behind
  have ha := hp.nodup
  rw [List.nodup_middle, List.nodup_cons] at ha
  have hmem : a ∈ ids r := hids ▸ List.mem_append_right pre List.mem_cons_self
  have hapart := hp'.other r hne
  have hpre : ∀ n ∈ pre, n ∈ ids r := fun n hn => hids ▸ List.mem_append_left _ hn
  have hsuf : ∀ n ∈ suf, n ∈ ids r := fun n hn =>
    hids ▸ List.mem_append_right _ (List.mem_cons_of_mem a hn)
  -- The three writes.
  obtain ⟨h₁, hwrite₁, hseg₁, hsame₁⟩ := write_place hp'.before hp'.nodup.of_append_left (some a)
  have hnode₁ : h₁.node a = some node := by rw [hsame₁.node a (hapart a hmem).2.1, hnode]
  let h₂ : Heap ρ α :=
    { h₁ with node := Function.update h₁.node a (some { node with next := mid' }) }
  have hset : h₁.setNext a mid' = some h₂ := by rw [Heap.setNext, hnode₁]; rfl
  have hold₂ : ∀ n, n ≠ a → n ∉ pre' → h₂.node n = h.node n := fun n hn hn' => by
    rw [show h₂.node n = h₁.node n from Function.update_of_ne hn _ _, hsame₁.node n hn']
  have hpre₂ : Seg h₂ (h₂.root r) pre (some a) := by
    rw [show h₂.root r = h.root r from hsame₁.root r hne, ← hmid]
    apply hp.before.congr
    intro n hn
    apply hold₂ n
    · rintro rfl
      exact ha.1 (List.mem_append_left suf hn)
    · exact (hapart n (hpre n hn)).2.1
  obtain ⟨h', hwrite₃, hseg', hsame'⟩ := write_place hpre₂ ha.2.of_append_left node.next
  have hitem : h'.itemOf = h.itemOf := by
    rw [hsame'.item, itemOf_update hnode₁ mid', hsame₁.item]
  have hsome : ∀ n, (h'.node n).isSome = (h.node n).isSome := fun n => by
    have hsame := congrArg Option.isSome (congrFun hitem n)
    rwa [Heap.itemOf, Heap.itemOf, Option.isSome_map, Option.isSome_map] at hsame
  have hkeep : ∀ n, n ≠ a → n ∉ pre → n ∉ pre' → h'.node n = h.node n := fun n hn hn' hn'' => by
    rw [hsame'.node n hn', hold₂ n hn hn'']
  have hapre : a ∉ pre := fun hn => ha.1 (List.mem_append_left suf hn)
  refine ⟨h', ?_, ?_, hitem⟩
  · have hmoved : h.itemOf a = some node.item := by rw [Heap.itemOf, hnode]; rfl
    simp only [listMoveFirst, hp.read, hmid, Option.bind_some, hnode, hp'.read, hwrite₁, hset,
      hwrite₃, hitem, hmoved, Option.map_some]
  · have hids₁ : Function.update (Function.update ids r (pre ++ suf)) r' (pre' ++ a :: suf') r =
        pre ++ suf := by rw [Function.update_of_ne hne, Function.update_self]
    have hids₂ : Function.update (Function.update ids r (pre ++ suf)) r' (pre' ++ a :: suf') r' =
        pre' ++ a :: suf' := Function.update_self ..
    have hids₃ : ∀ r'', ¬ (r'' = r ∨ r'' = r') →
        Function.update (Function.update ids r (pre ++ suf)) r' (pre' ++ a :: suf') r'' =
          ids r'' := by
      intro r'' hr''
      rw [not_or] at hr''
      rw [Function.update_of_ne hr''.2, Function.update_of_ne hr''.1]
    have hroot : ∀ r'', r'' ≠ r → h'.root r'' = h₁.root r'' := hsame'.root
    refine hh.changes (fun r'' => r'' = r ∨ r'' = r') ?_ ?_ ?_ ?_ ?_ ?_
    · rintro r'' (rfl | rfl)
      · rw [hids₁]
        refine seg_append.mpr ⟨node.next, hseg', hnext.congr fun n hn => hkeep n ?_ ?_ ?_⟩
        · rintro rfl
          exact ha.1 (List.mem_append_right pre hn)
        · exact fun hn' => hp.disjoint n hn' (List.mem_cons_of_mem a hn)
        · exact (hapart n (hsuf n hn)).2.1
      · have hapart' : ∀ n ∈ ids r'', n ≠ a ∧ n ∉ pre := fun n hn =>
          ⟨fun heq => (hp.other r'' (Ne.symm hne) n hn).2.2 (heq ▸ List.mem_cons_self),
            (hp.other r'' (Ne.symm hne) n hn).2.1⟩
        have hin : ∀ n ∈ pre' ++ suf', n ∈ ids r'' := fun n hn => hids' ▸ hn
        rw [hids₂, hroot r'' (Ne.symm hne)]
        refine seg_append.mpr ⟨some a, hseg₁.congr fun n hn => ?_, rfl, { node with next := mid' },
          ?_, hp'.behind.congr fun n hn => ?_⟩
        · have hn' := hapart' n (hin n (List.mem_append_left suf' hn))
          rw [hsame'.node n hn'.2]
          exact Function.update_of_ne hn'.1 _ _
        · rw [hsame'.node a hapre]
          exact Function.update_self ..
        · have hn' := hapart' n (hin n (List.mem_append_right pre' hn))
          exact hkeep n hn'.1 hn'.2 fun hpre' => hp'.disjoint n hpre' hn
    · rintro r'' (rfl | rfl)
      · rw [hids₁]
        exact ha.2
      · rw [hids₂, List.nodup_middle, List.nodup_cons]
        exact ⟨fun hin => (hp'.own a hin).2 r hne hmem, hp'.nodup⟩
    · intro r'' hr''
      refine ⟨hids₃ r'' hr'', ?_, fun n hn => ?_⟩
      · rw [not_or] at hr''
        rw [hroot r'' hr''.1, hsame₁.root r'' hr''.2]
      · rw [not_or] at hr''
        have hn₁ := hp.other r'' hr''.1 n hn
        exact hkeep n (fun heq => hn₁.2.2 (heq ▸ List.mem_cons_self)) hn₁.2.1
          (hp'.other r'' hr''.2 n hn).2.1
    · have hsplit : ∀ n, n ∈ pre ++ a :: suf ↔ n = a ∨ n ∈ pre ++ suf := fun n => by
        rw [List.perm_middle.mem_iff, List.mem_cons]
      have hsplit' : ∀ n, n ∈ pre' ++ a :: suf' ↔ n = a ∨ n ∈ pre' ++ suf' := fun n => by
        rw [List.perm_middle.mem_iff, List.mem_cons]
      have hown : ∀ n ∈ pre ++ suf, n ∉ pre' ++ a :: suf' := fun n hn hn' => by
        have hin : n ∈ ids r := hids ▸ (hsplit n).mpr (.inr hn)
        rcases (hsplit' n).mp hn' with rfl | hn'
        · exact ha.1 hn
        · exact (hp'.own n hn').2 r hne hin
      rintro r₁ hr₁ n hn r₂ hr₂ hn₂
      by_cases hr₂' : r₂ = r ∨ r₂ = r'
      · rcases hr₁ with rfl | rfl <;> rcases hr₂' with rfl | rfl
        · exact hr₂ rfl
        · rw [hids₁] at hn
          rw [hids₂] at hn₂
          exact hown n hn hn₂
        · rw [hids₂] at hn
          rw [hids₁] at hn₂
          exact hown n hn₂ hn
        · exact hr₂ rfl
      · rw [hids₃ r₂ hr₂'] at hn₂
        rw [not_or] at hr₂'
        rcases hr₁ with rfl | rfl
        · rw [hids₁] at hn
          exact (hp.own n ((hsplit n).mpr (.inr hn))).2 r₂ hr₂'.1 hn₂
        · rw [hids₂] at hn
          rcases (hsplit' n).mp hn with rfl | hn
          · exact (hp.own n ((hsplit n).mpr (.inl rfl))).2 r₂ hr₂'.1 hn₂
          · exact (hp'.own n hn).2 r₂ hr₂'.2 hn₂
    · intro n hn
      rw [hsome] at hn
      obtain ⟨r'', hr''⟩ := hh.used n hn
      by_cases hrr : r'' = r
      · rw [hrr, hids, List.perm_middle.mem_iff, List.mem_cons] at hr''
        rcases hr'' with rfl | hin
        · exact ⟨r', by rw [hids₂]; exact List.mem_append_right _ List.mem_cons_self⟩
        · exact ⟨r, by rwa [hids₁]⟩
      · by_cases hrr' : r'' = r'
        · refine ⟨r', ?_⟩
          rw [hids₂, List.perm_middle.mem_iff]
          exact List.mem_cons_of_mem a (hids' ▸ hrr' ▸ hr'')
        · exact ⟨r'', by rwa [hids₃ r'' (not_or.mpr ⟨hrr, hrr'⟩)]⟩
    · intro n hn
      rw [hsome] at hn
      rw [hsame'.fresh, show h₂.fresh = h.fresh from hsame₁.fresh]
      exact hh.fresh n hn

/-! ## Deleting -/

/-- A round of the loop removes the first node. -/
private theorem listDeleteLoop_succ (list : Place ρ) (fuel : Nat) (h : Heap ρ α) :
    listDeleteLoop list (fuel + 1) h = (listRemoveFirst h list).bind fun removed =>
      match removed.2 with
      | none => some (removed.1, [])
      | some item => (listDeleteLoop list fuel removed.1).map fun rest => (rest.1,
        item :: rest.2) := by
  rw [listDeleteLoop, listRemoveFirst]
  cases h.read list with
  | none => rfl
  | some link =>
    cases link with
    | none => rfl
    | some first =>
      simp only [Option.bind_some]
      cases h.node first with
      | none => rfl
      | some node =>
        simp only [Option.bind_some]
        cases h.free first with
        | none => rfl
        | some h₁ =>
          simp only [Option.bind_some]
          cases h₁.write list node.next <;> rfl

/-- The loop of `list__delete` takes the nodes off one by one, in the order of the list. -/
private theorem listDeleteLoop_spec (hh : Holds h ids) (hids : ids r = pre ++ suf) {fuel : Nat}
    (hfuel : suf.length < fuel) :
    ∃ h', listDeleteLoop (placeAfter r pre) fuel h = some (h', h.items suf) ∧
      Holds h' (Function.update ids r pre) ∧ (∀ n, n ∉ suf → h'.itemOf n = h.itemOf n) ∧
      (∀ n ∈ suf, h'.node n = none) ∧ h'.fresh = h.fresh := by
  -- Each round removes the first node that is left.
  induction suf generalizing h ids fuel with
  | nil =>
    obtain ⟨fuel, rfl⟩ := Nat.exists_eq_succ_of_ne_zero (Nat.ne_of_gt hfuel)
    rw [List.append_nil] at hids
    have hnil := listRemoveFirst_nil (r := r) hh
    rw [hids] at hnil
    refine ⟨h, by rw [listDeleteLoop_succ, hnil]; rfl, ?_, fun _ _ => rfl, ?_, rfl⟩
    · rwa [← hids, Function.update_eq_self]
    · exact fun n hn => absurd hn List.not_mem_nil
  | cons n suf ih =>
    obtain ⟨fuel, rfl⟩ := Nat.exists_eq_succ_of_ne_zero (Nat.ne_of_gt (Nat.zero_lt_of_lt hfuel))
    obtain ⟨item, hitem⟩ := hh.itemOf (r := r) (hids ▸ List.mem_append_right pre List.mem_cons_self)
    have hnodup : n ∉ suf := by
      have hnodup := hh.nodup r
      rw [hids] at hnodup
      exact (List.nodup_cons.mp hnodup.of_append_right).1
    obtain ⟨h₁, hremove, hh₁, hfreed⟩ := listRemoveFirst_spec hh hids
    obtain ⟨h', hloop, hh', hold, hgone, hfresh⟩ :=
      ih hh₁ (Function.update_self ..) (Nat.lt_of_succ_lt_succ hfuel)
    rw [Function.update_idem] at hh'
    refine ⟨h', ?_, hh', fun m hm => ?_, fun m hm => ?_, hfresh.trans hfreed.fresh⟩
    · have hitems : h₁.items suf = h.items suf :=
        items_congr fun m hm => hfreed.item m fun heq => hnodup (heq ▸ hm)
      rw [listDeleteLoop_succ, hremove, hitem, items_cons hitem, ← hitems]
      simp only [Option.bind_some]
      rw [hloop]
      rfl
    · rw [List.mem_cons, not_or] at hm
      rw [hold m hm.2, hfreed.item m hm.1]
    · by_cases hin : m ∈ suf
      · exact hgone m hin
      · -- The first node was freed, and the rest of the loop leaves it so.
        obtain rfl := (List.mem_cons.mp hm).resolve_right hin
        have hnone := hold m hin
        rw [Heap.itemOf, Heap.itemOf, hfreed.gone, Option.map_none, Option.map_eq_none_iff] at hnone
        exact hnone

/-- All nodes behind the link are freed, and the releaser gets their items in order. -/
theorem listDeleteAndRelease_spec (hh : Holds h ids) (hids : ids r = pre ++ suf) :
    ∃ h', listDeleteAndRelease h (placeAfter r pre) = some (h', h.items suf) ∧
      Holds h' (Function.update ids r pre) ∧ (∀ n, n ∉ suf → h'.itemOf n = h.itemOf n) ∧
      (∀ n ∈ suf, h'.node n = none) ∧ h'.fresh = h.fresh := by
  apply listDeleteLoop_spec hh hids
  have hle := length_le_fresh hh r
  rw [hids, List.length_append] at hle
  omega

/-! ## Reversing -/

/-- The nodes stay, and their order is the other one. -/
private theorem listReverse_spec (hh : Holds h ids) (r : ρ) :
    ∃ h', listReverse h (.root r) = some (h', Int32.ofNat (ids r).length) ∧
      Holds h' (Function.update ids r (ids r).reverse) ∧ h'.itemOf = h.itemOf := by
  have hle := length_le_fresh hh r
  obtain ⟨h₁, first, hloop, hseg, hroot, hfresh, hitem, hrest⟩ :=
    listReverseLoop_spec (show Seg h none [] none from rfl) (hh.seg r) (by simpa using hh.nodup r)
      (Nat.lt_succ_of_le hle) 0
  rw [List.append_nil] at hseg
  -- Reversing allocates and frees nothing.
  have hsome : ∀ n, (h₁.node n).isSome = (h.node n).isSome := fun n => by
    have hsame := congrArg Option.isSome (congrFun hitem n)
    rwa [Heap.itemOf, Heap.itemOf, Option.isSome_map, Option.isSome_map] at hsame
  refine ⟨{ h₁ with root := Function.update h₁.root r first }, ?_, hh.change ?_ ?_ ?_ ?_ ?_ ?_ ?_,
    hitem⟩
  · rw [Nat.zero_add] at hloop
    rw [listReverse]
    show ((listReverseLoop (h.fresh + 1) h none (h.root r) (Int32.ofNat 0)).bind _) = _
    rw [hloop]
    rfl
  · show Seg _ (Function.update h₁.root r first r) _ _
    rw [Function.update_self]
    exact hseg.congr fun _ _ => rfl
  · exact List.nodup_reverse.mpr (hh.nodup r)
  · intro r' hr'
    show Function.update h₁.root r first r' = h.root r'
    rw [Function.update_of_ne hr', hroot]
  · intro r' hr' n hn
    exact hrest n fun hn' => hh.disjoint r' r hr' n hn hn'
  · intro n hn r' hr'
    exact hh.disjoint r r' (Ne.symm hr') n (List.mem_reverse.mp hn)
  · intro n hn
    rw [hsome] at hn
    obtain ⟨r', hr'⟩ := hh.used n hn
    by_cases hr : r' = r
    · exact .inl (List.mem_reverse.mpr (hr ▸ hr'))
    · exact .inr ⟨r', hr, hr'⟩
  · intro n hn
    rw [hsome] at hn
    show n < h₁.fresh
    rw [hfresh]
    exact hh.fresh n hn

/-! ## Sequences of calls -/

/-- What a call does to lists that are values. -/
def ListCall.apply (lists : ρ → List α) : ListCall ρ α → (ρ → List α) × ListResult α
  | insert list item => (Function.update lists list (item :: lists list), .nothing)
  | insertAt list found item =>
    match (lists list).findIdx? found with
    | none => (lists, .nothing)
    | some k =>
      (Function.update lists list ((lists list).take k ++ item :: (lists list).drop k), .nothing)
  | removeFirst list => (Function.update lists list (lists list).tail, .item (lists list).head?)
  | removeAt list found =>
    match (lists list).findIdx? found with
    | none => (lists, .item none)
    | some k => (Function.update lists list ((lists list).eraseIdx k), .item (lists list)[k]?)
  | moveFirst src dst =>
    match lists src with
    | [] => (lists, .item none)
    | a :: rest =>
      (Function.update (Function.update lists src rest) dst (a :: lists dst), .item (some a))
  | delete list => (Function.update lists list [], .released (lists list))
  | findValue list found => (lists, .item ((lists list).find? found))
  | reverse list =>
    (Function.update lists list (lists list).reverse, .number (Int32.ofNat (lists list).length))
  | count list => (lists, .number (Int32.ofNat (lists list).length))

def ListCall.applyAll : (ρ → List α) → List (ListCall ρ α) → (ρ → List α) × List (ListResult α)
  | lists, [] => (lists, [])
  | lists, call :: calls =>
    let rest := applyAll (call.apply lists).1 calls
    (rest.1, (call.apply lists).2 :: rest.2)

/-- A node is moved from one list to another. -/
def ListCall.IsFair : ListCall ρ α → Prop
  | moveFirst src dst => src ≠ dst
  | _ => True

/-- The heap consists of the given lists. -/
def Contains (h : Heap ρ α) (lists : ρ → List α) : Prop :=
  ∃ ids, Holds h ids ∧ ∀ r, h.items (ids r) = lists r

variable {lists : ρ → List α}

/-- One list has other items. -/
private theorem contains_change {h' : Heap ρ α} (hh' : Holds h' (Function.update ids r ns))
    (hlists : ∀ r, h.items (ids r) = lists r) (hitem : ∀ r', r' ≠ r → ∀ n ∈ ids r',
      h'.itemOf n = h.itemOf n) {items : List α} (hitems : h'.items ns = items) :
    Contains h' (Function.update lists r items) := by
  refine ⟨_, hh', fun r' => ?_⟩
  by_cases hr : r' = r
  · subst hr
    rw [Function.update_self, Function.update_self, hitems]
  · rw [Function.update_of_ne hr, Function.update_of_ne hr, ← hlists r']
    exact items_congr (hitem r' hr)

/-- An insertion at a place of a list is one in the abstract list. -/
private theorem listInsert_contains (hh : Holds h ids) (hlists : ∀ r, h.items (ids r) = lists r)
    (r : ρ) (k : Nat) (item : α) :
    ∃ h', listInsert h (placeAfter r ((ids r).take k)) item = some h' ∧
      Contains h' (Function.update lists r ((lists r).take k ++ item :: (lists r).drop k)) := by
  obtain ⟨h', hinsert, hh', -, hitem⟩ :=
    listInsert_spec hh (List.take_append_drop k (ids r)).symm item
  have hold : ∀ r', ∀ n ∈ ids r', h'.itemOf n = h.itemOf n := fun r' n hn => by
    rw [hitem, Function.update_of_ne (Nat.ne_of_lt (hh.lt hn))]
  have hnew : h'.itemOf h.fresh = some item := by rw [hitem, Function.update_self]
  have hparts := items_take (hh.seg r).alloc k
  refine ⟨h', hinsert, contains_change hh' hlists (fun r' _ => hold r') ?_⟩
  rw [items_append, items_cons hnew, items_congr fun n hn => hold r n (List.mem_of_mem_take hn),
    items_congr fun n hn => hold r n (List.mem_of_mem_drop hn), hparts.1, hparts.2, hlists]

/-- So is a removal. -/
private theorem listRemoveFirst_contains (hh : Holds h ids)
    (hlists : ∀ r, h.items (ids r) = lists r) (r : ρ) {k : Nat} (hk : k < (lists r).length) :
    ∃ h', listRemoveFirst h (placeAfter r ((ids r).take k)) = some (h', (lists r)[k]?) ∧
      Contains h' (Function.update lists r ((lists r).eraseIdx k)) := by
  have hlen : (ids r).length = (lists r).length := by rw [← hlists, length_items (hh.seg r).alloc]
  have hk' : k < (ids r).length := hlen ▸ hk
  have hids : ids r = (ids r).take k ++ (ids r)[k] :: (ids r).drop (k + 1) := by
    rw [← List.drop_eq_getElem_cons hk', List.take_append_drop]
  obtain ⟨h', hremove, hh', hfreed⟩ := listRemoveFirst_spec hh hids
  have hn := hh.nodup r
  rw [hids, List.nodup_middle, List.nodup_cons] at hn
  have hparts := items_take (hh.seg r).alloc k
  have hparts' := items_take (hh.seg r).alloc (k + 1)
  have hhead : h.itemOf (ids r)[k] = (lists r)[k]? := by
    obtain ⟨item, hitem⟩ := hh.itemOf (List.getElem_mem hk')
    have hdrop := hparts.2
    rw [List.drop_eq_getElem_cons hk', items_cons hitem, hlists] at hdrop
    rw [hitem, ← List.head?_drop, ← hdrop]
    rfl
  refine ⟨h', hhead ▸ hremove, contains_change hh' hlists (fun r' hr' n hn' => ?_) ?_⟩
  · apply hfreed.item
    rintro rfl
    exact hh.disjoint r r' (Ne.symm hr') _ (List.getElem_mem hk') hn'
  · have hsame : ∀ n ∈ (ids r).take k ++ (ids r).drop (k + 1), h'.itemOf n = h.itemOf n := by
      intro n hn'
      apply hfreed.item
      rintro rfl
      exact hn.1 hn'
    rw [items_congr hsame, items_append, hparts.1, hparts'.2, hlists,
      ← List.eraseIdx_eq_take_drop_succ]

/-- A call does to the heap what it does to the lists. -/
private theorem run_apply (hc : Contains h lists) (call : ListCall ρ α) (hfair : call.IsFair) :
    ∃ h', call.run h = some (h', (call.apply lists).2) ∧ Contains h' (call.apply lists).1 := by
  obtain ⟨ids, hh, hlists⟩ := hc
  have hlen : ∀ r, (ids r).length = (lists r).length := fun r => by
    rw [← hlists, length_items (hh.seg r).alloc]
  have hsame : Contains h lists := ⟨ids, hh, hlists⟩
  cases call with
  | insert r item =>
    obtain ⟨h', hinsert, hc'⟩ := listInsert_contains hh hlists r 0 item
    have hinsert : listInsert h (.root r) item = some h' := hinsert
    exact ⟨h', by rw [ListCall.run, hinsert]; rfl, hc'⟩
  | insertAt r found item =>
    simp only [ListCall.run, listFindEntry_spec hh, hlists, Option.bind_some, ListCall.apply]
    cases hfind : (lists r).findIdx? found with
    | none => exact ⟨h, rfl, hsame⟩
    | some k =>
      obtain ⟨h', hinsert, hc'⟩ := listInsert_contains hh hlists r k item
      exact ⟨h', by rw [Option.map_some]; simp only [hinsert, Option.map_some], hc'⟩
  | removeFirst r =>
    cases hr : lists r with
    -- Of an empty list nothing is removed.
    | nil =>
      have hnil : ids r = [] := List.length_eq_zero_iff.mp (by rw [hlen, hr]; rfl)
      have hremove : listRemoveFirst h (.root r) = some (h, none) := by
        have hremove := listRemoveFirst_nil (r := r) hh
        rwa [hnil] at hremove
      refine ⟨h, by rw [ListCall.run, hremove, ListCall.apply, hr]; rfl, ?_⟩
      rw [ListCall.apply, hr, List.tail_nil, ← hr, Function.update_eq_self]
      exact hsame
    -- Otherwise the first item goes.
    | cons item rest =>
      have hk : 0 < (lists r).length := by rw [hr]; exact Nat.zero_lt_succ _
      obtain ⟨h', hremove, hc'⟩ := listRemoveFirst_contains hh hlists r hk
      have hremove : listRemoveFirst h (.root r) = some (h', (lists r)[0]?) := hremove
      refine ⟨h', by rw [ListCall.run, hremove, ListCall.apply, hr]; rfl, ?_⟩
      rw [hr] at hc'
      rw [ListCall.apply, hr]
      exact hc'
  | removeAt r found =>
    simp only [ListCall.run, listFindEntry_spec hh, hlists, Option.bind_some, ListCall.apply]
    cases hfind : (lists r).findIdx? found with
    | none => exact ⟨h, rfl, hsame⟩
    | some k =>
      have hk : k < (lists r).length := (List.findIdx?_eq_some_iff_getElem.mp hfind).1
      obtain ⟨h', hremove, hc'⟩ := listRemoveFirst_contains hh hlists r hk
      exact ⟨h', by rw [Option.map_some]; simp only [hremove, Option.map_some], hc'⟩
  | moveFirst src dst =>
    cases hids : ids src with
    | nil =>
      have hnil : lists src = [] := by rw [← hlists, hids]; rfl
      have hread : h.root src = none := by
        have hseg := hh.seg src
        rw [hids] at hseg
        exact hseg
      refine ⟨h, ?_, by rw [ListCall.apply, hnil]; exact hsame⟩
      rw [ListCall.run, listMoveFirst, Heap.read, hread, ListCall.apply, hnil]
      rfl
    | cons a suf =>
      have hne : src ≠ dst := hfair
      obtain ⟨item, hitem⟩ := hh.itemOf (r := src) (hids ▸ List.mem_cons_self)
      obtain ⟨h', hmove, hh', hitems⟩ := listMoveFirst_spec hne hh
        (show ids src = [] ++ a :: suf from hids) (show ids dst = [] ++ ids dst from rfl)
      have hsrc : lists src = item :: h.items suf := by rw [← hlists, hids, items_cons hitem]
      have hmove : listMoveFirst h (.root src) (.root dst) = some (h', some item) := hitem ▸ hmove
      refine ⟨h', by rw [ListCall.run, hmove, ListCall.apply, hsrc]; rfl, ?_⟩
      rw [ListCall.apply, hsrc]
      refine ⟨_, hh', fun r => ?_⟩
      rw [items_congr fun n _ => congrFun hitems n]
      dsimp only
      by_cases hdst : r = dst
      · subst hdst
        rw [Function.update_self, Function.update_self, List.nil_append, items_cons hitem, hlists]
      · rw [Function.update_of_ne hdst, Function.update_of_ne hdst]
        by_cases hr : r = src
        · subst hr
          rw [Function.update_self, Function.update_self, List.nil_append]
        · rw [Function.update_of_ne hr, Function.update_of_ne hr, hlists]
  | delete r =>
    obtain ⟨h', hdelete, hh', hitem, -, -⟩ :=
      listDeleteAndRelease_spec hh (show ids r = [] ++ ids r from rfl)
    have hdelete : listDeleteAndRelease h (.root r) = some (h', lists r) := hlists r ▸ hdelete
    refine ⟨h', by rw [ListCall.run, hdelete]; rfl, ?_⟩
    refine contains_change hh' hlists (fun r' hr' n hn => hitem n ?_) rfl
    exact fun hn' => hh.disjoint r' r hr' n hn hn'
  | findValue r found =>
    exact ⟨h, by rw [ListCall.run, listFindValue_spec hh, hlists]; rfl, hsame⟩
  | reverse r =>
    obtain ⟨h', hreverse, hh', hitem⟩ := listReverse_spec hh r
    refine ⟨h', by rw [ListCall.run, hreverse, hlen]; rfl, ?_⟩
    refine contains_change hh' hlists (fun r' _ n _ => by rw [hitem]) ?_
    rw [items_congr fun n _ => congrFun hitem n, ← hlists]
    exact List.filterMap_reverse
  | count r => exact ⟨h, by rw [ListCall.run, listCount_spec hh, hlen]; rfl, hsame⟩

/-- For every sequence of calls in which no node is moved from a list to itself: none of them reads,
    writes or frees memory that is not allocated, their results are those for lists that are values,
    and in the end the heap consists of these lists, so that no node is lost. -/
theorem lists_refined (calls : List (ListCall ρ α)) (hfair : ∀ call ∈ calls, call.IsFair) :
    ∃ h, ListCall.runAll Heap.empty calls = some (h, (ListCall.applyAll (fun _ => []) calls).2) ∧
      Contains h (ListCall.applyAll (fun _ => []) calls).1 := by
  suffices hall : ∀ (h : Heap ρ α) (lists : ρ → List α), Contains h lists →
      ∃ h', ListCall.runAll h calls = some (h', (ListCall.applyAll lists calls).2) ∧
        Contains h' (ListCall.applyAll lists calls).1 from
    hall Heap.empty _ ⟨_, holds_empty, fun _ => rfl⟩
  induction calls with
  | nil => exact fun h lists hc => ⟨h, rfl, hc⟩
  | cons call calls ih =>
    intro h lists hc
    obtain ⟨h₁, hrun, hc₁⟩ := run_apply hc call (hfair call List.mem_cons_self)
    obtain ⟨h', hruns, hc'⟩ := ih (fun call' hcall => hfair call' (List.mem_cons_of_mem call hcall))
      h₁ _ hc₁
    refine ⟨h', ?_, hc'⟩
    rw [ListCall.runAll, hrun, Option.bind_some]
    dsimp only
    rw [hruns]
    rfl

/-- Two items are put into a list, which is turned round, and the first one is moved. -/
theorem lists_refined_moved :
    ∃ h, ListCall.runAll (Heap.empty : Heap Bool Nat)
        [.insert true 1, .insert true 2, .reverse true, .moveFirst true false, .delete true] =
      some (h, [.nothing, .nothing, .number 2, .item (some 1), .released [2]]) := by
  obtain ⟨h, hrun, -⟩ := @lists_refined Bool Nat _
    [.insert true 1, .insert true 2, .reverse true, .moveFirst true false, .delete true]
    (by simp [ListCall.IsFair])
  exact ⟨h, hrun⟩

end Msgbox
