import Msgbox.Lib.SwapRemove
import Msgbox.Runloop

/-!
# The removal pass

`remove_conn_at` moves the last conn into the hole, so an index that was recorded in
`removals` may no longer be that of the conn it was recorded for. The tables stay
index-matched in any case; whether the right conns are removed depends on the recorded
indices alone.

## Key results

- `removalPass_eq`: what the pass does to the state, for use by other proofs
- `removalPass_indexed`: the pass keeps `conns`, `poll_fds` and the index fields matched
- `removal_exact_iff`: the pass removes exactly the marked conns if and only if every
  position that was not recorded `Lands`
-/

namespace Msgbox

open SwapRemove

/-- The conns' index fields are their positions, and `poll_fds` polls their sockets. -/
structure Indexed (s : State) : Prop where
  index : ∀ {i : Nat} {c : ConnId}, s.conns[i]? = some c → (s.conn c).index = i
  length : s.pollFds.length = s.conns.length
  fd : ∀ {i : Nat} {c : ConnId} {p : PollFd},
    s.conns[i]? = some c → s.pollFds[i]? = some p → p.fd = (s.conn c).socket

/-- No conn is listed twice, since its index field is its only position. -/
theorem Indexed.nodup {s : State} (h : Indexed s) : s.conns.Nodup := by
  rw [List.nodup_iff_getElem?_ne_getElem?]
  intro i j hij hj heq
  have hjc : s.conns[j]? = some s.conns[j] := List.getElem?_eq_getElem hj
  have hi := h.index (heq.trans hjc)
  have hj' := h.index hjc
  omega

/-- The recorded indices let the pass over `n` conns keep every conn that was not marked. -/
def Removable (n : Nat) (removals : List Nat) : Prop :=
  ∀ p < n, p ∉ removals → Lands n removals p

/-- A check of `Removable` by following each position through the pass. -/
def removableCheck (n : Nat) (removals : List Nat) : Bool :=
  removals.Nodup ∧ (∀ r ∈ removals, r < n) ∧
    ∀ p ∈ List.range n, p ∈ removals ∨ (landing n removals p).isSome

/-- The check decides when the removals are exact. -/
theorem removable_of_check {n : Nat} {removals : List Nat} (h : removableCheck n removals) :
    Removable n removals := by
  simp only [removableCheck, decide_eq_true_eq] at h
  obtain ⟨hnodup, hlt, hland⟩ := h
  intro p hp hmem
  have hsome := (hland p (List.mem_range.mpr hp)).resolve_left hmem
  exact (landing_iff_lands hnodup hp hmem).mp hsome

namespace State

/-- `array__remove_and_fill` fills the gap with the last item. -/
private theorem removeAndFill_eq {α : Type} (array : List α) (index : Nat) :
    removeAndFill array index = swapRemove array index := rfl

/-! ## One removal -/

/-- One removal moves the last entries of the two arrays, and updates the index field of the
    conn that now stands at the given position. -/
private theorem removeConnAt_eq (s : State) (i : Nat) :
    s.removeConnAt i =
      { s with
        conns := swapRemove s.conns i
        pollFds := swapRemove s.pollFds i
        conn := fun c =>
          if (swapRemove s.conns i)[i]? = some c then { s.conn c with index := i }
          else s.conn c } := by
  unfold removeConnAt
  simp only [removeAndFill_eq]
  split
  · rename_i filled h
    simp only [modifyConn, h, Option.some.injEq]
    congr 1
    funext c
    by_cases hc : filled = c
    · subst hc
      simp
    · rw [if_neg hc, Function.update_of_ne (Ne.symm hc)]
  · rename_i h
    simp [h]

/-- Removing a conn keeps every index that of its place. -/
private theorem removeConnAt_indexed {s : State} (h : Indexed s) (i : Nat) :
    Indexed (s.removeConnAt i) := by
  rw [removeConnAt_eq]
  refine ⟨?_, ?_, ?_⟩
  · intro j c hc
    dsimp only at hc ⊢
    have hcj := hc
    rw [getElem?_swapRemove] at hcj
    split at hcj
    · rename_i hj
      split at hcj
      · rename_i hji
        subst hji
        rw [if_pos hc]
      · rename_i hji
        have hidx := h.index hcj
        rw [if_neg, hidx]
        -- The conn at position `i` is another one, as no conn is listed twice.
        intro hi
        have hnodup := nodup_swapRemove h.nodup i
        rw [List.nodup_iff_getElem?_ne_getElem?] at hnodup
        have hilt := (List.getElem?_eq_some_iff.mp hi).1
        have hjlt := (List.getElem?_eq_some_iff.mp hc).1
        rcases Nat.lt_or_gt_of_ne hji with hlt | hlt
        · exact hnodup j i hlt hilt (hc.trans hi.symm)
        · exact hnodup i j hlt hjlt (hi.trans hc.symm)
    · exact nomatch hcj
  · simp only [length_swapRemove, h.length]
  · intro j c p hc hp
    dsimp only at hc hp ⊢
    have hsocket : ∀ k : Conn, ∀ P : Prop, ∀ [Decidable P],
        (if P then { k with index := i } else k).socket = k.socket := by
      intro k P _
      split <;> rfl
    rw [hsocket]
    rw [getElem?_swapRemove] at hc hp
    rw [h.length] at hp
    split at hc
    · rename_i hj
      rw [if_pos hj] at hp
      split at hc
      · rename_i hji
        rw [if_pos hji] at hp
        exact h.fd hc hp
      · rename_i hji
        rw [if_neg hji] at hp
        exact h.fd hc hp
    · exact nomatch hc

/-! ## The pass -/

/-- The pass keeps the two arrays matched and otherwise writes index fields only. -/
private theorem foldl_removeConnAt_eq (s : State) (rs : List Nat) :
    ∃ index : ConnId → Nat, rs.foldl removeConnAt s =
      { s with
        conns := rs.foldl swapRemove s.conns
        pollFds := rs.foldl swapRemove s.pollFds
        conn := fun c => { s.conn c with index := index c } } := by
  induction rs generalizing s with
  | nil => exact ⟨fun c => (s.conn c).index, rfl⟩
  | cons r rs ih =>
    rw [List.foldl_cons, removeConnAt_eq]
    obtain ⟨index, h⟩ := ih
      { s with
        conns := swapRemove s.conns r
        pollFds := swapRemove s.pollFds r
        conn := fun c =>
          if (swapRemove s.conns r)[r]? = some c then { s.conn c with index := r }
          else s.conn c }
    refine ⟨index, ?_⟩
    rw [h]
    congr 1
    funext c
    dsimp only
    split <;> rfl

/-- A removal pass writes the two arrays and the indices, and nothing else. -/
theorem removalPass_eq (s : State) :
    ∃ index : ConnId → Nat, s.removalPass =
      { s with
        conns := s.removals.foldl swapRemove s.conns
        pollFds := s.removals.foldl swapRemove s.pollFds
        removals := []
        conn := fun c => { s.conn c with index := index c } } := by
  obtain ⟨index, h⟩ := foldl_removeConnAt_eq s s.removals
  exact ⟨index, by rw [removalPass, h]⟩

/-- Whatever was recorded, the pass keeps the tables matched. -/
theorem removalPass_indexed {s : State} (h : Indexed s) : Indexed s.removalPass := by
  have hfold : ∀ (rs : List Nat) (s : State), Indexed s → Indexed (rs.foldl removeConnAt s) := by
    intro rs
    induction rs with
    | nil => exact fun _ h => h
    | cons r rs ih => exact fun s h => ih _ (removeConnAt_indexed h r)
  have h' := hfold s.removals s h
  exact ⟨h'.index, h'.length, h'.fd⟩

@[simp] theorem removalPass_conns (s : State) :
    s.removalPass.conns = s.removals.foldl swapRemove s.conns := by
  obtain ⟨_, h⟩ := s.removalPass_eq
  rw [h]

/-- The indices recorded for a list of conns are recorded for these conns only. -/
private theorem getElem?_mem_marked {s : State} (h : Indexed s) {marked : List ConnId}
    (hmarked : ∀ c ∈ marked, c ∈ s.conns) {p : Nat} {c : ConnId} (hp : s.conns[p]? = some c) :
    p ∈ marked.map (fun c => (s.conn c).index) ↔ c ∈ marked := by
  rw [List.mem_map]
  constructor
  · rintro ⟨c', hc', hidx⟩
    obtain ⟨p', hp'⟩ := List.mem_iff_getElem?.mp (hmarked c' hc')
    rw [h.index hp'] at hidx
    rw [hidx, hp, Option.some.injEq] at hp'
    exact hp' ▸ hc'
  · intro hc
    exact ⟨c, hc, h.index hp⟩

/-- The recorded indices of distinct conns are distinct positions of `conns`. -/
private theorem removals_of_marked {s : State} (h : Indexed s) {marked : List ConnId}
    (hnodup : marked.Nodup) (hmarked : ∀ c ∈ marked, c ∈ s.conns) :
    (marked.map fun c => (s.conn c).index).Nodup ∧
      ∀ r ∈ marked.map (fun c => (s.conn c).index), r < s.conns.length := by
  have hidx : ∀ c ∈ marked, s.conns[(s.conn c).index]? = some c := by
    intro c hc
    obtain ⟨p, hp⟩ := List.mem_iff_getElem?.mp (hmarked c hc)
    rw [h.index hp, hp]
  constructor
  · refine hnodup.map_on fun c hc c' hc' heq => ?_
    have hcc := hidx c hc
    rw [heq, hidx c' hc', Option.some.injEq] at hcc
    exact hcc.symm
  · intro r hr
    obtain ⟨c, hc, rfl⟩ := List.mem_map.mp hr
    exact (List.getElem?_eq_some_iff.mp (hidx c hc)).1

/-- The conns that the pass should leave, by position. -/
private theorem mem_unmarked_iff {s : State} (h : Indexed s) {marked : List ConnId}
    (hmarked : ∀ c ∈ marked, c ∈ s.conns) (c : ConnId) :
    (∃ p, s.conns[p]? = some c ∧ p ∉ marked.map fun c => (s.conn c).index) ↔
      c ∈ s.conns ∧ c ∉ marked := by
  constructor
  · rintro ⟨p, hp, hnot⟩
    rw [getElem?_mem_marked h hmarked hp] at hnot
    exact ⟨List.mem_iff_getElem?.mpr ⟨p, hp⟩, hnot⟩
  · rintro ⟨hc, hnot⟩
    obtain ⟨p, hp⟩ := List.mem_iff_getElem?.mp hc
    exact ⟨p, hp, fun hin => hnot ((getElem?_mem_marked h hmarked hp).mp hin)⟩

/-- With the indices of a list of distinct conns in `removals`, the pass leaves exactly the
    other conns if and only if every position that was not recorded lands. -/
private theorem mem_removalPass_iff {s : State} (h : Indexed s) {marked : List ConnId}
    (hnodup : marked.Nodup) (hmarked : ∀ c ∈ marked, c ∈ s.conns)
    (hremovals : s.removals = marked.map fun c => (s.conn c).index) :
    (∀ c, c ∈ s.removalPass.conns ↔ c ∈ s.conns ∧ c ∉ marked) ↔
      Removable s.conns.length s.removals := by
  obtain ⟨hrs, hlt⟩ := removals_of_marked h hnodup hmarked
  rw [← hremovals] at hrs hlt
  have hiff := mem_foldl_swapRemove_iff h.nodup hrs hlt
  have hleft := mem_unmarked_iff h hmarked
  rw [← hremovals] at hleft
  simp only [hleft] at hiff
  rw [removalPass_conns]
  exact hiff

/-- After a removal pass each conn is still listed once. -/
private theorem removalPass_nodup {s : State} (h : Indexed s) : s.removalPass.conns.Nodup := by
  rw [removalPass_conns]
  exact nodup_foldl_swapRemove h.nodup _

/-- The removal pass is exact, and leaves the tables matched, if and only if the indices
    recorded for the marked conns are `Removable`. -/
theorem removal_exact_iff (s : State) (h : Indexed s) (marked : List ConnId)
    (hnodup : marked.Nodup) (hmarked : ∀ c ∈ marked, c ∈ s.conns)
    (hremovals : s.removals = marked.map fun c => (s.conn c).index) :
    ((∀ c, c ∈ s.removalPass.conns ↔ c ∈ s.conns ∧ c ∉ marked) ∧
        s.removalPass.conns.Nodup ∧ Indexed s.removalPass) ↔
      Removable s.conns.length s.removals := by
  rw [mem_removalPass_iff h hnodup hmarked hremovals]
  exact and_iff_left ⟨removalPass_nodup h, removalPass_indexed h⟩

/-- Three open conns, with the given indices in `removals`. -/
def threeConns (removals : List Nat) : State :=
  { conn := fun c => { socket := c + 3, index := c }
    nextConn := 3
    conns := [0, 1, 2]
    pollFds := [⟨3, .read, {}⟩, ⟨4, .read, {}⟩, ⟨5, .read, {}⟩]
    removals := removals }

/-- The indices of the three conns are their places. -/
private theorem threeConns_indexed (removals : List Nat) : Indexed (threeConns removals) := by
  refine ⟨?_, rfl, ?_⟩
  · intro i c hc
    match i, hc with
    | 0, rfl => rfl
    | 1, rfl => rfl
    | 2, rfl => rfl
  · intro i c p hc hp
    match i, hc, hp with
    | 0, rfl, rfl => rfl
    | 1, rfl, rfl => rfl
    | 2, rfl, rfl => rfl

/-- With the last and then the first of three conns marked, the pass is exact. -/
theorem removal_exact_decreasing :
    (∀ c, c ∈ (threeConns [2, 0]).removalPass.conns ↔
        c ∈ (threeConns [2, 0]).conns ∧ c ∉ [2, 0]) ∧
      (threeConns [2, 0]).removalPass.conns.Nodup ∧ Indexed (threeConns [2, 0]).removalPass :=
  (removal_exact_iff (threeConns [2, 0]) (threeConns_indexed [2, 0]) [2, 0] (by decide)
    (by decide) rfl).mpr (removable_of_check (by decide))

/-- With the first and the last of three conns marked, the pass removes the middle one and
    keeps the last. -/
theorem removal_not_exact :
    (threeConns [0, 2]).removalPass.conns = [2] ∧
      ¬ ((∀ c, c ∈ (threeConns [0, 2]).removalPass.conns ↔
            c ∈ (threeConns [0, 2]).conns ∧ c ∉ [0, 2]) ∧
          (threeConns [0, 2]).removalPass.conns.Nodup ∧
          Indexed (threeConns [0, 2]).removalPass) := by
  have hconns : (threeConns [0, 2]).removalPass.conns = [2] := by
    rw [removalPass_conns]
    decide
  refine ⟨hconns, fun h => ?_⟩
  have hmiddle : (1 : ConnId) ∈ (threeConns [0, 2]).removalPass.conns :=
    (h.1 1).mpr ⟨by decide, by decide⟩
  rw [hconns] at hmiddle
  exact absurd hmiddle (by decide)

end State

end Msgbox
