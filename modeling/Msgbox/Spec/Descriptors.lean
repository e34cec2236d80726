import Msgbox.Spec.Ownership

/-!
# Descriptors are opened and closed once

A descriptor is opened for a conn that is listed at the same time, and closed when that conn is
marked for removal. Some errors of system calls part the two, and `msg_unlisten` closes twice.

## Key results

- `Balanced`: the open descriptors are those of the open conns
- `keepsDescriptors`: the steps that open and close descriptors together with conns
- `descriptors_balanced`: in runs of such steps every descriptor is closed exactly once, when
  its conn is discarded
- `descriptors_not_balanced`: a `connect` that fails, and `msg_unlisten`
-/

namespace Msgbox

open SwapRemove

/-- No step of this kind leaves a new descriptor behind, refuses a conn, which is not closed,
    or ends a listening conn, which is closed twice; conns that are freed are open, and the
    removal passes are exact. -/
def keepsDescriptors (s : State) (i : Input) : Bool :=
  !i.leaks s && (i.refuseTarget s).isNone && (i.freeTarget s).all s.isOpen &&
    match i with
    | .app (.unlisten (some c) _) => !(s.conn c).forListening
    | .runloop _ => removableCheck s.conns.length s.removals
    | .endPoll => removableCheck s.conns.length s.removals
    | _ => true

/-- What was opened was closed, or is still open; the open descriptors are those of the open
    conns, which have one each. -/
structure Balanced (s : State) : Prop where
  count : ∀ sock, s.openings.count sock =
    s.closings.count sock + if (s.sockets sock).isSome then 1 else 0
  opened : ∀ sock, (s.sockets sock).isSome = true ↔
    ∃ c, s.isOpen c = true ∧ (s.conn c).socket = sock
  apart : ∀ c c', s.isOpen c = true → s.isOpen c' = true →
    (s.conn c).socket = (s.conn c').socket → c = c'
  bound : ∀ r ∈ s.removals, r < s.conns.length

namespace State

variable {s₀ s s' : State} {i : Input} {c : ConnId}

/-! ## Effects that leave descriptors and conns alone -/

/-- Descriptors stay in balance where the openness and sockets of conns and the counts stay. -/
private theorem balanced_of (h : Balanced s)
    (hsockets : ∀ sock, (s'.sockets sock).isSome = (s.sockets sock).isSome)
    (hopenings : s'.openings = s.openings) (hclosings : s'.closings = s.closings)
    (hopen : ∀ c, s'.isOpen c = s.isOpen c)
    (hsocket : ∀ c, s.isOpen c = true → (s'.conn c).socket = (s.conn c).socket)
    (hbound : ∀ r ∈ s'.removals, r < s'.conns.length) : Balanced s' where
  count sock := by
    rw [hopenings, hclosings, hsockets]
    exact h.count sock
  opened sock := by
    rw [hsockets, h.opened]
    constructor
    · rintro ⟨c, hc, rfl⟩
      exact ⟨c, (hopen c).trans hc, hsocket c hc⟩
    · rintro ⟨c, hc, rfl⟩
      rw [hopen] at hc
      exact ⟨c, hc, (hsocket c hc).symm⟩
  apart c c' hc hc' hsame := by
    rw [hopen] at hc hc'
    rw [hsocket c hc, hsocket c' hc'] at hsame
    exact h.apart c c' hc hc' hsame
  bound := hbound

/-- No conn is listed or marked, and every conn keeps its place. -/
private theorem balanced_same (h : Balanced s)
    (hsockets : ∀ sock, (s'.sockets sock).isSome = (s.sockets sock).isSome)
    (hopenings : s'.openings = s.openings) (hclosings : s'.closings = s.closings)
    (hconns : s'.conns = s.conns) (hremovals : s'.removals = s.removals)
    (hconn : ∀ c ∈ s.conns, SameEntry (s.conn c) (s'.conn c)) : Balanced s' := by
  apply balanced_of h hsockets hopenings hclosings
  · intro c
    rw [isOpen, isOpen, hconns, hremovals]
    by_cases hc : c ∈ s.conns
    · rw [(hconn c hc).1]
    · simp [hc]
  · intro c hc
    exact (hconn c (isOpen_iff.mp hc).1).2.1
  · rw [hremovals, hconns]
    exact h.bound

/-- In particular where none of these are touched. -/
private theorem balanced_eq (h : Balanced s) (hsockets : s'.sockets = s.sockets)
    (hopenings : s'.openings = s.openings) (hclosings : s'.closings = s.closings)
    (hconns : s'.conns = s.conns) (hremovals : s'.removals = s.removals)
    (hconn : s'.conn = s.conn) : Balanced s' := by
  apply balanced_same h _ hopenings hclosings hconns hremovals
  · intro c _
    rw [hconn]
    exact .refl _
  · intro sock
    rw [hsockets]

/-- A write to one conn. -/
private theorem balanced_update (h : Balanced s) {c : ConnId} {k : Conn}
    (hsockets : s'.sockets = s.sockets)
    (hopenings : s'.openings = s.openings) (hclosings : s'.closings = s.closings)
    (hconns : s'.conns = s.conns) (hremovals : s'.removals = s.removals)
    (hconn : s'.conn = Function.update s.conn c k) (hk : SameEntry (s.conn c) k) : Balanced s' := by
  apply balanced_same h _ hopenings hclosings hconns hremovals
  · intro c' _
    rw [hconn]
    exact sameEntry_update hk c'
  · intro sock
    rw [hsockets]

/-! ## The conditions on a step -/

/-- Under the condition `accept` leaks no descriptor. -/
private theorem keepsDescriptors_leaks (hok : keepsDescriptors s₀ i = true) :
    i.leaks s₀ = false := by
  simp only [keepsDescriptors, Bool.and_eq_true, Bool.not_eq_true'] at hok
  exact hok.1.1.1

/-- Under the condition no open is refused. -/
private theorem keepsDescriptors_refuse (hok : keepsDescriptors s₀ i = true) :
    i.refuseTarget s₀ = none := by
  simp only [keepsDescriptors, Bool.and_eq_true, Option.isNone_iff_eq_none] at hok
  exact hok.1.1.2

/-- Under the condition only open conns are freed. -/
private theorem keepsDescriptors_free (hok : keepsDescriptors s₀ i = true)
    (hc : i.freeTarget s₀ = some c) :
    s₀.isOpen c = true := by
  simp only [keepsDescriptors, hc, Option.all_some, Bool.and_eq_true] at hok
  exact hok.1.2

/-- Under the condition `msg_unlisten` is called for conns that do not listen any more. -/
private theorem keepsDescriptors_unlisten (hok : keepsDescriptors s₀ i = true)
    {result : Option Errno}
    (hcalls : i.Calls s₀ (.unlisten (some c) result)) : (s₀.conn c).forListening = false := by
  rw [hcalls.input] at hok
  simpa [keepsDescriptors] using (Bool.and_eq_true_iff.mp hok).2

/-- Under the condition the marks of a removal pass pass the check of an exact removal. -/
private theorem keepsDescriptors_removal (hok : keepsDescriptors s₀ i = true)
    (hinput : i = .endPoll ∨ ∃ p, i = .runloop p) :
    removableCheck s₀.conns.length s₀.removals = true := by
  rcases hinput with rfl | ⟨p, rfl⟩
  · exact (Bool.and_eq_true_iff.mp hok).2
  · exact (Bool.and_eq_true_iff.mp hok).2

/-! ## Opening and closing -/

/-- A new descriptor comes with a new conn, which is open. -/
private theorem balanced_opened (hs : Sound s) (h : Balanced s) {k : Conn} {contents : Socket}
    (hnew : s.sockets k.socket = none) (hindex : k.index = s.conns.length) :
    Balanced ((((s.openDescriptor k.socket contents).allocConn k).addToConns
      s.nextConn).addToPollFds k.socket) := by
  generalize hs' : ((((s.openDescriptor k.socket contents).allocConn k).addToConns
    s.nextConn).addToPollFds k.socket) = s'
  have hself : s'.conn s.nextConn = k := by
    rw [← hs']
    simp
  have hother : ∀ c, c ≠ s.nextConn → s'.conn c = s.conn c := by
    intro c hc
    rw [← hs']
    simp [hc]
  have hremovals : s'.removals = s.removals := by rw [← hs']; rfl
  have hconns : s'.conns = s.conns ++ [s.nextConn] := by rw [← hs']; rfl
  have hold : ∀ c, s.isOpen c = true → c ≠ s.nextConn :=
    fun c hc => Nat.ne_of_lt (hs.allocated.conns c (isOpen_iff.mp hc).1)
  -- The new conn is the only one that is open besides.
  have hopen : ∀ c, s'.isOpen c = true ↔ s.isOpen c = true ∨ c = s.nextConn := by
    intro c
    rw [isOpen_iff, hconns, hremovals, List.mem_append, List.mem_singleton]
    by_cases hc : c = s.nextConn
    · -- The new index is past every recorded one.
      subst hc
      rw [hself, hindex]
      exact iff_of_true ⟨.inr rfl, fun hmem => absurd (h.bound _ hmem) (Nat.lt_irrefl _)⟩ (.inr rfl)
    · rw [hother c hc, isOpen_iff]
      simp [hc]
  -- Its descriptor is not that of another open conn, as nothing was open there.
  have hfresh : ∀ c, s.isOpen c = true → (s.conn c).socket ≠ k.socket := by
    intro c hc hsame
    have hsome := (h.opened k.socket).mpr ⟨c, hc, hsame⟩
    rw [hnew] at hsome
    exact Bool.noConfusion hsome
  have hsockets : ∀ sock, (s'.sockets sock).isSome = true ↔
      (s.sockets sock).isSome = true ∨ sock = k.socket := by
    intro sock
    rw [← hs']
    by_cases hsock : sock = k.socket
    · simp [hsock]
    · simp [hsock]
  refine ⟨?_, ?_, ?_, ?_⟩
  -- It was opened once more than it was closed.
  · intro sock
    have hcount := h.count sock
    rw [← hs']
    by_cases hsock : sock = k.socket
    · subst hsock
      rw [hnew] at hcount
      simpa using hcount
    · have hne : (k.socket == sock) = false := by simpa using Ne.symm hsock
      simpa [hsock, List.count_cons, hne] using hcount
  · intro sock
    rw [hsockets, h.opened]
    constructor
    · rintro (⟨c, hc, rfl⟩ | rfl)
      · exact ⟨c, (hopen c).mpr (.inl hc), by rw [hother c (hold c hc)]⟩
      · exact ⟨s.nextConn, (hopen _).mpr (.inr rfl), by rw [hself]⟩
    · rintro ⟨c, hc, rfl⟩
      rcases (hopen c).mp hc with hc | rfl
      · exact .inl ⟨c, hc, by rw [hother c (hold c hc)]⟩
      · exact .inr (by rw [hself])
  -- No two open conns share a descriptor.
  · intro c c' hc hc' hsame
    rcases (hopen c).mp hc with hc | rfl
    · rw [hother c (hold c hc)] at hsame
      rcases (hopen c').mp hc' with hc' | rfl
      · rw [hother c' (hold c' hc')] at hsame
        exact h.apart c c' hc hc' hsame
      · rw [hself] at hsame
        exact absurd hsame (hfresh c hc)
    · rw [hself] at hsame
      rcases (hopen c').mp hc' with hc' | rfl
      · rw [hother c' (hold c' hc')] at hsame
        exact absurd hsame.symm (hfresh c' hc')
      · rfl
  · intro r hr
    rw [hremovals] at hr
    rw [hconns, List.length_append]
    exact Nat.lt_of_lt_of_le (h.bound r hr) (Nat.le_add_right _ _)

/-- A conn that was open is marked and its descriptor closed. -/
private theorem balanced_discard (hs : Sound s) (h : Balanced s) (hc : s.isOpen c = true)
    (hsockets : s'.sockets = Function.update s.sockets (s.conn c).socket none)
    (hopenings : s'.openings = s.openings)
    (hclosings : s'.closings = (s.conn c).socket :: s.closings)
    (hconns : s'.conns = s.conns) (hremovals : s'.removals = s.removals ++ [(s.conn c).index])
    (hconn : s'.conn = s.conn) : Balanced s' := by
  have hlisted := (isOpen_iff.mp hc).1
  -- The conn that is marked is the only one that is not open any more.
  have hopen : ∀ c', s'.isOpen c' = true ↔ s.isOpen c' = true ∧ c' ≠ c := by
    intro c'
    rw [isOpen_iff, hconns, hremovals, hconn]
    constructor
    · rintro ⟨hmem, hnot⟩
      refine ⟨isOpen_iff.mpr ⟨hmem, fun hold => hnot (List.mem_append_left _ hold)⟩, ?_⟩
      rintro rfl
      exact hnot (List.mem_append_right _ List.mem_cons_self)
    · rintro ⟨hold, hne⟩
      exact isOpen_mark hs.tabled hlisted hne hold
  have hsome : (s.sockets (s.conn c).socket).isSome = true := (h.opened _).mpr ⟨c, hc, rfl⟩
  refine ⟨?_, ?_, ?_, ?_⟩
  -- Its descriptor was closed once more.
  · intro sock
    have hcount := h.count sock
    rw [hopenings, hclosings, hsockets, hcount]
    by_cases hsock : sock = (s.conn c).socket
    · subst hsock
      rw [hsome, Function.update_self, List.count_cons_self]
      rfl
    · have hne : ((s.conn c).socket == sock) = false := by simpa using Ne.symm hsock
      rw [Function.update_of_ne hsock, List.count_cons, hne]
      rfl
  · intro sock
    rw [hsockets]
    by_cases hsock : sock = (s.conn c).socket
    · subst hsock
      rw [Function.update_self]
      refine iff_of_false Bool.false_ne_true ?_
      rintro ⟨c', hc', hsame⟩
      obtain ⟨hold, hne⟩ := (hopen c').mp hc'
      rw [hconn] at hsame
      exact hne (h.apart c' c hold hc hsame)
    · rw [Function.update_of_ne hsock, h.opened]
      constructor
      · rintro ⟨c', hc', rfl⟩
        refine ⟨c', (hopen c').mpr ⟨hc', ?_⟩, by rw [hconn]⟩
        rintro rfl
        exact hsock rfl
      · rintro ⟨c', hc', rfl⟩
        exact ⟨c', ((hopen c').mp hc').1, by rw [hconn]⟩
  · intro c₁ c₂ hc₁ hc₂ hsame
    rw [hconn] at hsame
    exact h.apart c₁ c₂ ((hopen c₁).mp hc₁).1 ((hopen c₂).mp hc₂).1 hsame
  · intro r hr
    rw [hconns]
    rw [hremovals] at hr
    rcases List.mem_append.mp hr with hold | hnew
    · exact h.bound r hold
    · obtain ⟨j, hj⟩ := List.mem_iff_getElem?.mp hlisted
      rw [List.mem_singleton.mp hnew, hs.tabled.index hj]
      exact (List.getElem?_eq_some_iff.mp hj).1

/-- The removal pass takes away marked conns only, whose descriptors are closed. -/
private theorem balanced_removal (hs : Sound s) (h : Balanced s)
    (hok : removableCheck s.conns.length s.removals = true) : Balanced s.removalPass := by
  obtain ⟨index, heq⟩ := removalPass_eq s
  apply balanced_of h
  · intro sock
    rw [heq]
  · rw [heq]
  · rw [heq]
  · exact isOpen_removalPass hs.tabled h.bound hok
  · intro c _
    rw [heq]
  · rw [heq]
    exact fun r hr => absurd hr List.not_mem_nil

/-! ## Effects -/

/-- Early effects open and close in balance. -/
private theorem balanced_early (hok : keepsDescriptors s₀ i = true) (h : Balanced s)
    (heffect : Early s₀ i s s') : Balanced s' := by
  cases heffect with
  | kernel sockets hopen => exact balanced_same h hopen rfl rfl rfl rfl (fun _ _ => .refl _)
  | leak k hnew hleaks =>
    rw [keepsDescriptors_leaks hok] at hleaks
    exact Bool.noConfusion hleaks
  | close hcalls hlistening =>
    rw [keepsDescriptors_unlisten hok hcalls] at hlistening
    exact Bool.noConfusion hlistening
  | header => exact balanced_update h rfl rfl rfl rfl rfl rfl (by exact ⟨rfl, rfl, id⟩)
  | unflag =>
    exact balanced_update h rfl rfl rfl rfl rfl rfl
      (by exact ⟨rfl, rfl, fun hflag => Bool.noConfusion hflag⟩)
  | _ => exact balanced_eq h rfl rfl rfl rfl rfl rfl

/-- So does every effect. -/
private theorem balanced_effect (hok : keepsDescriptors s₀ i = true) (hs : Sound s) (h : Balanced s)
    (heffect : Effect s₀ i s s') : Balanced s' := by
  cases heffect with
  | early hearly => exact balanced_early hok h hearly
  | oneWay => exact balanced_update h rfl rfl rfl rfl rfl rfl (by exact ⟨rfl, rfl, id⟩)
  | @datagram c r d =>
    have hconsumed : Balanced (s.consume c d.bytes.length) := by
      refine balanced_same h ?_ rfl rfl rfl rfl (fun _ _ => .refl _)
      apply isSome_update
      rw [Option.isSome_map]
      rfl
    exact balanced_update hconsumed rfl rfl rfl rfl rfl rfl (by exact ⟨rfl, rfl, id⟩)
  | opened k contents hopens hnew hconn hconns hindex => exact balanced_opened hs h hnew hindex
  | context => exact balanced_update h rfl rfl rfl rfl rfl rfl (by exact ⟨rfl, rfl, id⟩)
  | address => exact balanced_update h rfl rfl rfl rfl rfl rfl (by exact ⟨rfl, rfl, id⟩)
  | expire => exact balanced_update h rfl rfl rfl rfl rfl rfl (by exact ⟨rfl, rfl, id⟩)
  | removal hinput hstart =>
    subst hstart
    exact balanced_removal hs h (keepsDescriptors_removal hok hinput)
  | @call call rest junk =>
    rw [makeCall_eq]
    obtain ⟨-, hsocket, hflag, hindex⟩ := loaded_fields s call junk
    exact balanced_update h rfl rfl rfl rfl rfl rfl ⟨hindex, hsocket,
      fun hlistening => hflag ▸ hlistening⟩
  | finish =>
    rw [finishCall_eq]
    exact balanced_eq h rfl rfl rfl rfl rfl rfl
  | listening | get | failedGet | swap | phase => exact balanced_eq h rfl rfl rfl rfl rfl rfl

/-- `local_disconnect` closes the descriptor of the conn that it marks. -/
private theorem balanced_localDisconnect (hok : keepsDescriptors s₀ i = true) (hs : Sound s)
    (h : Balanced s) (hearly : Relation.ReflTransGen (Early s₀ i) s₀ s) (hdrops : i.Drops s₀ c)
    (event : Event) : Balanced (s.localDisconnect c event) := by
  cases hfree : s.isListeningUdp c with
  | true =>
    unfold localDisconnect
    rw [if_pos hfree]
    exact balanced_eq h rfl rfl rfl rfl rfl rfl
  | false =>
    have hopen₀ := keepsDescriptors_free hok (freeTarget_of_drops hdrops hearly hfree)
    -- What comes before leaves the conn open.
    have hopen : s.isOpen c = true := by
      rw [isOpen_iff] at hopen₀ ⊢
      rw [early_conns hearly, early_index hearly]
      exact ⟨hopen₀.1, fun hmem => hopen₀.2
        ((removals_sublist_effects (effects_early hearly)).subset hmem)⟩
    unfold localDisconnect
    rw [if_neg (by rw [hfree]; exact Bool.false_ne_true)]
    exact balanced_discard hs h hopen rfl rfl rfl rfl rfl rfl

/-- So does the last effect of a step. -/
private theorem balanced_final (hok : keepsDescriptors s₀ i = true) (hs : Sound s) (h : Balanced s)
    (hfinal : Final s₀ i s s') : Balanced s' := by
  cases hfinal with
  | handled | matched => exact balanced_update h rfl rfl rfl rfl rfl rfl (by exact ⟨rfl, rfl, id⟩)
  | unmatched => exact balanced_eq h rfl rfl rfl rfl rfl rfl
  | @drop c event ph hearly hdrops =>
    have hdropped := balanced_localDisconnect hok hs h hearly hdrops event
    exact balanced_eq hdropped rfl rfl rfl rfl rfl rfl
  | @refuse c index soError msg hvisits hstart hpollerr herror =>
    subst hstart
    have hrefuse : i.refuseTarget s = some c := by
      rw [hvisits.input, Input.refuseTarget, hvisits.phase]
      simp only [hpollerr, herror, and_self, if_true]
      exact hvisits.listed
    rw [keepsDescriptors_refuse hok] at hrefuse
    exact absurd hrefuse.symm (Option.some_ne_none c)
  | fail k msg =>
    refine balanced_same h (fun _ => rfl) rfl rfl rfl rfl ?_
    intro c hc
    have hne : c ≠ s.nextConn := Nat.ne_of_lt (hs.allocated.conns c hc)
    show SameEntry (s.conn c) (Function.update s.conn s.nextConn k c)
    rw [Function.update_of_ne hne]
    exact .refl _

end State

/-! ## Main results -/

/-- In every run whose steps open and close descriptors together with conns, the open descriptors
    are in every state exactly those of the conns that are listed and not marked for removal, one
    for each; and each descriptor was passed to `closesocket` once for every time it was returned
    by `socket` or `accept`, but for the last time if it is open. -/
theorem descriptors_balanced {s : State}
    (h : machine.Reach (fun s i => keepsDescriptors s i = true) s) :
    (∀ sock, (s.sockets sock).isSome = true ↔
      ∃ c, (c ∈ s.conns ∧ (s.conn c).index ∉ s.removals) ∧ (s.conn c).socket = sock) ∧
    (∀ c c', s.isOpen c = true → s.isOpen c' = true →
      (s.conn c).socket = (s.conn c').socket → c = c') ∧
    ∀ sock, s.openings.count sock =
      s.closings.count sock + if (s.sockets sock).isSome then 1 else 0 := by
  have hinit : Balanced State.init := by
    refine ⟨fun _ => rfl, fun sock => ?_, fun c c' hc => ?_, fun r hr => absurd hr List.not_mem_nil⟩
    · refine iff_of_false Bool.false_ne_true ?_
      rintro ⟨c, hc, -⟩
      exact absurd (State.isOpen_iff.mp hc).1 List.not_mem_nil
    · exact absurd (State.isOpen_iff.mp hc).1 List.not_mem_nil
  obtain ⟨-, hbalanced⟩ := reach_sound_invariant Balanced hinit
    (fun hok _ _ _ hs hinv heffect => State.balanced_effect hok hs hinv heffect)
    (fun hok _ _ _ hs hinv hfinal => State.balanced_final hok hs hinv hfinal) h
  refine ⟨fun sock => ?_, hbalanced.apart, hbalanced.count⟩
  simpa only [State.isOpen_iff] using hbalanced.opened sock

/-- Two connections, the first of which is disconnected. -/
theorem descriptors_balanced_disconnected :
    ∃ s, machine.Reach (fun s i => keepsDescriptors s i = true) s ∧
      s.openings = [4, 3] ∧ s.closings = [3] ∧ s.conns = [0, 1] ∧ s.removals = [0] ∧
      ((s.sockets 4).isSome = true ↔
        ∃ c, (c ∈ s.conns ∧ (s.conn c).index ∉ s.removals) ∧ (s.conn c).socket = 4) := by
  obtain ⟨s, hreach, hview⟩ := machine.exists_reach_of_run keepsDescriptors (fun _ _ h => h)
    (connectRun ++ [.app (.connect ['t', 'c', 'p', ':', '/', '/', '5', '.', '6', '.', '7', '.', '8',
        ':', '8', '0'] 0 null { socket := .ok 4 }), .app (.disconnect 0 {})])
    (fun s => (s.openings, s.closings, s.conns, s.removals)) ([4, 3], [3], [0, 1], [0])
    (by decide +kernel)
  simp only [Prod.mk.injEq] at hview
  exact ⟨s, hreach, hview.1, hview.2.1, hview.2.2.1, hview.2.2.2, (descriptors_balanced hreach).1 4⟩

/-- A `connect` that fails leaves the descriptor open that `socket` returned, though there is no
    conn. `msg_unlisten` passes the one descriptor to `closesocket` twice. -/
theorem descriptors_not_balanced :
    (∃ s, machine.Reach (fun _ _ => True) s ∧ s.conns = [] ∧ s.openings = [3] ∧ s.closings = [] ∧
      (s.sockets 3).isSome = true) ∧
    ∃ s, machine.Reach (fun _ _ => True) s ∧ s.openings = [3] ∧ s.closings = [3, 3] := by
  constructor
  · obtain ⟨s, hreach, hview⟩ := machine.exists_reach_of_run (P := fun _ _ => True)
      (fun _ _ => true) (fun _ _ _ => trivial)
      [.app (.connect ['t', 'c', 'p', ':', '/', '/', '1', '.', '2', '.', '3', '.', '4', ':',
        '8', '0']
        0 null { socket := .ok 3, opener := some (.other "Network is unreachable") })]
      (fun s => (s.conns, s.openings, s.closings, (s.sockets 3).isSome)) ([], [3], [], true)
      (by decide +kernel)
    simp only [Prod.mk.injEq] at hview
    exact ⟨s, hreach, hview⟩
  · obtain ⟨s, hreach, hview⟩ := machine.exists_reach_of_run (P := fun _ _ => True)
      (fun _ _ => true) (fun _ _ _ => trivial)
      (listenRun ++ [.app (.unlisten (some 0) none)])
      (fun s => (s.openings, s.closings)) ([3], [3, 3]) (by decide +kernel)
    simp only [Prod.mk.injEq] at hview
    exact ⟨s, hreach, hview⟩

end Msgbox
