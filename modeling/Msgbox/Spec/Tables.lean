import Msgbox.Spec.Allocated

/-!
# The tables match

In every reachable state the index field of a listed conn is its position, `poll_fds` polls
its socket, only conns that connect wait to be written to, and the loop over `conns` is past
every position that was recorded for removal.

## Key results

- `reach_tabled`: all this holds in every reachable state
- `removals_length_le`: the removal pass behind that loop never comes to an empty array
- `Reads.unmarked`, `Visits.unmarked`: a conn that is read or visited was not marked
-/

namespace Msgbox

open SwapRemove

/-- How far the loop over `conns` has got. -/
def Phase.bound : Phase → Option Nat
  | .polling index => some index
  | .reading index => some index
  | _ => none

/-- The tables of `msg_runloop` in the middle of a run. -/
structure Tabled (s : State) : Prop extends Indexed s where
  writers : ∀ {j : Nat} {c : ConnId} {p : PollFd}, s.conns[j]? = some c →
    s.pollFds[j]? = some p → p.mayWrite = true → (s.conn c).forListening = false
  progress : ∀ n, s.phase.bound = some n →
    s.removals.Pairwise (· < ·) ∧ ∀ r ∈ s.removals, r < n ∧ r < s.conns.length

/-- A write to a conn that is listed keeps it in its place. -/
def SameEntry (k k' : Conn) : Prop :=
  k'.index = k.index ∧ k'.socket = k.socket ∧ (k'.forListening = true → k.forListening = true)

/-- A conn has the entry that it has. -/
theorem SameEntry.refl (k : Conn) : SameEntry k k := ⟨rfl, rfl, id⟩

namespace State

variable {s₀ s s' : State} {i : Input}

/-- An update that keeps the entry of the conn it is at keeps those of all. -/
theorem sameEntry_update {c : ConnId} {k : Conn} (hk : SameEntry (s.conn c) k) (c' : ConnId) :
    SameEntry (s.conn c') (Function.update s.conn c k c') := by
  by_cases hc : c' = c
  · subst hc
    rw [Function.update_self]
    exact hk
  · rw [Function.update_of_ne hc]
    exact .refl _

/-- Every change but those of the lists. -/
private theorem tabled_of_eq (h : Tabled s) (hconns : s'.conns = s.conns)
    (hpollFds : s'.pollFds = s.pollFds) (hconn : ∀ c ∈ s.conns, SameEntry (s.conn c) (s'.conn c))
    (hprogress : ∀ n, s'.phase.bound = some n →
      s'.removals.Pairwise (· < ·) ∧ ∀ r ∈ s'.removals, r < n ∧ r < s.conns.length) :
    Tabled s' where
  index {j c} hc := by
    rw [hconns] at hc
    rw [(hconn c (List.mem_of_getElem? hc)).1, h.index hc]
  length := by rw [hpollFds, hconns, h.length]
  fd {j c p} hc hp := by
    rw [hconns] at hc
    rw [(hconn c (List.mem_of_getElem? hc)).2.1, h.fd hc (hpollFds ▸ hp)]
  writers {j c p} hc hp hwrite := by
    rw [hconns] at hc
    have hold := h.writers hc (hpollFds ▸ hp) hwrite
    rw [Bool.eq_false_iff] at hold ⊢
    exact fun hnew => hold ((hconn c (List.mem_of_getElem? hc)).2.2 hnew)
  progress n hn := by
    rw [hconns]
    exact hprogress n hn

/-- A write to one conn. -/
private theorem tabled_update (h : Tabled s) {c : ConnId} {k : Conn} (hconns : s'.conns = s.conns)
    (hpollFds : s'.pollFds = s.pollFds) (hremovals : s'.removals = s.removals)
    (hphase : s'.phase = s.phase) (hconn : s'.conn = Function.update s.conn c k)
    (hk : SameEntry (s.conn c) k) : Tabled s' := by
  refine tabled_of_eq h hconns hpollFds (fun c' _ => ?_) ?_
  · rw [hconn]
    exact sameEntry_update hk c'
  · rw [hphase, hremovals]
    exact h.progress

/-- No write to a conn at all. -/
private theorem tabled_same (h : Tabled s) (hconns : s'.conns = s.conns)
    (hpollFds : s'.pollFds = s.pollFds)
    (hremovals : s'.removals = s.removals) (hphase : s'.phase = s.phase)
    (hconn : s'.conn = s.conn) : Tabled s' := by
  refine tabled_of_eq h hconns hpollFds (fun c _ => by rw [hconn]; exact .refl _) ?_
  rw [hphase, hremovals]
  exact h.progress

/-- The tables stay in step when `poll_fds` keeps its descriptors and gains no writer. -/
private theorem tabled_poll (h : Tabled s) {pollFds : List PollFd}
    (hfds : pollFds.map PollFd.fd = s.pollFds.map PollFd.fd)
    (hwrites : ∀ (j : Nat) (p : PollFd), pollFds[j]? = some p → p.mayWrite = true →
      (∃ p' : PollFd, s.pollFds[j]? = some p' ∧ p'.mayWrite = true) ∨
        ∃ c, s.conns[j]? = some c ∧ (s.conn c).forListening = false) :
    Tabled { s with pollFds := pollFds } where
  index := h.index
  length := by
    have hlength := congrArg List.length hfds
    rw [List.length_map, List.length_map] at hlength
    exact hlength.trans h.length
  fd {j c p} hc hp := by
    have hj := congrArg (fun l => l[j]?) hfds
    simp only [List.getElem?_map] at hj
    rw [show pollFds[j]? = some p from hp] at hj
    obtain ⟨p', hp', hfd⟩ := Option.map_eq_some_iff.mp hj.symm
    exact hfd.symm.trans (h.fd hc hp')
  writers {j c p} hc hp hwrite := by
    rcases hwrites j p hp hwrite with ⟨p', hp', hwrite'⟩ | ⟨c', hc', hconn⟩
    · exact h.writers hc hp' hwrite'
    · obtain rfl := Option.some.inj (hc'.symm.trans hc)
      exact hconn
  progress := h.progress

/-- Early effects keep the tables in step. -/
private theorem tabled_early (h : Tabled s) (heffect : Early s₀ i s s') : Tabled s' := by
  cases heffect with
  | kernel | leak | close => exact tabled_same h rfl rfl rfl rfl rfl
  | poll pollFds hfds hwrites => exact tabled_poll h hfds hwrites
  | note => exact tabled_same h rfl rfl rfl rfl rfl
  | header => exact tabled_update h rfl rfl rfl rfl rfl ⟨rfl, rfl, id⟩
  | buffer => exact tabled_same h rfl rfl rfl rfl rfl
  | ready => exact tabled_same h rfl rfl rfl rfl rfl
  | error => exact tabled_same h rfl rfl rfl rfl rfl
  | unflag =>
    exact tabled_update h rfl rfl rfl rfl rfl ⟨rfl, rfl, fun hflag => Bool.noConfusion hflag⟩

/-- A new conn is written to a place that is not listed yet. -/
theorem sameEntry_alloc (ha : Allocated s) (k : Conn) {c : ConnId} (hc : c ∈ s.conns) :
    SameEntry (s.conn c) (Function.update s.conn s.nextConn k c) := by
  rw [Function.update_of_ne (Nat.ne_of_lt (ha.conns c hc))]
  exact .refl _

/-- A new conn takes the next place in both arrays. -/
private theorem tabled_opened (h : Tabled s) (ha : Allocated s) {k : Conn} {contents : Socket}
    (hindex : k.index = s.conns.length) :
    Tabled ((((s.openDescriptor k.socket contents).allocConn k).addToConns s.nextConn).addToPollFds
      k.socket) := by
  have hkeep := fun c hc => sameEntry_alloc ha k (c := c) hc
  have hlen := h.length
  -- A position of the longer lists is an old one or the last.
  have hcases : ∀ {j : Nat} {c : ConnId}, (s.conns ++ [s.nextConn])[j]? = some c →
      s.conns[j]? = some c ∨ j = s.conns.length ∧ c = s.nextConn := by
    intro j c hc
    rw [List.getElem?_append] at hc
    split at hc
    · exact .inl hc
    · rename_i hj
      rw [List.getElem?_singleton] at hc
      split at hc
      · exact .inr ⟨by omega, (Option.some.inj hc).symm⟩
      · exact nomatch hc
  have hpoll : ∀ {j : Nat} {p : PollFd}, (s.pollFds ++ [{ fd := k.socket, events := .read }])[j]? =
      some p → s.pollFds[j]? = some p ∧ j < s.conns.length ∨
        j = s.conns.length ∧ p = { fd := k.socket, events := .read } := by
    intro j p hp
    rw [List.getElem?_append] at hp
    split at hp
    · exact .inl ⟨hp, by omega⟩
    · rename_i hj
      rw [List.getElem?_singleton] at hp
      split at hp
      · exact .inr ⟨by omega, (Option.some.inj hp).symm⟩
      · exact nomatch hp
  refine ⟨⟨?_, ?_, ?_⟩, ?_, fun n hn => ⟨(h.progress n hn).1, fun r hr => ?_⟩⟩
  · intro j c hc
    rcases hcases hc with hold | ⟨rfl, rfl⟩
    · have hentry := hkeep c (List.mem_of_getElem? hold)
      exact hentry.1.trans (h.index hold)
    · simp [hindex]
  · simp [hlen]
  · intro j c p hc hp
    rcases hcases hc with hold | ⟨rfl, rfl⟩
    · have hlt := (List.getElem?_eq_some_iff.mp hold).1
      rcases hpoll hp with ⟨hp, -⟩ | ⟨hj, -⟩
      · exact (h.fd hold hp).trans (hkeep c (List.mem_of_getElem? hold)).2.1.symm
      · omega
    · rcases hpoll hp with ⟨-, hj⟩ | ⟨-, rfl⟩
      · omega
      · simp
  · intro j c p hc hp hwrite
    rcases hcases hc with hold | ⟨rfl, rfl⟩
    · have hlt := (List.getElem?_eq_some_iff.mp hold).1
      rcases hpoll hp with ⟨hp, -⟩ | ⟨hj, -⟩
      · have hfalse := h.writers hold hp hwrite
        rw [Bool.eq_false_iff] at hfalse ⊢
        exact fun hflag => hfalse ((hkeep c (List.mem_of_getElem? hold)).2.2 hflag)
      · omega
    · rcases hpoll hp with ⟨-, hj⟩ | ⟨-, rfl⟩
      · omega
      · exact Bool.noConfusion hwrite
  · obtain ⟨hn, hlisted⟩ := (h.progress n hn).2 r hr
    rw [addToPollFds_conns, addToConns_conns, allocConn_conns, openDescriptor_conns,
      List.length_append]
    exact ⟨hn, Nat.lt_add_right _ hlisted⟩

/-- A removal pass fills the gaps of both arrays in the same way. -/
private theorem tabled_removal (h : Tabled s) : Tabled s.removalPass := by
  have hindexed := removalPass_indexed h.toIndexed
  obtain ⟨index, heq⟩ := removalPass_eq s
  refine ⟨hindexed, ?_, ?_⟩
  · intro j c p hc hp hwrite
    rw [heq] at hc hp ⊢
    obtain ⟨j', hc', hp'⟩ := exists_getElem?_foldl_swapRemove h.length hc hp
    exact h.writers hc' hp' hwrite
  · intro n _
    rw [heq]
    exact ⟨List.Pairwise.nil, fun r hr => absurd hr List.not_mem_nil⟩

/-- What is recorded was recorded before the step, as long as no conn is dropped. -/
private theorem removals_sublist_effect (heffect : Effect s₀ i s s') :
    s'.removals.Sublist s.removals := by
  cases heffect with
  | early hearly => cases hearly <;> exact List.Sublist.refl _
  | removal =>
    obtain ⟨index, heq⟩ := removalPass_eq s
    rw [heq]
    exact List.nil_sublist _
  | call => rw [makeCall_eq]
  | finish => rw [finishCall_eq]
  | _ => exact List.Sublist.refl _

/-- The effects before the last one of a step mark no conns. -/
theorem removals_sublist_effects (h : Relation.ReflTransGen (Effect s₀ i) s₀ s) :
    s.removals.Sublist s₀.removals := by
  induction h with
  | refl => exact List.Sublist.refl _
  | tail _ heffect ih => exact (removals_sublist_effect heffect).trans ih

/-- A step that runs no removal pass only appends to `conns`. -/
private theorem conns_length_le_effects (h : Relation.ReflTransGen (Effect s₀ i) s₀ s)
    (hpass : i ≠ .endPoll ∧ ∀ p, i ≠ .runloop p) : s₀.conns.length ≤ s.conns.length := by
  induction h with
  | refl => exact Nat.le_refl _
  | @tail s₁ s₂ _ heffect ih =>
    refine Nat.le_trans ih ?_
    cases heffect with
    | early hearly => cases hearly <;> rfl
    | opened => simp
    | removal hinput =>
      rcases hinput with hinput | ⟨p, hinput⟩
      · exact absurd hinput hpass.1
      · exact absurd hinput (hpass.2 p)
    | call => rw [makeCall_eq]
    | finish => rw [finishCall_eq]
    | _ => rfl

/-- The loop moves on past what is recorded. -/
private theorem progress_advances (h : Tabled s₀)
    (hsteps : Relation.ReflTransGen (Effect s₀ i) s₀ s) {ph : Phase} (hnext : i.Advances s₀ ph)
    (hpass : ph = .polling 0 → s.removals = []) (n : Nat) (hn : ph.bound = some n) :
    s.removals.Pairwise (· < ·) ∧ ∀ r ∈ s.removals, r < n ∧ r < s.conns.length := by
  have hsub := removals_sublist_effects hsteps
  -- What was recorded before the step is in front of the position that the loop had then.
  have hold : ∀ m, s₀.phase.bound = some m → m ≤ n → (i ≠ .endPoll ∧ ∀ p, i ≠ .runloop p) →
      s.removals.Pairwise (· < ·) ∧ ∀ r ∈ s.removals, r < n ∧ r < s.conns.length := by
    intro m hm hle hinput
    obtain ⟨hincreasing, hbound⟩ := h.progress m hm
    refine ⟨hincreasing.sublist hsub, fun r hr => ?_⟩
    obtain ⟨hlt, hlisted⟩ := hbound r (hsub.subset hr)
    exact ⟨Nat.lt_of_lt_of_le hlt hle,
      Nat.lt_of_lt_of_le hlisted (conns_length_le_effects hsteps hinput)⟩
  have hvisit : ∀ {index c soError}, i.Visits s₀ c index soError →
      i ≠ .endPoll ∧ ∀ p, i ≠ .runloop p := by
    intro index c soError hvisits
    rw [hvisits.input]
    exact ⟨fun h => Input.noConfusion h, fun p h => Input.noConfusion h⟩
  cases hnext with
  | idle => exact nomatch hn
  | poll =>
    rw [hpass rfl]
    exact ⟨List.Pairwise.nil, fun r hr => absurd hr List.not_mem_nil⟩
  | @read index c soError hvisits =>
    obtain rfl := Option.some.inj hn
    exact hold index (by rw [hvisits.phase]; rfl) (Nat.le_refl _) (hvisit hvisits)
  | @skip index c soError hvisits =>
    obtain rfl := Option.some.inj hn
    exact hold index (by rw [hvisits.phase]; rfl) (Nat.le_succ _) (hvisit hvisits)
  | @next index r' hinput hphase =>
    obtain rfl := Option.some.inj hn
    refine hold index (by rw [hphase]; rfl) (Nat.le_succ _) ?_
    rw [hinput]
    exact ⟨fun h => Input.noConfusion h, fun p h => Input.noConfusion h⟩
  | back => exact nomatch hn
  | done => exact nomatch hn

/-- Every effect keeps the tables in step. -/
theorem tabled_effect (hs₀ : Tabled s₀) (hsteps : Relation.ReflTransGen (Effect s₀ i) s₀ s)
    (h : Tabled s) (ha : Allocated s) (heffect : Effect s₀ i s s') : Tabled s' := by
  cases heffect with
  | early hearly => exact tabled_early h hearly
  | oneWay => exact tabled_update h rfl rfl rfl rfl rfl ⟨rfl, rfl, id⟩
  | datagram => exact tabled_update h rfl rfl rfl rfl rfl ⟨rfl, rfl, id⟩
  | opened k _ _ _ _ _ hindex => exact tabled_opened h ha hindex
  | listening => exact tabled_same h rfl rfl rfl rfl rfl
  | context => exact tabled_update h rfl rfl rfl rfl rfl ⟨rfl, rfl, id⟩
  | address => exact tabled_update h rfl rfl rfl rfl rfl ⟨rfl, rfl, id⟩
  | get => exact tabled_same h rfl rfl rfl rfl rfl
  | failedGet => exact tabled_same h rfl rfl rfl rfl rfl
  | expire => exact tabled_update h rfl rfl rfl rfl rfl ⟨rfl, rfl, id⟩
  | swap => exact tabled_of_eq h rfl rfl (fun _ _ => .refl _) (fun _ hn => nomatch hn)
  | phase ph _ hnext hpass =>
    refine tabled_of_eq h rfl rfl (fun _ _ => .refl _) (fun n hn => ?_)
    exact progress_advances hs₀ hsteps hnext hpass n hn
  | removal => exact tabled_removal h
  | @call call rest junk =>
    rw [makeCall_eq]
    obtain ⟨-, hsocket, hflag, hindex⟩ := loaded_fields s call junk
    refine tabled_of_eq h rfl rfl (fun c _ => sameEntry_update ?_ c) (fun _ hn => nomatch hn)
    exact ⟨hindex, hsocket, fun h => hflag ▸ h⟩
  | finish =>
    rw [finishCall_eq]
    exact tabled_of_eq h rfl rfl (fun _ _ => .refl _) (fun _ hn => nomatch hn)

/-! ## Conns that are dropped -/

end State

namespace Input

variable {s : State} {i : Input} {c : ConnId}

/-- A conn that is read was not marked. -/
theorem Reads.unmarked {r : ReadIn} (h : i.Reads s c r) (hs : Tabled s) :
    (s.conn c).index ∉ s.removals := by
  obtain ⟨index, hphase, hlisted⟩ := h.listed
  intro hmem
  have hlt := ((hs.progress index (by rw [hphase]; rfl)).2 _ hmem).1
  rw [hs.index hlisted] at hlt
  exact Nat.lt_irrefl _ hlt

/-- A conn that is visited was not marked. -/
theorem Visits.unmarked {index : Nat} {soError : Option Errno} (h : i.Visits s c index soError)
    (hs : Tabled s) : (s.conn c).index ∉ s.removals := by
  intro hmem
  have hlt := ((hs.progress index (by rw [h.phase]; rfl)).2 _ hmem).1
  rw [hs.index h.listed] at hlt
  exact Nat.lt_irrefl _ hlt

/-- After a read that is the last one of its conn, the loop moves on. -/
theorem Reads.next {r : ReadIn} {ph : Phase} (h : i.Reads s c r) (hnext : i.Advances s ph) :
    ∃ index, ph = .polling (index + 1) ∧ s.phase = .reading index ∧ s.conns[index]? = some c := by
  obtain ⟨index, hphase, hlisted⟩ := h.listed
  have hinput := h.input
  cases hnext with
  | idle hother =>
    rcases hother with hother | ⟨p, hother⟩
    · exact nomatch hinput.symm.trans hother
    · exact nomatch hinput.symm.trans hother
  | poll hother => exact nomatch hinput.symm.trans hother
  | read hvisits => exact nomatch hinput.symm.trans hvisits.input
  | skip hvisits => exact nomatch hinput.symm.trans hvisits.input
  | next _ hphase' =>
    obtain rfl := Phase.reading.inj (hphase.symm.trans hphase')
    exact ⟨index, rfl, hphase, hlisted⟩
  | back hcalls => exact nomatch hinput.symm.trans hcalls.input
  | done hother => exact nomatch hinput.symm.trans hother

/-- A call by the application returns to it. -/
theorem Calls.next {call : State.AppCall} {ph : Phase} (h : i.Calls s call)
    (hnext : i.Advances s ph) : ph = .app := by
  have hinput := h.input
  cases hnext with
  | idle hother =>
    rcases hother with hother | ⟨p, hother⟩
    · exact nomatch hinput.symm.trans hother
    · exact nomatch hinput.symm.trans hother
  | poll hother => exact nomatch hinput.symm.trans hother
  | read hvisits => exact nomatch hinput.symm.trans hvisits.input
  | skip hvisits => exact nomatch hinput.symm.trans hvisits.input
  | next hother => exact nomatch hinput.symm.trans hother
  | back => rfl
  | done => rfl

end Input

namespace State

variable {s₀ s s' : State} {i : Input}

/-- An update that keeps the index of the conn it is at keeps those of all. -/
theorem update_index {c : ConnId} {k : Conn} (hk : k.index = (s.conn c).index) (c' : ConnId) :
    (Function.update s.conn c k c').index = (s.conn c').index := by
  by_cases hc : c' = c
  · subst hc
    rw [Function.update_self, hk]
  · rw [Function.update_of_ne hc]

/-- What happens before a conn is dropped leaves its index. -/
theorem early_index (h : Relation.ReflTransGen (Early s₀ i) s₀ s) (c : ConnId) :
    (s.conn c).index = (s₀.conn c).index := by
  induction h with
  | refl => rfl
  | tail _ heffect ih =>
    rw [← ih]
    cases heffect with
    | header => exact update_index (by rfl) c
    | unflag => exact update_index (by rfl) c
    | _ => rfl

/-- What happens before a conn is dropped leaves `conns`. -/
theorem early_conns (h : Relation.ReflTransGen (Early s₀ i) s₀ s) : s.conns = s₀.conns := by
  induction h with
  | refl => rfl
  | tail _ heffect ih => cases heffect <;> exact ih

/-- The position of the conn that the loop is at is recorded. -/
private theorem progress_record {s₁ : State} {n : Nat} (hincreasing : s.removals.Pairwise (· < ·))
    (hbound : ∀ r ∈ s.removals, r < n ∧ r < s.conns.length) (hn : n < s.conns.length)
    (hremovals : s₁.removals = s.removals ∨ s₁.removals = s.removals ++ [n]) :
    s₁.removals.Pairwise (· < ·) ∧ ∀ r ∈ s₁.removals, r < n + 1 ∧ r < s.conns.length := by
  rcases hremovals with heq | heq
  · rw [heq]
    exact ⟨hincreasing, fun r hr => ⟨Nat.lt_succ_of_lt (hbound r hr).1, (hbound r hr).2⟩⟩
  · rw [heq]
    refine ⟨List.pairwise_append.mpr ⟨hincreasing, List.pairwise_singleton _ _, ?_⟩, ?_⟩
    · intro r hr r' hr'
      rw [List.mem_singleton.mp hr']
      exact (hbound r hr).1
    · intro r hr
      rcases List.mem_append.mp hr with hold | hnew
      · exact ⟨Nat.lt_succ_of_lt (hbound r hold).1, (hbound r hold).2⟩
      · rw [List.mem_singleton.mp hnew]
        exact ⟨Nat.lt_succ_self n, hn⟩

/-- The last effect of a step keeps the tables in step. -/
theorem tabled_final (hs₀ : Tabled s₀) (h : Tabled s) (ha : Allocated s)
    (hfinal : Final s₀ i s s') (hsteps : Relation.ReflTransGen (Effect s₀ i) s₀ s) :
    Tabled s' := by
  cases hfinal with
  | handled => exact tabled_update h rfl rfl rfl rfl rfl ⟨rfl, rfl, id⟩
  | matched => exact tabled_update h rfl rfl rfl rfl rfl ⟨rfl, rfl, id⟩
  | @unmatched c r m ph hreads _ _ _ _ hnext =>
    refine tabled_of_eq h rfl rfl (fun _ _ => .refl _) (fun n hn => ?_)
    obtain ⟨index, rfl, -⟩ := hreads.next hnext
    exact progress_advances hs₀ hsteps hnext (fun hph => nomatch hph) n hn
  | @drop c event ph hearly hdrops _ _ hnext =>
    refine tabled_of_eq h (by simp) (by simp) (fun c' _ => by simp [SameEntry.refl]) ?_
    intro n hn
    replace hn : ph.bound = some n := hn
    cases hdrops with
    | read hreads =>
      obtain ⟨index, rfl, hphase, hlisted⟩ := hreads.next hnext
      obtain rfl := Option.some.inj hn
      have hlisted' : index < s.conns.length := by
        rw [early_conns hearly]
        exact (List.getElem?_eq_some_iff.mp hlisted).1
      have hsub := removals_sublist_effects hsteps
      obtain ⟨hincreasing, hbound⟩ := hs₀.progress index (by rw [hphase]; rfl)
      refine progress_record (hincreasing.sublist hsub) (fun r hr => ?_) hlisted' ?_
      · rw [early_conns hearly]
        exact hbound r (hsub.subset hr)
      · -- The conn that is dropped is the one that the loop has just read.
        show (s.localDisconnect c event).removals = _ ∨ (s.localDisconnect c event).removals = _
        rw [localDisconnect_removals, early_index hearly, hs₀.index hlisted]
        split
        · exact .inl rfl
        · exact .inr rfl
    | disconnect hcalls => exact nomatch (hcalls.next hnext ▸ hn)
    | unlisten hcalls => exact nomatch (hcalls.next hnext ▸ hn)
  | @refuse c index soError msg hvisits hstart =>
    refine tabled_of_eq h rfl rfl (fun _ _ => .refl _) (fun n hn => ?_)
    obtain rfl := Option.some.inj hn
    subst hstart
    -- The conn refused is the one visited, so its index is behind those marked.
    obtain ⟨hincreasing, hbound⟩ := h.progress index (by rw [hvisits.phase]; rfl)
    refine progress_record hincreasing hbound (List.getElem?_eq_some_iff.mp hvisits.listed).1 ?_
    exact .inr (congrArg (fun r => s.removals ++ [r]) (h.index hvisits.listed))
  | fail => exact tabled_of_eq h rfl rfl (fun c hc => sameEntry_alloc ha _ hc) h.progress

end State

/-- The tables match in every reachable state. -/
theorem reach_tabled {ok : State → Input → Prop} {s : State} (h : machine.Reach ok s) :
    Tabled s := by
  have hall : Allocated s ∧ Tabled s := by
    refine reach_invariant (fun s => Allocated s ∧ Tabled s) ?_ ?_ ?_ h
    · have hstart : machine.Reach (fun _ _ => True) machine.init := .init
      refine ⟨reach_allocated hstart, ⟨?_, rfl, ?_⟩, ?_, ?_⟩
      · exact fun hc => nomatch hc
      · exact fun hc => nomatch hc
      · exact fun hc => nomatch hc
      · exact fun _ hn => nomatch hn
    · rintro s₀ s s' i - ⟨hs₀, ht₀⟩ hsteps ⟨ha, ht⟩ heffect
      exact ⟨State.allocated_effect hs₀ (State.effects_nextConn_le hsteps) ha heffect,
        State.tabled_effect ht₀ hsteps ht ha heffect⟩
    · rintro s₀ s s' i - ⟨hs₀, ht₀⟩ hsteps ⟨ha, ht⟩ hfinal
      exact ⟨State.allocated_final hs₀ (State.effects_nextConn_le hsteps) ha hfinal,
        State.tabled_final ht₀ ht ha hfinal hsteps⟩
  exact hall.2

/-- While the loop over `conns` runs, `conns` has as many conns as there are removals, so the pass
    behind it has a last item to move in every round. -/
theorem removals_length_le {ok : State → Input → Prop} {s : State} (h : machine.Reach ok s)
    {n : Nat} (hn : s.phase.bound = some n) : s.removals.length ≤ s.conns.length := by
  obtain ⟨hincreasing, hbound⟩ := (reach_tabled h).progress n hn
  have hnodup : s.removals.Nodup := hincreasing.imp Nat.ne_of_lt
  have hsub : s.removals ⊆ List.range s.conns.length :=
    fun r hr => List.mem_range.mpr (hbound r hr).2
  have hle := (hnodup.subperm hsub).length_le
  rwa [List.length_range] at hle

end Msgbox
