import Mathlib.Algebra.GroupWithZero.Nat
import Msgbox.Spec.Connecting
import Msgbox.Spec.Unread

/-!
# The pass over the polled conns

After a `poll` that reported something, `msg_runloop` goes through `conns` while its own calls
append to it and record removals. It comes to each conn once, in the order of the array, with what
`poll` reported for this conn. A conn that was accepted on the way is visited too, with nothing
reported. The inner loop of each visit ends when nothing is left to read, so the pass is over
after a number of steps that depends on what there was to read.

## Key results

- `poll_pass`: which conns are visited, with what, and in how many steps
-/

namespace Msgbox

open State

/-! ## Notes -/

/-- How much arrives. -/
def State.EnvEvent.amount : EnvEvent → Nat
  | .arrive _ bytes => bytes.length
  | .hangUp _ => 0
  | .datagram _ _ => 1

/-- The steps of the pass, and what happens in the network meanwhile. -/
def Input.inPass : Input → Bool
  | .visit _ => true
  | .read _ => true
  | .env _ => true
  | _ => false

/-- What happened in the pass so far: the visits, each with what was reported, the number of
    steps, and how much arrived. -/
structure PassNote where
  visited : List (ConnId × Revents) := []
  steps : Nat := 0
  arrived : Nat := 0

/-- The conn that a visit comes to, and what `poll` reported for it. -/
def visits (s : State) : List (ConnId × Revents) :=
  match s.phase with
  | .polling i => (s.conns[i]?.map fun c => (c, s.reventsAt i)).toList
  | _ => []

def notePass (n : PassNote) (s : State) : Input → PassNote
  | .visit _ => { n with visited := n.visited ++ visits s, steps := n.steps + 1 }
  | .read _ => { n with steps := n.steps + 1 }
  | .env e => { n with arrived := n.arrived + e.amount }
  | _ => n

/-- The conns in order, each with what `poll` reported for it. -/
def reported (s : State) : List (ConnId × Revents) := s.conns.zip (s.pollFds.map PollFd.revents)

/-- A conn for which `poll` reported nothing. -/
def unreported (c : ConnId) : ConnId × Revents := (c, {})

/-- How much is unread at the descriptors of the conns. -/
def unread (s : State) : Nat := (s.pollFds.map fun p => s.unreadAt p.fd).sum

/-! ## Sums -/

/-- A sum of terms that grow by at most `a` grows by at most `a` for each. -/
private theorem sum_map_le_add {α : Type} {l : List α} {f g : α → Nat} {a : Nat}
    (h : ∀ x ∈ l, f x ≤ g x + a) :
    (l.map f).sum ≤ (l.map g).sum + l.length * a := by
  induction l with
  | nil => simp
  | cons x l ih =>
    have hx := h x List.mem_cons_self
    have hrest := ih fun y hy => h y (List.mem_cons_of_mem x hy)
    simp only [List.map_cons, List.sum_cons, List.length_cons, Nat.succ_mul]
    omega

/-- A sum is monotone in its terms. -/
private theorem sum_map_le {α : Type} {l : List α} {f g : α → Nat} (h : ∀ x ∈ l, f x ≤ g x) :
    (l.map f).sum ≤ (l.map g).sum := sum_map_le_add (a := 0) h

namespace State

variable {s s' : State} {c : ConnId}

/-! ## The tables in one step -/

/-- The descriptors that are polled, and what was reported for them. -/
def entries (s : State) : List (Sock × Revents) := s.pollFds.map fun p => (p.fd, p.revents)

/-- The tables are as before, or there is a new entry, for which nothing was reported. -/
def Grows (s s' : State) : Prop :=
  (s'.conns = s.conns ∧ s'.entries = s.entries) ∨
    ∃ sock, s'.conns = s.conns ++ [s.nextConn] ∧ s'.entries = s.entries ++ [(sock, ({} : Revents))]

/-- The same tables have the same conns and entries. -/
theorem SameTables.entries (h : SameTables s s') : s'.conns = s.conns ∧ s'.entries = s.entries :=
  ⟨h.1, congrArg (List.map _) h.2⟩

/-- Accepting adds behind the conns and the polled descriptors. -/
private theorem grows_accept (s : State) (c : ConnId) (r : ReadIn) :
    Grows s (s.acceptConn c r) := by
  unfold acceptConn
  split
  · exact .inl ⟨rfl, rfl⟩
  · exact .inl ⟨rfl, rfl⟩
  · rename_i newSock ip port _
    dsimp only
    split
    · exact .inl ⟨rfl, rfl⟩
    · split
      · exact .inl ⟨rfl, rfl⟩
      · refine .inr ⟨newSock, (sameTables_seen _ s.nextConn).1, ?_⟩
        exact (sameTables_seen _ s.nextConn).entries.2.trans List.map_append

/-- A call or write for one conn leaves the tables. -/
private theorem sameTables_touch (h : Touch c s s') : SameTables s s' := by
  cases h with
  | drop event => exact sameTables_drop s c event
  | seen => exact sameTables_seen s c
  | _ => exact ⟨rfl, rfl⟩

/-- A call of `read_from_socket` that is to be repeated leaves the tables as they are, and the run
    loop where it stands. -/
private theorem grows_read (s : State) (c : ConnId) (r : ReadIn) :
    Grows s (s.readFromSocket c r).1 ∧ ((s.readFromSocket c r).2 = true →
      SameTables s (s.readFromSocket c r).1 ∧ (s.readFromSocket c r).1.phase = s.phase) := by
  by_cases h : (s.conn c).protocolType = .tcp ∧ (s.conn c).forListening = true
  · have haccept : s.readFromSocket c r = (s.acceptConn c r, false) := by
      rw [readFromSocket, if_pos h.1, if_pos h.2]
    rw [haccept]
    exact ⟨grows_accept s c r, fun hagain => Bool.noConfusion hagain⟩
  · have htouches := touches_readFromSocket (r := r) h
    have hsame : SameTables s (s.readFromSocket c r).1 :=
      htouches.keeps (fun _ => ⟨rfl, rfl⟩) SameTables.trans sameTables_touch
    exact ⟨.inl hsame.entries, fun _ => ⟨hsame, htouches.phase⟩⟩

/-- What a conn is polled for is not part of its entry. -/
private theorem entries_setConnToPollMode (s : State) (index : Nat) (mode : PollMode) :
    (s.setConnToPollMode index mode).entries = s.entries := by
  unfold entries
  rw [setConnToPollMode_pollFds]
  apply List.ext_getElem?
  intro j
  rw [List.getElem?_map, List.getElem?_map, List.getElem?_modify]
  split
  · cases s.pollFds[j]? <;> rfl
  · simp

/-- A visit leaves the tables as they are, and goes on to the next conn, or to reading this one if
    there is something to read. -/
private theorem visitConn_spec (s : State) (index : Nat) (c : ConnId) (soError : Option Errno) :
    (s.visitConn index c soError).conns = s.conns ∧
    (s.visitConn index c soError).entries = s.entries ∧
    ((s.visitConn index c soError).phase = .polling (index + 1) ∨
      (s.visitConn index c soError).phase = .reading index ∧
      (s.reventsAt index).pollin = true) := by
  by_cases h : (s.reventsAt index).pollerr = true ∧
      (soError = some .connRefused ∨ soError = some .timedOut)
  · rw [visitConn_refused h]
    exact ⟨rfl, rfl, .inl rfl⟩
  · rw [visitConn_other h]
    have hseen := (sameTables_seen s c).entries
    refine ⟨?_, ?_, ?_⟩
    · split
      · exact hseen.1
      · rfl
    · split
      · exact (entries_setConnToPollMode _ index .read).trans hseen.2
      · rfl
    · dsimp only
      split
      · exact .inr ⟨rfl, by assumption⟩
      · exact .inl rfl

/-- What arrives is all that is added. -/
private theorem unreadAt_environment {e : EnvEvent} (h : s.environment e = some s') (sock : Sock) :
    s'.unreadAt sock ≤ s.unreadAt sock + e.amount := by
  -- Writing one descriptor leaves what is unread on the others.
  have hset : ∀ {sock' : Sock} {k k' : Socket}, s.sockets sock' = some k →
      (streamOf (some k')).length + (queueOf (some k')).length ≤
        (streamOf (some k)).length + (queueOf (some k)).length + e.amount →
      (s.setSocket sock' k').unreadAt sock ≤ s.unreadAt sock + e.amount := by
    intro sock' k k' hk hle
    unfold unreadAt
    rw [setSocket_sockets]
    by_cases hs : sock = sock'
    · subst hs
      rw [Function.update_self, hk]
      exact hle
    · rw [Function.update_of_ne hs]
      exact Nat.le_add_right _ _
  cases e with
  | arrive sock' bytes =>
    simp only [environment] at h
    split at h
    · rename_i u hk
      rw [← Option.some.inj h]
      apply hset hk
      simp [streamOf, queueOf, EnvEvent.amount]
    · exact absurd h.symm (Option.some_ne_none s')
  | hangUp sock' =>
    simp only [environment] at h
    split at h
    · rename_i u ended hk
      rw [← Option.some.inj h]
      apply hset hk
      simp [streamOf, queueOf]
    · exact absurd h.symm (Option.some_ne_none s')
  | datagram sock' d =>
    simp only [environment] at h
    split at h
    · rename_i queue hk
      rw [← Option.some.inj h]
      apply hset hk
      simp [streamOf, queueOf, EnvEvent.amount]
    · exact absurd h.symm (Option.some_ne_none s')

end State

/-! ## Where the pass stands -/

/-- A bound for the number of steps to come. Of the conns whose descriptors are `fds`, each is
    visited, may be read once in vain, and may accept a conn that is visited, too. -/
def toCome (fds : List Sock) (s : State) : Nat :=
  match s.phase with
  | .polling i =>
    3 * (fds.length - i) + (s.conns.length - max i fds.length) + ((fds.drop i).map s.unreadAt).sum
  | .reading i =>
    2 + 3 * (fds.length - (i + 1)) + (s.conns.length - fds.length) +
      ((fds.drop i).map s.unreadAt).sum
  | _ => 0

/-- What holds in the pass that begins in the state `s₁`. -/
structure Passing (s₁ : State) (n : PassNote) (s : State) : Prop where
  conns : s₁.conns <+: s.conns
  entries : ∃ new, s.entries = s₁.entries ++ new ∧ ∀ x ∈ new, x.2 = {}
  phase : s.phase = .polling n.visited.length ∨
    ∃ i, s.phase = .reading i ∧ n.visited.length = i + 1 ∧ i < s₁.entries.length
  visited : n.visited <+: reported s
  bound : n.steps + toCome (s₁.entries.map Prod.fst) s ≤
    3 * s₁.entries.length + unread s₁ + s₁.entries.length * n.arrived

section Pass

variable {s₁ s s' : State} {n : PassNote} {c : ConnId}

/-- There is an entry for each polled descriptor. -/
private theorem entries_length (s : State) :
    s.entries.length = s.pollFds.length := List.length_map _

/-- What is reported pairs the conns with their entries. -/
private theorem reported_eq (s : State) : reported s = s.conns.zip (s.entries.map Prod.snd) := by
  rw [reported, State.entries, List.map_map]
  rfl

/-- The tables only grow. -/
private theorem reported_grows (hs : Indexed s) (h : Grows s s') : reported s <+: reported s' := by
  have hlen : s.conns.length = (s.entries.map Prod.snd).length := by
    rw [List.length_map, entries_length, hs.length]
  rw [reported_eq, reported_eq]
  rcases h with ⟨hconns, hentries⟩ | ⟨sock, hconns, hentries⟩
  · rw [hconns, hentries]
  · rw [hconns, hentries, List.map_append, List.zip_append hlen]
    exact List.prefix_append _ _

/-- The entry of a listed conn. -/
private theorem reported_at (hs : Indexed s) {i : Nat} (hlisted : s.conns[i]? = some c) :
    (reported s)[i]? = some (c, s.reventsAt i) := by
  have hlt : i < s.pollFds.length := by
    rw [hs.length]
    exact (List.getElem?_eq_some_iff.mp hlisted).1
  rw [reported, List.getElem?_zip_eq_some]
  refine ⟨hlisted, ?_⟩
  rw [State.reventsAt, List.getElem?_map, List.getElem?_eq_getElem hlt]
  rfl

/-- The pass begins. -/
private theorem passing_start (hphase : s₁.phase = .polling 0) (hs₁ : Indexed s₁) :
    Passing s₁ {} s₁ where
  conns := List.prefix_refl _
  entries := ⟨[], (List.append_nil _).symm, fun x hx => absurd hx List.not_mem_nil⟩
  phase := .inl hphase
  visited := List.nil_prefix
  bound := by
    have hlen : s₁.entries.length = s₁.conns.length := (entries_length s₁).trans hs₁.length
    have hsum : ((s₁.entries.map Prod.fst).map s₁.unreadAt).sum = unread s₁ := by
      rw [State.entries, unread, List.map_map, List.map_map]
      rfl
    simp only [toCome, hphase, List.length_map, List.drop_zero, hsum]
    omega

/-- What is unread at the conns that are left counts less when one of them is passed. -/
private theorem sum_drop_succ (fds : List Sock) {i : Nat} (f : Sock → Nat) (hlt : i < fds.length) :
    ((fds.drop i).map f).sum = f fds[i] + ((fds.drop (i + 1)).map f).sum := by
  rw [List.drop_eq_getElem_cons hlt, List.map_cons, List.sum_cons]

/-- A visit keeps the invariant of the pass, with one more conn visited. -/
private theorem passing_visit (h : Passing s₁ n s) (hs : Indexed s) {soError : Option Errno}
    {index : Nat} (hphase : s.phase = .polling index) (hlisted : s.conns[index]? = some c) :
    Passing s₁ (notePass n s (.visit soError)) (s.visitConn index c soError) := by
  obtain ⟨hconns, hentries, hnext⟩ := visitConn_spec s index c soError
  have hsockets := visitConn_sockets s index c soError
  have hcount : n.visited.length = index := by
    rcases h.phase with hp | ⟨i, hp, -⟩
    · exact (Phase.polling.inj (hphase.symm.trans hp)).symm
    · exact Phase.noConfusion (hphase.symm.trans hp)
  have hvisits : visits s = [(c, s.reventsAt index)] := by
    simp only [visits, hphase, hlisted, Option.map_some, Option.toList_some]
  have hlt : index < s.conns.length := (List.getElem?_eq_some_iff.mp hlisted).1
  -- Nothing was reported for the conns that are new.
  have hold : (s.reventsAt index).pollin = true → index < s₁.entries.length := by
    intro hpollin
    obtain ⟨new, hnew, hquiet⟩ := h.entries
    by_contra hge
    have hentry : s.entries[index]? = new[index - s₁.entries.length]? := by
      rw [hnew, List.getElem?_append_right (Nat.not_lt.mp hge)]
    have hfd : index < s.pollFds.length := hs.length ▸ hlt
    rw [State.entries, List.getElem?_map, List.getElem?_eq_getElem hfd, Option.map_some] at hentry
    have hquiet := hquiet _ (List.mem_of_getElem? hentry.symm)
    rw [State.reventsAt, List.getElem?_eq_getElem hfd] at hpollin
    exact Bool.noConfusion (hpollin.symm.trans (congrArg Revents.pollin hquiet))
  refine ⟨hconns ▸ h.conns, hentries ▸ h.entries, ?_, ?_, ?_⟩
  · show _ = Phase.polling (n.visited ++ visits s).length ∨ _
    rw [hvisits, List.length_append, List.length_singleton, hcount]
    rcases hnext with hnext | ⟨hnext, hpollin⟩
    · exact .inl hnext
    · exact .inr ⟨index, hnext, by
        show (n.visited ++ visits s).length = index + 1
        rw [hvisits, List.length_append, List.length_singleton, hcount], hold hpollin⟩
  · show n.visited ++ visits s <+: _
    have hsame : reported (s.visitConn index c soError) = reported s := by
      rw [reported_eq, reported_eq, hconns, hentries]
    rw [hsame, hvisits, List.prefix_iff_eq_take, List.length_append, List.length_singleton, hcount,
      List.take_add_one, reported_at hs hlisted, ← hcount, ← List.prefix_iff_eq_take.mp h.visited]
    rfl
  · show n.steps + 1 + _ ≤ _
    have hbound := h.bound
    have hunread : (s.visitConn index c soError).unreadAt = s.unreadAt := by
      funext sock
      rw [unreadAt, unreadAt, hsockets]
    -- It is passed, an old conn or an accepted one, or its reads begin.
    rcases hnext with hnext | ⟨hnext, hpollin⟩
    · simp only [toCome, hphase, hnext, hconns, hunread, List.length_map] at hbound ⊢
      by_cases hlt' : index < s₁.entries.length
      · have hsum := sum_drop_succ (s₁.entries.map Prod.fst) s.unreadAt
          (by rw [List.length_map]; exact hlt')
        show n.steps + 1 + _ ≤ 3 * s₁.entries.length + unread s₁ + s₁.entries.length * n.arrived
        omega
      · have hnil : ∀ k, s₁.entries.length ≤ k → (s₁.entries.map Prod.fst).drop k = [] := by
          intro k hk
          exact List.drop_eq_nil_of_le (by rw [List.length_map]; exact hk)
        rw [hnil _ (by omega)] at hbound ⊢
        show n.steps + 1 + _ ≤ 3 * s₁.entries.length + unread s₁ + s₁.entries.length * n.arrived
        omega
    · have hlt' := hold hpollin
      simp only [toCome, hphase, hnext, hconns, hunread, List.length_map] at hbound ⊢
      show n.steps + 1 + _ ≤ 3 * s₁.entries.length + unread s₁ + s₁.entries.length * n.arrived
      omega

/-- The descriptor of an old conn is the one that is polled for it. -/
theorem Passing.fd (h : Passing s₁ n s) (hs : Indexed s) {i : Nat} (hlisted : s.conns[i]? = some c)
    (hlt : i < (s₁.entries.map Prod.fst).length) :
    (s₁.entries.map Prod.fst)[i] = (s.conn c).socket := by
  obtain ⟨new, hnew, -⟩ := h.entries
  rw [List.length_map] at hlt
  have hfd : i < s.pollFds.length := by
    rw [hs.length]
    exact (List.getElem?_eq_some_iff.mp hlisted).1
  have hentry : s.entries[i]? = s₁.entries[i]? := by
    rw [hnew, List.getElem?_append_left hlt]
  rw [State.entries, List.getElem?_map, List.getElem?_eq_getElem hfd, List.getElem?_eq_getElem hlt,
    Option.map_some, Option.some.injEq] at hentry
  rw [List.getElem_map, ← hentry]
  exact hs.fd hlisted (List.getElem?_eq_getElem hfd)

/-- The tables grow, and the conns that were visited stay where they are. -/
private theorem Passing.grows (h : Passing s₁ n s) (hs : Indexed s) (hgrows : Grows s s') :
    s₁.conns <+: s'.conns ∧ (∃ new, s'.entries = s₁.entries ++ new ∧ ∀ x ∈ new, x.2 = {}) ∧
      n.visited <+: reported s' := by
  refine ⟨?_, ?_, h.visited.trans (reported_grows hs hgrows)⟩
  · rcases hgrows with ⟨hconns, -⟩ | ⟨sock, hconns, -⟩
    · rw [hconns]
      exact h.conns
    · rw [hconns]
      exact h.conns.trans (List.prefix_append _ _)
  · obtain ⟨new, hnew, hquiet⟩ := h.entries
    rcases hgrows with ⟨-, hentries⟩ | ⟨sock, -, hentries⟩
    · exact ⟨new, hentries.trans hnew, hquiet⟩
    · refine ⟨new ++ [(sock, ({} : Revents))], ?_, fun x hx => ?_⟩
      · rw [hentries, hnew, List.append_assoc]
      · rcases List.mem_append.mp hx with hx | hx
        · exact hquiet x hx
        · rw [List.mem_singleton.mp hx]

/-- So does a read within the visit. -/
private theorem passing_read (h : Passing s₁ n s) (hs : Indexed s) {r : ReadIn}
    (hstep : step s (.read r) = some s') : Passing s₁ (notePass n s (.read r)) s' := by
  obtain ⟨index, c, hphase, hlisted, -, -, -, rfl⟩ := step_read hstep
  obtain ⟨hcount, hlt⟩ : n.visited.length = index + 1 ∧ index < s₁.entries.length := by
    rcases h.phase with hp | ⟨i, hp, hcount, hlt⟩
    · exact Phase.noConfusion (hphase.symm.trans hp)
    · obtain rfl := Phase.reading.inj (hphase.symm.trans hp)
      exact ⟨hcount, hlt⟩
  have hlt' : index < (s₁.entries.map Prod.fst).length := by
    rw [List.length_map]
    exact hlt
  have hfd := h.fd hs hlisted hlt'
  have hbound := h.bound
  have hdrains := drains_readFromSocket s c r
  obtain ⟨hgrows, hagain⟩ := grows_read s c r
  have hshrinks := @readFromSocket_shrinks s
  simp only [toCome, hphase, List.length_map, sum_drop_succ _ s.unreadAt hlt', hfd] at hbound
  cases hread : s.readFromSocket c r with
  | mk s₂ again =>
    rw [hread] at hdrains hgrows hagain
    dsimp only at hdrains hgrows hagain
    have hrest : (((s₁.entries.map Prod.fst).drop (index + 1)).map s₂.unreadAt).sum ≤
        (((s₁.entries.map Prod.fst).drop (index + 1)).map s.unreadAt).sum :=
      sum_map_le fun sock _ => unreadAt_le hdrains sock
    -- The inner loop goes on only if bytes or a datagram were taken, and that pays for this call.
    obtain ⟨hconns, hentries, hvisited⟩ := h.grows hs hgrows
    cases again with
    | true =>
      -- Something was taken, and nothing else happens to the loop.
      obtain ⟨⟨hsame, -⟩, hphase₂⟩ := hagain rfl
      have hless := hshrinks hread
      show Passing s₁ _ s₂
      refine ⟨hconns, hentries, ?_, hvisited, ?_⟩
      · exact .inr ⟨index, hphase₂.trans hphase, hcount, hlt⟩
      · simp only [toCome, hphase₂, hphase, hsame, List.length_map,
          sum_drop_succ _ s₂.unreadAt hlt', hfd, notePass]
        omega
    | false =>
      -- The inner loop ends. One conn at most was accepted, which is visited later in the pass.
      show Passing s₁ _ { s₂ with phase := .polling (index + 1) }
      refine ⟨hconns, hentries, ?_, hvisited, ?_⟩
      · left
        show Phase.polling (index + 1) = Phase.polling n.visited.length
        rw [hcount]
      · have hlen : s₂.conns.length ≤ s.conns.length + 1 := by
          rcases hgrows with ⟨heq, -⟩ | ⟨sock, heq, -⟩
          · rw [heq]
            exact Nat.le_succ _
          · rw [heq, List.length_append, List.length_singleton]
        have hphase₂ : ({ s₂ with phase := .polling (index + 1) } : State).unreadAt = s₂.unreadAt :=
          rfl
        simp only [toCome, List.length_map, notePass, hphase₂]
        omega

/-- So does what arrives meanwhile. -/
private theorem passing_environment (h : Passing s₁ n s) {e : EnvEvent}
    (henv : s.environment e = some s') :
    Passing s₁ (notePass n s (.env e)) s' := by
  have hless := fun sock => unreadAt_environment henv sock
  obtain ⟨sockets, rfl⟩ : ∃ sockets, s' = { s with sockets := sockets } := by
    obtain ⟨sock, k, k', -, heq⟩ := environment_eq henv
    exact ⟨_, heq⟩
  refine ⟨h.conns, h.entries, h.phase, h.visited, ?_⟩
  have hbound := h.bound
  have hsum : ∀ i, (((s₁.entries.map Prod.fst).drop i).map
        ({ s with sockets := sockets } : State).unreadAt).sum ≤
      (((s₁.entries.map Prod.fst).drop i).map s.unreadAt).sum + s₁.entries.length * e.amount := by
    intro i
    -- It is not known whose descriptor it is, so what arrives counts for each conn that is left.
    have hle := sum_map_le_add (l := (s₁.entries.map Prod.fst).drop i) fun sock _ => hless sock
    have hlen : ((s₁.entries.map Prod.fst).drop i).length * e.amount ≤
        s₁.entries.length * e.amount := by
      apply Nat.mul_le_mul_right
      rw [List.length_drop, List.length_map]
      exact Nat.sub_le _ _
    exact Nat.le_trans hle (Nat.add_le_add_left hlen _)
  have hmore : toCome (s₁.entries.map Prod.fst) { s with sockets := sockets } ≤
      toCome (s₁.entries.map Prod.fst) s + s₁.entries.length * e.amount := by
    unfold toCome
    dsimp only
    split
    · rename_i i _
      have hi := hsum i
      omega
    · rename_i i _
      have hi := hsum i
      omega
    · exact Nat.zero_le _
  show n.steps + _ ≤ 3 * s₁.entries.length + unread s₁ + s₁.entries.length * (n.arrived + e.amount)
  rw [Nat.mul_add]
  omega

/-- Every step within the pass keeps its invariant. -/
private theorem passing_step (h : Passing s₁ n s) (hs : Indexed s) {i : Input}
    (hok : i.inPass = true) (hstep : step s i = some s') : Passing s₁ (notePass n s i) s' := by
  cases i with
  | visit soError =>
    obtain ⟨index, c, hphase, hlisted, -, rfl⟩ := step_visit hstep
    exact passing_visit h hs hphase hlisted
  | read r => exact passing_read h hs hstep
  | env e => exact passing_environment h hstep
  | _ => exact Bool.noConfusion hok

/-- What `poll` reported for the conns that are there in the end. -/
private theorem Passing.reported (h : Passing s₁ n s) (hs₁ : Indexed s₁) (hs : Indexed s) :
    ∃ accepted, s.conns = s₁.conns ++ accepted ∧
      Msgbox.reported s = Msgbox.reported s₁ ++ accepted.map unreported := by
  obtain ⟨accepted, hconns⟩ := h.conns
  obtain ⟨new, hnew, hquiet⟩ := h.entries
  have hlen₁ : s₁.conns.length = (s₁.entries.map Prod.snd).length := by
    rw [List.length_map, entries_length, hs₁.length]
  have hlen : accepted.length = (new.map Prod.snd).length := by
    have hall : s.conns.length = s.entries.length := by rw [entries_length, hs.length]
    rw [← hconns, hnew, List.length_append, List.length_append, hlen₁, List.length_map] at hall
    rw [List.length_map]
    omega
  have hnone : new.map Prod.snd = List.replicate accepted.length {} := by
    rw [List.eq_replicate_iff]
    refine ⟨hlen.symm, fun x hx => ?_⟩
    obtain ⟨y, hy, rfl⟩ := List.mem_map.mp hx
    exact hquiet y hy
  refine ⟨accepted, hconns.symm, ?_⟩
  rw [reported_eq, reported_eq, ← hconns, hnew, List.map_append, List.zip_append hlen₁, hnone]
  congr 1
  apply List.ext_getElem
  · simp
  · intro j hj hj'
    simp [unreported]

end Pass

/-- In the pass over `conns` that follows a call of `poll`, whatever the calls of `read_from_socket`
    and the network do meanwhile, conns are only appended, and the conns are visited in their order,
    each with what `poll` reported for it, which for the appended ones is nothing; when the pass
    is over each conn was visited once. The number of steps is bounded by the number of conns and
    by what there was to read. -/
theorem poll_pass {s s₁ s₂ : State} {n : PassNote} {revents : List Revents}
    (hs : machine.Reach (fun _ _ => True) s) (hpoll : step s (.runloop (.ready revents)) = some s₁)
    (hphase : s₁.phase = .polling 0)
    (hpath : (machine.noting notePass {}).Path (fun _ i => i.inPass = true) (s₁, {}) (s₂, n)) :
    ∃ accepted, s₂.conns = s₁.conns ++ accepted ∧ s₂.conns.Nodup ∧
      n.visited <+: reported s₁ ++ accepted.map unreported ∧
      ((step s₂ .endPoll).isSome = true →
        n.visited = reported s₁ ++ accepted.map unreported) ∧
      n.steps ≤ 3 * s₁.conns.length + unread s₁ + s₁.conns.length * n.arrived := by
  have hs₁ : machine.Reach (fun _ _ => True) s₁ :=
    hs.step trivial (show machine.step s (.runloop (.ready revents)) = some s₁ from hpoll)
  have hindexed₁ : Indexed s₁ := (reach_tabled hs₁).toIndexed
  -- The invariant of the pass holds when it begins, and every step keeps it.
  obtain ⟨hs₂, hpassing⟩ := Machine.Path.noting_keeps (P := fun _ _ => True)
    (Q := fun _ i => Input.inPass i = true) (fun _ _ _ => trivial) hpath (Passing s₁) hs₁
    (passing_start hphase hindexed₁) fun n s i s' hreach hinv hok hstep =>
      passing_step hinv (reach_tabled hreach).toIndexed hok hstep
  have hindexed₂ : Indexed s₂ := (reach_tabled hs₂).toIndexed
  obtain ⟨accepted, hconns, hreported⟩ := hpassing.reported hindexed₁ hindexed₂
  have hvisited := hpassing.visited
  rw [hreported] at hvisited
  refine ⟨accepted, hconns, hindexed₂.nodup, hvisited, fun hend => ?_, ?_⟩
  · obtain ⟨s', hs'⟩ := Option.isSome_iff_exists.mp hend
    obtain ⟨index, hphase₂, hover, -⟩ := step_endPoll hs'
    -- The loop has gone past the last entry, so all were visited.
    have hcount : n.visited.length = index := by
      rcases hpassing.phase with hp | ⟨i, hp, -⟩
      · exact (Phase.polling.inj (hphase₂.symm.trans hp)).symm
      · exact Phase.noConfusion (hphase₂.symm.trans hp)
    apply hvisited.eq_of_length_le
    rw [← hreported, hcount, reported_eq, List.length_zip]
    exact Nat.le_trans (Nat.min_le_left _ _) hover
  · have hbound := hpassing.bound
    have hlen : s₁.entries.length = s₁.conns.length := by rw [entries_length, hindexed₁.length]
    rw [hlen] at hbound
    exact Nat.le_trans (Nat.le_add_right _ _) hbound

/-- A listening conn is read, and the conn that it accepts is visited after it. -/
theorem poll_pass_accepted : ∃ s₁ s₂ n,
    (machine.noting notePass {}).Path (fun _ i => i.inPass = true) (s₁, {}) (s₂, n) ∧
      n.visited = [(0, { pollin := true }), (1, {})] ∧ n.visited.length ≤ s₂.conns.length ∧
      n.steps = 3 ∧ n.steps ≤ 3 * s₁.conns.length + unread s₁ + s₁.conns.length * n.arrived := by
  have hrun : ((machine.run (fun _ _ => true)
        [.app (.listen ['t', 'c', 'p', ':', '/', '/', '*', ':', '8', '0'] 0
          { socket := .ok 3 })]).bind fun s =>
      (step s (.runloop (.ready [{ pollin := true }]))).bind fun s₁ =>
        ((machine.noting notePass {}).runFrom (fun _ i => i.inPass) (s₁, {})
          [.visit none, .read { accept := .ok (4, 1, 1) }, .visit none]).map fun x =>
            (s₁.phase, x.2.visited, x.2.steps)) =
      some (.polling 0, [(0, { pollin := true }), (1, {})], 3) := by decide +kernel
  obtain ⟨s, hlisten, hrun⟩ := Option.bind_eq_some_iff.mp hrun
  obtain ⟨s₁, hpoll, hrun⟩ := Option.bind_eq_some_iff.mp hrun
  obtain ⟨⟨s₂, n⟩, hrun, hview⟩ := Option.map_eq_some_iff.mp hrun
  simp only [Prod.mk.injEq] at hview
  obtain ⟨hphase, hvisited, hsteps⟩ := hview
  have hpath : (machine.noting notePass {}).Path (fun _ i => i.inPass = true) (s₁, {}) (s₂, n) :=
    Machine.Path.refl.of_run (fun _ _ h => h) hrun
  have hs : machine.Reach (fun _ _ => True) s := Machine.reach_of_run (fun _ _ _ => trivial) hlisten
  obtain ⟨accepted, hconns, -, hprefix, -, hbound⟩ := poll_pass hs hpoll hphase hpath
  refine ⟨s₁, s₂, n, hpath, hvisited, ?_, hsteps, hbound⟩
  rw [hconns, List.length_append]
  apply Nat.le_trans hprefix.length_le
  rw [List.length_append, List.length_map, reported, List.length_zip]
  exact Nat.add_le_add_right (Nat.min_le_left _ _) _

end Msgbox
