import Msgbox.Spec.Dropping
import Msgbox.Spec.Queue

/-!
# Every status has an owner

An entry of `conn_status` belongs to a conn with its address, or to a listening udp conn
that has heard from there. Entries are made when a conn is connected or heard from, and go
when `local_disconnect` runs while the conn has that address.

## Key results

- `State.owns`: to whom an entry belongs
- `keepsOwners`: the steps that take no owner away and leave the entry
- `reach_owned`, `step_owned`: in runs of such steps every entry has an owner, also if one conn
  is not to count
-/

namespace Msgbox

open SwapRemove

/-- A datagram from the address was received through the conn. -/
def heard (t : List Obs) (c : ConnId) (a : Address) : Bool :=
  t.any fun o => match o with
    | .datagram c' a' _ => c' = c && a' = a
    | _ => false

namespace State

/-- An entry for the address would belong to the conn: a listening udp conn that has heard
    from the address, or any other conn with this remote address. -/
def owns (s : State) (c : ConnId) (a : Address) : Bool :=
  if (s.conn c).forListening then (s.conn c).protocolType == .udp && heard s.trace c a
  else (s.conn c).remoteAddress == a

/-- The conn is listed and not marked for removal. -/
def isOpen (s : State) (c : ConnId) : Bool :=
  c ∈ s.conns && (s.conn c).index ∉ s.removals

/-- Every entry that belongs to the conn, up to the one for a given address, belongs to
    another open conn as well, not counting `but`. -/
def leaves (s : State) (but : Option ConnId) (c : ConnId) (except : Option Address) : Bool :=
  s.connStatus.keys.all fun a =>
    except = some a || !s.owns c a ||
      s.conns.any fun c' => c' ≠ c && some c' ≠ but && s.isOpen c' && s.owns c' a

end State

/-- The step takes no entry's owner away: a refused conn leaves no entry that only it owns,
    nor does `msg_unlisten`, but for the address that the conn has at that moment; conns that
    are freed are listed; other udp conns hear only from their remote address, and no call
    changes it, nor a listening conn's protocol; the removal passes are exact. The conn `but`
    does not count as an owner. -/
def keepsOwnersBut (but : Option ConnId) (s : State) (i : Input) : Bool :=
  (i.refuseTarget s).all (fun c => s.leaves but c none) &&
    (i.freeTarget s).all (fun c => c ∈ s.conns) &&
    match i with
    | .app (.unlisten (some c) _) => s.leaves but c (some (s.conn c).remoteAddress)
    | .read r =>
      match s.phase with
      | .reading index =>
        (s.conns[index]?).all fun c =>
          (s.conn c).forListening ||
            match s.recvfrom c r.recvfrom with
            | .ok d => (s.conn c).remoteAddress = ⟨d.ip, d.port, .udp⟩
            | .error _ => true
      | _ => true
    | .deliver junk =>
      match s.phase with
      | .delivering (p :: _) =>
        if (s.conn p.conn).forListening then
          (s.loaded p junk).protocolType = (s.conn p.conn).protocolType
        else (s.loaded p junk).remoteAddress = (s.conn p.conn).remoteAddress
      | _ => true
    | .runloop _ => removableCheck s.conns.length s.removals
    | .endPoll => removableCheck s.conns.length s.removals
    | _ => true

/-- The step takes no entry's owner away. -/
def keepsOwners (s : State) (i : Input) : Bool := keepsOwnersBut none s i

/-- Every entry has an owner other than `but`, and only positions of listed conns are
    recorded. -/
structure Owned (but : Option ConnId) (s : State) : Prop where
  owner : ∀ a sid, s.connStatus.lookup a = some sid →
    ∃ c, some c ≠ but ∧ s.isOpen c = true ∧ s.owns c a = true
  bound : ∀ r ∈ s.removals, r < s.conns.length

namespace State

variable {s₀ s s' : State} {i : Input} {c : ConnId} {but : Option ConnId}

/-- An open conn is one of the conns array that is not marked for removal. -/
theorem isOpen_iff : s.isOpen c = true ↔ c ∈ s.conns ∧ (s.conn c).index ∉ s.removals := by
  simp [isOpen]

/-- What is heard of an address stays heard as the trace grows. -/
private theorem heard_mono {t t' : List Obs} (h : t ⊆ t') {a : Address}
    (hheard : heard t c a = true) :
    heard t' c a = true := by
  obtain ⟨o, ho, hmatch⟩ := List.any_eq_true.mp hheard
  exact List.any_eq_true.mpr ⟨o, h ho, hmatch⟩

/-- A datagram that `c` has taken makes its sender heard. -/
private theorem heard_of_mem {t : List Obs} {a : Address} {bytes : List UInt8}
    (h : Obs.datagram c a bytes ∈ t) : heard t c a = true :=
  List.any_eq_true.mpr ⟨_, h, by simp⟩

/-- Who owns what depends on the flag, the address and what was heard. -/
private theorem owns_mono (hflag : (s'.conn c).forListening = (s.conn c).forListening)
    (haddr : (s'.conn c).remoteAddress = (s.conn c).remoteAddress) (htrace : s.trace ⊆ s'.trace)
    {a : Address} (h : s.owns c a = true) : s'.owns c a = true := by
  unfold owns Conn.protocolType at h ⊢
  rw [hflag, haddr]
  split at h
  · rename_i hlistening
    rw [if_pos hlistening]
    simp only [Bool.and_eq_true] at h ⊢
    exact ⟨h.1, heard_mono htrace h.2⟩
  · rename_i hconn
    rw [if_neg hconn]
    exact h

/-! ## Chains of effects -/

/-- A step that runs no removal pass leaves the entries of older conns in their place. -/
private theorem sameEntry_effects (h : Relation.ReflTransGen (Effect s₀ i) s₀ s)
    (hpass : i ≠ .endPoll ∧ ∀ p, i ≠ .runloop p) (hc : c < s₀.nextConn) :
    SameEntry (s₀.conn c) (s.conn c) := by
  induction h with
  | refl => exact .refl _
  | @tail s₁ s₂ hsteps heffect ih =>
    have hkeep : SameEntry (s₁.conn c) (s₂.conn c) := by
      cases heffect with
      | early hearly =>
        cases hearly with
        | header => exact sameEntry_update (by exact ⟨rfl, rfl, id⟩) c
        | unflag =>
          exact sameEntry_update (by exact ⟨rfl, rfl, fun hflag => Bool.noConfusion hflag⟩) c
        | _ => exact .refl _
      | oneWay => exact sameEntry_update (by exact ⟨rfl, rfl, id⟩) c
      | datagram => exact sameEntry_update (by exact ⟨rfl, rfl, id⟩) c
      | opened k =>
        have hne : c ≠ s₁.nextConn := Nat.ne_of_lt (hc.trans_le (effects_nextConn_le hsteps))
        show SameEntry (s₁.conn c) (Function.update s₁.conn s₁.nextConn k c)
        rw [Function.update_of_ne hne]
        exact .refl _
      | context => exact sameEntry_update (by exact ⟨rfl, rfl, id⟩) c
      | address => exact sameEntry_update (by exact ⟨rfl, rfl, id⟩) c
      | expire => exact sameEntry_update (by exact ⟨rfl, rfl, id⟩) c
      | removal hinput =>
        rcases hinput with hinput | ⟨p, hinput⟩
        · exact absurd hinput hpass.1
        · exact absurd hinput (hpass.2 p)
      | @call call rest junk =>
        rw [makeCall_eq]
        obtain ⟨-, hsocket, hflag, hindex⟩ := loaded_fields s₁ call junk
        exact sameEntry_update ⟨hindex, hsocket, fun h => hflag ▸ h⟩ c
      | finish =>
        rw [finishCall_eq]
        exact .refl _
      | _ => exact .refl _
    -- The flag may fall on the way, but it is never set.
    exact ⟨hkeep.1.trans ih.1, hkeep.2.1.trans ih.2.1, fun h => ih.2.2 (hkeep.2.2 h)⟩

/-! ## One effect -/

/-- The owners stay, and no entry is added. -/
private theorem owned_of (h : Owned but s) (hopen : ∀ c a, s.isOpen c = true → s.owns c a = true →
      s'.isOpen c = true ∧ s'.owns c a = true)
    (hlookup : ∀ a sid, s'.connStatus.lookup a = some sid → s.connStatus.lookup a = some sid)
    (hbound : ∀ r ∈ s'.removals, r < s'.conns.length) : Owned but s' where
  owner a sid ha := by
    obtain ⟨c, hne, hc, hown⟩ := h.owner a sid (hlookup a sid ha)
    exact ⟨c, hne, hopen c a hc hown⟩
  bound := hbound

/-- No conn is listed or marked, and the fields that ownership looks at stay. -/
private theorem owned_of_eq (h : Owned but s) (hconns : s'.conns = s.conns)
    (hremovals : s'.removals = s.removals) (hconn : ∀ c, (s'.conn c).index = (s.conn c).index ∧
      (s'.conn c).forListening = (s.conn c).forListening ∧
      (s'.conn c).remoteAddress = (s.conn c).remoteAddress)
    (htrace : s.trace ⊆ s'.trace) (hstatus : s'.connStatus = s.connStatus) : Owned but s' := by
  refine owned_of h (fun c a hc hown => ⟨?_, ?_⟩) (fun a sid ha => hstatus ▸ ha) ?_
  · rw [isOpen_iff] at hc ⊢
    rw [hconns, hremovals, (hconn c).1]
    exact hc
  · exact owns_mono (hconn c).2.1 (hconn c).2.2 htrace hown
  · rw [hconns, hremovals]
    exact h.bound

/-- A write to one conn. -/
private theorem owned_update (h : Owned but s) {c : ConnId} {k : Conn} (hconns : s'.conns = s.conns)
    (hremovals : s'.removals = s.removals) (hconn : s'.conn = Function.update s.conn c k)
    (hk : k.index = (s.conn c).index ∧ k.forListening = (s.conn c).forListening ∧
      k.remoteAddress = (s.conn c).remoteAddress)
    (htrace : s.trace ⊆ s'.trace) (hstatus : s'.connStatus = s.connStatus) : Owned but s' := by
  refine owned_of_eq h hconns hremovals (fun c' => ?_) htrace hstatus
  rw [hconn]
  by_cases hc : c' = c
  · subst hc
    rw [Function.update_self]
    exact hk
  · rw [Function.update_of_ne hc]
    exact ⟨rfl, rfl, rfl⟩

/-- Nothing changes hands where the conns, the marks and `conn_status` stay. -/
theorem owned_same (h : Owned but s) (hconns : s'.conns = s.conns)
    (hremovals : s'.removals = s.removals) (hconn : s'.conn = s.conn) (htrace : s.trace ⊆ s'.trace)
    (hstatus : s'.connStatus = s.connStatus) : Owned but s' :=
  owned_of_eq h hconns hremovals (fun c => by rw [hconn]; exact ⟨rfl, rfl, rfl⟩) htrace hstatus

/-- A conn that `remote_address_seen` is called for would own the entry, and is open. -/
private theorem sees_owner (hs₀ : Sound s₀) (h₀ : Owned but s₀)
    (hsteps : Relation.ReflTransGen (Effect s₀ i) s₀ s) (hlisted : c ∈ s.conns)
    (hsees : i.Sees s₀ s c) :
    s.isOpen c = true ∧ s.owns c (s.conn c).remoteAddress = true := by
  have hsub := (removals_sublist_effects hsteps).subset
  have hopen : (s.conn c).index ∉ s₀.removals → s.isOpen c = true := fun hnot =>
    isOpen_iff.mpr ⟨hlisted, fun hmem => hnot (hsub hmem)⟩
  have hconn : (s.conn c).forListening = false →
      s.owns c (s.conn c).remoteAddress = true := by
    intro hflag
    simp [owns, hflag]
  -- A conn that the step reads or visits was open before it.
  have hold : (s₀.conn c).index ∉ s₀.removals → c ∈ s₀.conns →
      (i ≠ .endPoll ∧ ∀ p, i ≠ .runloop p) →
        s.isOpen c = true ∧ ((s₀.conn c).forListening = false →
          (s.conn c).forListening = false) := by
    intro hnot hin hpass
    have hentry := sameEntry_effects hsteps hpass (hs₀.allocated.conns c hin)
    refine ⟨hopen (by rw [hentry.1]; exact hnot), fun hflag => ?_⟩
    rw [Bool.eq_false_iff] at hflag ⊢
    exact fun hnew => hflag (hentry.2.2 hnew)
  cases hsees with
  | @visit index soError hvisits hpollout =>
    have hinput := hvisits.input
    subst hinput
    obtain ⟨hisOpen, hflag⟩ := hold (hvisits.unmarked hs₀.tabled)
      (List.mem_of_getElem? hvisits.listed) ⟨fun h => Input.noConfusion h,
        fun _ h => Input.noConfusion h⟩
    refine ⟨hisOpen, hconn (hflag ?_)⟩
    -- Only a conn that connects is polled for writing.
    cases hp : s₀.pollFds[index]? with
    | none => simp [reventsAt, hp] at hpollout
    | some p =>
      refine hs₀.tabled.writers hvisits.listed hp ?_
      simp only [reventsAt, hp, Option.map_some, Option.getD_some] at hpollout
      simp [PollFd.mayWrite, hpollout]
  | tcp hreads _ hnot =>
    have hinput := hreads.input
    subst hinput
    obtain ⟨hisOpen, hflag⟩ := hold (hreads.unmarked hs₀.tabled) hreads.mem_conns
      ⟨fun h => Input.noConfusion h, fun _ h => Input.noConfusion h⟩
    exact ⟨hisOpen, hconn (hflag hnot)⟩
  | udp hreads _ hproto hheard =>
    have hinput := hreads.input
    subst hinput
    obtain ⟨hisOpen, -⟩ := hold (hreads.unmarked hs₀.tabled) hreads.mem_conns
      ⟨fun h => Input.noConfusion h, fun _ h => Input.noConfusion h⟩
    refine ⟨hisOpen, ?_⟩
    obtain ⟨bytes, hmem⟩ := hheard
    unfold owns
    split
    · simp [hproto, heard_of_mem hmem]
    · simp
  | opened _ hnot hindex =>
    refine ⟨hopen (fun hmem => ?_), hconn hnot⟩
    rw [hindex] at hmem
    exact absurd (h₀.bound _ hmem) (Nat.lt_irrefl _)

/-- Giving an open conn a status for the address it owns, and queueing its ready call, keeps the
    owners. -/
private theorem owned_ready (h : Owned but s) (hbut : some c ≠ but) (hopen : s.isOpen c = true)
    (hown : s.owns c (s.conn c).remoteAddress = true) (event : Event) (data : Option MsgData)
    (cause : Cause) : Owned but ((s.addStatus c).sendCallback c event data .nothing cause) where
  owner a sid ha := by
    have htrace : s.trace ⊆ ((s.addStatus c).sendCallback c event data .nothing cause).trace :=
      List.subset_cons_self _ _
    rcases AList.lookup_insert_eq_some.mp ha with ⟨rfl, -⟩ | ⟨-, hold⟩
    · exact ⟨c, hbut, hopen, owns_mono (s := s) (by rfl) (by rfl) htrace hown⟩
    · obtain ⟨c', hne, hc', hown'⟩ := h.owner a sid hold
      exact ⟨c', hne, hc', owns_mono (s := s) (by rfl) (by rfl) htrace hown'⟩
  bound := h.bound

/-- A conn that has just been opened takes nothing from the owners. -/
theorem owned_opened (hs : Sound s) (h : Owned but s) {k : Conn} {contents : Socket} :
    Owned but ((((s.openDescriptor k.socket contents).allocConn k).addToConns
      s.nextConn).addToPollFds
      k.socket) := by
  refine owned_of h (fun c a hc hown => ?_) (fun _ _ ha => ha) (fun r hr => ?_)
  · rw [isOpen_iff] at hc
    have hsame : ((((s.openDescriptor k.socket contents).allocConn k).addToConns
        s.nextConn).addToPollFds k.socket).conn c = s.conn c :=
      Function.update_of_ne (Nat.ne_of_lt (hs.allocated.conns c hc.1)) _ _
    refine ⟨isOpen_iff.mpr ⟨List.mem_append_left _ hc.1, ?_⟩, ?_⟩
    · rw [hsame]
      exact hc.2
    · exact owns_mono (by rw [hsame]) (by rw [hsame]) (List.subset_cons_self _ _) hown
  · have hlt := h.bound r hr
    simp only [addToPollFds_conns, addToConns_conns, allocConn_conns, openDescriptor_conns,
      List.length_append,
      List.length_singleton]
    omega

/-- An exact removal pass takes out the conns that were marked. -/
theorem isOpen_removalPass (ht : Tabled s) (hbound : ∀ r ∈ s.removals, r < s.conns.length)
    (hok : removableCheck s.conns.length s.removals = true) (c : ConnId) :
    s.removalPass.isOpen c = s.isOpen c := by
  have hnodup : s.removals.Nodup := by
    simp only [removableCheck, decide_eq_true_eq] at hok
    exact hok.1
  have hexact := (mem_foldl_swapRemove_iff ht.nodup hnodup hbound).mpr (removable_of_check hok)
  obtain ⟨index, heq⟩ := removalPass_eq s
  have hremovals : s.removalPass.removals = [] := by rw [heq]
  rw [Bool.eq_iff_iff, isOpen_iff, isOpen_iff, removalPass_conns, hexact, hremovals]
  constructor
  · rintro ⟨⟨p, hp, hnot⟩, -⟩
    exact ⟨List.mem_of_getElem? hp, ht.index hp ▸ hnot⟩
  · rintro ⟨hmem, hnot⟩
    obtain ⟨p, hp⟩ := List.mem_iff_getElem?.mp hmem
    exact ⟨⟨p, hp, ht.index hp ▸ hnot⟩, List.not_mem_nil⟩

/-- A removal pass over marks in increasing order takes no owner away. -/
private theorem owned_removal (hs : Sound s) (h : Owned but s)
    (hok : removableCheck s.conns.length s.removals = true) : Owned but s.removalPass := by
  have hopen := isOpen_removalPass hs.tabled h.bound hok
  obtain ⟨index, heq⟩ := removalPass_eq s
  apply owned_of h
  · intro c a hc hown
    refine ⟨(hopen c).trans hc, ?_⟩
    rw [heq]
    exact owns_mono rfl rfl (List.Subset.refl _) hown
  · intro a sid ha
    rw [heq] at ha
    exact ha
  · rw [heq]
    exact fun r hr => absurd hr List.not_mem_nil

/-- The owners of the other entries stay when one conn does not own any more. -/
private theorem owned_leaves (h : Owned but s) {except : Option Address}
    (hleaves : s.leaves but c except = true)
    (hkeep : ∀ c' a, c' ≠ c → s.isOpen c' = true → s.owns c' a = true →
      s'.isOpen c' = true ∧ s'.owns c' a = true)
    (hexcept : ∀ a sid, except = some a → s'.connStatus.lookup a = some sid →
      ∃ c', some c' ≠ but ∧ s'.isOpen c' = true ∧ s'.owns c' a = true)
    (hlookup : ∀ a sid, s'.connStatus.lookup a = some sid → s.connStatus.lookup a = some sid)
    (hbound : ∀ r ∈ s'.removals, r < s'.conns.length) : Owned but s' where
  owner a sid ha := by
    have hold := hlookup a sid ha
    by_cases hex : except = some a
    · exact hexcept a sid hex ha
    · obtain ⟨c', hbut, hopen, hown⟩ := h.owner a sid hold
      by_cases hc : c' = c
      · subst hc
        have hkey : a ∈ s.connStatus.keys := by
          rw [← AList.mem_keys, ← AList.lookup_isSome, hold]
          rfl
        have hall := List.all_eq_true.mp hleaves a hkey
        simp only [Bool.or_eq_true, decide_eq_true_eq, hex, hown, Bool.not_true, Bool.false_eq_true,
          or_false, false_or, List.any_eq_true, Bool.and_eq_true] at hall
        obtain ⟨c₂, -, ⟨⟨hne, hbut₂⟩, hopen₂⟩, hown₂⟩ := hall
        exact ⟨c₂, hbut₂, hkeep c₂ a hne hopen₂ hown₂⟩
      · exact ⟨c', hbut, hkeep c' a hc hopen hown⟩
  bound := hbound

/-! ## The conditions on a step -/

/-- Under the condition a refused conn leaves no entry without an owner. -/
private theorem keepsOwners_refuse (hok : keepsOwnersBut but s₀ i = true)
    (hc : i.refuseTarget s₀ = some c) :
    s₀.leaves but c none = true := by
  simp only [keepsOwnersBut, hc, Option.all_some, Bool.and_eq_true] at hok
  exact hok.1.1

/-- Under the condition a conn that is dropped is one of the conns array. -/
private theorem keepsOwners_free (hok : keepsOwnersBut but s₀ i = true)
    (hc : i.freeTarget s₀ = some c) :
    c ∈ s₀.conns := by
  simp only [keepsOwnersBut, hc, Option.all_some, Bool.and_eq_true, decide_eq_true_eq] at hok
  exact hok.1.2

/-- Under the condition `msg_unlisten` leaves behind no entry but the one it takes away. -/
private theorem keepsOwners_unlisten (hok : keepsOwnersBut but s₀ i = true) {result : Option Errno}
    (hinput : i = .app (.unlisten (some c) result)) :
    s₀.leaves but c (some (s₀.conn c).remoteAddress) = true := by
  subst hinput
  simp only [keepsOwnersBut, Bool.and_eq_true] at hok
  exact hok.2

/-- Under the condition a udp conn that does not listen hears from its own remote only. -/
private theorem keepsOwners_read (hok : keepsOwnersBut but s₀ i = true) {r : ReadIn}
    (hreads : i.Reads s₀ c r) {d : Datagram} (hrecv : s₀.recvfrom c r.recvfrom = .ok d)
    (hflag : (s₀.conn c).forListening = false) :
    (s₀.conn c).remoteAddress = ⟨d.ip, d.port, .udp⟩ := by
  obtain ⟨index, hphase, hlisted⟩ := hreads.listed
  have hinput := hreads.input
  subst hinput
  simpa [keepsOwnersBut, hphase, hlisted, hrecv, hflag] using (Bool.and_eq_true_iff.mp hok).2

/-- A call leaves what its conn owns. -/
private theorem keepsOwners_deliver (hok : keepsOwnersBut but s₀ i = true) {call : PendingCall}
    {rest : List PendingCall} {junk : Junk} (hinput : i = .deliver junk)
    (hphase : s₀.phase = .delivering (call :: rest)) :
    if (s₀.conn call.conn).forListening then
      (s₀.loaded call junk).protocolType = (s₀.conn call.conn).protocolType
    else (s₀.loaded call junk).remoteAddress = (s₀.conn call.conn).remoteAddress := by
  subst hinput
  have h := (Bool.and_eq_true_iff.mp hok).2
  simp only [hphase] at h
  split at h
  · rename_i hflag
    rw [if_pos hflag]
    simpa using h
  · rename_i hflag
    rw [if_neg hflag]
    simpa using h

/-- Under the condition the marks of a removal pass pass the check of an exact removal. -/
private theorem keepsOwners_removal (hok : keepsOwnersBut but s₀ i = true)
    (hinput : i = .endPoll ∨ ∃ p, i = .runloop p) :
    removableCheck s₀.conns.length s₀.removals = true := by
  rcases hinput with rfl | ⟨p, rfl⟩
  · exact (Bool.and_eq_true_iff.mp hok).2
  · exact (Bool.and_eq_true_iff.mp hok).2

/-! ## One effect -/

/-- A write to one conn that keeps its place and, of what it owns, at least the entries that
    are there. -/
private theorem owned_rewrite (h : Owned but s) {c : ConnId} {k : Conn}
    (hconns : s'.conns = s.conns)
    (hremovals : s'.removals = s.removals) (hconn : s'.conn = Function.update s.conn c k)
    (hindex : k.index = (s.conn c).index) (hown : ∀ a, s.owns c a = true → s'.owns c a = true)
    (htrace : s.trace ⊆ s'.trace) (hstatus : s'.connStatus = s.connStatus) : Owned but s' := by
  apply owned_of h
  · intro c' a hopen hold
    by_cases hc : c' = c
    · subst hc
      rw [isOpen_iff] at hopen ⊢
      rw [hconns, hremovals, hconn, Function.update_self, hindex]
      exact ⟨hopen, hown a hold⟩
    · rw [isOpen_iff] at hopen ⊢
      have hsame : s'.conn c' = s.conn c' := by rw [hconn, Function.update_of_ne hc]
      rw [hconns, hremovals, hsame]
      exact ⟨hopen, owns_mono (by rw [hsame]) (by rw [hsame]) htrace hold⟩
  · exact fun a sid ha => hstatus ▸ ha
  · rw [hconns, hremovals]
    exact h.bound

/-- What a listening conn owns does not depend on its remote address. -/
private theorem owns_listening (hlistening : (s.conn c).forListening = true)
    (hflag : (s'.conn c).forListening = true)
    (hproto : (s'.conn c).protocolType = (s.conn c).protocolType)
    (htrace : s.trace ⊆ s'.trace) {a : Address} (h : s.owns c a = true) : s'.owns c a = true := by
  simp only [owns, hlistening, hflag, if_true, hproto, Bool.and_eq_true] at h ⊢
  exact ⟨h.1, heard_mono htrace h.2⟩

/-- A conn that no longer listens for udp owns its current address only, and under the condition
    nothing else is lost. -/
private theorem owned_unflag (hok : keepsOwnersBut but s₀ i = true) (h : Owned but s₀)
    {result : Option Errno} (hcalls : i.Calls s₀ (.unlisten (some c) result)) :
    Owned but (s₀.modifyConn c fun conn => { conn with forListening := false }) := by
  have hleaves := keepsOwners_unlisten hok hcalls.input
  -- Only the flag of the conn that stops listening is written.
  have hother : ∀ c', c' ≠ c →
      ((s₀.modifyConn c fun conn => { conn with forListening := false }).conn c') = s₀.conn c' :=
    fun c' hc => Function.update_of_ne hc _ _
  have hkeep : ∀ c', s₀.isOpen c' = true →
      (s₀.modifyConn c fun conn => { conn with forListening := false }).isOpen c' = true := by
    intro c' hopen
    rw [isOpen_iff] at hopen ⊢
    refine ⟨hopen.1, ?_⟩
    rw [modifyConn_conn, update_index (by rfl)]
    exact hopen.2
  apply owned_leaves h hleaves
  · intro c' a hc hopen hown
    refine ⟨hkeep c' hopen, owns_mono (s := s₀) ?_ ?_ (by exact List.Subset.refl _) hown⟩
    · rw [hother c' hc]
    · rw [hother c' hc]
  · -- The entry of the address that the conn has now is its own, or was another conn's.
    intro a sid hex ha
    obtain ⟨c', hbut, hopen, hown⟩ := h.owner a sid ha
    by_cases hc : c' = c
    · subst hc
      refine ⟨c', hbut, hkeep c' hopen, ?_⟩
      simp [owns, Option.some.inj hex]
    · refine ⟨c', hbut, hkeep c' hopen,
        owns_mono (s := s₀) ?_ ?_ (by exact List.Subset.refl _) hown⟩
      · rw [hother c' hc]
      · rw [hother c' hc]
  · exact fun a sid ha => ha
  · exact h.bound

/-- No early effect takes an entry from its owner. -/
private theorem owned_early (hok : keepsOwnersBut but s₀ i = true)
    (hbut : ∀ c, i.Concerns s₀ c → some c ≠ but) (hs₀ : Sound s₀) (h₀ : Owned but s₀)
    (hsteps : Relation.ReflTransGen (Effect s₀ i) s₀ s) (h : Owned but s)
    (heffect : Early s₀ i s s') :
    Owned but s' := by
  cases heffect with
  | header => exact owned_update h rfl rfl rfl ⟨rfl, rfl, rfl⟩ (List.subset_cons_self _ _) rfl
  | ready hlisted hsees =>
    obtain ⟨hopen, hown⟩ := sees_owner hs₀ h₀ hsteps hlisted hsees
    exact owned_ready h (hbut _ hsees.concerns) hopen hown _ _ _
  | unflag hcalls _ hstart =>
    subst hstart
    exact owned_unflag hok h hcalls
  | note | error => exact owned_same h rfl rfl rfl (List.subset_cons_self _ _) rfl
  | kernel | leak | close | poll | buffer => exact owned_same h rfl rfl rfl (List.Subset.refl _) rfl

/-- No effect takes an entry from its owner, the conn of `but` apart. -/
private theorem owned_effect (hok : keepsOwnersBut but s₀ i = true)
    (hbut : ∀ c, i.Concerns s₀ c → some c ≠ but) (hs₀ : Sound s₀) (h₀ : Owned but s₀)
    (hsteps : Relation.ReflTransGen (Effect s₀ i) s₀ s) (hs : Sound s) (h : Owned but s)
    (heffect : Effect s₀ i s s') : Owned but s' := by
  cases heffect with
  | early hearly => exact owned_early hok hbut hs₀ h₀ hsteps h hearly
  | oneWay => exact owned_update h rfl rfl rfl ⟨rfl, rfl, rfl⟩ (List.subset_cons_self _ _) rfl
  | @datagram c r d hreads hudp hproto hrecv hsame =>
    refine owned_rewrite (c := c) h rfl rfl rfl rfl ?_ ?_ rfl
    · intro a hown
      cases hflag : (s.conn c).forListening with
      | true =>
        apply owns_listening hflag _ _ (List.subset_cons_self _ _) hown
        · simp [hflag]
        · simp [Conn.protocolType] at hproto ⊢
          exact hproto.symm
      | false =>
        -- A conn that does not listen hears only from the address that it has.
        have haddr := keepsOwners_read hok hreads hrecv (hsame.1.symm.trans hflag)
        apply owns_mono _ _ (List.subset_cons_self _ _) hown
        · simp
        · simp [hsame.2, haddr]
    · exact List.subset_cons_self _ _
  | opened => exact owned_opened hs h
  | listening => exact owned_same h rfl rfl rfl (List.subset_cons_self _ _) rfl
  | context => exact owned_update h rfl rfl rfl ⟨rfl, rfl, rfl⟩ (List.Subset.refl _) rfl
  | @address c ip port hcalls hstart =>
    have hadmits := hcalls.admits
    simp only [admits, Bool.and_eq_true] at hadmits
    subst hstart
    refine owned_rewrite (c := c) h rfl rfl rfl rfl ?_ ?_ rfl
    · intro a hown
      refine owns_listening hadmits.1.2 ?_ ?_ (by exact List.Subset.refl _) hown
      · simp [hadmits.1.2]
      · simp [Conn.protocolType]
    · exact List.Subset.refl _
  | get => exact owned_same h rfl rfl rfl (List.subset_cons_self _ _) rfl
  | failedGet => exact owned_same h rfl rfl rfl (List.subset_cons_self _ _) rfl
  | expire => exact owned_update h rfl rfl rfl ⟨rfl, rfl, rfl⟩ (List.subset_cons_self _ _) rfl
  | swap | phase => exact owned_same h rfl rfl rfl (List.Subset.refl _) rfl
  | removal hinput hstart =>
    subst hstart
    exact owned_removal hs h (keepsOwners_removal hok hinput)
  | @call call rest junk hinput hstart hphase =>
    subst hstart
    have hkeep := keepsOwners_deliver hok hinput hphase
    rw [makeCall_eq]
    obtain ⟨-, -, hflag, hindex⟩ := loaded_fields s call junk
    refine owned_rewrite (c := call.conn) h rfl rfl rfl hindex ?_ ?_ rfl
    · intro a hown
      split at hkeep
      · rename_i hlistening
        apply owns_listening hlistening _ _ (List.subset_cons_self _ _) hown
        · simp [hflag, hlistening]
        · simp [hkeep]
      · apply owns_mono _ _ (List.subset_cons_self _ _) hown
        · simp [hflag]
        · simp [hkeep]
    · exact List.subset_cons_self _ _
  | finish =>
    rw [finishCall_eq]
    exact owned_same h rfl rfl rfl (List.Subset.refl _) rfl

/-! ## The last effect of a step -/

/-- Two listed conns with one index are the same conn. -/
private theorem eq_of_index (ht : Tabled s) {c c' : ConnId} (hc : c ∈ s.conns) (hc' : c' ∈ s.conns)
    (hindex : (s.conn c').index = (s.conn c).index) : c' = c := by
  obtain ⟨j, hj⟩ := List.mem_iff_getElem?.mp hc
  obtain ⟨j', hj'⟩ := List.mem_iff_getElem?.mp hc'
  rw [ht.index hj, ht.index hj'] at hindex
  subst hindex
  exact Option.some.inj (hj'.symm.trans hj)

/-- Marking a listed conn leaves the other conns open. -/
theorem isOpen_mark (ht : Tabled s) (hc : c ∈ s.conns) {c' : ConnId} (hne : c' ≠ c)
    (hopen : s.isOpen c' = true) :
    c' ∈ s.conns ∧ (s.conn c').index ∉ s.removals ++ [(s.conn c).index] := by
  rw [isOpen_iff] at hopen
  refine ⟨hopen.1, fun hmem => ?_⟩
  rcases List.mem_append.mp hmem with hold | hnew
  · exact hopen.2 hold
  · exact hne (eq_of_index ht hc hopen.1 (List.mem_singleton.mp hnew))

/-- A further mark is the index of a conn of the array too. -/
private theorem bound_mark (ht : Tabled s) (h : Owned but s) (hc : c ∈ s.conns) :
    ∀ r ∈ s.removals ++ [(s.conn c).index], r < s.conns.length := by
  intro r hr
  rcases List.mem_append.mp hr with hold | hnew
  · exact h.bound r hold
  · obtain ⟨j, hj⟩ := List.mem_iff_getElem?.mp hc
    rw [List.mem_singleton.mp hnew, ht.index hj]
    exact (List.getElem?_eq_some_iff.mp hj).1

/-- `local_disconnect` takes the entry of the conn away together with the conn. -/
private theorem owned_localDisconnect (hok : keepsOwnersBut but s₀ i = true) (hs : Sound s)
    (h : Owned but s) (hearly : Relation.ReflTransGen (Early s₀ i) s₀ s) (hdrops : i.Drops s₀ c)
    (event : Event) : Owned but (s.localDisconnect c event) := by
  have hlookup : ∀ a sid, (s.localDisconnect c event).connStatus.lookup a = some sid →
      a ≠ (s.conn c).remoteAddress ∧ s.connStatus.lookup a = some sid := by
    intro a sid ha
    rw [localDisconnect_connStatus] at ha
    exact AList.lookup_erase_eq_some.mp ha
  have howns : ∀ c' a, s.owns c' a = true → (s.localDisconnect c event).owns c' a = true := by
    intro c' a hown
    refine owns_mono (s := s) ?_ ?_ ?_ hown
    · rw [localDisconnect_conn]
    · rw [localDisconnect_conn]
    · rw [localDisconnect_trace]
      exact List.subset_cons_self _ _
  cases hfree : s.isListeningUdp c with
  | true =>
    -- A listening udp conn stays open; only the entry of its current address goes.
    apply owned_of h
    · intro c' a hopen hown
      refine ⟨?_, howns c' a hown⟩
      rw [isOpen_iff] at hopen ⊢
      simpa [hfree] using hopen
    · exact fun a sid ha => (hlookup a sid ha).2
    · simpa [hfree] using h.bound
  | false =>
    have hlisted : c ∈ s.conns := by
      rw [early_conns hearly]
      exact keepsOwners_free hok (freeTarget_of_drops hdrops hearly hfree)
    refine ⟨fun a sid ha => ?_, ?_⟩
    · obtain ⟨hne, hold⟩ := hlookup a sid ha
      obtain ⟨c', hbut, hopen, hown⟩ := h.owner a sid hold
      by_cases hc : c' = c
      · -- The conn that goes owned no entry but the one that was erased.
        subst hc
        exfalso
        unfold owns at hown
        cases hflag : (s.conn c').forListening with
        | true =>
          have hnot : ((s.conn c').protocolType == .udp) = false := by
            simpa [isListeningUdp, hflag] using hfree
          simp [hflag, hnot] at hown
        | false =>
          simp only [hflag, Bool.false_eq_true, if_false, beq_iff_eq] at hown
          exact hne hown.symm
      · refine ⟨c', hbut, ?_, howns c' a hown⟩
        rw [isOpen_iff]
        simp only [localDisconnect_conns, localDisconnect_conn, localDisconnect_removals, hfree,
          Bool.false_eq_true, if_false]
        exact isOpen_mark hs.tabled hlisted hc hopen
    · simp only [localDisconnect_conns, localDisconnect_removals, hfree, Bool.false_eq_true,
        if_false]
      exact bound_mark hs.tabled h hlisted

/-- A refused conn is marked while its entry stays, which then has another owner. -/
private theorem owned_refuse (hok : keepsOwnersBut but s₀ i = true) (hs₀ : Sound s₀)
    (h : Owned but s₀) (hlisted : c ∈ s₀.conns) (hrefuse : i.refuseTarget s₀ = some c)
    (hconns : s'.conns = s₀.conns) (hremovals : s'.removals = s₀.removals ++ [(s₀.conn c).index])
    (hconn : s'.conn = s₀.conn) (htrace : s₀.trace ⊆ s'.trace)
    (hstatus : s'.connStatus = s₀.connStatus) : Owned but s' := by
  apply owned_leaves h (keepsOwners_refuse hok hrefuse)
  · intro c' a hc hopen hown
    refine ⟨?_, owns_mono (by rw [hconn]) (by rw [hconn]) htrace hown⟩
    rw [isOpen_iff, hconns, hremovals, hconn]
    exact isOpen_mark hs₀.tabled hlisted hc hopen
  · exact fun a sid hex => absurd hex.symm (Option.some_ne_none a)
  · exact fun a sid ha => hstatus ▸ ha
  · rw [hconns, hremovals]
    exact bound_mark hs₀.tabled h hlisted

/-- The last effect of a step keeps the owners. -/
private theorem owned_final (hok : keepsOwnersBut but s₀ i = true) (hs₀ : Sound s₀) (hs : Sound s)
    (h : Owned but s) (hfinal : Final s₀ i s s') : Owned but s' := by
  cases hfinal with
  | handled => exact owned_update h rfl rfl rfl ⟨rfl, rfl, rfl⟩ (List.subset_cons_self _ _) rfl
  | matched => exact owned_update h rfl rfl rfl ⟨rfl, rfl, rfl⟩ (List.subset_cons_self _ _) rfl
  | unmatched => exact owned_same h rfl rfl rfl (List.subset_cons_self _ _) rfl
  | @drop c event ph hearly hdrops =>
    have hdropped := owned_localDisconnect hok hs h hearly hdrops event
    exact owned_same hdropped rfl rfl rfl (List.Subset.refl _) rfl
  | @refuse c index soError msg hvisits hstart hpollerr herror =>
    subst hstart
    -- The condition knows which conn a visit refuses.
    have hrefuse : i.refuseTarget s = some c := by
      rw [hvisits.input, Input.refuseTarget, hvisits.phase]
      simp only [hpollerr, herror, and_self, if_true]
      exact hvisits.listed
    exact owned_refuse hok hs₀ h (List.mem_of_getElem? hvisits.listed) hrefuse rfl rfl rfl
      (List.subset_cons_self _ _) rfl
  | fail k msg =>
    apply owned_of h
    · intro c' a hopen hown
      rw [isOpen_iff] at hopen
      -- The conn that could not be opened owns nothing.
      have hne : c' ≠ s.nextConn := Nat.ne_of_lt (hs.allocated.conns c' hopen.1)
      have hsame : (s.allocConn k).conn c' = s.conn c' := Function.update_of_ne hne _ _
      refine ⟨?_, owns_mono (s := s) ?_ ?_ ?_ hown⟩
      · rw [isOpen_iff]
        simp only [sendCallback_conns, allocConn_conns, sendCallback_conn, sendCallback_removals,
          allocConn_removals, hsame]
        exact hopen
      · simp only [sendCallback_conn, hsame]
      · simp only [sendCallback_conn, hsame]
      · exact List.subset_cons_of_subset _ (List.subset_cons_self _ _)
    · exact fun a sid ha => ha
    · exact h.bound

end State

/-- The invariant in one step that is not about the conn that does not count. -/
theorem step_owned {but : Option ConnId} {s s' : State} {i : Input}
    (hok : keepsOwnersBut but s i = true) (hbut : ∀ c, i.Concerns s c → some c ≠ but)
    (hs : Sound s) (h : Owned but s) (hstep : step s i = some s') : Owned but s' := by
  refine (step_sound_invariant (Owned but) hs h ?_ ?_ hstep).2
  · exact State.owned_effect hok hbut hs h
  · intro s₁ s₂ _ hs₁ hinv hfinal
    exact State.owned_final hok hs hs₁ hinv hfinal

/-- In every run whose steps take no owner away, every entry has an owner. -/
theorem reach_owned {s : State} (h : machine.Reach (fun s i => keepsOwners s i = true) s) :
    Sound s ∧ Owned none s := by
  refine ⟨reach_sound h, h.invariant ?_ ?_⟩
  · constructor
    · exact fun a sid ha => absurd ha.symm (Option.some_ne_none sid)
    · exact fun r hr => absurd hr List.not_mem_nil
  · intro s i s' hreach hinv hok hstep
    exact step_owned hok (fun c _ => Option.some_ne_none c) (reach_sound hreach) hinv hstep

namespace State

variable {s : State}

/-- The call that `remote_address_seen` queues for a new status. -/
def readyCall (c : ConnId) (a : Address) : PendingCall :=
  ⟨c, .connectionReady, some (readyData a), .nothing, .ready a⟩

/-- The first sight of a remote queues its ready call. -/
theorem remoteAddressSeen_queued {s' : State} {c : ConnId} {a : Address}
    (haddr : (s'.conn c).remoteAddress = a) (hnone : s'.connStatus.lookup a = none) :
    queuedCalls (s'.remoteAddressSeen c).1.trace = queuedCalls s'.trace ++ [readyCall c a] := by
  subst haddr
  unfold remoteAddressSeen statusOfConn
  rw [hnone]
  exact queuedCalls_queued _ _

/-- A message that is complete queues one call. -/
private theorem handleMessage_queued (c : ConnId) (event : Event) (m : Message) :
    ∃ p, queuedCalls (s.handleMessage c event m).1.trace = queuedCalls s.trace ++ [p] := by
  unfold handleMessage
  dsimp only
  split
  · split
    · exact ⟨_, queuedCalls_queued _ _⟩
    · exact ⟨_, queuedCalls_queued _ _⟩
  · exact ⟨_, queuedCalls_queued _ _⟩

/-- `msg_connect` without an error to an address without a status. -/
theorem msgConnect_queued (address : CString) (callback : Nat) (connContext : Ptr) {o : OpenIn}
    {sock : Sock} (hparsed : (parseAddressStr address ⟨0, 0, .other⟩).2 = none)
    (hsock : o.socket = .ok sock) (hok : o.nonBlocking = none ∧ o.opener = none)
    (hnone : s.connStatus.lookup (parseAddressStr address ⟨0, 0, .other⟩).1 = none) :
    queuedCalls (s.msgConnect address callback connContext o).trace = queuedCalls s.trace ++
      [readyCall s.nextConn (parseAddressStr address ⟨0, 0, .other⟩).1] := by
  unfold msgConnect openSocket setupSockaddr
  simp only [newConnection_conn, Function.update_self, hparsed, hsock, hok.1, hok.2]
  rw [if_neg Bool.false_ne_true, remoteAddressSeen_queued
    (a := (parseAddressStr address ⟨0, 0, .other⟩).1) (by simp) (by simpa using hnone)]
  exact congrArg (· ++ _) (queuedCalls_cons rfl s.trace)

/-- A datagram with a message, from an address without a status. -/
theorem readFromSocket_queued {c : ConnId} {r : ReadIn} {raw : List UInt8} {event : Event}
    {d : Datagram} (hudp : (s.conn c).protocolType = .udp)
    (hpeek : s.peekHeader c r.peek = .header raw)
    (hevent : eventFor (decodeHeader raw) r.uninitEvent = some event)
    (hrecv : s.recvfrom c r.recvfrom = .ok d)
    (hnone : s.connStatus.lookup ⟨d.ip, d.port, .udp⟩ = none) :
    ∃ p, queuedCalls (s.readFromSocket c r).1.trace =
      queuedCalls s.trace ++ [readyCall c ⟨d.ip, d.port, .udp⟩, p] := by
  have hnot : (s.conn c).protocolType ≠ .tcp := by
    rw [hudp]
    exact Protocol.noConfusion
  obtain ⟨id, hconn, hsockets⟩ := acceptHeader_udp hudp raw
  -- Reading the header touches neither the table nor the queue.
  have hstatus : ((s.acceptHeader c raw).clearOneWay c (decodeHeader raw)).connStatus =
      s.connStatus := by
    simp only [acceptHeader, takeHeader, if_neg hnot, clearOneWay]
    split <;> rfl
  have htrace : queuedCalls ((s.acceptHeader c raw).clearOneWay c (decodeHeader raw)).trace =
      queuedCalls s.trace := by
    simp only [acceptHeader, takeHeader, if_neg hnot, clearOneWay]
    split
    · exact (queuedCalls_cons rfl _).trans (queuedCalls_cons rfl _)
    · exact queuedCalls_cons rfl _
  unfold readFromSocket readHeader
  rw [if_neg hnot]
  simp only [hpeek, hevent]
  generalize (s.acceptHeader c raw).clearOneWay c (decodeHeader raw) = s₁ at *
  have hrecv₁ : s₁.recvfrom c r.recvfrom = .ok d := by
    rw [← hrecv]
    simp [recvfrom, socketOf, hconn, hsockets]
  have hproto : (s₁.conn c).protocolType = .udp := by
    rw [hconn]
    exact hudp
  unfold recvUdp
  simp only [hrecv₁, hproto]
  generalize hs₂ : ((s₁.consume c d.bytes.length).log (.datagram c ⟨d.ip, d.port, .udp⟩
    d.bytes)).modifyConn c _ = s₂
  -- The new remote is greeted before its message is handled.
  have hseen : queuedCalls (s₂.remoteAddressSeen c).1.trace =
      queuedCalls s.trace ++ [readyCall c ⟨d.ip, d.port, .udp⟩] := by
    subst hs₂
    rw [remoteAddressSeen_queued (a := ⟨d.ip, d.port, .udp⟩) (by simp)
      (by simpa [hstatus] using hnone), ← htrace]
    exact congrArg (· ++ _) (queuedCalls_cons rfl s₁.trace)
  obtain ⟨p, hp⟩ := handleMessage_queued (s := (s₂.remoteAddressSeen c).1) c event _
  exact ⟨p, hp.trans (by rw [hseen, List.append_assoc]; rfl)⟩

end State

end Msgbox
