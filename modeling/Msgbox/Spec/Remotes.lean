import Msgbox.Spec.Addresses
import Msgbox.Spec.Delivery
import Msgbox.Spec.Ownership
import Msgbox.Spec.Received

/-!
# The remotes of a listening udp conn

A listening udp conn serves all remotes from which it hears. It has their address one after the
other, and each of them has an entry in `conn_status`, which other conns with the same remotes
share.

## Key results

- `keepsApart`: the steps by which no other conn gets to do with the conn's remotes
- `Aloof`, `aloof_step`: what the steps that are not about the conn leave as it is
-/

namespace Msgbox

open State

/-! ## Steps and addresses -/

/-- A datagram that the conn took, one of its calls, or a call of `msg_disconnect` for it. -/
def Obs.tells (c : ConnId) : Obs → Bool
  | .datagram c' _ _ => c' = c
  | .queued p => p.conn = c
  | .called _ p => p.conn = c
  | .disconnected c' _ => c' = c
  | _ => false

namespace Input

/-- The conn that is visited, read or dropped. -/
def subject (s : State) : Input → Option ConnId
  | .visit _ =>
    match s.phase with
    | .polling index => s.conns[index]?
    | _ => none
  | .read _ =>
    match s.phase with
    | .reading index => s.conns[index]?
    | _ => none
  | .app (.disconnect c _) => some c
  | .app (.unlisten c _) => c
  | _ => none

/-- The sender of the datagram that is received, or the address to which a conn is connected. -/
def learns (s : State) : Input → Option Address
  | .read r =>
    match (Input.read r).subject s with
    | some c =>
      match s.recvfrom c r.recvfrom with
      | .ok d => some ⟨d.ip, d.port, .udp⟩
      | .error _ => none
    | none => none
  | .app (.connect address _ _ _) => some (parseAddressStr address ⟨0, 0, .other⟩).1
  | _ => none

/-- The call that is made. -/
def delivers (s : State) : Input → Option PendingCall
  | .deliver _ => s.phase.saved.head?
  | _ => none

/-- The conn that a call by the application drops or gives another address. -/
def alters : Input → Option ConnId
  | .app (.disconnect c _) => some c
  | .app (.unlisten c _) => c
  | .app (.setRemoteAddress c _ _) => some c
  | _ => none

/-- The status to which a callback returns the conn's context. -/
def returnsTo (s : State) : Input → Option StatusId
  | .ret => s.stack.head?.bind Frame.status
  | _ => none

/-- A read is about the conn that reads. -/
theorem Reads.subject {s : State} {i : Input} {c : ConnId} {r : ReadIn} (h : i.Reads s c r) :
    i.subject s = some c := by
  obtain ⟨index, hphase, hlisted⟩ := h.listed
  rw [h.input, Input.subject]
  simp [hphase, hlisted]

/-- A visit is about the conn that is visited. -/
theorem Visits.subject {s : State} {i : Input} {c : ConnId} {index : Nat} {soError : Option Errno}
    (h : i.Visits s c index soError) : i.subject s = some c := by
  rw [h.input, Input.subject]
  simp [h.phase, h.listed]

/-- A conn is dropped by a step that is about it. -/
theorem Drops.subject {s : State} {i : Input} {c : ConnId} (h : i.Drops s c) :
    i.subject s = some c := by
  cases h with
  | read h => exact h.subject
  | disconnect h => rw [h.input, Input.subject]
  | unlisten h => rw [h.input, Input.subject]

end Input

/-- No other conn has to do with a remote of the conn. -/
def keepsApart (c : ConnId) (s : State) (i : Input) : Bool :=
  i.subject s = some c ||
    ((((i.subject s).map fun c' => (s.conn c').remoteAddress).all fun a => !heard s.trace c a) &&
      (i.learns s).all fun a => !heard s.trace c a)

/-! ## Steps that are not about the conn -/

/-- Where a conn has its address and the user's context. -/
def SameFields (k k' : Conn) : Prop :=
  k'.remoteAddress = k.remoteAddress ∧ k'.forListening = k.forListening ∧
    k'.connContext = k.connContext

/-- Between two states of a step, nothing changes for the remotes of the conn. -/
structure Aloof (c : ConnId) (s₀ : State) (i : Input) (s s' : State) : Prop where
  next : s.nextConn ≤ s'.nextConn
  address : (s'.conn c).remoteAddress = (s.conn c).remoteAddress
  flag : (s'.conn c).forListening = (s.conn c).forListening
  context : (∀ v, i ≠ .app (.setConnContext c v)) →
    (s'.conn c).connContext = (s.conn c).connContext
  record : s'.trace.filter (Obs.tells c) = s.trace.filter (Obs.tells c)
  lookup : ∀ a, heard s.trace c a = true → s'.connStatus.lookup a = s.connStatus.lookup a
  contexts : ∀ a sid, heard s.trace c a = true → s.connStatus.lookup a = some sid →
    i.returnsTo s₀ ≠ some sid → (s'.status sid).connContext = (s.status sid).connContext

/-- The step is not about the conn, but perhaps a send or a get that does not fail. -/
structure Apart (c : ConnId) (s : State) (i : Input) : Prop where
  made : c < s.nextConn
  listening : s.isListeningUdp c = true
  udp : ∀ a, heard s.trace c a = true → a.protocolType = .udp
  reads : ∀ r, ¬ i.Reads s c r
  calls : ∀ p, i.delivers s = some p → p.conn ≠ c
  alters : i.alters ≠ some c
  bare : bareError s i ≠ some c
  due : ∀ now, i = .timeouts now → ∀ t ∈ s.timeouts.takeWhile (fun t => t.at_ ≤ now), t.conn ≠ c
  apart : keepsApart c s i = true

variable {s₀ s s' s'' : State} {i : Input} {c : ConnId}

/-- What tells of `c` decides what `c` has heard. -/
theorem heard_filter (t : List Obs) (c : ConnId) (a : Address) :
    heard (t.filter (Obs.tells c)) c a = heard t c a := by
  rw [heard, heard, List.any_filter]
  congr 1
  funext o
  cases o <;> simp [Obs.tells]

/-- A step that has nothing to do with `c` leaves what it has heard. -/
theorem Aloof.heard (h : Aloof c s₀ i s s') (a : Address) :
    heard s'.trace c a = heard s.trace c a := by
  rw [← heard_filter, h.record, heard_filter]

/-- Two effects aloof from `c` are aloof one after the other. -/
theorem Aloof.trans (h : Aloof c s₀ i s s') (h' : Aloof c s₀ i s' s'') : Aloof c s₀ i s s'' where
  next := h.next.trans h'.next
  address := h'.address.trans h.address
  flag := h'.flag.trans h.flag
  context hv := (h'.context hv).trans (h.context hv)
  record := h'.record.trans h.record
  lookup a ha := (h'.lookup a (h.heard a ▸ ha)).trans (h.lookup a ha)
  contexts a sid ha hsid hret := by
    rw [h'.contexts a sid (h.heard a ▸ ha) ((h.lookup a ha).trans hsid) hret]
    exact h.contexts a sid ha hsid hret

/-- Nothing is observed, or something else than what tells of the conn. -/
theorem aloof_of (hnext : s.nextConn ≤ s'.nextConn) (hconn : SameFields (s.conn c) (s'.conn c))
    (hrecord : s'.trace.filter (Obs.tells c) = s.trace.filter (Obs.tells c))
    (hstatus : s'.connStatus = s.connStatus)
    (hcontexts : ∀ sid, (s'.status sid).connContext = (s.status sid).connContext) :
    Aloof c s₀ i s s' where
  next := hnext
  address := hconn.1
  flag := hconn.2.1
  context _ := hconn.2.2
  record := hrecord
  lookup _ _ := by rw [hstatus]
  contexts _ sid _ _ _ := hcontexts sid

/-- Every conn has its own fields. -/
theorem SameFields.refl (k : Conn) : SameFields k k := ⟨rfl, rfl, rfl⟩

/-- An update that keeps the fields of the conn it is at keeps those of all. -/
private theorem sameFields_update {c' : ConnId} {k : Conn} (hk : SameFields (s.conn c') k) :
    SameFields (s.conn c) (Function.update s.conn c' k c) := by
  by_cases hc : c = c'
  · rw [hc, Function.update_self]
    exact hk
  · rw [Function.update_of_ne hc]
    exact .refl _

/-- An update at another conn keeps the fields of `c`. -/
private theorem sameFields_other {c' : ConnId} {k : Conn} (hc : c' ≠ c) :
    SameFields (s.conn c) (Function.update s.conn c' k c) := by
  rw [Function.update_of_ne (Ne.symm hc)]
  exact .refl _

/-- An update of a status that keeps its `conn_context` keeps those of all. -/
theorem contexts_update {sid : StatusId} {status : ConnStatus}
    (hk : status.connContext = (s.status sid).connContext) (sid' : StatusId) :
    (Function.update s.status sid status sid').connContext = (s.status sid').connContext := by
  by_cases hsid : sid' = sid
  · rw [hsid, Function.update_self, hk]
  · rw [Function.update_of_ne hsid]

/-- What does not tell of `c` is not part of its record. -/
theorem record_cons {o : Obs} (ho : o.tells c = false) (t : List Obs) :
    (o :: t).filter (Obs.tells c) = t.filter (Obs.tells c) :=
  List.filter_cons_of_neg (by rw [ho]; exact Bool.false_ne_true)

/-- A queued call tells of its own conn only. -/
theorem tells_queued {p : PendingCall} (h : p.conn ≠ c) : (Obs.queued p).tells c = false :=
  decide_eq_false h

/-! ## One effect -/

/-- What `remote_address_seen` does for other conns. -/
private theorem aloof_ready (ha : Allocated s) {c' : ConnId} (hc : c' ≠ c)
    (hapart : heard s.trace c (s.conn c').remoteAddress = false) :
    Aloof c s₀ i s ((s.addStatus c').sendCallback c' .connectionReady
      (some (readyData (s.conn c').remoteAddress)) .nothing (.ready (s.conn c').remoteAddress))
      where
  next := Nat.le_refl _
  address := rfl
  flag := rfl
  context _ := rfl
  record := record_cons (tells_queued hc) _
  lookup a hheard := by
    have hne : a ≠ (s.conn c').remoteAddress := by
      rintro rfl
      exact Bool.noConfusion (hheard.symm.trans hapart)
    exact AList.lookup_insert_ne hne
  contexts a sid _ hsid _ := by
    rw [sendCallback_status, addStatus_status,
      Function.update_of_ne (Nat.ne_of_lt (ha.status a sid hsid).1)]

/-- What `local_disconnect` does for other conns. -/
private theorem aloof_drop {c' : ConnId} (hc : c' ≠ c)
    (hapart : heard s.trace c (s.conn c').remoteAddress = false) (event : Event) :
    Aloof c s₀ i s (s.localDisconnect c' event) where
  next := (localDisconnect_nextConn s c' event).ge
  address := by rw [localDisconnect_conn]
  flag := by rw [localDisconnect_conn]
  context _ := by rw [localDisconnect_conn]
  record := by
    rw [localDisconnect_trace]
    exact record_cons (tells_queued hc) _
  lookup a hheard := by
    have hne : a ≠ (s.conn c').remoteAddress := by
      rintro rfl
      exact Bool.noConfusion (hheard.symm.trans hapart)
    rw [localDisconnect_connStatus]
    exact AList.lookup_erase_ne hne
  contexts _ sid _ _ _ := by
    rw [localDisconnect_status, unsetStatus_status_apply]
    split <;> rfl

/-- In the middle of a step, the conns that the step is about or makes have no remote of the
    conn. -/
def KeptApart (c : ConnId) (s₀ : State) (i : Input) (s : State) : Prop :=
  ∀ c' < s.nextConn, c' ≠ c →
    (i.subject s₀ = some c' ∨ s₀.nextConn ≤ c' ∧ (s.conn c').forListening = false) →
      heard s.trace c (s.conn c').remoteAddress = false

/-- Apart from `c`, no call of the caller alters it. -/
private theorem Apart.not_calls (h : Apart c s₀ i) {call : AppCall} (hcalls : i.Calls s₀ call)
    (halters : (Input.app call).alters = some c) : False :=
  h.alters (hcalls.input ▸ halters)

/-- `poll` reports no listening conn as writable. -/
private theorem Apart.not_writable (h : Apart c s₀ i) (hs₀ : Sound s₀) {index : Nat}
    {soError : Option Errno} (hvisits : i.Visits s₀ c index soError) :
    (s₀.reventsAt index).pollout = false := by
  unfold reventsAt
  cases hp : s₀.pollFds[index]? with
  | none => rfl
  | some p =>
    rw [Option.map_some, Option.getD_some, ← Bool.not_eq_true]
    intro hpollout
    have hflag := hs₀.tabled.writers hvisits.listed hp (by simp [PollFd.mayWrite, hpollout])
    have hlistening := h.listening
    rw [isListeningUdp, hflag] at hlistening
    exact Bool.noConfusion hlistening

/-- A conn that others are apart from is a udp conn. -/
theorem Apart.isUdp (h : Apart c s₀ i) : (s₀.conn c).protocolType = .udp := by
  have hlistening := h.listening
  simp only [isListeningUdp, Bool.and_eq_true, beq_iff_eq] at hlistening
  exact hlistening.2

/-- An early effect of a step apart from `c` is aloof from it. -/
private theorem aloof_early (h : Apart c s₀ i) (hs₀ : Sound s₀) (hs : Sound s)
    (hkept : KeptApart c s₀ i s) (heffect : Early s₀ i s s') : Aloof c s₀ i s s' := by
  cases heffect with
  | kernel | leak | close | poll => exact aloof_of (Nat.le_refl _) (.refl _) rfl rfl fun _ => rfl
  | note o _ hnotes =>
    refine aloof_of (Nat.le_refl _) (.refl _) (record_cons ?_ _) rfl fun _ => rfl
    cases hnotes with
    | @disconnected c' w hcalls =>
      apply decide_eq_false
      rintro rfl
      exact h.not_calls hcalls rfl
    | _ => rfl
  | header =>
    exact aloof_of (Nat.le_refl _) (sameFields_update (.refl _)) (record_cons rfl _) rfl
      fun _ => rfl
  | buffer => exact aloof_of (Nat.le_refl _) (.refl _) rfl rfl (contexts_update rfl)
  | @ready c' hlisted hsees =>
    by_cases hc : c' = c
    · subst hc
      -- A listening udp conn sees an address only when it is read.
      cases hsees with
      | visit hvisits hpollout =>
        exact Bool.noConfusion ((h.not_writable hs₀ hvisits).symm.trans hpollout)
      | tcp hreads => exact absurd hreads (h.reads _)
      | udp hreads => exact absurd hreads (h.reads _)
      | opened heq => exact absurd (heq ▸ h.made) (Nat.lt_irrefl _)
    · refine aloof_ready hs.allocated hc (hkept c' (hs.allocated.conns c' hlisted) hc ?_)
      cases hsees with
      | visit hvisits => exact .inl hvisits.subject
      | tcp hreads => exact .inl hreads.subject
      | udp hreads => exact .inl hreads.subject
      | opened heq hconn => exact .inr ⟨heq.ge, hconn⟩
  | @error c' msg herrs =>
    -- Its error would be one without an address, which is excluded.
    refine aloof_of (Nat.le_refl _) (.refl _) (record_cons (tells_queued ?_) _) rfl fun _ => rfl
    rintro rfl
    exact h.bare (bareError_of_errs herrs h.isUdp)
  | @unflag c' result hcalls =>
    refine aloof_of (Nat.le_refl _) (sameFields_other ?_) rfl rfl fun _ => rfl
    rintro rfl
    exact h.not_calls hcalls rfl

/-- `save_context` writes the status of its own frame only. -/
theorem saveContext_other {f : Frame} {sid : StatusId} (h : f.status ≠ some sid) :
    ((s.saveContext f).status sid).connContext = (s.status sid).connContext := by
  unfold saveContext
  split
  · rfl
  · rename_i sid' hstatus
    split
    · rw [modifyStatus_status, Function.update_of_ne]
      rintro rfl
      exact h hstatus
    · rfl

/-- An effect of a step apart from `c` is aloof from it. -/
private theorem aloof_effect (h : Apart c s₀ i) (hs₀ : Sound s₀) (hs : Sound s)
    (hmade : c < s.nextConn) (hkept : KeptApart c s₀ i s)
    (heffect : Effect s₀ i s s') : Aloof c s₀ i s s' := by
  cases heffect with
  | early hearly => exact aloof_early h hs₀ hs hkept hearly
  | oneWay =>
    exact aloof_of (Nat.le_refl _) (sameFields_update (.refl _)) (record_cons rfl _) rfl
      fun _ => rfl
  | @datagram c' r d hreads =>
    have hc : c' ≠ c := by
      rintro rfl
      exact h.reads r hreads
    have hrecord : (Obs.datagram c' ⟨d.ip, d.port, .udp⟩ d.bytes).tells c = false :=
      decide_eq_false hc
    refine aloof_of (Nat.le_refl _) ?_ (record_cons hrecord _) rfl fun _ => rfl
    exact sameFields_other hc
  | opened k contents =>
    refine aloof_of (Nat.le_succ _) (sameFields_other ?_) (record_cons rfl _) rfl fun _ => rfl
    exact (Nat.ne_of_lt hmade).symm
  | @listening c' hopened =>
    refine aloof_of (Nat.le_refl _) (.refl _) (record_cons (tells_queued ?_) _) rfl fun _ => rfl
    rintro rfl
    exact absurd (hopened ▸ h.made) (Nat.lt_irrefl _)
  -- Only the context of `c` itself may be set.
  | @context c' connContext hcalls =>
    by_cases hc : c' = c
    · subst hc
      refine ⟨Nat.le_refl _, ?_, ?_, fun hv => absurd hcalls.input (hv _), rfl, fun _ _ => rfl,
        fun _ _ _ _ _ => rfl⟩
      · simp
      · simp
    · exact aloof_of (Nat.le_refl _) (sameFields_other hc) rfl rfl fun _ => rfl
  | @address c' ip port hcalls =>
    refine aloof_of (Nat.le_refl _) (sameFields_other ?_) rfl rfl fun _ => rfl
    rintro rfl
    exact h.not_calls hcalls rfl
  | get => exact aloof_of (Nat.le_refl _) (.refl _) (record_cons rfl _) rfl (contexts_update rfl)
  | failedGet =>
    exact aloof_of (Nat.le_refl _) (.refl _) (record_cons rfl _) rfl (contexts_update rfl)
  -- No timeout that is due is one of `c`.
  | expire hinput hdue =>
    exact aloof_of (Nat.le_refl _) (sameFields_update (.refl _))
      (record_cons (tells_queued (h.due _ hinput _ hdue)) _) rfl (contexts_update rfl)
  | swap | phase => exact aloof_of (Nat.le_refl _) (.refl _) rfl rfl fun _ => rfl
  | removal =>
    obtain ⟨index, heq⟩ := removalPass_eq s
    rw [heq]
    exact aloof_of (Nat.le_refl _) ⟨rfl, rfl, rfl⟩ rfl rfl fun _ => rfl
  | @call call rest junk hinput hstart hphase =>
    have hc : call.conn ≠ c := by
      apply h.calls call
      rw [hinput, Input.delivers, ← hstart, hphase]
      rfl
    rw [makeCall_eq]
    exact aloof_of (Nat.le_refl _) (sameFields_other hc)
      (record_cons (o := .called (s.loaded call junk) call) (decide_eq_false hc) _) rfl fun _ => rfl
  -- A callback writes the context of its own status.
  | @finish f stack hinput hstart hphase hstack =>
    rw [finishCall_eq]
    refine ⟨Nat.le_refl _, rfl, rfl, fun _ => rfl, rfl, fun _ _ => rfl, fun a sid _ _ hret => ?_⟩
    apply saveContext_other
    rw [hinput, Input.returnsTo, ← hstart, hstack] at hret
    exact hret

/-! ## One step -/

/-- The addresses and flags of the conns stay as they are. -/
private theorem kept_of (hkept : KeptApart c s₀ i s) (haloof : Aloof c s₀ i s s')
    (hnext : s'.nextConn = s.nextConn)
    (hconn : ∀ c', (s'.conn c').remoteAddress = (s.conn c').remoteAddress ∧
      (s₀.nextConn ≤ c' → (s'.conn c').forListening = (s.conn c').forListening)) :
    KeptApart c s₀ i s' := by
  intro c' hc' hne hsubject
  rw [haloof.heard, (hconn c').1]
  refine hkept c' (hnext ▸ hc') hne (hsubject.imp_right fun hnew => ⟨hnew.1, ?_⟩)
  rw [← (hconn c').2 hnew.1]
  exact hnew.2

/-- An update that keeps the address and, for new conns, the flag of the conn it is at keeps
    those of all. -/
private theorem tables_update {c₁ : ConnId} {k : Conn}
    (haddr : k.remoteAddress = (s.conn c₁).remoteAddress)
    (hflag : s₀.nextConn ≤ c₁ → k.forListening = (s.conn c₁).forListening) (c' : ConnId) :
    (Function.update s.conn c₁ k c').remoteAddress = (s.conn c').remoteAddress ∧
      (s₀.nextConn ≤ c' → (Function.update s.conn c₁ k c').forListening =
        (s.conn c').forListening) := by
  by_cases hc : c' = c₁
  · rw [hc, Function.update_self]
    exact ⟨haddr, hflag⟩
  · rw [Function.update_of_ne hc]
    exact ⟨rfl, fun _ => rfl⟩

/-- A conn is given an address that the conn has not heard from. -/
private theorem kept_update (c₁ : ConnId) (hkept : KeptApart c s₀ i s) (haloof : Aloof c s₀ i s s')
    {k : Conn}
    (hconn : s'.conn = Function.update s.conn c₁ k)
    (hold : ∀ c' < s'.nextConn, c' ≠ c₁ → c' < s.nextConn)
    (hk : i.subject s₀ = some c₁ ∨ s₀.nextConn ≤ c₁ ∧ k.forListening = false →
      heard s.trace c k.remoteAddress = false) : KeptApart c s₀ i s' := by
  intro c' hc' hne hsubject
  rw [haloof.heard]
  rw [hconn] at hsubject ⊢
  by_cases hc : c' = c₁
  · subst hc
    rw [Function.update_self] at hsubject ⊢
    exact hk hsubject
  · rw [Function.update_of_ne hc] at hsubject ⊢
    exact hkept c' (hold c' hc' hc) hne hsubject

/-- A step about another conn has to do with no remote. -/
private theorem Apart.met (h : Apart c s₀ i) (hsubject : i.subject s₀ ≠ some c) :
    (∀ c', i.subject s₀ = some c' → heard s₀.trace c (s₀.conn c').remoteAddress = false) ∧
      ∀ a, i.learns s₀ = some a → heard s₀.trace c a = false := by
  have hapart := h.apart
  simp only [keepsApart, hsubject, decide_false, Bool.false_or, Bool.and_eq_true] at hapart
  constructor
  · intro c' hc'
    simpa [hc'] using hapart.1
  · intro a ha
    simpa [ha] using hapart.2

/-- Every effect keeps the addresses, flags and entries that being apart rests on. -/
private theorem kept_effect (h : Apart c s₀ i) (hs₀ : Sound s₀) (hmid : Aloof c s₀ i s₀ s)
    (hkept : KeptApart c s₀ i s) (haloof : Aloof c s₀ i s s') (heffect : Effect s₀ i s s') :
    KeptApart c s₀ i s' := by
  have hsame : ∀ c', (s.conn c').remoteAddress = (s.conn c').remoteAddress ∧
      (s₀.nextConn ≤ c' → (s.conn c').forListening = (s.conn c').forListening) :=
    fun _ => ⟨rfl, fun _ => rfl⟩
  have hlive : ∀ {c' : ConnId}, s₀.isLive c' = true → c' < s₀.nextConn := by
    intro c' hl
    simp only [isLive, Bool.and_eq_true, decide_eq_true_eq] at hl
    exact hl.1
  have hheard : ∀ {a : Address}, heard s₀.trace c a = false → heard s.trace c a = false :=
    fun ha => (hmid.heard _).trans ha
  cases heffect with
  | early hearly =>
    cases hearly with
    | header => exact kept_of hkept haloof rfl (tables_update (by rfl) fun _ => by rfl)
    | @unflag c' result hcalls =>
      refine kept_of hkept haloof rfl (tables_update (by rfl) fun hle => ?_)
      exact absurd (hlive hcalls.admits) (Nat.not_lt.mpr hle)
    | _ => exact kept_of hkept haloof rfl hsame
  | oneWay => exact kept_of hkept haloof rfl (tables_update (by rfl) fun _ => by rfl)
  -- The sender is what the step learns.
  | @datagram c' r d hreads hudp hproto hrecv =>
    refine kept_update c' hkept haloof rfl (fun c'' hc'' _ => hc'') fun _ => ?_
    have hc : c' ≠ c := by
      rintro rfl
      exact h.reads r hreads
    apply hheard
    apply (h.met _).2
    · obtain ⟨index, hphase, hlisted⟩ := hreads.listed
      rw [hreads.input, Input.learns, Input.subject]
      simp [hphase, hlisted, hrecv]
    · rw [hreads.subject]
      exact fun heq => hc (Option.some.inj heq)
  -- A new conn has the address that it connects to, or that it has accepted.
  | opened k contents hopens =>
    refine kept_update s.nextConn hkept haloof rfl
      (fun c' hc' hne => Nat.lt_of_le_of_ne (Nat.lt_succ_iff.mp hc') hne) fun hnew => ?_
    generalize hk : k.remoteAddress = a at hopens
    generalize hflag : k.forListening = flag at hopens
    cases hopens with
    | listen hcalls =>
      rcases hnew with hsubject | ⟨-, hfalse⟩
      · rw [hcalls.input] at hsubject
        exact absurd hsubject.symm (Option.some_ne_none _)
      · exact Bool.noConfusion (hflag.symm.trans hfalse)
    | connect hcalls =>
      apply hheard
      apply (h.met _).2
      · rw [hcalls.input]
        rfl
      · rw [hcalls.input]
        exact fun heq => absurd heq.symm (Option.some_ne_none c)
    -- Those that are accepted are tcp addresses, and all remotes of `c` are udp ones.
    | accept =>
      rw [← Bool.not_eq_true]
      intro hheard'
      exact Protocol.noConfusion (h.udp _ ((hmid.heard _).symm.trans hheard'))
  | context => exact kept_of hkept haloof rfl (tables_update (by rfl) fun _ => by rfl)
  -- Only conns that there are get another address, which are not the step's subject.
  | @address c' ip port hcalls =>
    refine kept_update c' hkept haloof rfl (fun c'' hc'' _ => hc'') fun hnew => ?_
    rcases hnew with hsubject | ⟨hle, -⟩
    · rw [hcalls.input] at hsubject
      exact absurd hsubject.symm (Option.some_ne_none _)
    · have hlt := hcalls.admits
      simp only [admits, Bool.and_eq_true] at hlt
      exact absurd (hlive hlt.1.1) (Nat.not_lt.mpr hle)
  | expire => exact kept_of hkept haloof rfl (tables_update (by rfl) fun _ => by rfl)
  | removal =>
    obtain ⟨index, heq⟩ := removalPass_eq s
    rw [heq] at haloof ⊢
    exact kept_of hkept haloof rfl hsame
  -- The same holds of the conn of a call.
  | @call call rest junk hinput hstart hphase =>
    rw [makeCall_eq] at haloof ⊢
    refine kept_update call.conn hkept haloof rfl (fun c'' hc'' _ => hc'') fun hnew => ?_
    rcases hnew with hsubject | ⟨hle, -⟩
    · rw [hinput] at hsubject
      exact absurd hsubject.symm (Option.some_ne_none _)
    · have hp := hs₀.allocated.queued call (hs₀.allocated.pending call (by
        rw [← hstart, pending, hphase]
        simp [Phase.saved]))
      exact absurd hp (Nat.not_lt.mpr hle)
  | finish =>
    rw [finishCall_eq] at haloof ⊢
    exact kept_of hkept haloof rfl hsame
  | _ => exact kept_of hkept haloof rfl hsame

/-- The last effect of a step apart from `c` is aloof from it. -/
private theorem aloof_final (h : Apart c s₀ i) (hmade : c < s.nextConn)
    (hkept : KeptApart c s₀ i s) (hdropped : ∀ c', i.Drops s₀ c' → c' < s.nextConn)
    (hfinal : Final s₀ i s s') : Aloof c s₀ i s s' := by
  -- The step reads another conn.
  have hother : ∀ {c' : ConnId} {r : ReadIn}, i.Reads s₀ c' r → c' ≠ c := by
    rintro c' r hreads rfl
    exact h.reads r hreads
  cases hfinal with
  | handled hreads =>
    refine aloof_of (Nat.le_refl _) ?_ (record_cons (tells_queued (hother hreads)) _) rfl
      fun _ => rfl
    exact sameFields_other (hother hreads)
  | matched hreads =>
    refine aloof_of (Nat.le_refl _) ?_ (record_cons (tells_queued (hother hreads)) _) rfl
      (contexts_update rfl)
    exact sameFields_other (hother hreads)
  | unmatched hreads =>
    exact aloof_of (Nat.le_refl _) (.refl _) (record_cons (tells_queued (hother hreads)) _) rfl
      fun _ => rfl
  | @drop c' event ph _ hdrops =>
    have hc : c' ≠ c := by
      rintro rfl
      cases hdrops with
      | read hreads => exact h.reads _ hreads
      | disconnect hcalls => exact h.not_calls hcalls rfl
      | unlisten hcalls => exact h.not_calls hcalls rfl
    have hdrop : Aloof c s₀ i s (s.localDisconnect c' event) :=
      aloof_drop hc (hkept c' (hdropped c' hdrops) hc (.inl hdrops.subject)) event
    exact ⟨hdrop.next, hdrop.address, hdrop.flag, hdrop.context, hdrop.record, hdrop.lookup,
      hdrop.contexts⟩
  | @refuse c' index soError msg hvisits hstart hpollerr herror =>
    refine aloof_of (Nat.le_refl _) (.refl _) (record_cons (tells_queued ?_) _) rfl fun _ => rfl
    rintro rfl
    apply h.bare
    rw [hstart] at hpollerr
    rw [hvisits.input, bareError, Input.refuseTarget]
    simp [hvisits.phase, hvisits.listed, hpollerr, herror]
  | fail k msg =>
    have hc : s.nextConn ≠ c := (Nat.ne_of_lt hmade).symm
    refine aloof_of (Nat.le_succ _) (sameFields_other hc) ?_ rfl fun _ => rfl
    exact (record_cons (tells_queued hc) _).trans (record_cons rfl _)

/-- A step that is not about the conn leaves its remotes alone. -/
theorem aloof_step (h : Apart c s i) (hs : Sound s) (hstep : step s i = some s') :
    Aloof c s i s s' := by
  obtain ⟨s₁, heffects, hlast⟩ := step_effects hstep
  have hstart : KeptApart c s i s := by
    intro c' hc' hne hsubject
    have hsome : i.subject s = some c' :=
      hsubject.resolve_right fun hnew => Nat.not_lt.mpr hnew.1 hc'
    refine (h.met ?_).1 c' hsome
    rw [hsome]
    exact fun heq => hne (Option.some.inj heq)
  have hmid : Sound s₁ ∧ Aloof c s i s s₁ ∧ KeptApart c s i s₁ := by
    clear hlast
    induction heffects with
    | refl => exact ⟨hs, aloof_of (Nat.le_refl _) (.refl _) rfl rfl fun _ => rfl, hstart⟩
    | tail hsteps heffect ih =>
      obtain ⟨hs₁, haloof, hkept⟩ := ih
      have hnext := aloof_effect h hs hs₁ (h.made.trans_le haloof.next) hkept heffect
      exact ⟨sound_effect hs hsteps hs₁ heffect, haloof.trans hnext,
        kept_effect h hs haloof hkept hnext heffect⟩
  obtain ⟨-, haloof, hkept⟩ := hmid
  rcases hlast with rfl | hfinal
  · exact haloof
  · refine haloof.trans (aloof_final h (h.made.trans_le haloof.next) hkept ?_ hfinal)
    exact fun c' hdrops => (hdrops.reports.allocated hs.allocated).trans_le haloof.next

end Msgbox
