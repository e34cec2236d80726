import Msgbox.Spec.Callbacks
import Msgbox.Spec.Datagrams

/-!
# The address that a udp call carries

Before the callback for a udp conn, the conn takes the address from the metadata of the call's
data. Messages and `msg_connection_ready` have it written there. Errors of system calls are
queued with metadata that nobody wrote, and the error of a get that timed out with the address
of the next timeout.

## Key results

- `carriesAddress`: the steps that queue no such error for a udp conn
- `udp_calls_addressed`: in runs of these steps every call carries the address it is about, and
  no callback changes the protocol of a conn
-/

namespace Msgbox

/-! ## Steps that queue errors without an address -/

/-- The conn that exists already and for which the step queues an error with metadata that are
    not written, if it is a udp conn. -/
def bareError (s : State) : Input → Option ConnId
  | .read r =>
    match s.phase with
    | .reading index => s.conns[index]?.filter fun c => s.udpReadFails c r || s.unmatchedReply c r
    | _ => none
  | .app (.disconnect c w) => if s.sendFails c (setHeader .close 0 0) w then some c else none
  | .app (.unlisten (some c) result) =>
    if (s.conn c).forListening ∧ (s.closeError (s.conn c).socket result).isNone then none
    else some c
  | .app (.send c payload w) => if s.sendFails c (s.sendFrame c payload) w then some c else none
  | .app (.get c payload _ _ w) => if s.getFails c payload w then some c else none
  | .visit soError => (Input.visit soError).refuseTarget s
  | _ => none

/-- Each timeout of a udp conn that the loop comes to is followed by one for the same address,
    or is the last one. -/
def nextAgrees (s : State) (now : Nat) : List Timeout → Bool
  | [] => true
  | t :: rest =>
    if now < t.at_ then true
    else
      ((s.conn t.conn).protocolType ≠ .udp ||
        rest.head?.all fun next =>
          (s.status next.status).remoteAddress = (s.status t.status).remoteAddress) &&
      nextAgrees s now rest

/-- The step queues no error for a udp conn without the address that it is about. -/
def carriesAddress (s : State) (i : Input) : Bool :=
  ((bareError s i).all fun c => (s.conn c).protocolType ≠ .udp) &&
  (i.failedOpen.all fun a => a.protocolType ≠ .udp) &&
  match i with
  | .timeouts now => nextAgrees s now s.timeouts
  | _ => true

/-! ## What a call is about -/

/-- The address that a call is about: the sender of a message, the address of the get that
    timed out, the address that was seen or dropped. -/
def PendingCall.about (p : PendingCall) (s : State) : Option Address :=
  match p.cause with
  | .frame a _ _ _ _ => some a
  | .timeout sid _ _ => some (s.status sid).remoteAddress
  | .ready a => some a
  | .closing a => some a
  | .other => none

/-- The cause of a call is neither a message nor a timeout. -/
def Cause.isPlain : Cause → Bool
  | .frame _ _ _ _ _ => false
  | .timeout _ _ _ => false
  | _ => true

/-- What holds of a call that was queued. If it is for a udp conn and has data, then the address
    in its metadata was written and is the one that the call is about, and if it is about a
    message, a datagram was taken from that address. -/
structure PendingCall.Carries (p : PendingCall) (s : State) : Prop where
  address : (s.conn p.conn).protocolType = .udp → ∀ data, p.data = some data →
    ∃ a, p.about s = some a ∧ a.protocolType = .udp ∧ data.metadata.remoteAddress = some a
  sender : (s.conn p.conn).protocolType = .udp → ∀ a sid h payload context,
    p.cause = .frame a sid h payload context → ∃ bytes, Obs.datagram p.conn a bytes ∈ s.trace
  status : ∀ sid id context, p.cause = .timeout sid id context → sid < s.nextStatus

/-- All calls carry their addresses, and the timeouts of udp conns are about udp addresses. -/
structure Addressed (s : State) : Prop where
  calls : ∀ p, Obs.queued p ∈ s.trace → p.Carries s
  timeouts : ∀ t ∈ s.timeouts, (s.conn t.conn).protocolType = .udp →
    (s.status t.status).remoteAddress.protocolType = .udp

namespace State

variable {s₀ s s' : State} {i : Input}

/-! ## Protocols and addresses stay -/

/-- No conn becomes a udp conn, and a status keeps its address. -/
structure Keeps (s s' : State) : Prop where
  udp : KeepsUdp s s'
  next : s.nextStatus ≤ s'.nextStatus
  address : ∀ sid < s.nextStatus, (s'.status sid).remoteAddress = (s.status sid).remoteAddress

/-- Nothing changes. -/
theorem Keeps.refl (s : State) : Keeps s s := ⟨fun _ _ h => h, Nat.le_refl _, fun _ _ => rfl⟩

/-- What is kept twice is kept. -/
theorem Keeps.trans {s'' : State} (h : Keeps s s') (hle : s.nextConn ≤ s'.nextConn)
    (h' : Keeps s' s'') : Keeps s s'' where
  udp c hc hudp := h.udp c hc (h'.udp c (hc.trans_le hle) hudp)
  next := h.next.trans h'.next
  address sid hsid := (h'.address sid (hsid.trans_le h.next)).trans (h.address sid hsid)

/-- Statuses that stay, and conns that change to udp nowhere. -/
private theorem keeps_of_eq (hudp : KeepsUdp s s') (hnext : s'.nextStatus = s.nextStatus)
    (hstatus : s'.status = s.status) : Keeps s s' :=
  ⟨hudp, hnext.ge, fun _ _ => by rw [hstatus]⟩

/-- A write to a status that keeps its address. -/
private theorem keeps_update (hudp : KeepsUdp s s') (hnext : s'.nextStatus = s.nextStatus)
    {sid : StatusId} {status : ConnStatus}
    (hstatus : s'.status = Function.update s.status sid status)
    (haddr : status.remoteAddress = (s.status sid).remoteAddress) : Keeps s s' := by
  refine ⟨hudp, hnext.ge, fun sid' _ => ?_⟩
  rw [hstatus]
  by_cases hsid : sid' = sid
  · rw [hsid, Function.update_self, haddr]
  · rw [Function.update_of_ne hsid]

/-- A new conn does not make an old one udp. -/
private theorem keepsUdp_alloc {k : Conn} (hconn : s'.conn = Function.update s.conn s.nextConn k) :
    KeepsUdp s s' := by
  intro c hc hudp
  rwa [hconn, Function.update_of_ne (Nat.ne_of_lt hc)] at hudp

/-- Early effects change no conn to udp, and no status's address. -/
private theorem keeps_early (heffect : Early s₀ i s s') : Keeps s s' := by
  cases heffect with
  | kernel | leak | close | poll | note | error => exact keeps_of_eq (keepsUdp_of_eq rfl) rfl rfl
  | header => exact keeps_of_eq (keepsUdp_update rfl id) rfl rfl
  | unflag => exact keeps_of_eq (keepsUdp_update rfl id) rfl rfl
  | buffer => exact keeps_update (keepsUdp_of_eq rfl) rfl rfl rfl
  | ready =>
    refine ⟨keepsUdp_of_eq rfl, Nat.le_succ _, fun sid hsid => ?_⟩
    rw [sendCallback_status, addStatus_status, Function.update_of_ne (Nat.ne_of_lt hsid)]

/-- Nor do the other effects. -/
private theorem keeps_effect (heffect : Effect s₀ i s s') : Keeps s s' := by
  cases heffect with
  | early hearly => exact keeps_early hearly
  | oneWay | context | address => exact keeps_of_eq (keepsUdp_update rfl id) rfl rfl
  | datagram _ _ _ hproto => exact keeps_of_eq (keepsUdp_update rfl fun _ => hproto) rfl rfl
  | opened => exact keeps_of_eq (keepsUdp_alloc rfl) rfl rfl
  | listening | swap | phase => exact keeps_of_eq (keepsUdp_of_eq rfl) rfl rfl
  | get | failedGet => exact keeps_update (keepsUdp_of_eq rfl) rfl rfl rfl
  | expire => exact keeps_update (keepsUdp_update rfl id) rfl rfl rfl
  | removal =>
    obtain ⟨index, heq⟩ := removalPass_eq s
    rw [heq]
    exact keeps_of_eq (fun _ _ hudp => hudp) rfl rfl
  | @call call rest junk =>
    rw [makeCall_eq]
    refine keeps_of_eq (keepsUdp_update rfl fun hudp => ?_) rfl rfl
    -- Only a udp conn takes a protocol from the call's data.
    by_cases hproto : (s.conn call.conn).protocolType = .udp
    · exact hproto
    · rwa [loaded_of_no_data s call junk (.inr hproto)] at hudp
  | @finish f stack =>
    rw [finishCall_eq]
    refine ⟨keepsUdp_of_eq rfl, Nat.le_refl _, fun sid _ => ?_⟩
    obtain ⟨connContext, heq⟩ := saveContext_status s f sid
    show ((s.saveContext f).status sid).remoteAddress = _
    rw [heq]

/-- Nor does a chain of them. -/
private theorem keeps_effects (h : Relation.ReflTransGen (Effect s₀ i) s s') : Keeps s s' := by
  induction h with
  | refl => exact .refl s
  | tail hsteps heffect ih => exact ih.trans (effects_nextConn_le hsteps) (keeps_effect heffect)

/-- Nor does the last one. -/
private theorem keeps_final (hfinal : Final s₀ i s s') : Keeps s s' := by
  cases hfinal with
  | handled => exact keeps_of_eq (keepsUdp_update rfl id) rfl rfl
  | matched => exact keeps_update (keepsUdp_update rfl id) rfl rfl rfl
  | unmatched | refuse => exact keeps_of_eq (keepsUdp_of_eq rfl) rfl rfl
  | @drop c event =>
    refine ⟨keepsUdp_of_eq (localDisconnect_conn s c event),
      (localDisconnect_nextStatus s c event).ge, fun sid _ => ?_⟩
    show ((s.localDisconnect c event).status sid).remoteAddress = _
    rw [localDisconnect_status, unsetStatus_status_apply]
    split <;> rfl
  | fail => exact keeps_of_eq (keepsUdp_alloc rfl) rfl rfl

/-! ## Steps that are not excluded -/

/-- An error that is reported for a udp conn has no address. -/
theorem bareError_of_errs {c : ConnId} (h : i.Errs s c) (hudp : (s.conn c).protocolType = .udp) :
    bareError s i = some c := by
  cases h with
  | tcp h htcp => exact Protocol.noConfusion (htcp.symm.trans hudp)
  | udp h _ hfails =>
    obtain ⟨index, hphase, hlisted⟩ := h.listed
    simp [h.input, bareError, hphase, hlisted, hfails]
  | disconnect h hfails => rw [h.input, bareError, if_pos hfails]
  | unlisten h hfails =>
    rw [h.input, bareError, if_neg]
    rintro ⟨hlistening, hnone⟩
    rcases hfails with hnot | hsome
    · exact Bool.noConfusion (hlistening.symm.trans hnot)
    · rw [Option.isNone_iff_eq_none.mp hnone] at hsome
      exact Bool.noConfusion hsome
  | send h hfails => rw [h.input, bareError, if_pos hfails]
  | get h hfails => rw [h.input, bareError, if_pos hfails]

/-- Nor has the error for a reply that nobody waits for. -/
private theorem bareError_of_unmatched {c : ConnId} {r : ReadIn} (h : i.Reads s c r)
    (hunmatched : s.unmatchedReply c r = true) : bareError s i = some c := by
  obtain ⟨index, hphase, hlisted⟩ := h.listed
  simp [h.input, bareError, hphase, hlisted, hunmatched]

/-- Under the condition such errors are for conns that are not udp. -/
private theorem not_udp_of_bareError {c : ConnId} (hok : carriesAddress s i = true)
    (hbare : (s.conn c).protocolType = .udp → bareError s i = some c) :
    (s.conn c).protocolType ≠ .udp := by
  intro hudp
  simp only [carriesAddress, hbare hudp, hudp, Option.all_some, ne_eq, not_true_eq_false,
    decide_false, Bool.false_and] at hok
  exact Bool.noConfusion hok

/-- A timeout of a udp conn that the loop comes to is followed by one for the same address. -/
private theorem next_of_nextAgrees {now : Nat} {pre rest : List Timeout} {t : Timeout}
    (hok : nextAgrees s now (pre ++ t :: rest) = true) (hdue : ∀ t' ∈ pre ++ [t], t'.at_ ≤ now)
    (hudp : (s.conn t.conn).protocolType = .udp) :
    (s.status (rest.headD t).status).remoteAddress = (s.status t.status).remoteAddress := by
  induction pre with
  | nil =>
    have hle := hdue t (List.mem_singleton_self t)
    rw [List.nil_append, nextAgrees, if_neg (by omega)] at hok
    have hnext := (Bool.and_eq_true_iff.mp hok).1
    cases rest with
    | nil => rfl
    | cons next rest => simpa [hudp] using hnext
  | cons t' pre ih =>
    have hle := hdue t' List.mem_cons_self
    rw [List.cons_append, nextAgrees, if_neg (by omega)] at hok
    exact ih (Bool.and_eq_true_iff.mp hok).2 fun t'' ht'' => hdue t'' (List.mem_cons_of_mem _ ht'')

/-! ## One effect -/

/-- A call that was queued before still carries its address. -/
private theorem carries_of_keeps {p : PendingCall} (h : Addressed s) (ha : Allocated s)
    (hk : Keeps s s')
    (htrace : s.trace ⊆ s'.trace) (hp : Obs.queued p ∈ s.trace) : p.Carries s' := by
  have hudp := hk.udp p.conn (ha.queued p hp)
  obtain ⟨haddress, hsender, hstatus⟩ := h.calls p hp
  refine ⟨fun hproto data hdata => ?_, fun hproto a sid hd payload context hcause => ?_,
    fun sid id context hcause => (hstatus sid id context hcause).trans_le hk.next⟩
  · obtain ⟨a, habout, haddr⟩ := haddress (hudp hproto) data hdata
    refine ⟨a, ?_, haddr⟩
    rw [← habout]
    unfold PendingCall.about
    split
    · rfl
    · rename_i sid id context hcause
      rw [hk.address sid (hstatus sid id context hcause)]
    · rfl
    · rfl
    · rfl
  · obtain ⟨bytes, hin⟩ := hsender (hudp hproto) a sid hd payload context hcause
    exact ⟨bytes, htrace hin⟩

/-- The timeouts of udp conns are for udp addresses. -/
private theorem addressed_timeouts (h : Addressed s) (ha : Allocated s) (hk : Keeps s s')
    {t : Timeout} (ht : t ∈ s.timeouts) (hudp : (s'.conn t.conn).protocolType = .udp) :
    (s'.status t.status).remoteAddress.protocolType = .udp := by
  rw [hk.address t.status (ha.timeouts t ht).2]
  exact h.timeouts t ht (hk.udp t.conn (ha.timeouts t ht).1 hudp)

/-- Nothing is observed. -/
private theorem addressed_quiet (h : Addressed s) (ha : Allocated s) (hk : Keeps s s')
    (htrace : s'.trace = s.trace) (htimeouts : s'.timeouts = s.timeouts) : Addressed s' where
  calls _ hp := carries_of_keeps h ha hk (fun _ ho => htrace ▸ ho) (htrace ▸ hp)
  timeouts _ ht := addressed_timeouts h ha hk (htimeouts ▸ ht)

/-- A step that queues nothing. -/
private theorem addressed_log (h : Addressed s) (ha : Allocated s) (hk : Keeps s s') {o : Obs}
    (ho : o.isQueued = false) (htrace : s'.trace = o :: s.trace)
    (htimeouts : ∀ t ∈ s'.timeouts, t ∈ s.timeouts ∨ ((s'.conn t.conn).protocolType = .udp →
      (s'.status t.status).remoteAddress.protocolType = .udp)) : Addressed s' where
  calls p hp := by
    apply carries_of_keeps h ha hk
    · exact fun _ ho' => htrace ▸ List.mem_cons_of_mem _ ho'
    · rw [htrace] at hp
      refine (List.mem_cons.mp hp).resolve_left ?_
      rintro rfl
      exact Bool.noConfusion ho
  timeouts t ht := (htimeouts t ht).elim (addressed_timeouts h ha hk) id

/-- One call is queued. -/
private theorem addressed_queue (h : Addressed s) (ha : Allocated s) (hk : Keeps s s')
    {p : PendingCall} (htrace : s'.trace = .queued p :: s.trace) (hcarries : p.Carries s')
    (htimeouts : s'.timeouts ⊆ s.timeouts) : Addressed s' where
  calls p' hp := by
    rw [htrace] at hp
    rcases List.mem_cons.mp hp with heq | hin
    · exact Obs.queued.inj heq ▸ hcarries
    · exact carries_of_keeps h ha hk (fun _ ho => htrace ▸ List.mem_cons_of_mem _ ho) hin
  timeouts t ht := addressed_timeouts h ha hk (htimeouts ht)

/-- A call that is neither a message nor the end of a get. -/
private theorem carries_plain {p : PendingCall} (hcause : p.cause.isPlain = true)
    (haddress : (s.conn p.conn).protocolType = .udp → ∀ data, p.data = some data →
      ∃ a, p.about s = some a ∧ a.protocolType = .udp ∧ data.metadata.remoteAddress = some a) :
    p.Carries s where
  address := haddress
  sender _ a sid hd payload context heq := by
    rw [heq] at hcause
    exact Bool.noConfusion hcause
  status sid id context heq := by
    rw [heq] at hcause
    exact Bool.noConfusion hcause

/-- A call for a conn that is not udp. -/
private theorem carries_of_not_udp {p : PendingCall} (hcause : ∀ sid id context,
      p.cause ≠ .timeout sid id context) (h : (s.conn p.conn).protocolType ≠ .udp) :
    p.Carries s :=
  ⟨fun hudp => absurd hudp h, fun hudp => absurd hudp h,
    fun sid id context heq => absurd heq (hcause sid id context)⟩

/-- A call without data. -/
private theorem carries_no_data {p : PendingCall} (hcause : p.cause.isPlain = true)
    (h : p.data = none) :
    p.Carries s := by
  apply carries_plain hcause
  intro _ data hdata
  rw [h] at hdata
  exact absurd hdata.symm (Option.some_ne_none data)

/-- Early effects of a step that meets the condition. -/
private theorem addressed_early (hok : carriesAddress s₀ i = true) (hs₀ : Allocated s₀)
    (hk₀ : Keeps s₀ s)
    (h : Addressed s) (ha : Allocated s) (heffect : Early s₀ i s s') : Addressed s' := by
  have hk := keeps_early heffect
  cases heffect with
  | kernel | leak | close | poll | buffer | unflag => exact addressed_quiet h ha hk rfl rfl
  | note o ho => exact addressed_log h ha hk (Obs.isQueued_of_isNote ho) rfl fun _ => .inl
  | header => exact addressed_log h ha hk rfl rfl fun _ => .inl
  | @ready c =>
    refine addressed_queue h ha hk rfl (carries_plain rfl fun hudp data hdata => ?_) fun _ ht => ht
    obtain rfl := Option.some.inj hdata
    exact ⟨(s.conn c).remoteAddress, rfl, hudp, rfl⟩
  | @error c msg herrs =>
    have hnot := not_udp_of_bareError hok (bareError_of_errs herrs)
    refine addressed_queue h ha hk rfl (carries_of_not_udp (fun _ _ _ => Cause.noConfusion) ?_)
      fun _ ht => ht
    exact fun hudp => hnot (hk₀.udp c (herrs.reports.allocated hs₀) hudp)

/-- The error of a get that timed out. -/
private theorem addressed_expire (hok : carriesAddress s₀ (.timeouts now) = true)
    (hs₀ : Allocated s₀) (hk₀ : Keeps s₀ s) (h : Addressed s) (ha : Allocated s) {t : Timeout}
    {rest : List Timeout} {context : Ptr} {data : MsgData} (htimeouts : s.timeouts = t :: rest)
    (haddr : data.metadata.remoteAddress = some (s.status (rest.headD t).status).remoteAddress)
    (hpass : ∃ pre, s₀.timeouts = pre ++ t :: rest ∧ ∀ t' ∈ pre ++ [t], t'.at_ ≤ now)
    (hk : Keeps s ((s.timeOut t rest context).sendCallback t.conn .error (some data) .nothing
      (.timeout t.status t.replyId context))) :
    Addressed ((s.timeOut t rest context).sendCallback t.conn .error (some data) .nothing
      (.timeout t.status t.replyId context)) := by
  have ht : t ∈ s.timeouts := htimeouts ▸ List.mem_cons_self
  have hstatus := (ha.timeouts t ht).2
  refine addressed_queue h ha hk rfl ⟨?_, fun _ _ _ _ _ _ heq => Cause.noConfusion heq, ?_⟩ ?_
  · intro hudp data' hdata
    obtain rfl := Option.some.inj hdata
    have hudp := hk.udp t.conn (ha.timeouts t ht).1 hudp
    refine ⟨(s.status t.status).remoteAddress, ?_, h.timeouts t ht hudp, ?_⟩
    · exact congrArg some (hk.address t.status hstatus)
    · obtain ⟨pre, heq, hdue⟩ := hpass
      have hagrees := (Bool.and_eq_true_iff.mp hok).2
      have hmem : ∀ t' ∈ t :: rest, t' ∈ s₀.timeouts := fun t' ht' =>
        heq ▸ List.mem_append_right pre ht'
      have hhead : rest.headD t ∈ t :: rest := by
        cases rest with
        | nil => exact List.mem_cons_self
        | cons next rest => exact List.mem_cons_of_mem _ List.mem_cons_self
      have hudp₀ := hk₀.udp t.conn (hs₀.timeouts t (hmem t List.mem_cons_self)).1 hudp
      -- The addresses are those from before the pass.
      have hnext := next_of_nextAgrees (heq ▸ hagrees) hdue hudp₀
      rw [haddr, hk₀.address _ (hs₀.timeouts _ (hmem _ hhead)).2, hnext,
        hk₀.address _ (hs₀.timeouts t (hmem t List.mem_cons_self)).2]
  · intro sid id context' hcause
    injection hcause with hsid
    exact hsid ▸ hstatus
  · intro t' ht'
    exact htimeouts ▸ List.mem_cons_of_mem _ ht'

/-- The other effects of such a step. -/
private theorem addressed_effect (hok : carriesAddress s₀ i = true) (hs₀ : Allocated s₀)
    (hk₀ : Keeps s₀ s) (h : Addressed s) (ha : Allocated s) (heffect : Effect s₀ i s s') :
    Addressed s' := by
  have hk := keeps_effect heffect
  cases heffect with
  | early hearly => exact addressed_early hok hs₀ hk₀ h ha hearly
  | oneWay => exact addressed_log h ha hk rfl rfl fun _ => .inl
  | @datagram c r d =>
    exact addressed_log h ha hk (o := .datagram c ⟨d.ip, d.port, .udp⟩ d.bytes) rfl rfl
      fun _ => .inl
  | opened => exact addressed_log h ha hk rfl rfl fun _ => .inl
  | listening =>
    exact addressed_queue h ha hk rfl (carries_no_data rfl rfl) fun _ ht => ht
  | context | address | swap | phase => exact addressed_quiet h ha hk rfl rfl
  | @get c payload context now w sid o _ _ _ hsid =>
    apply addressed_log h ha hk (by rfl : (Obs.got c sid (s.status sid).nextReplyId context
      true).isQueued = false) rfl
    intro t ht
    rcases List.mem_append.mp ht with hin | hin
    · exact .inl hin
    · -- The status was found under the conn's address.
      obtain rfl := List.mem_singleton.mp hin
      obtain ⟨hlt, haddr, -⟩ := ha.status _ sid hsid
      refine .inr fun hudp => ?_
      rw [hk.address sid hlt, haddr]
      exact hudp
  | failedGet => exact addressed_log h ha hk rfl rfl fun _ => .inl
  | expire hinput _ htimeouts _ _ hmetadata hpass =>
    subst hinput
    exact addressed_expire hok hs₀ hk₀ h ha htimeouts hmetadata.2 hpass hk
  | removal =>
    obtain ⟨index, heq⟩ := removalPass_eq s
    rw [heq] at hk ⊢
    exact addressed_quiet h ha hk rfl rfl
  | call =>
    rw [makeCall_eq] at hk ⊢
    exact addressed_log h ha hk rfl rfl fun _ => .inl
  | finish =>
    rw [finishCall_eq] at hk ⊢
    exact addressed_quiet h ha hk rfl rfl

/-- A message that is handed over. -/
private theorem addressed_frame (h : Addressed s) (ha : Allocated s) (hk : Keeps s s') {c : ConnId}
    {r : ReadIn} {k : Conn} {m : Message} {event : Event} {data : MsgData} {sid : StatusId}
    {hd : Header} {payload : List (Option UInt8)} {context : Option Ptr}
    (hconn : s'.conn = Function.update s.conn c k)
    (hremote : k.remoteAddress = (s.conn c).remoteAddress)
    (htrace : s'.trace = .queued ⟨c, event, some data, .nothing, .frame (s.conn c).remoteAddress
      sid hd payload context⟩ :: s.trace)
    (hudp : (s.conn c).protocolType = .udp →
      data.metadata.remoteAddress = some (s.conn c).remoteAddress)
    (hfrom : (s.conn c).protocolType = .udp → s₀.FromDatagram c r s m)
    (htimeouts : s'.timeouts ⊆ s.timeouts) : Addressed s' := by
  have hproto : (s'.conn c).protocolType = .udp → (s.conn c).protocolType = .udp := by
    rw [hconn, Function.update_self, Conn.protocolType, hremote]
    exact id
  refine addressed_queue h ha hk htrace ⟨?_, ?_, fun _ _ _ heq => Cause.noConfusion heq⟩ htimeouts
  · intro hudp' data' hdata
    obtain rfl := Option.some.inj hdata
    exact ⟨(s.conn c).remoteAddress, rfl, hproto hudp', hudp (hproto hudp')⟩
  · intro hudp' a sid' hd' payload' context' hcause
    injection hcause with ha
    obtain ⟨raw, d, -, -, -, -, haddr, hheard⟩ := hfrom (hproto hudp')
    refine ⟨d.bytes, htrace ▸ List.mem_cons_of_mem _ ?_⟩
    rw [← ha, haddr]
    exact hheard

/-- The last effect of such a step. -/
private theorem addressed_final (hok : carriesAddress s₀ i = true) (hs₀ : Allocated s₀)
    (hk₀ : Keeps s₀ s) (h : Addressed s) (ha : Allocated s) (hfinal : Final s₀ i s s') :
    Addressed s' := by
  have hk := keeps_final hfinal
  cases hfinal with
  | handled _ _ _ _ hudp hfrom =>
    exact addressed_frame h ha hk rfl rfl rfl (fun hproto => (hudp hproto).2) hfrom fun _ ht => ht
  | matched _ _ _ _ _ hudp _ hfrom =>
    exact addressed_frame h ha hk rfl rfl rfl (fun hproto => (hudp hproto).2) hfrom
      fun _ ht => List.mem_of_mem_eraseP ht
  | @unmatched c r m ph hreads _ _ _ _ _ _ hunmatched =>
    refine addressed_queue h ha hk rfl (carries_of_not_udp (fun _ _ _ => Cause.noConfusion) ?_)
      fun _ ht => ht
    intro hudp
    have hbare := bareError_of_unmatched hreads (hunmatched hudp)
    exact not_udp_of_bareError hok (fun _ => hbare) (hk₀.udp c (hreads.allocated hs₀) hudp)
  -- A closing call carries no data.
  | @drop c event =>
    refine addressed_queue h ha hk (localDisconnect_trace s c event) (carries_no_data rfl rfl) ?_
    exact fun _ ht => localDisconnect_timeouts s c event ▸ ht
  | @refuse c index soError msg hvisits hstart hpollerr herror =>
    refine addressed_queue h ha hk rfl (carries_of_not_udp (fun _ _ _ => Cause.noConfusion) ?_)
      fun _ ht => ht
    -- A refused udp conn would leave a bare error, which the condition excludes.
    subst hstart
    apply not_udp_of_bareError hok
    intro _
    rw [hvisits.input, bareError, Input.refuseTarget, hvisits.phase]
    exact (if_pos ⟨hpollerr, herror⟩).trans hvisits.listed
  | @fail k msg _ _ _ _ hfailed =>
    -- An address that cannot be opened is not a udp one.
    have hnot : k.protocolType ≠ .udp := by
      have hfails := (Bool.and_eq_true_iff.mp (Bool.and_eq_true_iff.mp hok).1).2
      rw [hfailed, Option.all_some, decide_eq_true_eq] at hfails
      exact hfails
    have hopened : Addressed (s.allocConn k) :=
      addressed_log h ha (keeps_of_eq (keepsUdp_alloc rfl) rfl rfl) (o := .opened s.nextConn)
        rfl rfl
        fun _ => .inl
    refine addressed_queue hopened (allocated_allocConn ha k)
      (keeps_of_eq (keepsUdp_of_eq rfl) rfl rfl) rfl
      (carries_of_not_udp (fun _ _ _ => Cause.noConfusion) ?_) fun _ ht => ht
    show (Function.update s.conn s.nextConn k s.nextConn).protocolType ≠ .udp
    rw [Function.update_self]
    exact hnot

end State

/-- The invariant in every run whose steps meet the condition. -/
theorem reach_addressed {s : State} (h : machine.Reach (fun s i => carriesAddress s i = true) s) :
    Addressed s := by
  have hall : Allocated s ∧ Addressed s := by
    refine reach_invariant (fun s => Allocated s ∧ Addressed s) ?_ ?_ ?_ h
    · have hstart : machine.Reach (fun _ _ => True) State.init := .init
      exact ⟨reach_allocated hstart, fun _ hp => absurd hp List.not_mem_nil,
        fun _ ht => absurd ht List.not_mem_nil⟩
    · rintro s₀ s s' i hok ⟨hs₀, -⟩ hsteps ⟨ha, hinv⟩ heffect
      exact ⟨State.allocated_effect hs₀ (State.effects_nextConn_le hsteps) ha heffect,
        State.addressed_effect hok hs₀ (State.keeps_effects hsteps) hinv ha heffect⟩
    · rintro s₀ s s' i hok ⟨hs₀, -⟩ hsteps ⟨ha, hinv⟩ hfinal
      exact ⟨State.allocated_final hs₀ (State.effects_nextConn_le hsteps) ha hfinal,
        State.addressed_final hok hs₀ (State.keeps_effects hsteps) hinv ha hfinal⟩
  exact hall.2

/-- From `s` to `s'` no conn changes its protocol, and none changes its address but that of the
    call, which may take the address that the call is about. -/
def TakesAddress (s s' : State) (p : PendingCall) : Prop :=
  ∀ c, (s'.conn c).protocolType = (s.conn c).protocolType ∧
    ((s'.conn c).remoteAddress = (s.conn c).remoteAddress ∨
      c = p.conn ∧ p.about s = some (s'.conn c).remoteAddress)

/-- What a call carries is all that the conn takes. -/
private theorem takesAddress_of_carries {s s' : State} {p : PendingCall} {rest : List PendingCall}
    {junk : State.Junk} (hcarries : p.Carries s) (hphase : s.phase = .delivering (p :: rest))
    (h : step s (.deliver junk) = some s') : TakesAddress s s' p := by
  intro c
  rw [State.deliver_conn s p rest junk hphase h]
  by_cases hc : c = p.conn
  · subst hc
    rw [Function.update_self]
    by_cases hload : p.data = none ∨ (s.conn p.conn).protocolType ≠ .udp
    · rw [s.loaded_of_no_data p junk hload]
      exact ⟨rfl, .inl rfl⟩
    · rw [not_or, not_not] at hload
      obtain ⟨hsome, hudp⟩ := hload
      obtain ⟨data, hdata⟩ := Option.ne_none_iff_exists'.mp hsome
      obtain ⟨a, habout, hproto, haddr⟩ := hcarries.address hudp data hdata
      have hloaded := (s.loaded_of_udp p junk hdata hudp).2
      rw [haddr, Option.getD_some] at hloaded
      refine ⟨?_, .inr ⟨rfl, by rw [hloaded, habout]⟩⟩
      rw [Conn.protocolType, hloaded, hproto, hudp]
  · rw [Function.update_of_ne hc]
    exact ⟨rfl, .inl rfl⟩

/-- In runs whose steps queue no error for a udp conn without its address: every call that was
    queued for a udp conn carries the address that it is about, if it has data, and before a
    callback no conn is given another protocol, nor any address but that one. -/
theorem udp_calls_addressed {s : State}
    (h : machine.Reach (fun s i => carriesAddress s i = true) s) :
    (∀ p, Obs.queued p ∈ s.trace → p.Carries s) ∧
      ∀ p rest junk s', s.phase = .delivering (p :: rest) → step s (.deliver junk) = some s' →
        TakesAddress s s' p := by
  have haddressed := reach_addressed h
  refine ⟨haddressed.calls, fun p rest junk s' hphase hdeliver => ?_⟩
  have hpending : p ∈ s.pending := by simp [State.pending, hphase, Phase.saved]
  have hqueued := (reach_allocated h).pending p hpending
  exact takesAddress_of_carries (haddressed.calls p hqueued) hphase hdeliver

/-- A datagram is read, and the callback for its sender's `msg_connection_ready` begins. -/
theorem udp_calls_addressed_ready :
    ∃ s p s', machine.Reach (fun s i => carriesAddress s i = true) s ∧ Obs.queued p ∈ s.trace ∧
      p.Carries s ∧ p.event = .connectionReady ∧ step s (.deliver {}) = some s' ∧
        TakesAddress s s' p := by
  obtain ⟨s, hreach, hview⟩ := machine.exists_reach_of_run carriesAddress (fun _ _ h => h)
    (listenRun ++ [.env (.datagram 3 messageDatagram), .runloop (.ready [{ pollin := true }]),
      .visit none, .read { peek := .upTo 8 }, .read {}, .endPoll, .timeouts 0])
    (fun s => (s.phase.saved.head?.map fun p => (p, decide (Obs.queued p ∈ s.trace), p.event),
      (step s (.deliver {})).isSome))
    (some (⟨0, .connectionReady, some (State.readyData ⟨1, 1, .udp⟩), .nothing,
      .ready ⟨1, 1, .udp⟩⟩, true, .connectionReady), true) (by decide +kernel)
  obtain ⟨hphase, hstep⟩ := Prod.mk.inj hview
  obtain ⟨s', hs'⟩ := Option.isSome_iff_exists.mp hstep
  obtain ⟨p, hhead, hp⟩ := Option.map_eq_some_iff.mp hphase
  obtain ⟨rest, heq⟩ := Phase.delivering_of_saved hhead
  simp only [Prod.mk.injEq, decide_eq_true_eq] at hp
  have hall := udp_calls_addressed hreach
  exact ⟨s, p, s', hreach, hp.2.1, hall.1 p hp.2.1, hp.2.2, hs', hall.2 p rest {} s' heq hs'⟩

/-- The error of a `msg_send` that failed is queued for a udp conn with an address that nobody
    wrote. What the conn takes from it need not even have a protocol. -/
theorem udp_call_not_addressed :
    ∃ s p rest s', machine.Reach (fun _ _ => True) s ∧ s.phase = .delivering (p :: rest) ∧
      Obs.queued p ∈ s.trace ∧ ¬ p.Carries s ∧ (s.conn p.conn).protocolType = .udp ∧
        step s (.deliver {}) = some s' ∧ (s'.conn p.conn).protocolType = .other := by
  obtain ⟨s, hreach, hview⟩ := machine.exists_reach_of_run (P := fun _ _ => True)
    (fun _ _ => true) (fun _ _ _ => trivial)
    (listenRun ++ [.app (.send 0 [] { result := some .connRefused }), .runloop .nothing,
      .timeouts 0])
    (fun s => s.phase.saved.head?.map fun p : PendingCall =>
      (decide (p.cause = .other ∧ p.data.isSome = true ∧ Obs.queued p ∈ s.trace),
        (s.conn p.conn).protocolType,
        (step s (.deliver {})).map fun s' : State => (s'.conn p.conn).protocolType))
    (some (true, .udp, some .other)) (by decide +kernel)
  obtain ⟨p, hhead, hp⟩ := Option.map_eq_some_iff.mp hview
  obtain ⟨rest, heq⟩ := Phase.delivering_of_saved hhead
  simp only [Prod.mk.injEq, decide_eq_true_eq] at hp
  obtain ⟨⟨hcause, hdata, hqueued⟩, hudp, hstep⟩ := hp
  obtain ⟨s', hs', hproto⟩ := Option.map_eq_some_iff.mp hstep
  refine ⟨s, p, rest, s', hreach, heq, hqueued, fun hcarries => ?_, hudp, hs', hproto⟩
  obtain ⟨data, hdata⟩ := Option.isSome_iff_exists.mp hdata
  obtain ⟨a, habout, -⟩ := hcarries.address hudp data hdata
  rw [PendingCall.about, hcause] at habout
  exact absurd habout.symm (Option.some_ne_none a)

end Msgbox
