import Msgbox.Lib.History
import Msgbox.Spec.Allocated
import Msgbox.Spec.ConnFields

/-!
# What callbacks see

A callback runs long after its call was queued, and sees the conn's fields as they are by
then. Only udp messages bring their own reply context and address along.

## Key results

- `reach_called`: what the fields of the conn are when a callback runs
- `reply_id_iff`: when `reply_id` is the id of the request that is being handled
-/

namespace Msgbox

open History

/-- The events that hand a message to the application. -/
def Event.isMessage : Event → Bool
  | .message => true
  | .request => true
  | .reply => true
  | _ => false

/-- The event of a call is the one for its cause. -/
def PendingCall.Fits (p : PendingCall) : Prop :=
  match p.cause with
  | .frame _ _ h _ (some _) =>
    (h.kind = .oneWay → p.event = .message) ∧ (h.kind = .request → p.event = .request) ∧
      (h.kind = .reply → p.event = .reply)
  | _ => p.event.isMessage = false

/-- The data of a message that was handed over carry its context and its sender. -/
def PendingCall.HasMetadata (p : PendingCall) : Prop :=
  ∀ a sid h payload context, p.cause = .frame a sid h payload (some context) →
    a.protocolType = .udp ∧ ∃ data, p.data = some data ∧
      data.metadata.replyContext = some context ∧ data.metadata.remoteAddress = some a

/-- The conn's fields in a callback, given what happened before. -/
def CalledRight : Obs → List Obs → Prop
  | .called k p, t =>
    Obs.queued p ∈ t ∧ k.replyId = lastReplyId t p.conn ∧
      ∀ a sid h payload context, p.cause = .frame a sid h payload (some context) →
        k.replyContext = if k.protocolType = .udp then context else lastContext t p.conn
  | _, _ => True

/-- What holds of the calls that were queued and made. -/
structure Called (s : State) : Prop where
  fits : ∀ p, Obs.queued p ∈ s.trace → p.Fits
  metadata : ∀ p, Obs.queued p ∈ s.trace → (s.conn p.conn).protocolType = .udp → p.HasMetadata
  along : Along CalledRight s.trace

namespace State

variable {s₀ s s' : State} {i : Input}

/-- No conn becomes a udp conn. -/
def KeepsUdp (s s' : State) : Prop :=
  ∀ c < s.nextConn, (s'.conn c).protocolType = .udp → (s.conn c).protocolType = .udp

/-- An update that makes no new udp conn keeps the udp conns. -/
theorem keepsUdp_update {c : ConnId} {k : Conn} (hconn : s'.conn = Function.update s.conn c k)
    (hk : k.protocolType = .udp → (s.conn c).protocolType = .udp) : KeepsUdp s s' := by
  intro c' _ hudp
  rw [hconn] at hudp
  by_cases hc : c' = c
  · subst hc
    rw [Function.update_self] at hudp
    exact hk hudp
  · rwa [Function.update_of_ne hc] at hudp

/-- So does leaving the conns alone. -/
theorem keepsUdp_of_eq (hconn : s'.conn = s.conn) : KeepsUdp s s' := by
  intro c _ hudp
  rwa [hconn] at hudp

/-- With the same observations, what was called stays right. -/
private theorem called_of_eq (h : Called s) (ha : Allocated s) (hudp : KeepsUdp s s')
    (htrace : s'.trace = s.trace) : Called s' where
  fits p hp := h.fits p (htrace ▸ hp)
  metadata p hp hproto := by
    rw [htrace] at hp
    exact h.metadata p hp (hudp _ (ha.queued p hp) hproto)
  along := htrace ▸ h.along

/-- One more observation. -/
private theorem called_cons (h : Called s) (ha : Allocated s) (hudp : KeepsUdp s s') {o : Obs}
    (htrace : s'.trace = o :: s.trace)
    (hqueued : ∀ p, o = .queued p →
      p.Fits ∧ ((s'.conn p.conn).protocolType = .udp → p.HasMetadata))
    (hcalled : CalledRight o s.trace) : Called s' where
  fits p hp := by
    rw [htrace] at hp
    rcases List.mem_cons.mp hp with heq | hin
    · exact (hqueued p heq.symm).1
    · exact h.fits p hin
  metadata p hp hproto := by
    rw [htrace] at hp
    rcases List.mem_cons.mp hp with heq | hin
    · exact (hqueued p heq.symm).2 hproto
    · exact h.metadata p hin (hudp _ (ha.queued p hin) hproto)
  along := by
    rw [htrace]
    exact .cons hcalled h.along

/-- A call that is not about a complete message. -/
private theorem called_queue (h : Called s) (ha : Allocated s) (hudp : KeepsUdp s s')
    {p : PendingCall}
    (htrace : s'.trace = .queued p :: s.trace) (hevent : p.event.isMessage = false)
    (hcause : ∀ a sid hd payload context, p.cause ≠ .frame a sid hd payload (some context)) :
    Called s' := by
  refine called_cons h ha hudp htrace (fun p' hp' => ?_) trivial
  obtain rfl := Obs.queued.inj hp'
  refine ⟨?_, fun _ a sid hd payload context heq => absurd heq (hcause a sid hd payload context)⟩
  unfold PendingCall.Fits
  split
  · rename_i heq
    exact absurd heq (hcause _ _ _ _ _)
  · exact hevent

/-- An observation other than a call that is queued or made. -/
private theorem called_log (h : Called s) (ha : Allocated s) (hudp : KeepsUdp s s') {o : Obs}
    (htrace : s'.trace = o :: s.trace) (hqueued : o.isQueued = false)
    (hcalled : CalledRight o s.trace) : Called s' := by
  refine called_cons h ha hudp htrace (fun p hp => ?_) hcalled
  rw [hp] at hqueued
  exact Bool.noConfusion hqueued

/-- What was noted outside of the calls is right by itself. -/
private theorem calledRight_of_isNote {o : Obs} (h : o.isNote = true) (t : List Obs) :
    CalledRight o t := by
  cases o <;> trivial

/-- Early effects keep what was called right. -/
private theorem called_early (h : Called s) (ha : Allocated s) (heffect : Early s₀ i s s') :
    Called s' := by
  cases heffect with
  | kernel | leak | close | poll => exact called_of_eq h ha (keepsUdp_of_eq rfl) rfl
  | note o ho =>
    exact called_log h ha (keepsUdp_of_eq rfl) rfl (Obs.isQueued_of_isNote ho)
      (calledRight_of_isNote ho _)
  | @header c r hd => exact called_log h ha (keepsUdp_update rfl id) rfl rfl trivial
  | buffer => exact called_of_eq h ha (keepsUdp_of_eq rfl) rfl
  | ready =>
    exact called_queue h ha (keepsUdp_of_eq rfl) rfl rfl
      (fun _ _ _ _ _ heq => Cause.noConfusion heq)
  | error =>
    exact called_queue h ha (keepsUdp_of_eq rfl) rfl rfl
      (fun _ _ _ _ _ heq => Cause.noConfusion heq)
  | unflag => exact called_of_eq h ha (keepsUdp_update rfl id) rfl

/-- The switch on the message type, for types that it has a case for. -/
private theorem eventFor_fits {hd : Header} {uninit event : Event}
    (h : eventFor hd uninit = some event) :
    (hd.kind = .oneWay → event = .message) ∧ (hd.kind = .request → event = .request) ∧
      (hd.kind = .reply → event = .reply) := by
  unfold eventFor at h
  refine ⟨fun hk => ?_, fun hk => ?_, fun hk => ?_⟩ <;>
  · rw [hk] at h
    exact (Option.some.inj h).symm

/-- A message that is handed over. -/
private theorem called_frame (h : Called s) (ha : Allocated s) {c : ConnId} {k : Conn}
    {event : Event} {uninit : Event} {data : MsgData} {sid : StatusId} {hd : Header}
    {payload : List (Option UInt8)} {context : Ptr}
    (hconn : s'.conn = Function.update s.conn c k)
    (hk : k.remoteAddress = (s.conn c).remoteAddress)
    (htrace : s'.trace = .queued ⟨c, event, some data, .nothing, .frame (s.conn c).remoteAddress
      sid hd payload (some context)⟩ :: s.trace)
    (hevent : eventFor hd uninit = some event)
    (hudp : (s.conn c).protocolType = .udp → data.metadata.replyContext = some context ∧
      data.metadata.remoteAddress = some (s.conn c).remoteAddress) : Called s' := by
  have hproto : k.protocolType = .udp → (s.conn c).protocolType = .udp := by
    unfold Conn.protocolType
    rw [hk]
    exact id
  refine called_cons h ha (keepsUdp_update hconn hproto) htrace (fun p hp => ?_) trivial
  obtain rfl := Obs.queued.inj hp
  refine ⟨eventFor_fits hevent, fun hudp' => ?_⟩
  have hudp' : (s.conn c).protocolType = .udp := by
    rw [hconn, Function.update_self] at hudp'
    exact hproto hudp'
  intro a' sid' hd' payload' context' heq
  injection heq with haddr _ _ _ hctx
  obtain rfl := Option.some.inj hctx
  subst haddr
  exact ⟨hudp', data, rfl, (hudp hudp').1, (hudp hudp').2⟩

/-- A queued call is made with the conn fields that `make_call` loads for it. -/
private theorem called_makeCall (h : Called s) (ha : Allocated s) (hf : Follows s)
    {call : PendingCall} (hcall : call ∈ s.pending) (rest : List PendingCall) (junk : Junk) :
    Called (s.makeCall call rest junk) := by
  have hqueued := ha.pending call hcall
  rw [makeCall_eq]
  refine called_log h ha (keepsUdp_update rfl ?_) rfl rfl ?_
  · -- Only a udp conn takes a protocol from the call's data.
    intro hudp
    by_cases hproto : (s.conn call.conn).protocolType = .udp
    · exact hproto
    · rwa [loaded_of_no_data s call junk (.inr hproto)] at hudp
  · refine ⟨hqueued, ?_, ?_⟩
    · rw [(loaded_fields s call junk).1, hf.replyId]
    · intro a sid hd payload context hcause
      -- On a udp conn the context comes from the metadata of the call, otherwise it is the conn's.
      by_cases hproto : (s.conn call.conn).protocolType = .udp
      · obtain ⟨haddr, data, hdata, hctx, hremote⟩ :=
          h.metadata call hqueued hproto a sid hd payload context hcause
        obtain ⟨hloaded, hloaded'⟩ := loaded_of_udp s call junk hdata hproto
        rw [hremote, Option.getD_some] at hloaded'
        rw [if_pos (by rw [Conn.protocolType, hloaded', haddr]), hloaded, hctx, Option.getD_some]
      · rw [loaded_of_no_data s call junk (.inr hproto), if_neg hproto, hf.replyContext]

/-- Every effect keeps the calls made right. -/
private theorem called_effect (h : Called s) (ha : Allocated s) (hf : Follows s)
    (heffect : Effect s₀ i s s') : Called s' := by
  cases heffect with
  | early hearly => exact called_early h ha hearly
  | oneWay => exact called_log h ha (keepsUdp_update rfl id) rfl rfl trivial
  | @datagram c r d _ _ hproto =>
    exact called_log h ha (keepsUdp_update rfl fun _ => hproto)
      (o := .datagram c ⟨d.ip, d.port, .udp⟩ d.bytes) rfl rfl trivial
  | opened k =>
    refine called_log h ha ?_ (o := .opened s.nextConn) rfl rfl trivial
    intro c hc hudp
    -- The conn that was just made is not among the conns of before.
    rwa [addToPollFds_conn, addToConns_conn, allocConn_conn, openDescriptor_nextConn,
      Function.update_of_ne (Nat.ne_of_lt hc)] at hudp
  | listening =>
    exact called_queue h ha (keepsUdp_of_eq rfl) rfl rfl
      (fun _ _ _ _ _ heq => Cause.noConfusion heq)
  | context => exact called_of_eq h ha (keepsUdp_update rfl id) rfl
  | address => exact called_of_eq h ha (keepsUdp_update rfl id) rfl
  | get => exact called_log h ha (keepsUdp_of_eq rfl) rfl rfl trivial
  | failedGet => exact called_log h ha (keepsUdp_of_eq rfl) rfl rfl trivial
  | expire =>
    exact called_queue h ha (keepsUdp_update rfl id) rfl rfl
      (fun _ _ _ _ _ heq => Cause.noConfusion heq)
  | swap => exact called_of_eq h ha (keepsUdp_of_eq rfl) rfl
  | phase => exact called_of_eq h ha (keepsUdp_of_eq rfl) rfl
  | removal =>
    obtain ⟨index, heq⟩ := removalPass_eq s
    rw [heq]
    exact called_of_eq h ha (fun _ _ hudp => hudp) rfl
  | @call call rest junk _ _ hphase =>
    refine called_makeCall h ha hf ?_ rest junk
    simp [pending, hphase, Phase.saved]
  | finish =>
    rw [finishCall_eq]
    exact called_of_eq h ha (keepsUdp_of_eq rfl) rfl

/-- So does the last effect of a step. -/
private theorem called_final (h : Called s) (ha : Allocated s) (hfinal : Final s₀ i s s') :
    Called s' := by
  cases hfinal with
  | @handled c r event m _ hevent _ _ hudp =>
    exact called_frame h ha rfl rfl rfl hevent hudp
  | @matched c r event m context data _ hevent _ _ _ hudp =>
    exact called_frame h ha rfl rfl rfl hevent hudp
  | unmatched =>
    exact called_queue h ha (keepsUdp_of_eq rfl) rfl rfl
      (fun _ _ _ _ _ heq => by
        injection heq with _ _ _ _ hctx
        exact nomatch hctx)
  | @drop c event ph _ _ hevent =>
    refine called_queue h ha (keepsUdp_of_eq (localDisconnect_conn s c event))
      (localDisconnect_trace s c event) ?_ (fun _ _ _ _ _ heq => Cause.noConfusion heq)
    -- A conn is dropped with one of three events, none of which is a message.
    show event.isMessage = false
    cases event <;> first | rfl | exact Bool.noConfusion hevent
  | refuse =>
    exact called_queue h ha (keepsUdp_of_eq rfl) rfl rfl
      (fun _ _ _ _ _ heq => Cause.noConfusion heq)
  | fail k =>
    -- First the conn is made, then its error is queued.
    have hudp : KeepsUdp s (s.allocConn k) := by
      intro c hc hudp
      rwa [allocConn_conn, Function.update_of_ne (Nat.ne_of_lt hc)] at hudp
    have hopened : Called (s.allocConn k) :=
      called_log h ha hudp (o := .opened s.nextConn) rfl rfl trivial
    exact called_queue hopened (allocated_allocConn ha k) (keepsUdp_of_eq rfl) rfl rfl
      (fun _ _ _ _ _ heq => Cause.noConfusion heq)

end State

/-- What holds of callbacks in every run. -/
theorem reach_called {ok : State → Input → Prop} {s : State} (h : machine.Reach ok s) :
    Called s := by
  have hall : (Allocated s ∧ Follows s) ∧ Called s := by
    refine reach_invariant (fun s => (Allocated s ∧ Follows s) ∧ Called s) ?_ ?_ ?_ h
    · have hstart : machine.Reach ok State.init := .init
      exact ⟨⟨reach_allocated hstart, reach_follows hstart⟩, fun _ hp => absurd hp List.not_mem_nil,
        fun _ hp => absurd hp List.not_mem_nil, trivial⟩
    · rintro s₀ s s' i _ ⟨⟨hs₀, -⟩, -⟩ hsteps ⟨⟨ha, hf⟩, hc⟩ heffect
      exact ⟨⟨State.allocated_effect hs₀ (State.effects_nextConn_le hsteps) ha heffect,
        State.follows_effect hf heffect⟩, State.called_effect hc ha hf heffect⟩
    · rintro s₀ s s' i _ ⟨⟨hs₀, -⟩, -⟩ hsteps ⟨⟨ha, hf⟩, hc⟩ hfinal
      exact ⟨⟨State.allocated_final hs₀ (State.effects_nextConn_le hsteps) ha hfinal,
        State.follows_final hf hfinal⟩, State.called_final hc ha hfinal⟩
  exact hall.2


/-! ## The id of a request -/

/-- A call about a message of one of the types that the documentation describes, or about no
    message. -/
def PendingCall.Known (p : PendingCall) : Prop :=
  ∀ a sid h payload context, p.cause = .frame a sid h payload context →
    h.kind = .oneWay ∨ h.kind = .request ∨ h.kind = .reply

/-- The request that a call hands to the application. -/
def PendingCall.request (p : PendingCall) : Option Header :=
  match p.cause with
  | .frame _ _ h _ (some _) => if h.kind = .request then some h else none
  | _ => none

/-- The id that `reply_id` should be in a callback. -/
def PendingCall.wantedId (p : PendingCall) : UInt16 :=
  match p.request with
  | some h => h.replyId
  | none => 0

/-- The readme on `reply_id`: the id of the request in the callback for a `msg_request`, and
    otherwise 0. -/
def IdAsDocumented (k : Conn) (p : PendingCall) : Prop :=
  (p.event = .request → ∃ h, p.request = some h ∧ k.replyId = h.replyId) ∧
    (p.event ≠ .request → k.replyId = 0)

/-- The readme on `msg_send`: in the callback for a `msg_request` it sends the reply to that
    request, and otherwise a one-way message. -/
def SendAsDocumented (s : State) (p : PendingCall) : Prop :=
  (p.event = .request → ∃ h, p.request = some h ∧
      ∀ data, s.sendFrame p.conn data = setHeader .reply h.replyId data.length ++ data) ∧
    (p.event ≠ .request → ∀ data, s.sendFrame p.conn data = setHeader .oneWay 0 data.length ++ data)

/-- The call of a known frame is `msg_request` exactly when the frame is a request. -/
private theorem request_isSome_iff {p : PendingCall} (hfits : p.Fits) (hknown : p.Known) :
    p.event = .request ↔ p.request.isSome = true := by
  unfold PendingCall.Fits at hfits
  unfold PendingCall.request
  split at hfits
  · rename_i a sid h payload context hcause
    rcases hknown a sid h payload _ hcause with hk | hk | hk
    · simp [hk, hfits.1 hk]
    · simp [hk, hfits.2.1 hk]
    · simp [hk, hfits.2.2 hk]
  · rename_i hcause
    constructor
    · intro h
      rw [h] at hfits
      exact Bool.noConfusion hfits
    · exact fun h => Bool.noConfusion h

/-- A header is written for one kind and one id only. -/
private theorem setHeader_inj {t t' : MsgType} {id id' : UInt16} {n : Nat}
    (h : setHeader t id n = setHeader t' id' n) : t.code = t'.code ∧ id = id' := by
  have hdecode := congrArg (fun bs => decodeHeader (bs ++ [])) h
  simp only [setHeader] at hdecode
  rw [decodeHeader_encodeHeader, decodeHeader_encodeHeader] at hdecode
  injection hdecode with htype hid
  exact ⟨htype, hid⟩

namespace State

variable {s : State}

/-- `msg_send` writes a reply to `id` exactly while the `reply_id` of the conn is `id`, and not
    0. -/
private theorem sendFrame_eq_reply_iff {c : ConnId} {id : UInt16} :
    (∀ data, s.sendFrame c data = setHeader .reply id data.length ++ data) ↔
      (s.conn c).replyId = id ∧ id ≠ 0 := by
  unfold sendFrame
  constructor
  · intro h
    -- The empty message is enough to tell the headers apart.
    have hnil := setHeader_inj (List.append_cancel_right (h []))
    obtain ⟨htype, hid⟩ := hnil
    refine ⟨hid, ?_⟩
    rintro rfl
    rw [hid] at htype
    exact absurd htype (by decide)
  · rintro ⟨hid, hne⟩ data
    simp [hid, hne]

/-- It writes one-way messages exactly while the `reply_id` is 0. -/
private theorem sendFrame_eq_oneWay_iff {c : ConnId} :
    (∀ data, s.sendFrame c data = setHeader .oneWay 0 data.length ++ data) ↔
      (s.conn c).replyId = 0 := by
  unfold sendFrame
  constructor
  · intro h
    exact (setHeader_inj (List.append_cancel_right (h []))).2
  · intro hid data
    simp [hid]

end State

/-- The callback sees the documented id exactly when the conn has it. -/
private theorem idAsDocumented_iff {k : Conn} {p : PendingCall} (hfits : p.Fits)
    (hknown : p.Known) :
    IdAsDocumented k p ↔ k.replyId = p.wantedId := by
  have hiff := request_isSome_iff hfits hknown
  unfold IdAsDocumented PendingCall.wantedId
  cases hrequest : p.request with
  | none =>
    rw [hrequest] at hiff
    simp [hiff]
  | some h =>
    rw [hrequest] at hiff
    simp [hiff]

/-- A `msg_send` in the callback answers as documented exactly when the conn has that id, and
    the request has one. -/
private theorem sendAsDocumented_iff {s : State} {p : PendingCall} (hfits : p.Fits)
    (hknown : p.Known) :
    SendAsDocumented s p ↔
      (s.conn p.conn).replyId = p.wantedId ∧ (p.event = .request → p.wantedId ≠ 0) := by
  have hiff := request_isSome_iff hfits hknown
  unfold SendAsDocumented PendingCall.wantedId
  simp only [State.sendFrame_eq_reply_iff, State.sendFrame_eq_oneWay_iff]
  cases hrequest : p.request with
  | none =>
    rw [hrequest] at hiff
    simp [hiff]
  | some h =>
    rw [hrequest] at hiff
    simp [hiff]

/-- In a callback `reply_id` is as documented if and only if the last header that was read on
    the conn left the right id there, and a `msg_send` made first thing sends the documented
    message if and only if, besides, the id of the request is not 0. -/
theorem reply_id_iff {ok : State → Input → Prop} {s : State} (h : machine.Reach ok s)
    {t₁ t₂ : List Obs} {k : Conn} {p : PendingCall}
    (htrace : s.trace = t₁ ++ .called k p :: t₂) (hknown : p.Known) :
    (IdAsDocumented k p ↔ lastReplyId t₂ p.conn = p.wantedId) ∧
      (t₁ = [] → (SendAsDocumented s p ↔
        lastReplyId t₂ p.conn = p.wantedId ∧ (p.event = .request → p.wantedId ≠ 0))) := by
  have hcalled := reach_called h
  obtain ⟨hqueued, hid, -⟩ := hcalled.along.at htrace
  have hfits : p.Fits := by
    refine hcalled.fits p ?_
    rw [htrace]
    simp [hqueued]
  refine ⟨by rw [idAsDocumented_iff hfits hknown, hid], ?_⟩
  rintro rfl
  -- Nothing has happened since the callback began.
  have hnow : (s.conn p.conn).replyId = lastReplyId t₂ p.conn := by
    rw [(reach_follows h).replyId, htrace]
    rfl
  rw [sendAsDocumented_iff hfits hknown, hnow]

/-- Requests are of a known kind. -/
private theorem known_of_request {p : PendingCall} {hd : Header} (h : p.request = some hd) :
    p.Known := by
  intro a sid hd' payload context hcause
  unfold PendingCall.request at h
  rw [hcause] at h
  split at h
  · rename_i heq
    injection heq with _ _ hhd
    subst hhd
    split at h
    · rename_i hkind
      exact .inr (.inl hkind)
    · exact nomatch h
  · exact nomatch h

/-- The callback that has just begun, with what happened before it. -/
def justCalled (s : State) : Option (Conn × PendingCall × List Obs) :=
  match s.trace with
  | .called k p :: t => some (k, p, t)
  | _ => none

/-- The call just made is the newest observation. -/
theorem trace_of_justCalled {s : State} {k : Conn} {p : PendingCall} {t : List Obs}
    (h : justCalled s = some (k, p, t)) : s.trace = [] ++ .called k p :: t := by
  unfold justCalled at h
  split at h
  · rename_i heq
    simp only [Option.some.injEq, Prod.mk.injEq] at h
    obtain ⟨rfl, rfl, rfl⟩ := h
    exact heq
  · exact nomatch h

/-- A one-way message that arrives behind a request with the id 5. -/
def requestThenMessage : List UInt8 :=
  setHeader .request 5 1 ++ [65] ++ setHeader .oneWay 0 1 ++ [66]

/-- With only the request read by then, its callback sees the id and replies to it. -/
theorem reply_id_request :
    ∃ s k p t, machine.Reach (fun _ _ => True) s ∧ s.trace = [] ++ .called k p :: t ∧
      p.event = .request ∧ IdAsDocumented k p ∧ SendAsDocumented s p := by
  obtain ⟨s, hreach, hview⟩ := machine.exists_reach_of_run (P := fun _ _ => True)
    (fun _ _ => true) (fun _ _ _ => trivial) (connectRun ++ readMessages requestThenMessage 1)
    (fun s => (justCalled s).map fun (_, p, t) =>
      (p.event, p.request, lastReplyId t p.conn, p.wantedId))
    (some (.request, some ⟨1, 5, 1⟩, 5, 5)) (by decide +kernel)
  obtain ⟨⟨k, p, t⟩, hcalled, heq⟩ := Option.map_eq_some_iff.mp hview
  simp only [Prod.mk.injEq] at heq
  obtain ⟨hevent, hrequest, hlast, hwanted⟩ := heq
  have htrace := trace_of_justCalled hcalled
  have hiff := reply_id_iff hreach htrace (known_of_request hrequest)
  refine ⟨s, k, p, t, hreach, htrace, hevent, hiff.1.mpr (hlast.trans hwanted.symm), ?_⟩
  exact (hiff.2 rfl).mpr ⟨hlast.trans hwanted.symm, fun _ => by rw [hwanted]; decide⟩

/-- With both messages read by then, the callback for the request sees the id 0, and what it
    sends first is not the reply. -/
theorem reply_id_not_request :
    ∃ s k p t, machine.Reach (fun _ _ => True) s ∧ s.trace = [] ++ .called k p :: t ∧ p.Known ∧
      p.event = .request ∧ ¬ IdAsDocumented k p ∧ ¬ SendAsDocumented s p := by
  obtain ⟨s, hreach, hview⟩ := machine.exists_reach_of_run (P := fun _ _ => True)
    (fun _ _ => true) (fun _ _ _ => trivial) (connectRun ++ readMessages requestThenMessage 2)
    (fun s => (justCalled s).map fun (k, p, _) =>
      (p.event, p.request, k.replyId, (s.conn p.conn).replyId))
    (some (.request, some ⟨1, 5, 1⟩, 0, 0)) (by decide +kernel)
  obtain ⟨⟨k, p, t⟩, hcalled, heq⟩ := Option.map_eq_some_iff.mp hview
  simp only [Prod.mk.injEq] at heq
  obtain ⟨hevent, hrequest, hid, hnow⟩ := heq
  refine ⟨s, k, p, t, hreach, trace_of_justCalled hcalled, known_of_request hrequest, hevent,
    fun hdoc => ?_, fun hdoc => ?_⟩
  · obtain ⟨hd, hhd, heq⟩ := hdoc.1 hevent
    obtain rfl := Option.some.inj (hrequest.symm.trans hhd)
    rw [hid] at heq
    exact absurd heq (by decide)
  · obtain ⟨hd, hhd, heq⟩ := hdoc.1 hevent
    obtain rfl := Option.some.inj (hrequest.symm.trans hhd)
    rw [State.sendFrame_eq_reply_iff, hnow] at heq
    exact absurd heq.1 (by decide)

end Msgbox
