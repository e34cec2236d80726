import Msgbox.Spec.Callbacks
import Msgbox.Spec.Datagrams
import Msgbox.Spec.Interference
import Msgbox.Spec.Ownership

/-!
# What arrives is what is handed over

The header of a frame is trusted. Its type selects the event, with no case for most values, and
for a datagram the length that it announces is the length that is reported.

## Key results

- `MsgType.event`: the types that have an event, and this event
- `TcpSound`, `UdpSound`: messages have the event of their type and the bytes that arrived
- `reads_sound`: exactly when this is so
-/

namespace Msgbox

/-- The event for a message of a type that has one. -/
def MsgType.event : MsgType → Option Event
  | .oneWay => some .message
  | .request => some .request
  | .reply => some .reply
  | _ => none

/-- The call has the event of a message, or the data of one. -/
def PendingCall.IsMessage (p : PendingCall) : Prop :=
  p.event.isMessage = true ∨
    ∃ a sid h payload context, p.cause = .frame a sid h payload (some context)

/-- Every tcp message that was queued for the conn is a frame of its stream, with the event of the
    frame's type and the bytes behind its header. -/
def TcpSound (s : State) (c : ConnId) : Prop :=
  ∀ p, Obs.queued p ∈ s.trace → p.conn = c → ∀ a sid h payload context,
    p.cause = .frame a sid h payload (some context) → a.protocolType = .tcp →
      ∃ f ∈ (decoded s.trace c).frames, h = decodeHeader f ∧ h.kind.event = some p.event ∧
        p.data.map MsgData.bytes = some ((f.drop headerLen).map some)

/-- The error of the conn for a reply from the address that nobody waits for. -/
structure PendingCall.Unrecognized (p : PendingCall) (c : ConnId) (a : Address) (h : Header) :
    Prop where
  conn : p.conn = c
  event : p.event = .error
  data : p.data = some (msgNewData "Unrecognized reply_id")
  cause : ∃ sid payload, p.cause = .frame a sid h payload none

namespace State

variable {s s' : State} {c : ConnId} {r : ReadIn}

/-- The datagram that a call of `read_from_socket` takes. -/
def takenDatagram (s : State) (c : ConnId) (r : ReadIn) : Option Datagram :=
  match s.peekHeader c r.peek, s.recvfrom c r.recvfrom with
  | .header raw, .ok d => if (decodeHeader raw).kind = .close then none else some d
  | _, _ => none

/-- The datagram that the call takes is of a type that has an event, and as long as it announces;
    or it is a reply that nobody waits for. -/
def datagramSound (s : State) (c : ConnId) (r : ReadIn) : Bool :=
  (s.takenDatagram c r).all fun d =>
    s.unmatchedReply c r || (decodeHeader d.bytes).kind.event.isSome &&
      decide ((decodeHeader d.bytes).numBytes.toNat = d.bytes.length - headerLen)

/-- The messages among the calls that reading a udp conn queues are the datagram that it takes,
    with the event of its type and the bytes behind its header. -/
def UdpSound (s : State) (c : ConnId) (r : ReadIn) (calls : List PendingCall) : Prop :=
  ∀ p ∈ calls, p.IsMessage → ∃ d, s.takenDatagram c r = some d ∧
    (decodeHeader d.bytes).kind.event = some p.event ∧
      p.data.map MsgData.bytes = some ((d.bytes.drop headerLen).map some)

/-! ## Tcp -/

/-- Where the type is known, what is uninitialised does not decide the event. -/
theorem eventFor_eq {h : Header} {uninit event : Event} (hevent : eventFor h uninit = some event)
    (hkind : h.kind.event.isSome = true) : h.kind.event = some event := by
  rw [← hevent]
  unfold eventFor
  cases hk : h.kind <;> rw [hk] at hkind <;> first | rfl | exact absurd hkind Bool.false_ne_true

/-- The messages in frames are those of the frames that have a body. -/
private theorem mem_messagesIn {frames : List (List UInt8)} {x : Header × List (Option UInt8)} :
    x ∈ messagesIn frames ↔
      ∃ f ∈ frames, headerLen < f.length ∧ (decodeHeader f, (f.drop headerLen).map some) = x := by
  simp [messagesIn, and_assoc]

/-- The messages queued for `c` from a stream are those of its tcp frames. -/
theorem mem_tcpMessages {t : List Obs} {x : Header × List (Option UInt8)} :
    x ∈ tcpMessages t c ↔ ∃ p, Obs.queued p ∈ t ∧ p.conn = c ∧
      ∃ a sid context, a.protocolType = .tcp ∧ p.cause = .frame a sid x.1 x.2 context := by
  simp only [tcpMessages, List.mem_filterMap, mem_queuedCalls]
  constructor
  · rintro ⟨p, hp, hmessage⟩
    unfold PendingCall.tcpMessage at hmessage
    split at hmessage
    · rename_i a sid h payload context hcause
      split at hmessage
      · rename_i hcond
        obtain rfl := Option.some.inj hmessage
        exact ⟨p, hp, hcond.1, a, sid, context, hcond.2, hcause⟩
      · exact absurd hmessage.symm (Option.some_ne_none x)
    · exact absurd hmessage.symm (Option.some_ne_none x)
  · rintro ⟨p, hp, hconn, a, sid, context, hproto, hcause⟩
    refine ⟨p, hp, ?_⟩
    simp [PendingCall.tcpMessage, hcause, hconn, hproto]

/-- The messages of a stream are sound exactly if they are of types that have an event. -/
private theorem tcpSound_iff
    (hmessages : tcpMessages s.trace c = messagesIn (decoded s.trace c).frames)
    (hands : HandsOver s) : TcpSound s c ↔ ∀ f ∈ (decoded s.trace c).frames,
      headerLen < f.length → (decodeHeader f).kind.event.isSome = true := by
  constructor
  · intro hsound f hf hlen
    have hmem : (decodeHeader f, (f.drop headerLen).map some) ∈ tcpMessages s.trace c := by
      rw [hmessages]
      exact mem_messagesIn.mpr ⟨f, hf, hlen, rfl⟩
    obtain ⟨p, hp, hconn, a, sid, context, hproto, hcause⟩ := mem_tcpMessages.mp hmem
    have hover := hands p hp a sid _ _ context hcause
    cases context with
    | none =>
      -- Only replies have nobody who waits for them.
      rw [hover.1]
      rfl
    | some context =>
      obtain ⟨-, -, -, hevent, -⟩ := hsound p hp hconn a sid _ _ context hcause hproto
      rw [hevent]
      rfl
  · intro hknown p hp hconn a sid h payload context hcause hproto
    have hmem : (h, payload) ∈ tcpMessages s.trace c :=
      mem_tcpMessages.mpr ⟨p, hp, hconn, a, sid, some context, hproto, hcause⟩
    rw [hmessages] at hmem
    obtain ⟨f, hf, hlen, heq⟩ := mem_messagesIn.mp hmem
    obtain ⟨rfl, rfl⟩ := Prod.mk.inj heq
    obtain ⟨⟨uninit, hevent⟩, hbytes⟩ := hands p hp a sid _ _ (some context) hcause
    exact ⟨f, hf, rfl, eventFor_eq hevent (hknown f hf hlen), hbytes⟩

/-! ## Udp -/

/-- A datagram is taken if its header is whole and is no close header, and the receiving does
    not fail. -/
theorem takenDatagram_some {d : Datagram} (h : s.takenDatagram c r = some d) :
    s.peekHeader c r.peek = .header (d.bytes.take headerLen) ∧ s.recvfrom c r.recvfrom = .ok d ∧
      (decodeHeader (d.bytes.take headerLen)).kind ≠ .close ∧ headerLen ≤ d.bytes.length := by
  unfold takenDatagram at h
  split at h
  · rename_i raw d' hpeek hrecv
    split at h
    · exact absurd h.symm (Option.some_ne_none d)
    · rename_i hkind
      obtain rfl := Option.some.inj h
      -- The datagram is at the head of the queue, where the peek found its header.
      have hqueue : ∃ rest, s.socketOf c = some (.dgram (d' :: rest)) := by
        unfold recvfrom at hrecv
        split at hrecv
        · exact absurd hrecv (by simp)
        · rename_i d'' rest _ hsocket
          obtain rfl := Except.ok.inj hrecv
          exact ⟨rest, hsocket⟩
        · exact absurd hrecv (by simp)
        · exact absurd hrecv (by simp)
      obtain ⟨rest, hqueue⟩ := hqueue
      have hhead := hpeek
      rw [peekHeader_dgram hqueue] at hhead
      split at hhead
      · split at hhead
        · exact Peeked.noConfusion hhead
        · split at hhead
          · exact Peeked.noConfusion hhead
          · rename_i hlen
            obtain rfl := Peeked.header.inj hhead
            exact ⟨hpeek, hrecv, hkind, by omega⟩
      · exact Peeked.noConfusion hhead
      · exact Peeked.noConfusion hhead
      · exact Peeked.noConfusion hhead
  · exact absurd h.symm (Option.some_ne_none d)

/-- A call for another event that hands over no frame is no message. -/
private theorem not_isMessage {p : PendingCall} (hevent : p.event.isMessage = false)
    (hcause : ∀ a sid h payload context, p.cause ≠ .frame a sid h payload (some context)) :
    ¬ p.IsMessage := by
  rintro (hmessage | ⟨a, sid, h, payload, context, heq⟩)
  · exact Bool.noConfusion (hmessage.symm.trans hevent)
  · exact hcause a sid h payload context heq

/-- Neither is the call of a frame of an unknown type. -/
theorem not_isMessage_of_unrecognized {p : PendingCall} {a : Address} {h : Header}
    (hp : p.Unrecognized c a h) : ¬ p.IsMessage := by
  apply not_isMessage
  · rw [hp.event]
    rfl
  · intro a' sid h' payload context heq
    obtain ⟨sid', payload', hcause⟩ := hp.cause
    rw [hcause] at heq
    injection heq with _ _ _ _ hcontext
    exact absurd hcontext.symm (Option.some_ne_none context)

/-- Neither is a closing call. -/
private theorem closingCall_not_isMessage (s : State) (c : ConnId) {event : Event}
    (hevent : event.isMessage = false) : ¬ (s.closingCall c event).IsMessage :=
  not_isMessage hevent fun _ _ _ _ _ => Cause.noConfusion

/-- Accepting a header queues nothing. -/
theorem acceptHeader_queued (s : State) (c : ConnId) (raw : List UInt8) :
    queuedCalls (s.acceptHeader c raw).trace = queuedCalls s.trace := by
  have htake : queuedCalls (s.takeHeader c raw).trace = queuedCalls s.trace := by
    unfold takeHeader
    split
    · exact queuedCalls_cons rfl s.trace
    · rfl
  exact (queuedCalls_cons rfl (s.takeHeader c raw).trace).trans htake

/-- Neither does clearing what a one-way message leaves. -/
private theorem clearOneWay_queued (s : State) (c : ConnId) (header : Header) :
    queuedCalls (s.clearOneWay c header).trace = queuedCalls s.trace := by
  unfold clearOneWay
  split
  · exact queuedCalls_cons rfl _
  · rfl

/-- A system call fails. -/
private theorem osError_queued (s : State) (c : ConnId) (name : String) (e : Errno) :
    ∃ p, queuedCalls (s.sendCallbackOsError c name e .nothing).trace = queuedCalls s.trace ++ [p] ∧
      ¬ p.IsMessage :=
  ⟨⟨c, .error, _, .nothing, .other⟩, queuedCalls_queued _ _,
    not_isMessage rfl fun _ _ _ _ _ => Cause.noConfusion⟩

/-- A call that takes no datagram queues no message. -/
theorem queued_of_not_taken (hudp : (s.conn c).protocolType = .udp)
    (hnone : s.takenDatagram c r = none) :
    ∃ new, queuedCalls (s.readFromSocket c r).1.trace = queuedCalls s.trace ++ new ∧
      ∀ p ∈ new, ¬ p.IsMessage := by
  have hnot : (s.conn c).protocolType ≠ .tcp := by
    rw [hudp]
    exact Protocol.noConfusion
  have hsingle : ∀ {p : PendingCall}, ¬ p.IsMessage → ∀ p' ∈ [p], ¬ p'.IsMessage := by
    intro p hp p' hp'
    rw [List.mem_singleton.mp hp']
    exact hp
  unfold readFromSocket readHeader
  rw [if_neg hnot]
  unfold takenDatagram at hnone
  cases hpeek : s.peekHeader c r.peek with
  | blocked => exact ⟨[], (List.append_nil _).symm, fun _ hp => absurd hp List.not_mem_nil⟩
  -- The socket is gone: the conn is lost.
  | «over» =>
    refine ⟨[s.closingCall c .connectionLost], ?_, hsingle (closingCall_not_isMessage s c rfl)⟩
    rw [localDisconnect_trace, queuedCalls_queued]
  -- `recv` fails, which is reported.
  | failed e =>
    obtain ⟨p, hp, hquiet⟩ := osError_queued s c "recv" e
    exact ⟨[p], hp, hsingle hquiet⟩
  | header raw =>
    simp only [hpeek] at hnone
    dsimp only
    split
    -- A close drops the conn.
    · refine ⟨[(s.acceptHeader c raw).closingCall c .connectionClosed], ?_,
        hsingle (closingCall_not_isMessage _ c rfl)⟩
      rw [localDisconnect_trace, queuedCalls_queued, acceptHeader_queued]
    -- With any other header it is `recvfrom` that fails.
    · rename_i event hevent
      have hkind := (eventFor_isSome _ _).mp (Option.isSome_of_eq_some hevent)
      obtain ⟨id, hconn, hsockets⟩ := acceptHeader_udp hudp raw
      have hrecv : ((s.acceptHeader c raw).clearOneWay c (decodeHeader raw)).recvfrom c r.recvfrom =
          s.recvfrom c r.recvfrom := by
        simp [recvfrom, socketOf, hconn, hsockets]
      unfold recvUdp
      rw [hrecv]
      cases hcase : s.recvfrom c r.recvfrom with
      | ok d =>
        simp only [hcase, if_neg hkind] at hnone
        exact absurd hnone (Option.some_ne_none d)
      | error e =>
        obtain ⟨p, hp, hquiet⟩ :=
          osError_queued ((s.acceptHeader c raw).clearOneWay c (decodeHeader raw)) c "recvfrom" e
        refine ⟨[p], ?_, hsingle hquiet⟩
        exact hp.trans (by rw [clearOneWay_queued, acceptHeader_queued])

/-- What is known of the status of an address. -/
def contextFor (s : State) (a : Address) (id : UInt16) : Option Ptr :=
  (s.connStatus.lookup a).bind fun sid => (s.status sid).replyContexts.lookup id

/-- A new status has no contexts. -/
theorem remoteAddressSeen_context (s : State) (c : ConnId) (id : UInt16) :
    ((s.remoteAddressSeen c).1.status (s.remoteAddressSeen c).2).replyContexts.lookup id =
      s.contextFor (s.conn c).remoteAddress id := by
  unfold remoteAddressSeen contextFor
  cases hstatus : s.statusOfConn c with
  | some sid =>
    rw [statusOfConn] at hstatus
    rw [hstatus]
    rfl
  | none =>
    rw [statusOfConn] at hstatus
    rw [hstatus]
    simp [addStatus_status]

/-- A complete message queues one call: an error if it is a reply that nobody waits for, and
    otherwise the message. -/
theorem handleMessage_call (s : State) (c : ConnId) (event : Event) (m : Message) :
    ∃ p, queuedCalls (s.handleMessage c event m).1.trace = queuedCalls s.trace ++ [p] ∧
      if m.header.kind = .reply ∧
          (s.status m.status).replyContexts.lookup m.header.replyId = none then
        p.Unrecognized c (s.conn c).remoteAddress m.header
      else p.event = event ∧ p.IsMessage ∧ p.data.map MsgData.bytes = some m.data.bytes := by
  unfold handleMessage
  dsimp only
  split
  · rename_i hkind
    split
    · rename_i hnone
      refine ⟨_, queuedCalls_queued _ _, ?_⟩
      rw [if_pos ⟨hkind, hnone⟩]
      exact ⟨rfl, rfl, rfl, m.status, m.data.bytes, rfl⟩
    · rename_i context hlookup
      refine ⟨_, queuedCalls_queued _ _, ?_⟩
      rw [if_neg (by rw [hlookup]; simp)]
      refine ⟨rfl, .inr ⟨_, _, _, _, _, rfl⟩, ?_⟩
      split <;> rfl
  · rename_i hkind
    refine ⟨_, queuedCalls_queued _ _, ?_⟩
    rw [if_neg fun h => hkind h.1]
    exact ⟨rfl, .inr ⟨_, _, _, _, _, rfl⟩, rfl⟩

/-- The conn may be told first that it is ready. -/
theorem remoteAddressSeen_calls (s : State) (c : ConnId) :
    ∃ new, queuedCalls (s.remoteAddressSeen c).1.trace = queuedCalls s.trace ++ new ∧
      ∀ p ∈ new, p.event = .connectionReady ∧ ¬ p.IsMessage := by
  unfold remoteAddressSeen
  split
  · exact ⟨[], (List.append_nil _).symm, fun _ hp => absurd hp List.not_mem_nil⟩
  · refine ⟨[readyCall c (s.conn c).remoteAddress], queuedCalls_queued _ _, fun p hp => ?_⟩
    rw [List.mem_singleton.mp hp]
    exact ⟨rfl, not_isMessage rfl fun _ _ _ _ _ => Cause.noConfusion⟩

/-- A datagram is an unmatched reply when no get of its sender waits for its id. -/
theorem unmatchedReply_iff {d : Datagram} (htaken : s.takenDatagram c r = some d) :
    s.unmatchedReply c r = true ↔ (decodeHeader (d.bytes.take headerLen)).kind = .reply ∧
      s.contextFor ⟨d.ip, d.port, .udp⟩ (decodeHeader (d.bytes.take headerLen)).replyId = none := by
  obtain ⟨hpeek, hrecv, -, -⟩ := takenDatagram_some htaken
  unfold unmatchedReply contextFor
  simp only [hpeek, hrecv, Bool.and_eq_true, beq_iff_eq]
  cases s.connStatus.lookup ⟨d.ip, d.port, .udp⟩ <;> simp

/-- A call that takes a datagram queues it, unless it is a reply that nobody waits for. -/
theorem queued_of_taken (hudp : (s.conn c).protocolType = .udp) {d : Datagram}
    (htaken : s.takenDatagram c r = some d) :
    ∃ new p, queuedCalls (s.readFromSocket c r).1.trace = queuedCalls s.trace ++ (new ++ [p]) ∧
      (∀ p' ∈ new, p'.event = .connectionReady ∧ ¬ p'.IsMessage) ∧
      if s.unmatchedReply c r = true then
        p.Unrecognized c ⟨d.ip, d.port, .udp⟩ (decodeHeader d.bytes)
      else eventFor (decodeHeader d.bytes) r.uninitEvent = some p.event ∧ p.IsMessage ∧
        p.data.map MsgData.bytes = some (datagramBytes (decodeHeader d.bytes).numBytes.toNat
          (d.bytes.drop headerLen)) := by
  have hunmatched := unmatchedReply_iff htaken
  obtain ⟨hpeek, hrecv, hkind, hlen⟩ := takenDatagram_some htaken
  have hheader : decodeHeader (d.bytes.take headerLen) = decodeHeader d.bytes := by
    apply decodeHeader_prefix (List.take_prefix headerLen d.bytes)
    rw [List.length_take]
    omega
  rw [hheader] at hunmatched hkind
  have hnot : (s.conn c).protocolType ≠ .tcp := by
    rw [hudp]
    exact Protocol.noConfusion
  obtain ⟨event, hevent⟩ := Option.isSome_iff_exists.mp
    ((eventFor_isSome (decodeHeader d.bytes) r.uninitEvent).mpr hkind)
  obtain ⟨id, hconn, hsockets⟩ := acceptHeader_udp hudp (d.bytes.take headerLen)
  have hqueued := (clearOneWay_queued (s.acceptHeader c (d.bytes.take headerLen)) c
    (decodeHeader (d.bytes.take headerLen))).trans (acceptHeader_queued s c _)
  -- Up to `recvfrom` nothing changes but the reply id of the conn.
  have htables : ((s.acceptHeader c (d.bytes.take headerLen)).clearOneWay c
        (decodeHeader (d.bytes.take headerLen))).connStatus = s.connStatus ∧
      ((s.acceptHeader c (d.bytes.take headerLen)).clearOneWay c
        (decodeHeader (d.bytes.take headerLen))).status = s.status := by
    simp only [acceptHeader, takeHeader, if_neg hnot, clearOneWay]
    split <;> exact ⟨rfl, rfl⟩
  unfold readFromSocket readHeader
  rw [if_neg hnot, hpeek]
  simp only [hheader, hevent] at hconn hsockets hqueued htables ⊢
  generalize (s.acceptHeader c (d.bytes.take headerLen)).clearOneWay c (decodeHeader d.bytes) = s₁
    at hconn hsockets hqueued htables ⊢
  -- So `recvfrom` gives the same datagram.
  have hrecv₁ : s₁.recvfrom c r.recvfrom = .ok d := by
    rw [← hrecv]
    simp [recvfrom, socketOf, hconn, hsockets]
  have hproto : (s₁.conn c).protocolType = .udp := by
    rw [hconn]
    exact hudp
  unfold recvUdp
  simp only [hrecv₁, hproto]
  generalize hs₂ : ((s₁.consume c d.bytes.length).log (.datagram c ⟨d.ip, d.port, .udp⟩
    d.bytes)).modifyConn c _ = s₂
  have hqueued₂ : queuedCalls s₂.trace = queuedCalls s.trace := by
    rw [← hqueued, ← hs₂]
    exact queuedCalls_cons rfl s₁.trace
  have haddr : (s₂.conn c).remoteAddress = ⟨d.ip, d.port, .udp⟩ := by
    rw [← hs₂]
    simp
  -- And the context is looked up in the same tables.
  have hcontext : s₂.contextFor (s₂.conn c).remoteAddress (decodeHeader d.bytes).replyId =
      s.contextFor ⟨d.ip, d.port, .udp⟩ (decodeHeader d.bytes).replyId := by
    rw [haddr, ← hs₂]
    simp [contextFor, htables]
  -- Before the message the sender may be new, which queues its ready call.
  obtain ⟨new, hnew, hquiet⟩ := remoteAddressSeen_calls s₂ c
  obtain ⟨p, hp, hmessage⟩ := handleMessage_call (s₂.remoteAddressSeen c).1 c event
    ⟨(s₂.remoteAddressSeen c).2, decodeHeader d.bytes, ⟨datagramBytes
      (decodeHeader d.bytes).numBytes.toNat (d.bytes.drop headerLen), ⟨some null,
        some ⟨d.ip, d.port, .udp⟩, some (decodeHeader d.bytes)⟩⟩⟩
  refine ⟨new, p, ?_, hquiet, ?_⟩
  · rw [← List.append_assoc, ← hqueued₂, ← hnew]
    exact hp
  · dsimp only at hmessage
    rw [remoteAddressSeen_context, hcontext, remoteAddressSeen_conn, haddr] at hmessage
    simp only [hunmatched]
    split at hmessage
    · rename_i hcond
      rwa [if_pos hcond]
    · rename_i hcond
      rw [if_neg hcond]
      exact ⟨hmessage.1 ▸ rfl, hmessage.2⟩

/-- What is handed over is what arrived exactly if it is as long as it announces. -/
theorem datagramBytes_eq_iff (numBytes : Nat) (payload : List UInt8) :
    datagramBytes numBytes payload = payload.map some ↔ numBytes = payload.length := by
  constructor
  · intro heq
    have hlen := congrArg List.length heq
    simp only [datagramBytes, List.length_append, List.length_map, List.length_take,
      List.length_replicate] at hlen
    omega
  · rintro rfl
    simp [datagramBytes]

/-- What a call of `read_from_socket` for a udp conn queues is sound exactly if the datagram that
    it takes is. -/
private theorem udpSound_iff (hudp : (s.conn c).protocolType = .udp) :
    ∃ new, queuedCalls (s.readFromSocket c r).1.trace = queuedCalls s.trace ++ new ∧
      (s.UdpSound c r new ↔ s.datagramSound c r = true) := by
  cases htaken : s.takenDatagram c r with
  | none =>
    obtain ⟨new, hnew, hquiet⟩ := queued_of_not_taken hudp htaken
    refine ⟨new, hnew, ?_⟩
    rw [datagramSound, htaken]
    exact ⟨fun _ => rfl, fun _ p hp hmessage => absurd hmessage (hquiet p hp)⟩
  | some d =>
    obtain ⟨new, p, hnew, hquiet, hp⟩ := queued_of_taken hudp htaken
    refine ⟨new ++ [p], hnew, ?_⟩
    rw [datagramSound, htaken, Option.all_some]
    split at hp
    -- An unmatched reply queues an error and no message.
    · rename_i hunmatched
      rw [hunmatched]
      refine ⟨fun _ => rfl, fun _ p' hp' hmessage => ?_⟩
      rcases List.mem_append.mp hp' with hin | hin
      · exact absurd hmessage (hquiet p' hin).2
      · rw [List.mem_singleton.mp hin] at hmessage
        exact absurd hmessage (not_isMessage_of_unrecognized hp)
    -- Any other datagram queues its message, which is sound if and only if the datagram is.
    · rename_i hmatched
      obtain ⟨hevent, hmessage, hdata⟩ := hp
      rw [Bool.not_eq_true] at hmatched
      rw [hmatched, Bool.false_or, Bool.and_eq_true, decide_eq_true_eq, ← List.length_drop,
        ← datagramBytes_eq_iff]
      constructor
      · intro hsound
        obtain ⟨d', hd', hkind, hbytes⟩ := hsound p (by simp) hmessage
        obtain rfl := Option.some.inj (htaken.symm.trans hd')
        refine ⟨by rw [hkind]; rfl, Option.some.inj (hdata.symm.trans hbytes)⟩
      · rintro ⟨hkind, hbytes⟩ p' hp' hmessage'
        rcases List.mem_append.mp hp' with hin | hin
        · exact absurd hmessage' (hquiet p' hin).2
        · rw [List.mem_singleton.mp hin]
          exact ⟨d, htaken, eventFor_eq hevent hkind, hdata.trans (congrArg some hbytes)⟩

/-- A step that reads a conn queues what `read_from_socket` queues. -/
theorem queuedCalls_read (hreads : (Input.read r).Reads s c r)
    (hstep : step s (.read r) = some s') :
    queuedCalls s'.trace = queuedCalls (s.readFromSocket c r).1.trace := by
  obtain ⟨index, hphase, hlisted⟩ := hreads.listed
  obtain ⟨index', c', hphase', hlisted', -, -, -, rfl⟩ := step_read hstep
  obtain rfl := Phase.reading.inj (hphase.symm.trans hphase')
  obtain rfl := Option.some.inj (hlisted.symm.trans hlisted')
  split
  · rfl
  · rfl

end State

/-! ## All messages -/

/-- In runs that leave the messages of other conns alone, the tcp messages that were queued for a
    conn are sound exactly if all frames with a body are of types that have an event. What a step
    that reads a udp conn queues is sound exactly if the datagram that it takes is. There are no
    other messages. -/
theorem reads_sound (s : State) :
    (∀ c, machine.Reach (fun s i => undisturbed s i = true) s →
      (TcpSound s c ↔ ∀ f ∈ (decoded s.trace c).frames, headerLen < f.length →
        (decodeHeader f).kind.event.isSome = true)) ∧
    (∀ c r s', machine.Reach (fun _ _ => True) s → (Input.read r).Reads s c r →
      (s.conn c).protocolType = .udp → step s (.read r) = some s' →
        ∃ new, queuedCalls s'.trace = queuedCalls s.trace ++ new ∧
          (s.UdpSound c r new ↔ s.datagramSound c r = true)) ∧
    (∀ p, machine.Reach (fun _ _ => True) s → Obs.queued p ∈ s.trace →
      p.event.isMessage = true →
        ∃ a sid h payload context, p.cause = .frame a sid h payload (some context)) := by
  refine ⟨fun c hs => ?_, fun c r s' _ hreads hudp hstep => ?_, fun p hs hp hevent => ?_⟩
  · have hmessages := (reach_decoded hs).messages c
    rw [List.append_nil] at hmessages
    exact State.tcpSound_iff hmessages (reach_handsOver hs)
  · rw [State.queuedCalls_read hreads hstep]
    exact State.udpSound_iff hudp
  · have hfits := (reach_called hs).fits p hp
    unfold PendingCall.Fits at hfits
    split at hfits
    · exact ⟨_, _, _, _, _, by assumption⟩
    · exact Bool.noConfusion (hevent.symm.trans hfits)

/-- A request is read from a tcp conn, and a message from a udp conn. -/
theorem reads_sound_both :
    (∃ s, machine.Reach (fun s i => undisturbed s i = true) s ∧ TcpSound s 0 ∧
      tcpMessages s.trace 0 = [(⟨MsgType.request.code, 7, 1⟩, [some 65])]) ∧
    (∃ s s' r new, machine.Reach (fun _ _ => True) s ∧ step s (.read r) = some s' ∧
      queuedCalls s'.trace = queuedCalls s.trace ++ new ∧ s.UdpSound 0 r new ∧
        s.takenDatagram 0 r = some messageDatagram) := by
  constructor
  · obtain ⟨s, hreach, hview⟩ := machine.exists_reach_of_run undisturbed (fun _ _ h => h)
      (connectRun ++ readMessages (setHeader .request 7 1 ++ [65]) 1)
      (fun s => (tcpMessages s.trace 0, (decoded s.trace 0).frames))
      ([(⟨MsgType.request.code, 7, 1⟩, [some 65])], [setHeader .request 7 1 ++ [65]])
      (by decide +kernel)
    obtain ⟨hmessages, hframes⟩ := Prod.mk.inj hview
    refine ⟨s, hreach, ((reads_sound s).1 0 hreach).mpr ?_, hmessages⟩
    rw [hframes]
    decide
  · obtain ⟨s, hreach, hview⟩ := machine.exists_reach_of_run (P := fun _ _ => True)
      (fun _ _ => true) (fun _ _ _ => trivial)
      (listenRun ++ [.env (.datagram 3 messageDatagram), .runloop (.ready [{ pollin := true }]),
        .visit none])
      (fun s => ((s.phase, s.conns, s.freed 0), (s.conn 0).protocolType,
        s.takenDatagram 0 { peek := .upTo 8 }, s.datagramSound 0 { peek := .upTo 8 },
        (step s (.read { peek := .upTo 8 })).isSome))
      ((.reading 0, [0], false), .udp, some messageDatagram, true, true) (by decide +kernel)
    simp only [Prod.mk.injEq] at hview
    obtain ⟨⟨hphase, hconns, hlive⟩, hudp, htaken, hsound, hstep⟩ := hview
    obtain ⟨s', hs'⟩ := Option.isSome_iff_exists.mp hstep
    have hreads : (Input.read { peek := .upTo 8 }).Reads s 0 { peek := .upTo 8 } :=
      ⟨rfl, ⟨0, hphase, by rw [hconns]; rfl⟩, hlive, by rw [hudp]; exact Protocol.noConfusion, rfl⟩
    obtain ⟨new, hnew, hiff⟩ := (reads_sound s).2.1 0 _ s' hreach hreads hudp hs'
    exact ⟨s, s', _, new, hreach, hs', hnew, hiff.mpr hsound, htaken⟩

/-- A datagram of one byte announces three: the callback for its message gets three bytes, two of
    which nobody wrote. A tcp frame of a type that is not known is handed over with whatever event
    the variable held. -/
theorem reads_not_sound :
    (∃ s, machine.Reach (fun _ _ => True) s ∧
      takenFrom s.trace 0 = [(⟨1, 1, .udp⟩, setHeader .oneWay 0 3 ++ [65])] ∧
        ∃ p ∈ queuedCalls s.trace, p.event = .message ∧
          p.data.map MsgData.bytes = some [some 65, none, none]) ∧
    (∃ s, machine.Reach (fun _ _ => True) s ∧
      (decoded s.trace 0).frames = [setHeader .unknown 0 1 ++ [65]] ∧
        ∃ p ∈ queuedCalls s.trace, p.event = .request ∧
          p.data.map MsgData.bytes = some [some 65]) := by
  constructor
  · obtain ⟨s, hreach, hview⟩ := machine.exists_reach_of_run (P := fun _ _ => True)
      (fun _ _ => true) (fun _ _ _ => trivial)
      (listenRun ++ [.env (.datagram 3 ⟨1, 1, setHeader .oneWay 0 3 ++ [65]⟩),
        .runloop (.ready [{ pollin := true }]), .visit none, .read { peek := .upTo 8 }])
      (fun s => (takenFrom s.trace 0, decide (∃ p ∈ queuedCalls s.trace, p.event = .message ∧
        p.data.map MsgData.bytes = some [some 65, none, none])))
      ([(⟨1, 1, .udp⟩, setHeader .oneWay 0 3 ++ [65])], true) (by decide +kernel)
    simp only [Prod.mk.injEq, decide_eq_true_eq] at hview
    exact ⟨s, hreach, hview⟩
  · obtain ⟨s, hreach, hview⟩ := machine.exists_reach_of_run (P := fun _ _ => True)
      (fun _ _ => true) (fun _ _ _ => trivial)
      (connectRun ++ [.env (.arrive 3 (setHeader .unknown 0 1 ++ [65])),
        .runloop (.ready [{ pollin := true }]), .visit none,
        .read { peek := .upTo 8, body := .upTo 1, uninitEvent := .request }])
      (fun s => ((decoded s.trace 0).frames, decide (∃ p ∈ queuedCalls s.trace,
        p.event = .request ∧ p.data.map MsgData.bytes = some [some 65])))
      ([setHeader .unknown 0 1 ++ [65]], true) (by decide +kernel)
    simp only [Prod.mk.injEq, decide_eq_true_eq] at hview
    exact ⟨s, hreach, hview⟩

end Msgbox
