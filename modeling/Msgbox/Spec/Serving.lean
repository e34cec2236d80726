import Msgbox.Spec.Remotes

/-!
# How a listening udp conn serves its remotes

A step that is about a listening udp conn takes a datagram from one of its remotes, drops one, or
makes a call for one. All other steps leave its remotes alone.

## Key results

- `servesRemotes`: the steps after which every call for the conn has the address of its remote
- `Turn`, `turn_step`: what such a step does for the remotes
-/

namespace Msgbox

open State

/-! ## Remotes -/

/-- The remote that a call is for. -/
def PendingCall.remote (p : PendingCall) : Option Address :=
  match p.cause with
  | .frame a _ _ _ _ => some a
  | .ready a => some a
  | .closing a => some a
  | _ => none

/-- The conn has an entry for the remote. -/
def serving (s : State) (c : ConnId) (a : Address) : Bool :=
  heard s.trace c a && (s.connStatus.lookup a).isSome

/-- What the conn reads is no close, a message of a type that has an event, and its sender is known
    from this conn or from none. -/
def readServes (s : State) (c : ConnId) (r : ReadIn) : Bool :=
  !s.udpDrops c r && (s.takenDatagram c r).all fun d =>
    (decodeHeader d.bytes).kind.event.isSome &&
      (heard s.trace c ⟨d.ip, d.port, .udp⟩ || (s.connStatus.lookup ⟨d.ip, d.port, .udp⟩).isNone)

/-- The step reports no error through the listening udp conn and keeps its remotes apart from those
    of other conns. It reads no close, and `msg_disconnect` is called for a remote that is served,
    whose address the conn still has when the call without data is made. -/
def servesRemotes (c : ConnId) (s : State) (i : Input) : Bool :=
  plain s i && bareError s i ≠ some c && keepsApart c s i &&
    match i with
    | .read r => i.subject s ≠ some c || readServes s c r
    | .timeouts now => (s.timeouts.takeWhile fun t => t.at_ ≤ now).all fun t => t.conn ≠ c
    | .app (.disconnect c' _) => c' ≠ c || serving s c (s.conn c).remoteAddress
    | .app (.unlisten c' _) => c' ≠ some c
    | .app (.setRemoteAddress c' _ _) => c' ≠ c
    | .deliver _ => (i.delivers s).all fun p =>
        p.conn ≠ c || p.data.isSome || p.remote.all fun a => a = (s.conn c).remoteAddress
    | _ => true

/-- The call is the one for the beginning, or it is for a udp remote and carries its address if it
    has data. -/
def PendingCall.Told (p : PendingCall) : Prop :=
  p.remote = none ∧ p.data = none ∧ p.event = .listening ∨
    ∃ a, p.remote = some a ∧ a.protocolType = .udp ∧ p.event ≠ .listening ∧
      ∀ data, p.data = some data → data.metadata.remoteAddress = some a

/-- The conn listens for udp, and its calls are for remotes. -/
structure Serves (c : ConnId) (s : State) : Prop where
  made : c < s.nextConn
  listening : s.isListeningUdp c = true
  udp : ∀ a, heard s.trace c a = true → a.protocolType = .udp
  told : ∀ p, Obs.queued p ∈ s.trace → p.conn = c → p.Told
  called : ∀ k p, Obs.called k p ∈ s.trace → p.conn = c → p.remote.all (· = k.remoteAddress) = true

/-! ## The turns of a remote -/

/-- The first call for a remote. -/
def greeting (c : ConnId) (s : State) (a : Address) : List Obs :=
  if s.connStatus.lookup a = none then [.queued (readyCall c a)] else []

/-- A datagram from the remote is taken, and its message is queued, after a
    `msg_connection_ready` if the remote is new. -/
structure Hears (c : ConnId) (s s' : State) (a : Address) (bytes : List UInt8) (p : PendingCall) :
    Prop where
  next : s'.nextConn = s.nextConn
  address : (s'.conn c).remoteAddress = a
  flag : (s'.conn c).forListening = (s.conn c).forListening
  context : (s'.conn c).connContext = (s.conn c).connContext
  record : s'.trace.filter (Obs.tells c) =
    .queued p :: (greeting c s a ++ .datagram c a bytes :: s.trace.filter (Obs.tells c))
  known : ∃ sid, s'.connStatus.lookup a = some sid ∧
    (s.connStatus.lookup a).all (· = sid) = true ∧
    (s.connStatus.lookup a = none → (s'.status sid).connContext = (s.conn c).connContext)
  lookup : ∀ b, b ≠ a → s'.connStatus.lookup b = s.connStatus.lookup b
  contexts : ∀ b sid, s.connStatus.lookup b = some sid →
    (s'.status sid).connContext = (s.status sid).connContext

/-- The call is for a message of the remote. -/
structure PendingCall.Brings (p : PendingCall) (c : ConnId) (a : Address) (bytes : List UInt8) :
    Prop where
  conn : p.conn = c
  remote : p.remote = some a
  event : (decodeHeader bytes).kind.event = some p.event
  data : ∃ data, p.data = some data ∧ data.metadata.remoteAddress = some a

/-- The remote whose address the conn has is dropped. -/
structure Parts (c : ConnId) (s s' : State) (p : PendingCall) : Prop where
  next : s'.nextConn = s.nextConn
  conn : s'.conn = s.conn
  call : p = s.closingCall c .connectionClosed
  record : s'.trace.filter (Obs.tells c) =
    .queued p :: .disconnected c (s.conn c).remoteAddress :: s.trace.filter (Obs.tells c)
  lookup : s'.connStatus = s.connStatus.erase (s.conn c).remoteAddress
  contexts : ∀ sid, (s'.status sid).connContext = (s.status sid).connContext

/-- A step for the conn, or one that leaves its remotes alone. -/
inductive Turn (c : ConnId) (s : State) (i : Input) (s' : State) : Prop
  | aloof (h : Aloof c s i s s')
  | hears {r : ReadIn} {a : Address} {bytes : List UInt8} {p : PendingCall} (hinput : i = .read r)
      (hsubject : i.subject s = some c)
      (htaken : (s.takenDatagram c r).map Datagram.taken = some (a, bytes))
      (hproto : a.protocolType = .udp)
      (hknown : heard s.trace c a = true ∨ s.connStatus.lookup a = none)
      (hbrings : p.Brings c a bytes) (h : Hears c s s' a bytes p)
  | parts {w : SendIn} {p : PendingCall} (hinput : i = .app (.disconnect c w))
      (hserving : serving s c (s.conn c).remoteAddress = true) (h : Parts c s s' p)
  | calls {p : PendingCall} {rest : List PendingCall} {junk : Junk} (hinput : i = .deliver junk)
      (hconn : p.conn = c) (hphase : s.phase = .delivering (p :: rest))
      (hremote : p.data = none → p.remote.all (· = (s.conn c).remoteAddress) = true)
      (h : s' = s.makeCall p rest junk)

namespace State

variable {s s' : State} {i : Input} {c : ConnId} {r : ReadIn}

/-- What tells of the conn is kept when only that is kept. -/
theorem record_told {o : Obs} (ho : o.tells c = true) (t : List Obs) :
    (o :: t).filter (Obs.tells c) = o :: t.filter (Obs.tells c) :=
  List.filter_cons_of_pos ho

/-! ## Reading -/

/-- What has to do with the remotes stays as it is. -/
structure SameRemotes (c : ConnId) (s s' : State) : Prop where
  next : s'.nextConn = s.nextConn
  status : s'.nextStatus = s.nextStatus
  fields : SameFields (s.conn c) (s'.conn c)
  record : s'.trace.filter (Obs.tells c) = s.trace.filter (Obs.tells c)
  table : s'.connStatus = s.connStatus
  contexts : ∀ sid, (s'.status sid).connContext = (s.status sid).connContext

/-- A header that is read says nothing yet of its sender. -/
private theorem sameRemotes_acceptHeader (hudp : (s.conn c).protocolType = .udp)
    (raw : List UInt8) :
    SameRemotes c s ((s.acceptHeader c raw).clearOneWay c (decodeHeader raw)) := by
  have htake : s.takeHeader c raw = s := by
    rw [takeHeader, if_neg (by rw [hudp]; exact Protocol.noConfusion)]
  unfold acceptHeader clearOneWay
  rw [htake]
  split
  · refine ⟨rfl, rfl, ?_, ?_, rfl, fun _ => rfl⟩
    · simp [SameFields]
    · exact (record_cons rfl _).trans (record_cons rfl _)
  · refine ⟨rfl, rfl, ?_, record_cons rfl _, rfl, fun _ => rfl⟩
    simp [SameFields]

/-- A complete message queues one call. -/
private theorem handleMessage_eq (s : State) (c : ConnId) (event : Event) (m : Message) :
    ∃ s₁ event' data toFree context, SameRemotes c s s₁ ∧ (s.handleMessage c event m).1 =
        s₁.sendCallback c event' (some data) toFree
          (.frame (s.conn c).remoteAddress m.status m.header m.data.bytes context) ∧
      (m.header.kind = .reply ∧
          (s.status m.status).replyContexts.lookup m.header.replyId = none ∨
        event' = event ∧ data.metadata.remoteAddress = m.data.metadata.remoteAddress) := by
  unfold handleMessage
  dsimp only
  split
  · rename_i hkind
    split
    · rename_i hlookup
      exact ⟨s, _, _, _, _, ⟨rfl, rfl, .refl _, rfl, rfl, fun _ => rfl⟩, rfl, .inl ⟨hkind, hlookup⟩⟩
    · refine ⟨_, _, _, _, _, ?_, rfl, .inr ⟨rfl, ?_⟩⟩
      · exact ⟨rfl, rfl, by simp [SameFields], rfl, rfl, contexts_update rfl⟩
      · split <;> rfl
  · refine ⟨_, _, _, _, _, ?_, rfl, .inr ⟨rfl, rfl⟩⟩
    exact ⟨rfl, rfl, by simp [SameFields], rfl, rfl, fun _ => rfl⟩

/-- The status of a conn's address, as it was or made now. -/
private theorem remoteAddressSeen_eq (s : State) (c : ConnId) {a : Address}
    (haddr : (s.conn c).remoteAddress = a) :
    (∃ sid, s.connStatus.lookup a = some sid ∧ s.remoteAddressSeen c = (s, sid)) ∨
      s.connStatus.lookup a = none ∧ s.remoteAddressSeen c =
        ((s.addStatus c).sendCallback c .connectionReady (some (readyData a)) .nothing (.ready a),
          s.nextStatus) := by
  subst haddr
  unfold remoteAddressSeen statusOfConn
  cases s.connStatus.lookup (s.conn c).remoteAddress with
  | some sid => exact .inl ⟨sid, rfl, rfl⟩
  | none => exact .inr ⟨rfl, rfl⟩

/-- What is seen of the sender when its datagram was taken. -/
private theorem hears_seen (ha : Allocated s) {s₂ s₃ : State} {a : Address} {bytes : List UInt8}
    {p : PendingCall} (hnext : s₂.nextConn = s.nextConn ∧ s₂.nextStatus = s.nextStatus)
    (haddr : (s₂.conn c).remoteAddress = a)
    (hconn : (s₂.conn c).forListening = (s.conn c).forListening ∧
      (s₂.conn c).connContext = (s.conn c).connContext)
    (hrecord : s₂.trace.filter (Obs.tells c) = .datagram c a bytes :: s.trace.filter (Obs.tells c))
    (htable : s₂.connStatus = s.connStatus)
    (hcontexts : ∀ sid, (s₂.status sid).connContext = (s.status sid).connContext)
    (hquiet : SameRemotes c (s₂.remoteAddressSeen c).1 s₃) (hp : p.conn = c) :
    Hears c s { s₃ with immediateCallbacks := s₃.immediateCallbacks ++ [p]
                        trace := .queued p :: s₃.trace } a bytes p := by
  have htells : (Obs.queued p).tells c = true := decide_eq_true hp
  rcases remoteAddressSeen_eq s₂ c haddr with ⟨sid, hlookup, hseen⟩ | ⟨hlookup, hseen⟩
  -- The remote has an entry, which stays.
  · rw [hseen] at hquiet
    rw [htable] at hlookup
    refine ⟨hquiet.next.trans hnext.1, hquiet.fields.1.trans haddr, hquiet.fields.2.1.trans hconn.1,
      hquiet.fields.2.2.trans hconn.2, ?_, ⟨sid, ?_, by simp [hlookup], ?_⟩, fun b _ => ?_,
      fun b sid' _ => (hquiet.contexts sid').trans (hcontexts sid')⟩
    · rw [record_told htells, hquiet.record, hrecord, greeting,
        if_neg (by rw [hlookup]; exact Option.some_ne_none sid)]
      rfl
    · show s₃.connStatus.lookup a = some sid
      rw [hquiet.table, htable, hlookup]
    · intro hnone
      exact absurd (hlookup.symm.trans hnone) (Option.some_ne_none sid)
    · show s₃.connStatus.lookup b = _
      rw [hquiet.table, htable]
  -- The remote is new: it gets a status with the conn's context, and is greeted.
  · rw [hseen] at hquiet
    rw [htable] at hlookup
    refine ⟨hquiet.next.trans hnext.1, hquiet.fields.1.trans haddr, hquiet.fields.2.1.trans hconn.1,
      hquiet.fields.2.2.trans hconn.2, ?_, ⟨s.nextStatus, ?_, by simp [hlookup], fun _ => ?_⟩,
      fun b hb => ?_, fun b sid' hsid' => ?_⟩
    · have hready : (Obs.queued (readyCall c a)).tells c = true := decide_eq_true rfl
      rw [record_told htells, hquiet.record, greeting, if_pos hlookup]
      exact congrArg _ ((record_told hready _).trans (congrArg _ hrecord))
    · show s₃.connStatus.lookup a = _
      rw [hquiet.table, sendCallback_connStatus, addStatus_connStatus, haddr, hnext.2]
      exact AList.lookup_insert _
    · show (s₃.status s.nextStatus).connContext = _
      rw [hquiet.contexts, sendCallback_status, addStatus_status, hnext.2, Function.update_self]
      exact hconn.2
    · show s₃.connStatus.lookup b = _
      rw [hquiet.table, sendCallback_connStatus, addStatus_connStatus, haddr, htable]
      exact AList.lookup_insert_ne hb
    · show (s₃.status sid').connContext = _
      rw [hquiet.contexts, sendCallback_status, addStatus_status, hnext.2,
        Function.update_of_ne (Nat.ne_of_lt (ha.status b sid' hsid').1), hcontexts]

/-- A datagram is taken that is no reply which nobody waits for. -/
private theorem hears_of_taken (ha : Allocated s) (hudp : (s.conn c).protocolType = .udp)
    {d : Datagram} (htaken : s.takenDatagram c r = some d) (hmatched : s.unmatchedReply c r = false)
    (hkind : (decodeHeader d.bytes).kind.event.isSome = true) :
    ∃ p, p.Brings c ⟨d.ip, d.port, .udp⟩ d.bytes ∧
      Hears c s (s.readFromSocket c r).1 ⟨d.ip, d.port, .udp⟩ d.bytes p := by
  have hunmatched := unmatchedReply_iff htaken
  obtain ⟨hpeek, hrecv, hclose, hlen⟩ := takenDatagram_some htaken
  have hheader : decodeHeader (d.bytes.take headerLen) = decodeHeader d.bytes := by
    apply decodeHeader_prefix (List.take_prefix headerLen d.bytes)
    rw [List.length_take]
    omega
  rw [hheader] at hunmatched hclose
  have hnot : (s.conn c).protocolType ≠ .tcp := by
    rw [hudp]
    exact Protocol.noConfusion
  obtain ⟨event, hevent⟩ := Option.isSome_iff_exists.mp
    ((eventFor_isSome (decodeHeader d.bytes) r.uninitEvent).mpr hclose)
  obtain ⟨id, hconn, hsockets⟩ := acceptHeader_udp hudp (d.bytes.take headerLen)
  have haccept := sameRemotes_acceptHeader hudp (d.bytes.take headerLen)
  have hstatus : ((s.acceptHeader c (d.bytes.take headerLen)).clearOneWay c
      (decodeHeader (d.bytes.take headerLen))).status = s.status := by
    simp only [acceptHeader, takeHeader, if_neg hnot, clearOneWay]
    split <;> rfl
  -- As far as `recvfrom`, only the reply id of the conn has changed.
  unfold readFromSocket readHeader
  rw [if_neg hnot, hpeek]
  simp only [hheader, hevent] at hconn hsockets haccept hstatus ⊢
  generalize (s.acceptHeader c (d.bytes.take headerLen)).clearOneWay c (decodeHeader d.bytes) = s₁
    at hconn hsockets haccept hstatus ⊢
  have hrecv₁ : s₁.recvfrom c r.recvfrom = .ok d := by
    rw [← hrecv]
    simp [recvfrom, socketOf, hconn, hsockets]
  have hproto : (s₁.conn c).protocolType = .udp := by
    rw [hconn]
    exact hudp
  -- The sender becomes the remote, and may be seen for the first time.
  unfold recvUdp
  simp only [hrecv₁, hproto]
  generalize hs₂ : ((s₁.consume c d.bytes.length).log (.datagram c ⟨d.ip, d.port, .udp⟩
    d.bytes)).modifyConn c _ = s₂
  have haddr : (s₂.conn c).remoteAddress = ⟨d.ip, d.port, .udp⟩ := by
    rw [← hs₂]
    simp
  obtain ⟨s₃, event', data, toFree, context, hquiet, heq, hcall⟩ :=
    handleMessage_eq (s₂.remoteAddressSeen c).1 c event
      ⟨(s₂.remoteAddressSeen c).2, decodeHeader d.bytes, ⟨datagramBytes
        (decodeHeader d.bytes).numBytes.toNat (d.bytes.drop headerLen), ⟨some null,
          some ⟨d.ip, d.port, .udp⟩, some (decodeHeader d.bytes)⟩⟩⟩
  -- No unmatched reply, so the call is the one for the message.
  have hcontext : s₂.contextFor ⟨d.ip, d.port, .udp⟩ (decodeHeader d.bytes).replyId =
      s.contextFor ⟨d.ip, d.port, .udp⟩ (decodeHeader d.bytes).replyId := by
    rw [← hs₂]
    simp [contextFor, hstatus, haccept.table]
  dsimp only at hcall
  rw [remoteAddressSeen_context, haddr, hcontext, ← hunmatched, hmatched] at hcall
  obtain ⟨rfl, hdata⟩ := hcall.resolve_left Bool.false_ne_true
  rw [heq]
  refine ⟨_, ?_, hears_seen ha ?_ haddr ?_ ?_ ?_ ?_ hquiet rfl⟩
  · refine ⟨rfl, ?_, eventFor_eq hevent hkind, data, rfl, hdata⟩
    rw [remoteAddressSeen_conn, haddr]
    rfl
  · rw [← hs₂]
    exact ⟨haccept.next, haccept.status⟩
  · rw [← hs₂]
    simpa using haccept.fields.2
  · rw [← hs₂]
    refine (record_told (o := .datagram c ⟨d.ip, d.port, .udp⟩ d.bytes) (decide_eq_true rfl)
      _).trans ?_
    exact congrArg _ haccept.record
  · rw [← hs₂]
    exact haccept.table
  · rw [← hs₂]
    exact haccept.contexts

/-- Nothing is read. -/
private theorem read_of_not_taken (hudp : (s.conn c).protocolType = .udp)
    (hdrops : s.udpDrops c r = false)
    (hfails : s.udpReadFails c r = false) (hnone : s.takenDatagram c r = none) :
    (s.readFromSocket c r).1 = s := by
  unfold readFromSocket readHeader
  rw [if_neg (by rw [hudp]; exact Protocol.noConfusion)]
  unfold udpDrops at hdrops
  unfold udpReadFails at hfails
  unfold takenDatagram at hnone
  cases hpeek : s.peekHeader c r.peek with
  | blocked => rfl
  | «over» => simp [hpeek] at hdrops
  | failed e => simp [hpeek] at hfails
  | header raw =>
    have hkind : (decodeHeader raw).kind ≠ .close := by simpa [hpeek] using hdrops
    cases hrecv : s.recvfrom c r.recvfrom with
    | ok d => simp [hpeek, hrecv, hkind] at hnone
    | error e => simp [hpeek, hrecv, hkind] at hfails

end State

/-! ## One step -/

variable {s s' : State} {i : Input} {c : ConnId}

/-- What listens for udp is a udp conn. -/
theorem Serves.isUdp (h : Serves c s) : (s.conn c).protocolType = .udp := by
  have hlistening := h.listening
  simp only [isListeningUdp, Bool.and_eq_true, beq_iff_eq] at hlistening
  exact hlistening.2

/-- What is asked of every step. -/
theorem servesRemotes_base (hok : servesRemotes c s i = true) :
    plain s i = true ∧ bareError s i ≠ some c ∧ keepsApart c s i = true := by
  simp only [servesRemotes, Bool.and_eq_true, decide_eq_true_eq] at hok
  exact ⟨hok.1.1.1, hok.1.1.2, hok.1.2⟩

/-- What neither reads, calls nor alters the conn is apart from it. -/
private theorem apart_of (hok : servesRemotes c s i = true) (h : Serves c s)
    (hreads : ∀ r, ¬ i.Reads s c r) (hcalls : ∀ p, i.delivers s = some p → p.conn ≠ c)
    (halters : i.alters ≠ some c) : Apart c s i where
  made := h.made
  listening := h.listening
  udp := h.udp
  reads := hreads
  calls := hcalls
  alters := halters
  bare := (servesRemotes_base hok).2.1
  due := by
    rintro now rfl
    have hdue := (Bool.and_eq_true_iff.mp hok).2
    simpa using hdue
  apart := (servesRemotes_base hok).2.2

/-- A read of the conn. -/
private theorem turn_read {r : ReadIn} (hok : servesRemotes c s (.read r) = true) (hs : Sound s)
    (h : Serves c s) (hreads : (Input.read r).Reads s c r) (hstep : step s (.read r) = some s') :
    Turn c s (.read r) s' := by
  have hudp := h.isUdp
  have hbare := (servesRemotes_base hok).2.1
  have hsubject := hreads.subject
  have hserves : readServes s c r = true := by
    have hread := (Bool.and_eq_true_iff.mp hok).2
    simpa [hsubject] using hread
  obtain ⟨index, hphase, hlisted⟩ := hreads.listed
  have hgood : s.udpReadFails c r = false ∧ s.unmatchedReply c r = false := by
    simpa [bareError, hphase, hlisted] using hbare
  obtain ⟨index', c', hphase', hlisted', -, -, -, heq⟩ := step_read hstep
  obtain rfl := Phase.reading.inj (hphase.symm.trans hphase')
  obtain rfl := Option.some.inj (hlisted.symm.trans hlisted')
  simp only [readServes, Bool.and_eq_true, Bool.not_eq_true'] at hserves
  cases htaken : s.takenDatagram c r with
  -- Nothing was taken, and nothing was reported.
  | none =>
    rw [read_of_not_taken hudp hserves.1 hgood.1 htaken] at heq
    refine .aloof ?_
    rw [heq]
    split <;> exact aloof_of (Nat.le_refl _) (.refl _) rfl rfl fun _ => rfl
  | some d =>
    have hsound := hserves.2
    simp only [htaken, Option.all_some, Bool.and_eq_true, Bool.or_eq_true,
      Option.isNone_iff_eq_none] at hsound
    obtain ⟨p, hbrings, hhears⟩ := hears_of_taken hs.allocated hudp htaken hgood.2 hsound.1
    refine .hears rfl hsubject (by rw [htaken]; rfl) rfl hsound.2 hbrings
      (?_ : Hears c s s' _ d.bytes p)
    rw [heq]
    split
    · exact hhears
    · exact ⟨hhears.next, hhears.address, hhears.flag, hhears.context, hhears.record, hhears.known,
        hhears.lookup, hhears.contexts⟩

/-- `msg_disconnect` for the conn, where the close is sent. -/
private theorem parts_msgDisconnect {w : SendIn}
    (hsends : s.sendFails c (setHeader .close 0 0) w = false) :
    Parts c s (s.msgDisconnect c w) (s.closingCall c .connectionClosed) := by
  have hnone : (s.sendData c (setHeader .close 0 0) w).2 = none := by
    simpa [sendFails] using hsends
  obtain ⟨o, ho, heq⟩ : ∃ o, o.tells c = false ∧ s.msgDisconnect c w =
      ((s.log (.disconnected c (s.conn c).remoteAddress)).log o).localDisconnect c
        .connectionClosed := by
    unfold msgDisconnect
    generalize hs₁ : s.log (.disconnected c (s.conn c).remoteAddress) = s₁
    have hsame : (s₁.sendData c (setHeader .close 0 0) w).2 =
      (s.sendData c (setHeader .close 0 0) w).2 :=
      sendData_congr (by rw [← hs₁]; rfl) (by rw [← hs₁]; rfl) _ w
    rw [← hsame] at hnone
    obtain ⟨o, hsent, ho⟩ : ∃ o, (s₁.sendData c (setHeader .close 0 0) w).1 = s₁.log o ∧
        o.tells c = false := ⟨_, sendData_fst s₁ c _ w, rfl⟩
    refine ⟨o, ho, ?_⟩
    rw [← hsent]
    show ((s₁.sendData c (setHeader .close 0 0) w).1.reportSend c
      (s₁.sendData c (setHeader .close 0 0) w).2).localDisconnect c .connectionClosed = _
    rw [hnone, reportSend]
  -- What remains is what `local_disconnect` does.
  rw [heq]
  refine ⟨localDisconnect_nextConn _ c _, localDisconnect_conn _ c _, rfl, ?_,
    localDisconnect_connStatus _ c _, fun sid => ?_⟩
  · rw [localDisconnect_trace]
    refine (record_told (o := .queued _) (decide_eq_true rfl) _).trans (congrArg _ ?_)
    refine (record_cons ho _).trans ?_
    exact record_told (o := .disconnected c _) (decide_eq_true rfl) _
  · rw [localDisconnect_status, unsetStatus_status_apply]
    split <;> rfl

/-- A step that serves the remotes is the turn of one of them, or of none. -/
theorem turn_step (hok : servesRemotes c s i = true) (hs : Sound s) (h : Serves c s)
    (hstep : step s i = some s') : Turn c s i s' := by
  have hbase := servesRemotes_base hok
  have hown := (Bool.and_eq_true_iff.mp hok).2
  cases i with
  | read r =>
    by_cases hreads : (Input.read r).Reads s c r
    · exact turn_read hok hs h hreads hstep
    -- Reading another conn is aloof.
    · refine .aloof (aloof_step (apart_of hok h (fun r' hr' => hreads ?_) ?_ ?_) hs hstep)
      · exact Input.read.inj hr'.input ▸ hr'
      · exact fun p hp => absurd hp.symm (Option.some_ne_none p)
      · exact fun hc => absurd hc.symm (Option.some_ne_none c)
  | deliver junk =>
    rcases step_deliver hstep with ⟨hphase, rfl⟩ | ⟨p, rest, hphase, -, rfl⟩
    · exact .aloof (aloof_of (Nat.le_refl _) (.refl _) rfl rfl fun _ => rfl)
    · have hdelivers : (Input.deliver junk).delivers s = some p := by
        rw [Input.delivers, hphase]
        rfl
      -- A call for the conn begins a callback for one of its remotes.
      by_cases hp : p.conn = c
      · refine .calls rfl hp hphase (fun hdata => ?_) rfl
        simpa [hdelivers, hp, hdata] using hown
      · refine .aloof (aloof_step (apart_of hok h ?_ ?_ ?_) hs hstep)
        · exact fun r hr => Input.noConfusion hr.input
        · exact fun p' hp' => Option.some.inj (hdelivers.symm.trans hp') ▸ hp
        · exact fun hc => absurd hc.symm (Option.some_ne_none c)
  | app call =>
    by_cases hdisconnect : ∃ w, call = .disconnect c w
    · obtain ⟨w, rfl⟩ := hdisconnect
      obtain ⟨-, -, rfl⟩ := step_app hstep
      -- The close is sent without an error, or the step would leave a bare error.
      have hsends : s.sendFails c (setHeader .close 0 0) w = false := by
        have hbare := hbase.2.1
        rw [bareError] at hbare
        split at hbare
        · exact absurd rfl hbare
        · rename_i hfails
          simpa using hfails
      exact .parts rfl (by simpa using hown) (parts_msgDisconnect hsends)
    · refine .aloof (aloof_step (apart_of hok h ?_ ?_ ?_) hs hstep)
      · exact fun r hr => Input.noConfusion hr.input
      · exact fun p hp => absurd hp.symm (Option.some_ne_none p)
      -- The other calls that alter a conn are about other ones.
      · intro halters
        cases call with
        | disconnect c' w => exact hdisconnect ⟨w, by rw [Option.some.inj halters]⟩
        | unlisten c' result =>
          rw [Input.alters] at halters
          simp [halters] at hown
        | setRemoteAddress c' ip port => simp [Option.some.inj halters] at hown
        | _ => exact absurd halters.symm (Option.some_ne_none c)
  | _ =>
    refine .aloof (aloof_step (apart_of hok h ?_ ?_ ?_) hs hstep)
    · exact fun r hr => Input.noConfusion hr.input
    · exact fun p hp => absurd hp.symm (Option.some_ne_none p)
    · exact fun hc => absurd hc.symm (Option.some_ne_none c)

end Msgbox
