import Msgbox.Internal

/-!
# Reading from sockets

`read_header`, `continue_recv` and `read_from_socket`. The last is split at the places
where the source names a step: accepting a connection, reading tcp data, reading udp data,
and handing a complete message to the callback queue.
-/

namespace Msgbox.State

/-- The receiving side of a conn's descriptor, if it is open. -/
def socketOf (s : State) (c : ConnId) : Option Socket := s.sockets (s.conn c).socket

/-- `recv` on a conn's descriptor. -/
def recvOn (s : State) (c : ConnId) (len : Nat) (r : Recv) : Except Errno (List UInt8) :=
  match s.socketOf c with
  | none => .error .badSock
  | some k => k.recv len r

/-- What a successful `recv` without `MSG_PEEK` does to the descriptor. -/
@[simps]
def consume (s : State) (c : ConnId) (n : Nat) : State :=
  { s with
    sockets := Function.update s.sockets (s.conn c).socket
      ((s.socketOf c).map fun k => k.consume n) }

/-! ## Headers -/

/-- The cases that `read_header` distinguishes by the result of its peek: part of a header
    or none, the end of the stream, an error to report, or a whole header. -/
inductive Peeked
  | blocked
  | over
  | failed (e : Errno)
  | header (raw : List UInt8)

/-- `recv` with `MSG_PEEK` for `header_len` bytes. -/
def peekHeader (s : State) (c : ConnId) (r : Recv) : Peeked :=
  match s.recvOn c headerLen r with
  | .ok bytes =>
    if bytes.length = 0 then .over
    -- A tcp header may be cut off. It stays in the socket until the rest is there.
    else if bytes.length < headerLen then .blocked
    else .header bytes
  | .error .connReset => .over
  | .error .wouldBlock => .blocked
  | .error e => .failed e

/-- Take the peeked header from a tcp socket; a udp socket keeps it. -/
def takeHeader (s : State) (c : ConnId) (raw : List UInt8) : State :=
  if (s.conn c).protocolType = .tcp then (s.consume c headerLen).log (.received c raw) else s

/-- The end of `read_header`: mark the header as read, convert it, and save its id. -/
def acceptHeader (s : State) (c : ConnId) (raw : List UInt8) : State :=
  ((s.takeHeader c raw).modifyConn c fun conn =>
    { conn with replyId := (decodeHeader raw).replyId }).log (.header c (decodeHeader raw))

/-- `read_header`. -/
def readHeader (s : State) (c : ConnId) (r : Recv) : State × Option Header :=
  match s.peekHeader c r with
  | .blocked => (s, none)
  | .over => (s.localDisconnect c .connectionLost, none)
  | .failed e => (s.sendCallbackOsError c "recv" e .nothing, none)
  | .header raw => (s.acceptHeader c raw, some (decodeHeader raw))

/-! ## Tcp -/

/-- The return values of `continue_recv`: true, false, -1 and -2. -/
inductive Received
  | done
  | pending
  | failed (e : Errno)
  | interrupted

/-- The cases that `continue_recv` distinguishes by the result of its `recv`. -/
inductive BodyRecv
  | over
  | blocked
  | failed (e : Errno)
  | bytes (bs : List UInt8)

/-- `recv` into the waiting buffer of a status. -/
def recvBody (s : State) (c : ConnId) (sid : StatusId) (r : Recv) : BodyRecv :=
  match s.recvOn c (s.status sid).waitingBuffer.numBytes r with
  | .ok bs => if bs.length = 0 then .over else .bytes bs
  | .error .connReset => .over
  | .error .wouldBlock => .blocked
  | .error e => .failed e

/-- The bytes that `recv` writes to the waiting buffer, and the advance of that buffer. -/
@[simps!]
def fillWaiting (s : State) (sid : StatusId) (bs : List UInt8) : State :=
  s.modifyStatus sid fun status =>
    let start := status.waitingBuffer.start
    { status with
      totalBuffer := status.totalBuffer.map fun data =>
        { data with bytes := writeAt data.bytes start bs }
      waitingBuffer :=
        { start := start + bs.length
          numBytes := status.waitingBuffer.numBytes - bs.length } }

/-- `continue_recv`. -/
def continueRecv (s : State) (c : ConnId) (sid : StatusId) (r : Recv) : State × Received :=
  match s.recvBody c sid r with
  | .over => (s.localDisconnect c .connectionLost, .interrupted)
  | .blocked => (s, .pending)
  | .failed e => (s, .failed e)
  | .bytes bs =>
    let s := ((s.consume c bs.length).log (.received c bs)).fillWaiting sid bs
    (s, if (s.status sid).waitingBuffer.numBytes = 0 then .done else .pending)

/-- The header in the preamble of the buffer that is being filled. -/
def savedHeader (s : State) (sid : StatusId) : Header :=
  (((s.status sid).totalBuffer.bind fun data => data.metadata.header)).getD default

/-- A message that was read completely: its status, header and buffer. -/
structure Message where
  status : StatusId
  header : Header
  data : MsgData

/-- The part of `read_from_socket` that calls `continue_recv` and acts on its result. -/
def continueMessage (s : State) (c : ConnId) (sid : StatusId) (header : Header) (r : Recv) :
    State × Option Message :=
  match s.continueRecv c sid r with
  -- `continue_recv` has already called `local_disconnect`.
  | (s, .interrupted) => (s, none)
  -- What was read of the message is lost.
  | (s, .failed e) =>
    (((s.sendCallbackOsError c "recv" e .nothing).clearConnStatusBuffer sid).log
      (.recvFailed c), none)
  | (s, .pending) => (s, none)
  | (s, .done) =>
    let data := (s.status sid).totalBuffer.getD (msgNewDataSpace 0)
    (s.clearConnStatusBuffer sid, some ⟨sid, header, data⟩)

/-- "Read in any tcp data": begin a message or continue the one in progress. -/
def recvTcp (s : State) (c : ConnId) (r : ReadIn) : State × Option Message :=
  match s.remoteAddressSeen c with
  | (s, sid) =>
    if (s.status sid).waitingBuffer.numBytes = 0 then
      match s.readHeader c r.peek with
      | (s, none) => (s, none)
      | (s, some header) =>
        -- A close has no body to wait for.
        if header.kind = .close then (s.localDisconnect c .connectionClosed, none)
        else (s.newConnStatusBuffer sid header).continueMessage c sid header r.body
    -- A message is in progress, and its header is in its buffer.
    else s.continueMessage c sid (s.savedHeader sid) r.body

/-- "Accept a new incoming connection". -/
def acceptConn (s : State) (c : ConnId) (r : ReadIn) : State :=
  match r.accept with
  | .error .wouldBlock => s
  | .error e => s.sendCallbackOsError c "accept" e .nothing
  | .ok (newSock, ip, port) =>
    let s := s.openDescriptor newSock (.stream [] false)
    match r.avoidSigpipe with
    -- The new descriptor is in no conn, and is not closed.
    | some e => s.sendCallbackOsError c "setsockopt" e .nothing
    | none =>
      match r.nonBlocking with
      | some e => s.sendCallbackOsError c "fcntl" e .nothing
      | none =>
        let conn := s.conn c
        let newConn := s.nextConn
        let s := s.newConnection conn.connContext conn.callback false
        let s := s.modifyConn newConn fun k =>
          { k with
            socket := newSock
            remoteAddress := ⟨ip, port, conn.protocolType⟩
            -- The new conn is added to `conns` below, so this is its place.
            index := s.conns.length }
        (((s.addToConns newConn).addToPollFds newSock).remoteAddressSeen newConn).1

/-! ## Udp -/

/-- The datagram that `recvfrom` returns. -/
def recvfrom (s : State) (c : ConnId) (r : Option Errno) : Except Errno Datagram :=
  match r, s.socketOf c with
  | some e, _ => .error e
  | none, some (.dgram (d :: _)) => .ok d
  | none, some _ => .error .wouldBlock
  | none, none => .error .badSock

/-- The data bytes after `recvfrom` wrote the payload of a datagram to a buffer of
    `num_bytes`: what does not fit is lost, and what is missing stays unwritten. -/
def datagramBytes (numBytes : Nat) (payload : List UInt8) : List (Option UInt8) :=
  (payload.take numBytes).map some ++ List.replicate (numBytes - payload.length) none

/-- "Read in any udp data". -/
def recvUdp (s : State) (c : ConnId) (header : Header) (r : Option Errno) :
    State × Option Message :=
  match s.recvfrom c r with
  | .error e => (s.sendCallbackOsError c "recvfrom" e .nothing, none)
  | .ok d =>
    let bytes := datagramBytes header.numBytes.toNat (d.bytes.drop headerLen)
    let address : Address := ⟨d.ip, d.port, (s.conn c).protocolType⟩
    let s := (s.consume c d.bytes.length).log (.datagram c address d.bytes)
    match (s.modifyConn c fun conn => { conn with remoteAddress := address }).remoteAddressSeen
      c with
    | (s, sid) =>
      let metadata : Metadata :=
        { replyContext := some null, remoteAddress := some address, header := header }
      (s, some ⟨sid, header, { bytes := bytes, metadata := metadata }⟩)

/-! ## Complete messages -/

/-- The switch on the message type. Types without a case leave `event` as it was, and so does a
    heartbeat, since `assert` is empty outside of debug builds; a close has no event. -/
def eventFor (header : Header) (uninit : Event) : Option Event :=
  match header.kind with
  | .oneWay => some .message
  | .request => some .request
  | .reply => some .reply
  | .close => none
  | .heartbeat | .unknown => some uninit

/-- "Avoid confusion about whether or not this is a reply". -/
def clearOneWay (s : State) (c : ConnId) (header : Header) : State :=
  if header.kind = .oneWay then
    (s.modifyConn c fun conn => { conn with replyId := 0 }).log (.oneWay c)
  else s

/-- The end of `read_from_socket`: look up the context of a reply and queue the event. -/
def handleMessage (s : State) (c : ConnId) (event : Event) (m : Message) : State × Bool :=
  let address := (s.conn c).remoteAddress
  let cause := Cause.frame address m.status m.header m.data.bytes
  if m.header.kind = .reply then
    match (s.status m.status).replyContexts.lookup m.header.replyId with
    -- The message is freed after this error.
    | none => (s.sendCallbackError c "Unrecognized reply_id" .data (cause none), false)
    | some context =>
      let s := s.removeTimeout m.status m.header.replyId
      let s := s.modifyConn c fun conn => { conn with replyContext := context }
      -- Only udp messages have metadata of their own.
      let data := if (s.conn c).protocolType = .udp then
        { m.data with metadata := { m.data.metadata with replyContext := some context } }
      else m.data
      let s := s.modifyStatus m.status fun status =>
        { status with replyContexts := status.replyContexts.erase m.header.replyId }
      -- So a nested `msg_send` is not taken for a reply itself.
      let s := s.modifyConn c fun conn => { conn with replyId := 0 }
      (s.sendCallback c event (some data) .nothing (cause (some context)), true)
  else
    let s := s.modifyConn c fun conn => { conn with replyContext := null }
    (s.sendCallback c event (some m.data) .nothing (cause (some null)), true)

/-- `read_from_socket`. -/
def readFromSocket (s : State) (c : ConnId) (r : ReadIn) : State × Bool :=
  if (s.conn c).protocolType = .tcp then
    if (s.conn c).forListening then (s.acceptConn c r, false)
    else
      match s.recvTcp c r with
      | (s, none) => (s, false)
      | (s, some m) =>
        match eventFor m.header r.uninitEvent with
        | none => (s.localDisconnect c .connectionClosed, false)
        | some event => (s.clearOneWay c m.header).handleMessage c event m
  else
    match s.readHeader c r.peek with
    | (s, none) => (s, false)
    | (s, some header) =>
      match eventFor header r.uninitEvent with
      -- A close is only peeked at: its datagram is not taken out of the socket.
      | none => (s.localDisconnect c .connectionClosed, false)
      | some event =>
        match (s.clearOneWay c header).recvUdp c header r.recvfrom with
        | (s, none) => (s, false)
        | (s, some m) => s.handleMessage c event m

end Msgbox.State
