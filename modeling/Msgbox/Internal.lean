import Msgbox.State
import Msgbox.Wire
import Msgbox.Address

/-!
# Internal functions

The connection status map, the timeouts, the callback queue and the sending functions of
`msgbox.c`.
-/

namespace Msgbox.State

/-! ## Callbacks -/

/-- `send_callback`. -/
@[simps]
def sendCallback (s : State) (conn : ConnId) (event : Event) (data : Option MsgData)
    (toFree : ToFree) (cause : Cause) : State :=
  { s with
    immediateCallbacks := s.immediateCallbacks ++ [⟨conn, event, data, toFree, cause⟩]
    trace := .queued ⟨conn, event, data, toFree, cause⟩ :: s.trace }

/-- `send_callback_error`. -/
def sendCallbackError (s : State) (conn : ConnId) (msg : String) (toFree : ToFree)
    (cause : Cause) : State :=
  s.sendCallback conn .error (some (msgNewData msg)) toFree cause

/-- `send_callback_os_error`, with the value of `errno`. -/
def sendCallbackOsError (s : State) (conn : ConnId) (msg : String) (err : Errno)
    (toFree : ToFree) : State :=
  s.sendCallbackError conn (snprintf 1024 (msg ++ ": " ++ errStr err)) toFree .other

/-! ## Connection status map -/

/-- `status_of_conn`. -/
def statusOfConn (s : State) (c : ConnId) : Option StatusId :=
  s.connStatus.lookup (s.conn c).remoteAddress

/-- `map__unset(conn_status, address)`, whose releaser is `delete_conn_status`. -/
@[simps]
def unsetStatus (s : State) (address : Address) : State :=
  { s with
    status := match s.connStatus.lookup address with
      | none => s.status
      | some sid => Function.update s.status sid { s.status sid with deleted := true }
    connStatus := s.connStatus.erase address }

/-- A new status for a conn's address, entered in `conn_status`. -/
@[simps]
def addStatus (s : State) (c : ConnId) : State :=
  { s with
    status := Function.update s.status s.nextStatus
      { remoteAddress := (s.conn c).remoteAddress, connContext := (s.conn c).connContext }
    nextStatus := s.nextStatus + 1
    connStatus := s.connStatus.insert (s.conn c).remoteAddress s.nextStatus }

/-- The data of a `msg_connection_ready` event. -/
def readyData (address : Address) : MsgData :=
  { msgNewDataSpace 0 with metadata := { remoteAddress := address } }

/-- `remote_address_seen`: the status of the conn's address, made now if there is none. -/
def remoteAddressSeen (s : State) (c : ConnId) : State × StatusId :=
  match s.statusOfConn c with
  | some sid => (s, sid)
  | none =>
    let address := (s.conn c).remoteAddress
    ((s.addStatus c).sendCallback c .connectionReady (some (readyData address)) .nothing
      (.ready address), s.nextStatus)

/-- `new_conn_status_buffer`. -/
@[simps!]
def newConnStatusBuffer (s : State) (sid : StatusId) (header : Header) : State :=
  let n := header.numBytes.toNat
  s.modifyStatus sid fun status =>
    { status with
      totalBuffer := some { msgNewDataSpace n with metadata := { header := header } }
      waitingBuffer := { start := 0, numBytes := n } }

/-- `delete_conn_status_buffer`, and the end of a message, which hands its buffer on. -/
@[simps!]
def clearConnStatusBuffer (s : State) (sid : StatusId) : State :=
  s.modifyStatus sid fun status => { status with totalBuffer := none, waitingBuffer := {} }

/-! ## Timeouts -/

/-- `udp_timeout_sec`, in microseconds. -/
def udpTimeout : Nat := 1000000

/-- `add_timeout`, called at time `now`. -/
@[simps]
def addTimeout (s : State) (now : Nat) (c : ConnId) (sid : StatusId) (replyId : UInt16) :
    State :=
  { s with timeouts := s.timeouts ++ [⟨now + udpTimeout, c, sid, replyId⟩] }

/-- `remove_timeout`: removes the first timeout of the given status and reply id. -/
@[simps]
def removeTimeout (s : State) (sid : StatusId) (replyId : UInt16) : State :=
  { s with timeouts := s.timeouts.eraseP fun t => t.status == sid && t.replyId == replyId }

/-! ## Sending -/

/-- The loop of `send_all` over the bytes that remain: what was accepted, and the error that
    ended the loop. A schedule that ends early is followed by a call that accepts the rest. -/
def sendAll : List SendResult → List UInt8 → List UInt8 × Option Errno
  | _, [] => ([], none)
  | [], remaining => (remaining, none)
  | .accept n :: schedule, remaining =>
    let justSent := max 1 n
    let rest := sendAll schedule (remaining.drop justSent)
    (remaining.take justSent ++ rest.1, rest.2)
  -- `send` is called again at once.
  | .fail .wouldBlock :: schedule, remaining => sendAll schedule remaining
  | .fail e :: _, _ => ([], some e)

/-- A `msg_Data` in memory: the memory it points into, with the preamble in front of `bytes`. -/
structure DataInMemory where
  memory : List UInt8
  bytes : Nat
  numBytes : Nat
  header_le : headerLen ≤ bytes
  end_le : bytes + numBytes ≤ memory.length

/-- The loop of `send_all` as the source writes it, with `data.bytes` and `data.num_bytes`: the
    piece that each call of `send` accepted, and the return value, if the results of the calls
    suffice to end the loop. -/
def sendAllLoop (memory : List UInt8) :
    List SendResult → Nat → Nat → List (List UInt8) × Option Int
  | _, _, 0 => ([], some 0)
  | [], _, _ + 1 => ([], none)
  | .accept n :: schedule, bytes, numBytes + 1 =>
    let justSent := min (max 1 n) (numBytes + 1)
    let rest := sendAllLoop memory schedule (bytes + justSent) (numBytes + 1 - justSent)
    ((memory.drop bytes).take justSent :: rest.1, rest.2)
  | .fail .wouldBlock :: schedule, bytes, numBytes + 1 =>
    sendAllLoop memory schedule bytes (numBytes + 1)
  | .fail _ :: _, _, _ + 1 => ([], some (-1))

/-- `send_all`. -/
def sendAllOf (data : DataInMemory) (schedule : List SendResult) :
    List (List UInt8) × Option Int :=
  sendAllLoop data.memory schedule (data.bytes - headerLen) (data.numBytes + headerLen)

/-- `send_data` of a frame, the header already set: the failing system call and its error. -/
def sendData (s : State) (c : ConnId) (frame : List UInt8) (w : SendIn) :
    State × Option (String × Errno) :=
  let conn := s.conn c
  let name := if conn.protocolType ≠ .tcp ∧ conn.forListening then "sendto" else "send"
  match s.sockets conn.socket with
  -- A descriptor that is not open.
  | none => (s.log (.sent c conn.socket [] false), some (name, .badSock))
  | some _ =>
    if conn.protocolType = .tcp then
      let sent := sendAll w.schedule frame
      (s.log (.sent c conn.socket sent.1 sent.2.isNone), sent.2.map fun e => (name, e))
    else
      match w.result with
      | none => (s.log (.sent c conn.socket frame true), none)
      | some e => (s.log (.sent c conn.socket [] false), some (name, e))

/-! ## Connections -/

/-- `new_connection`, with `for_listening` as its caller sets it. The new conn is
    `s.nextConn`. -/
@[simps]
def newConnection (s : State) (connContext : Ptr) (callback : Nat) (forListening : Bool) :
    State :=
  { s with
    conn := Function.update s.conn s.nextConn
      { connContext := connContext, callback := callback, forListening := forListening }
    nextConn := s.nextConn + 1
    trace := .opened s.nextConn :: s.trace }

/-- `array__add_item_val(conns, conn)`. -/
@[simps]
def addToConns (s : State) (c : ConnId) : State := { s with conns := s.conns ++ [c] }

/-- `closesocket`. -/
@[simps]
def closesocket (s : State) (sock : Sock) : State :=
  { s with sockets := Function.update s.sockets sock none, closings := sock :: s.closings }

/-- The error of a `closesocket`, which is `EBADF` exactly if the descriptor is not open. -/
def closeError (s : State) (sock : Sock) (result : Option Errno) : Option Errno :=
  match s.sockets sock with
  | none => some .badSock
  | some _ => if result = some .badSock then none else result

/-- `array__remove_and_fill` on an array without releaser. -/
def removeAndFill {α : Type} (array : List α) (index : Nat) : List α :=
  match array.getLast? with
  | none => []
  | some lastElt => (array.set index lastElt).dropLast

/-- `remove_conn_at`. -/
def removeConnAt (s : State) (index : Nat) : State :=
  let conns := removeAndFill s.conns index
  let s := { s with conns := conns, pollFds := removeAndFill s.pollFds index }
  match conns[index]? with
  -- The last conn now fills the gap.
  | some filledConn => s.modifyConn filledConn fun conn => { conn with index := index }
  | none => s

/-- The removal pass of `msg_runloop`. -/
def removalPass (s : State) : State :=
  { s.removals.foldl removeConnAt s with removals := [] }

/-- `remove_last_polling_conn`. -/
@[simps]
def removeLastPollingConn (s : State) : State :=
  { s with conns := s.conns.dropLast, pollFds := s.pollFds.dropLast }

/-- `add_to_poll_fds`. -/
@[simps]
def addToPollFds (s : State) (newSock : Sock) : State :=
  { s with pollFds := s.pollFds ++ [{ fd := newSock, events := .read }] }

/-- `set_conn_to_poll_mode`. -/
@[simps]
def setConnToPollMode (s : State) (index : Nat) (mode : PollMode) : State :=
  { s with pollFds := s.pollFds.modify index fun pollFd => { pollFd with events := mode } }

/-- A listening udp conn lives until it is unlistened. -/
def isListeningUdp (s : State) (c : ConnId) : Bool :=
  (s.conn c).forListening && (s.conn c).protocolType == .udp

/-- The end of `local_disconnect` for conns that are not listening udp conns: close the
    socket and mark the conn for removal. -/
@[simps]
def discardConn (s : State) (c : ConnId) : State :=
  { s.closesocket (s.conn c).socket with removals := s.removals ++ [(s.conn c).index] }

/-- `local_disconnect`: drops the conn from `conn_status`, queues the given event, and,
    unless it is a listening udp conn, closes the socket and marks the conn for removal. -/
def localDisconnect (s : State) (c : ConnId) (event : Event) : State :=
  let address := (s.conn c).remoteAddress
  if s.isListeningUdp c then
    (s.unsetStatus address).sendCallback c event none .nothing (.closing address)
  else
    ((s.unsetStatus address).sendCallback c event none (.conn c) (.closing address)).discardConn c

end Msgbox.State
