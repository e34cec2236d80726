import Msgbox.Read

/-!
# Public functions

`msg_listen` and `msg_connect` with `open_socket`, `msg_unlisten`, `msg_disconnect`,
`msg_send` and `msg_get`, and what an application may write to a conn.
-/

namespace Msgbox.State

/-! ## `open_socket` -/

/-- `setup_sockaddr`: parse the address and enter a new socket in `conns` and `poll_fds`. -/
def setupSockaddr (s : State) (c : ConnId) (address : CString) (sock : Except Errno Sock) :
    State × Bool :=
  let parsed := parseAddressStr address (s.conn c).remoteAddress
  let s := s.modifyConn c fun conn => { conn with remoteAddress := parsed.1 }
  match parsed.2 with
  -- The conn is in no array yet. It is freed after the callback for its error.
  | some errMsg => (s.sendCallbackError c errMsg (.conn c) .other, false)
  | none =>
    match sock with
    | .error e => (s.sendCallbackOsError c "socket" e (.conn c), false)
    | .ok sock =>
      let s := s.openDescriptor sock
        (if parsed.1.protocolType = .tcp then .stream [] false else .dgram [])
      let s := s.modifyConn c fun conn =>
        { conn with socket := sock, index := s.conns.length }
      ((s.addToConns c).addToPollFds sock, true)

/-- `open_socket`. -/
def openSocket (s : State) (address : CString) (connContext : Ptr) (callback : Nat)
    (forListening : Bool) (o : OpenIn) : State :=
  let c := s.nextConn
  match (s.newConnection connContext callback forListening).setupSockaddr c address o.socket with
  | (s, false) => s
  | (s, true) =>
    match o.nonBlocking with
    -- Here and below the conn is taken out of the arrays, but its descriptor stays open.
    | some e => (s.sendCallbackOsError c "fcntl" e (.conn c)).removeLastPollingConn
    | none =>
      match o.opener with
      | some e =>
        if ¬ forListening ∧ (s.conn c).protocolType = .tcp ∧
            (e = .inProgress ∨ e = .wouldBlock) then
          -- msg_connection_ready follows when the connection is established.
          s.setConnToPollMode (s.conns.length - 1) .write
        else
          let sysCallName := if forListening then "bind" else "connect"
          (s.sendCallbackOsError c sysCallName e (.conn c)).removeLastPollingConn
      | none =>
        if forListening then
          match if (s.conn c).protocolType = .tcp then o.listen else none with
          | some e => (s.sendCallbackOsError c "listen" e (.conn c)).removeLastPollingConn
          | none => s.sendCallback c .listening none .nothing .other
        else (s.remoteAddressSeen c).1

/-- `msg_listen`. -/
def msgListen (s : State) (address : CString) (callback : Nat) (o : OpenIn) : State :=
  s.openSocket address null callback true o

/-- `msg_connect`. -/
def msgConnect (s : State) (address : CString) (callback : Nat) (connContext : Ptr)
    (o : OpenIn) : State :=
  s.openSocket address connContext callback false o

/-! ## Ending connections -/

/-- `msg_unlisten` of a conn that is not `NULL`; `result` is the outcome of `closesocket`. -/
def msgUnlisten (s : State) (c : ConnId) (result : Option Errno) : State :=
  if ¬ (s.conn c).forListening then
    s.sendCallbackError c "msg_unlisten called on non-listening connection" .nothing .other
  else
    -- Tell local_disconnect to free the conn object, even on udp.
    let s := s.modifyConn c fun conn => { conn with forListening := false }
    let closed := s.closesocket (s.conn c).socket
    match s.closeError (s.conn c).socket result with
    | none => closed.localDisconnect c .listeningEnded
    | some e =>
      let s := closed.sendCallbackOsError c "close" e .nothing
      if e = .badSock then s else s.localDisconnect c .listeningEnded

/-- Queue the error of a failing system call of `send_data`. -/
def reportSend (s : State) (c : ConnId) (failedSysCall : Option (String × Errno)) : State :=
  match failedSysCall with
  | some (name, e) => s.sendCallbackOsError c name e .nothing
  | none => s

/-- `msg_disconnect`. -/
def msgDisconnect (s : State) (c : ConnId) (w : SendIn) : State :=
  let s := s.log (.disconnected c (s.conn c).remoteAddress)
  match s.sendData c (setHeader .close 0 0) w with
  | (s, failedSysCall) => (s.reportSend c failedSysCall).localDisconnect c .connectionClosed

/-! ## Sending messages -/

/-- The data of `msg_send` once it has set up the header. -/
def sendFrame (s : State) (c : ConnId) (payload : List UInt8) : List UInt8 :=
  let replyId := (s.conn c).replyId
  let msgType := if replyId ≠ 0 then MsgType.reply else MsgType.oneWay
  setHeader msgType replyId payload.length ++ payload

/-- `msg_send`. -/
def msgSend (s : State) (c : ConnId) (payload : List UInt8) (w : SendIn) : State :=
  match s.sendData c (s.sendFrame c payload) w with
  | (s, failedSysCall) => s.reportSend c failedSysCall

/-- `msg_get`, called at time `now`. -/
def msgGet (s : State) (c : ConnId) (payload : List UInt8) (replyContext : Ptr) (now : Nat)
    (w : SendIn) : State :=
  match s.statusOfConn c with
  | none =>
    let errMsg := "No known connection with " ++
      String.ofList (addressAsStr (s.conn c).remoteAddress)
    s.sendCallbackError c (snprintf 1024 errMsg) .nothing .other
  | some sid =>
    let replyId := (s.status sid).nextReplyId
    let s := s.modifyStatus sid fun status =>
      { status with
        nextReplyId := status.nextReplyId + 1
        replyContexts := status.replyContexts.insert replyId replyContext }
    match s.sendData c (setHeader .request replyId payload.length ++ payload) w with
    -- The context stays in `reply_contexts`, with no timeout to remove it.
    | (s, some (name, e)) =>
      (s.log (.got c sid replyId replyContext false)).sendCallbackOsError c name e .nothing
    | (s, none) =>
      (s.log (.got c sid replyId replyContext true)).addTimeout now c sid replyId

/-! ## The application -/

/-- What the application does between two calls of `msg_runloop` or in a callback: a public
    function, or a write to a conn's `conn_context`, or to the remote address of a listening
    udp conn in order to send from its socket to somebody else. -/
inductive AppCall
  | listen (address : CString) (callback : Nat) (o : OpenIn)
  | connect (address : CString) (callback : Nat) (connContext : Ptr) (o : OpenIn)
  | unlisten (conn : Option ConnId) (result : Option Errno)
  | disconnect (conn : ConnId) (w : SendIn)
  | send (conn : ConnId) (payload : List UInt8) (w : SendIn)
  | get (conn : ConnId) (payload : List UInt8) (replyContext : Ptr) (now : Nat) (w : SendIn)
  | setConnContext (conn : ConnId) (connContext : Ptr)
  | setRemoteAddress (conn : ConnId) (ip : UInt32) (port : UInt16)

/-- A pointer to a conn that was allocated and not freed. -/
def isLive (s : State) (c : ConnId) : Bool := c < s.nextConn && !s.freed c

/-- The kernel hands out descriptors that are not open. -/
def isNewSock (s : State) : Except Errno Sock → Bool
  | .ok sock => (s.sockets sock).isNone
  | .error _ => true

/-- The calls with defined behaviour: the conn is live, and only the remote address of a
    listening udp conn is written. -/
def admits (s : State) : AppCall → Bool
  | .listen _ _ o => s.isNewSock o.socket
  | .connect _ _ _ o => s.isNewSock o.socket
  | .unlisten none _ => true
  | .unlisten (some c) _ => s.isLive c
  | .disconnect c _ => s.isLive c
  | .send c _ _ => s.isLive c
  | .get c _ _ _ _ => s.isLive c
  | .setConnContext c _ => s.isLive c
  | .setRemoteAddress c _ _ =>
    s.isLive c && (s.conn c).forListening && (s.conn c).protocolType == .udp

/-- The effect of a call. -/
def appCall (s : State) : AppCall → State
  | .listen address callback o => s.msgListen address callback o
  | .connect address callback connContext o => s.msgConnect address callback connContext o
  | .unlisten none _ => s
  | .unlisten (some c) result => s.msgUnlisten c result
  | .disconnect c w => s.msgDisconnect c w
  | .send c payload w => s.msgSend c payload w
  | .get c payload replyContext now w => s.msgGet c payload replyContext now w
  | .setConnContext c connContext =>
    s.modifyConn c fun conn => { conn with connContext := connContext }
  | .setRemoteAddress c ip port =>
    s.modifyConn c fun conn =>
      { conn with remoteAddress := { conn.remoteAddress with ip := ip, port := port } }

end Msgbox.State
