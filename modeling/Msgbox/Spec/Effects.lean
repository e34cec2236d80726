import Mathlib.Logic.Relation
import Msgbox.Runloop

/-!
# What one step can do

Every step of the machine is a sequence of small effects: some that may come before a conn
is dropped (`Early`), other ones (`Effect`), and at the end perhaps one that hands over a
message or drops a conn (`Final`). Each effect comes with what is known about the step where it
occurs, so that an invariant of the machine is proved by one case for each effect.

## Key results

- `Input.Reads`, `Input.Drops`, `Input.Opens`, `Input.Reports`: what an input asks for, as
  conditions on the state before the step
- `Effects`: a sequence of effects; `step_effects` in the next module proves every step one
-/

namespace Msgbox

namespace State

/-! ## Conditions on the state before a step -/

/-- A `recv` that `continue_recv` takes for the end of the connection. -/
def recvOver (s : State) (c : ConnId) (len : Nat) (r : Recv) : Bool :=
  match s.recvOn c len r with
  | .ok bs => bs.isEmpty
  | .error e => e == .connReset

/-- The bytes that the message in progress at the conn's address still needs. -/
def waitingBytes (s : State) (c : ConnId) : Nat :=
  match s.statusOfConn c with
  | some sid => (s.status sid).waitingBuffer.numBytes
  | none => 0

/-- The message in progress at the conn's address began with a close header. -/
def savedClose (s : State) (c : ConnId) : Bool :=
  match s.statusOfConn c with
  | some sid => (s.savedHeader sid).kind == .close
  | none => false

/-- `read_from_socket` on a tcp conn calls `local_disconnect`. -/
def tcpDrops (s : State) (c : ConnId) (r : ReadIn) : Bool :=
  if s.waitingBytes c = 0 then
    match s.peekHeader c r.peek with
    | .over => true
    | .header raw =>
      (decodeHeader raw).kind == .close ||
        (s.consume c headerLen).recvOver c (decodeHeader raw).numBytes.toNat r.body
    | _ => false
  else s.recvOver c (s.waitingBytes c) r.body || s.savedClose c

/-- `read_from_socket` on a udp conn calls `local_disconnect`. -/
def udpDrops (s : State) (c : ConnId) (r : ReadIn) : Bool :=
  match s.peekHeader c r.peek with
  | .over => true
  | .header raw => (decodeHeader raw).kind == .close
  | _ => false

/-- `read_from_socket` calls `local_disconnect`. -/
def readDrops (s : State) (c : ConnId) (r : ReadIn) : Bool :=
  if (s.conn c).protocolType = .tcp then !(s.conn c).forListening && s.tcpDrops c r
  else s.udpDrops c r

/-- `read_from_socket` on a udp conn reports that `recv` or `recvfrom` failed. -/
def udpReadFails (s : State) (c : ConnId) (r : ReadIn) : Bool :=
  match s.peekHeader c r.peek with
  | .failed _ => true
  | .header raw =>
    (decodeHeader raw).kind != .close &&
      match s.recvfrom c r.recvfrom with
      | .ok _ => false
      | .error _ => true
  | _ => false

/-- `read_from_socket` on a udp conn takes a reply that nobody waits for. -/
def unmatchedReply (s : State) (c : ConnId) (r : ReadIn) : Bool :=
  match s.peekHeader c r.peek, s.recvfrom c r.recvfrom with
  | .header raw, .ok d =>
    (decodeHeader raw).kind == .reply &&
      match s.connStatus.lookup ⟨d.ip, d.port, .udp⟩ with
      | none => true
      | some sid => ((s.status sid).replyContexts.lookup (decodeHeader raw).replyId).isNone
  | _, _ => false

/-- The message that is complete in the state `s` is the datagram that a call of
    `read_from_socket` in the state `s₀` takes. -/
def FromDatagram (s₀ : State) (c : ConnId) (r : ReadIn) (s : State) (m : Message) : Prop :=
  ∃ raw d, s₀.peekHeader c r.peek = .header raw ∧ s₀.recvfrom c r.recvfrom = .ok d ∧
    m.header = decodeHeader raw ∧
    m.data.bytes = datagramBytes m.header.numBytes.toNat (d.bytes.drop headerLen) ∧
    (s.conn c).remoteAddress = ⟨d.ip, d.port, .udp⟩ ∧
    Obs.datagram c ⟨d.ip, d.port, .udp⟩ d.bytes ∈ s.trace

/-- A system call of `send_data` fails. -/
def sendFails (s : State) (c : ConnId) (frame : List UInt8) (w : SendIn) : Bool :=
  (s.sendData c frame w).2.isSome

/-- `msg_get` reports an error instead of adding a timeout. -/
def getFails (s : State) (c : ConnId) (payload : List UInt8) (w : SendIn) : Bool :=
  match s.statusOfConn c with
  | none => true
  | some sid =>
    s.sendFails c (setHeader .request (s.status sid).nextReplyId payload.length ++ payload) w

/-- What a call of `send_data` gets through: the bytes that are accepted, and whether these
    are all. -/
def sendOutcome (s : State) (c : ConnId) (frame : List UInt8) (w : SendIn) : List UInt8 × Bool :=
  match s.sockets (s.conn c).socket with
  | none => ([], false)
  | some _ =>
    if (s.conn c).protocolType = .tcp then
      ((sendAll w.schedule frame).1, (sendAll w.schedule frame).2.isNone)
    else if w.result.isNone then (frame, true) else ([], false)

/-- What `poll` reported for the entry at `index`. -/
def reventsAt (s : State) (index : Nat) : Revents :=
  (s.pollFds[index]?.map PollFd.revents).getD {}

end State

namespace Input

/-- The step calls `read_from_socket` for `c`. -/
structure Reads (s : State) (i : Input) (c : ConnId) (r : ReadIn) : Prop where
  input : i = .read r
  listed : ∃ index, s.phase = .reading index ∧ s.conns[index]? = some c
  live : s.freed c = false
  protocol : (s.conn c).protocolType ≠ .other
  accept : s.isNewSock (r.accept.map Prod.fst) = true

/-- The step is a call by the application. -/
structure Calls (s : State) (i : Input) (call : State.AppCall) : Prop where
  input : i = .app call
  phase : s.phase = .app
  admits : s.admits call = true

/-- The step is the visit of `c`, which is the entry of `conns` at `index`. -/
structure Visits (s : State) (i : Input) (c : ConnId) (index : Nat) (soError : Option Errno) :
    Prop where
  input : i = .visit soError
  phase : s.phase = .polling index
  listed : s.conns[index]? = some c
  live : s.freed c = false

/-- The step calls `local_disconnect` for `c`. -/
inductive Drops (s : State) (i : Input) (c : ConnId) : Prop
  | read {r : ReadIn} (h : i.Reads s c r) (hdrops : s.readDrops c r = true)
  | disconnect {w : SendIn} (h : i.Calls s (.disconnect c w))
  | unlisten {result : Option Errno} (h : i.Calls s (.unlisten (some c) result))
      (hlistening : (s.conn c).forListening = true)
      (hclose : s.closeError (s.conn c).socket result ≠ some .badSock)

/-- The conn for which the step calls `local_disconnect`. -/
def dropTarget (s : State) : Input → Option ConnId
  | .read r =>
    match s.phase with
    | .reading index => s.conns[index]?.filter fun c => s.readDrops c r
    | _ => none
  | .app (.disconnect c _) => some c
  | .app (.unlisten (some c) result) =>
    if (s.conn c).forListening ∧ s.closeError (s.conn c).socket result ≠ some .badSock then some c
    else none
  | _ => none

/-- The conn that a step drops is the one that its input and the state before it name. -/
theorem Drops.target {s : State} {i : Input} {c : ConnId} (h : i.Drops s c) :
    i.dropTarget s = some c := by
  cases h with
  | read h hdrops =>
    obtain ⟨index, hphase, hlisted⟩ := h.listed
    simp [h.input, dropTarget, hphase, hlisted, hdrops]
  | disconnect h => rw [h.input, dropTarget]
  | unlisten h hlistening hclose =>
    rw [h.input, dropTarget, if_pos ⟨hlistening, hclose⟩]

/-- The conn that the visit of a step finds refused or timed out, and queues to be freed. -/
def refuseTarget (s : State) : Input → Option ConnId
  | .visit soError =>
    match s.phase with
    | .polling index =>
      if (s.reventsAt index).pollerr ∧
          (soError = some .connRefused ∨ soError = some .timedOut) then s.conns[index]?
      else none
    | _ => none
  | _ => none

/-- The step may queue an error for `c` that frees nothing. -/
inductive Reports (s : State) (i : Input) (c : ConnId) : Prop
  | read {r : ReadIn} (h : i.Reads s c r)
  | disconnect {w : SendIn} (h : i.Calls s (.disconnect c w))
  | unlisten {result : Option Errno} (h : i.Calls s (.unlisten (some c) result))
  | send {payload : List UInt8} {w : SendIn} (h : i.Calls s (.send c payload w))
      (hfails : s.sendFails c (s.sendFrame c payload) w = true)
  | get {payload : List UInt8} {context : Ptr} {now : Nat} {w : SendIn}
      (h : i.Calls s (.get c payload context now w)) (hfails : s.getFails c payload w = true)

/-- The step queues an error for `c` that frees nothing, with metadata that were not written. -/
inductive Errs (s : State) (i : Input) (c : ConnId) : Prop
  | tcp {r : ReadIn} (h : i.Reads s c r) (htcp : (s.conn c).protocolType = .tcp)
  | udp {r : ReadIn} (h : i.Reads s c r) (hudp : (s.conn c).protocolType = .udp)
      (hfails : s.udpReadFails c r = true)
  | disconnect {w : SendIn} (h : i.Calls s (.disconnect c w))
      (hfails : s.sendFails c (setHeader .close 0 0) w = true)
  | unlisten {result : Option Errno} (h : i.Calls s (.unlisten (some c) result))
      (hfails : (s.conn c).forListening = false ∨
        (s.closeError (s.conn c).socket result).isSome = true)
  | send {payload : List UInt8} {w : SendIn} (h : i.Calls s (.send c payload w))
      (hfails : s.sendFails c (s.sendFrame c payload) w = true)
  | get {payload : List UInt8} {context : Ptr} {now : Nat} {w : SendIn}
      (h : i.Calls s (.get c payload context now w)) (hfails : s.getFails c payload w = true)

/-- A step that reports an error for a conn may report for it. -/
theorem Errs.reports {s : State} {i : Input} {c : ConnId} (h : i.Errs s c) : i.Reports s c := by
  cases h with
  | tcp h => exact .read h
  | udp h => exact .read h
  | disconnect h => exact .disconnect h
  | unlisten h => exact .unlisten h
  | send h hfails => exact .send h hfails
  | get h hfails => exact .get h hfails

/-- The step sends a frame through `c`. -/
inductive Sends (s : State) (i : Input) (c : ConnId) : List UInt8 → SendIn → Prop
  | send {payload : List UInt8} {w : SendIn} (h : i.Calls s (.send c payload w)) :
      Sends s i c (s.sendFrame c payload) w
  | get {payload : List UInt8} {context : Ptr} {now : Nat} {w : SendIn} {sid : StatusId}
      (h : i.Calls s (.get c payload context now w)) (hsid : s.statusOfConn c = some sid) :
      Sends s i c
        (setHeader .request (s.status sid).nextReplyId payload.length ++ payload) w
  | disconnect {w : SendIn} (h : i.Calls s (.disconnect c w)) :
      Sends s i c (setHeader .close 0 0) w

/-- The step calls `remote_address_seen` for `c`, in the state `s`: the conn is connected, or
    something arrived, or it is the new conn. -/
inductive Sees (s₀ : State) (i : Input) (s : State) (c : ConnId) : Prop
  | visit {index : Nat} {soError : Option Errno} (h : i.Visits s₀ c index soError)
      (hpollout : (s₀.reventsAt index).pollout = true)
  | tcp {r : ReadIn} (h : i.Reads s₀ c r) (htcp : (s₀.conn c).protocolType = .tcp)
      (hconn : (s₀.conn c).forListening = false)
  | udp {r : ReadIn} (h : i.Reads s₀ c r) (hudp : (s₀.conn c).protocolType = .udp)
      (hproto : (s.conn c).protocolType = .udp)
      (hheard : ∃ bytes, Obs.datagram c (s.conn c).remoteAddress bytes ∈ s.trace)
  | opened (h : c = s₀.nextConn) (hconn : (s.conn c).forListening = false)
      (hindex : (s.conn c).index = s₀.conns.length)

/-- A call of `open_socket` that fails after `socket` has returned a descriptor. -/
def openLeaks (address : CString) (forListening : Bool) (o : OpenIn) : Bool :=
  let parsed := parseAddressStr address ⟨0, 0, .other⟩
  parsed.2.isNone && (match o.socket with | .ok _ => true | .error _ => false) &&
    (o.nonBlocking.isSome ||
      match o.opener with
      | some e => forListening || parsed.1.protocolType ≠ .tcp ||
          (e ≠ .inProgress && e ≠ .wouldBlock)
      | none => forListening && parsed.1.protocolType = .tcp && o.listen.isSome)

/-- A call of `setup_sockaddr` fails. -/
def setupFails (address : CString) (sock : Except Errno Sock) : Bool :=
  (parseAddressStr address ⟨0, 0, .other⟩).2.isSome ||
    match sock with
    | .ok _ => false
    | .error _ => true

/-- A call of `open_socket` is left by an error. -/
def openFails (address : CString) (forListening : Bool) (o : OpenIn) : Bool :=
  setupFails address o.socket || openLeaks address forListening o

/-- The address of the conn that the step makes, only to report that this failed. -/
def failedOpen : Input → Option Address
  | .app (.listen address _ o) =>
    if openFails address true o then some (parseAddressStr address ⟨0, 0, .other⟩).1 else none
  | .app (.connect address _ _ o) =>
    if openFails address false o then some (parseAddressStr address ⟨0, 0, .other⟩).1 else none
  | _ => none

/-- The acceptance of a connection fails after `accept` has returned a descriptor. -/
def acceptLeaks (r : ReadIn) : Bool :=
  (match r.accept with | .ok _ => true | .error _ => false) &&
    (r.avoidSigpipe.isSome || r.nonBlocking.isSome)

/-- The step is left by an error, with a new descriptor that no conn has. -/
def leaks (s : State) : Input → Bool
  | .app (.listen address _ o) => openLeaks address true o
  | .app (.connect address _ _ o) => openLeaks address false o
  | .read r =>
    match s.phase with
    | .reading index => (s.conns[index]?).any fun c =>
        (s.conn c).protocolType = .tcp && (s.conn c).forListening && acceptLeaks r
    | _ => false
  | _ => false

/-- The step makes a conn with the given address. -/
inductive Opens (s : State) (i : Input) : Address → Bool → Prop
  | listen {address : CString} {callback : Nat} {o : OpenIn}
      (h : i.Calls s (.listen address callback o)) :
      Opens s i (parseAddressStr address ⟨0, 0, .other⟩).1 true
  | connect {address : CString} {callback : Nat} {connContext : Ptr} {o : OpenIn}
      (h : i.Calls s (.connect address callback connContext o)) :
      Opens s i (parseAddressStr address ⟨0, 0, .other⟩).1 false
  | accept {c : ConnId} {r : ReadIn} {newSock : Sock} {ip : UInt32} {port : UInt16}
      (h : i.Reads s c r) (htcp : (s.conn c).protocolType = .tcp)
      (hlistening : (s.conn c).forListening = true) (haccept : r.accept = .ok (newSock, ip, port)) :
      Opens s i ⟨ip, port, .tcp⟩ false

end Input

/-! ## Effects -/

/-- An entry of `poll_fds` that waits for a connection to be established, or that `poll` has
    reported to be. -/
def PollFd.mayWrite (p : PollFd) : Bool := p.events == .write || p.revents.pollout

/-- The calls that remain to be made in a phase. -/
def Phase.saved : Phase → List PendingCall
  | .delivering saved => saved
  | _ => []

/-- Calls are saved in a delivery pass only. -/
theorem Phase.delivering_of_saved {ph : Phase} {p : PendingCall} (h : ph.saved.head? = some p) :
    ∃ rest, ph = .delivering (p :: rest) := by
  cases ph with
  | delivering saved =>
    cases saved with
    | nil => cases h
    | cons p' rest => exact ⟨rest, by rw [Option.some.inj h]⟩
  | _ => cases h

/-- A step moves `msg_runloop` on to the given phase, or ends where a call by the application
    returns to. -/
inductive Input.Advances (s : State) (i : Input) : Phase → Prop
  | idle (hinput : i = .endPoll ∨ ∃ p, i = .runloop p) (hphase : i = .endPoll → s.phase ≠ .app) :
      Advances s i .timing
  | poll {p : PollResult} (hinput : i = .runloop p) : Advances s i (.polling 0)
  | read {index : Nat} {c : ConnId} {soError : Option Errno} (h : i.Visits s c index soError) :
      Advances s i (.reading index)
  | skip {index : Nat} {c : ConnId} {soError : Option Errno} (h : i.Visits s c index soError) :
      Advances s i (.polling (index + 1))
  | next {index : Nat} {r : ReadIn} (hinput : i = .read r) (hphase : s.phase = .reading index) :
      Advances s i (.polling (index + 1))
  | back {call : State.AppCall} (h : i.Calls s call) : Advances s i .app
  | done {junk : State.Junk} (hinput : i = .deliver junk) (hphase : s.phase = .delivering []) :
      Advances s i .app

/-- No phase that `msg_runloop` moves on to has saved calls. -/
theorem Input.Advances.saved {s : State} {i : Input} {ph : Phase} (h : i.Advances s ph) :
    ph.saved = [] := by
  cases h <;> rfl

/-- Observations that go with no change to a conn. -/
def Obs.isNote : Obs → Bool
  | .received _ _ => true
  | .recvFailed _ => true
  | .sent _ _ _ _ => true
  | .disconnected _ _ => true
  | _ => false

def Obs.isSent : Obs → Bool
  | .sent _ _ _ _ => true
  | _ => false

/-- What a step may note in the state `s`. It sends at most one frame. -/
inductive Input.Notes (s₀ : State) (i : Input) (s : State) : Obs → Prop
  | received {c : ConnId} {r : ReadIn} (bytes : List UInt8) (h : i.Reads s₀ c r)
      (htcp : (s₀.conn c).protocolType = .tcp) (hconn : (s₀.conn c).forListening = false) :
      Notes s₀ i s (.received c bytes)
  | recvFailed {c : ConnId} {r : ReadIn} (h : i.Reads s₀ c r)
      (htcp : (s₀.conn c).protocolType = .tcp) (hconn : (s₀.conn c).forListening = false) :
      Notes s₀ i s (.recvFailed c)
  | sent {c : ConnId} {frame : List UInt8} {w : SendIn} (h : i.Sends s₀ c frame w)
      (hfirst : s.trace.filter Obs.isSent = s₀.trace.filter Obs.isSent) :
      Notes s₀ i s (.sent c (s₀.conn c).socket (s₀.sendOutcome c frame w).1
        (s₀.sendOutcome c frame w).2)
  | disconnected {c : ConnId} {w : SendIn} (h : i.Calls s₀ (.disconnect c w)) :
      Notes s₀ i s (.disconnected c (s₀.conn c).remoteAddress)

/-- The events of `local_disconnect`. -/
def Event.isClosing : Event → Bool
  | .connectionClosed => true
  | .connectionLost => true
  | .listeningEnded => true
  | _ => false

namespace State

/-- A new conn with the given fields. -/
@[simps]
def allocConn (s : State) (k : Conn) : State :=
  { s with
    conn := Function.update s.conn s.nextConn k
    nextConn := s.nextConn + 1
    trace := .opened s.nextConn :: s.trace }

/-- The get of the given status and reply id is resolved: its timeout and its entry go, and
    the conn is given its context. -/
@[simps]
def resolve (s : State) (c : ConnId) (sid : StatusId) (replyId : UInt16) (context : Ptr) :
    State :=
  { s.removeTimeout sid replyId with
    conn := Function.update s.conn c
      { s.conn c with replyContext := context, replyId := 0 }
    status := Function.update s.status sid
      { s.status sid with replyContexts := (s.status sid).replyContexts.erase replyId } }

/-- The get of a timeout is resolved: its entry goes, and the conn is given its context. -/
@[simps]
def timeOut (s : State) (t : Timeout) (rest : List Timeout) (context : Ptr) : State :=
  { s with
    timeouts := rest
    conn := Function.update s.conn t.conn { s.conn t.conn with replyContext := context }
    status := Function.update s.status t.status
      { s.status t.status with
        replyContexts := (s.status t.status).replyContexts.erase t.replyId } }

/-- A reply id is handed out and its context is entered. -/
@[simps]
def enterGet (s : State) (sid : StatusId) (context : Ptr) : State :=
  { s with
    status := Function.update s.status sid
      { s.status sid with
        nextReplyId := (s.status sid).nextReplyId + 1
        replyContexts :=
          (s.status sid).replyContexts.insert (s.status sid).nextReplyId context } }

end State

/-- The effects that may come before a conn is dropped. -/
inductive Early (s₀ : State) (i : Input) (s : State) : State → Prop
  | kernel (sockets : Sock → Option Socket)
      (hopen : ∀ sock, (sockets sock).isSome = (s.sockets sock).isSome) :
      Early s₀ i s { s with sockets := sockets }
  | leak {sock : Sock} (k : Socket) (hnew : s.sockets sock = none) (hleaks : i.leaks s₀ = true) :
      Early s₀ i s (s.openDescriptor sock k)
  | close {c : ConnId} {result : Option Errno} (hcalls : i.Calls s₀ (.unlisten (some c) result))
      (hlistening : (s₀.conn c).forListening = true) :
      Early s₀ i s (s.closesocket (s₀.conn c).socket)
  | poll (pollFds : List PollFd) (hfds : pollFds.map PollFd.fd = s.pollFds.map PollFd.fd)
      (hwrites : ∀ (j : Nat) (p : PollFd), pollFds[j]? = some p → p.mayWrite = true →
        (∃ p' : PollFd, s.pollFds[j]? = some p' ∧ p'.mayWrite = true) ∨
          ∃ c, s.conns[j]? = some c ∧ (s.conn c).forListening = false) :
      Early s₀ i s { s with pollFds := pollFds }
  | note (o : Obs) (ho : o.isNote = true) (hnotes : i.Notes s₀ s o) : Early s₀ i s (s.log o)
  | header {c : ConnId} {r : ReadIn} (h : Header) (hreads : i.Reads s₀ c r) :
      Early s₀ i s
        ((s.modifyConn c fun conn => { conn with replyId := h.replyId }).log (.header c h))
  | buffer {c : ConnId} {r : ReadIn} {sid : StatusId} (total : Option MsgData)
      (waiting : WaitingBuffer) (hreads : i.Reads s₀ c r)
      (htcp : (s₀.conn c).protocolType = .tcp) (hsid : s.statusOfConn c = some sid)
      (hconn : (s₀.conn c).forListening = false) :
      Early s₀ i s
        (s.modifyStatus sid fun status =>
          { status with totalBuffer := total, waitingBuffer := waiting })
  | ready {c : ConnId} (hlisted : c ∈ s.conns) (hsees : i.Sees s₀ s c)
      (hnew : s.statusOfConn c = none) :
      Early s₀ i s
        ((s.addStatus c).sendCallback c .connectionReady
          (some (State.readyData (s.conn c).remoteAddress)) .nothing
          (.ready (s.conn c).remoteAddress))
  | error {c : ConnId} (msg : String) (herrs : i.Errs s₀ c) :
      Early s₀ i s (s.sendCallback c .error (some (msgNewData msg)) .nothing .other)
  | unflag {c : ConnId} {result : Option Errno}
      (hcalls : i.Calls s₀ (.unlisten (some c) result))
      (hlistening : (s₀.conn c).forListening = true) (hstart : s = s₀) :
      Early s₀ i s (s.modifyConn c fun conn => { conn with forListening := false })

/-- The effects that neither hand over a message nor free a conn. -/
inductive Effect (s₀ : State) (i : Input) (s : State) : State → Prop
  | early {s' : State} (h : Early s₀ i s s') : Effect s₀ i s s'
  | oneWay {c : ConnId} {r : ReadIn} (hreads : i.Reads s₀ c r) :
      Effect s₀ i s ((s.modifyConn c fun conn => { conn with replyId := 0 }).log (.oneWay c))
  | datagram {c : ConnId} {r : ReadIn} (d : Datagram) (hreads : i.Reads s₀ c r)
      (hudp : (s₀.conn c).protocolType = .udp) (hproto : (s.conn c).protocolType = .udp)
      (hrecv : s₀.recvfrom c r.recvfrom = .ok d)
      (hsame : (s.conn c).forListening = (s₀.conn c).forListening ∧
        (s.conn c).remoteAddress = (s₀.conn c).remoteAddress) :
      Effect s₀ i s
        (((s.consume c d.bytes.length).log (.datagram c ⟨d.ip, d.port, .udp⟩ d.bytes)).modifyConn c
          fun conn => { conn with remoteAddress := ⟨d.ip, d.port, .udp⟩ })
  | opened (k : Conn) (contents : Socket) (hopens : i.Opens s₀ k.remoteAddress k.forListening)
      (hnew : s.sockets k.socket = none)
      (hconn : s.nextConn = s₀.nextConn) (hconns : s.conns = s₀.conns)
      (hindex : k.index = s.conns.length) (hreplyId : k.replyId = 0)
      (hreplyContext : k.replyContext = null) :
      Effect s₀ i s
        ((((s.openDescriptor k.socket contents).allocConn k).addToConns s.nextConn).addToPollFds
          k.socket)
  | listening {c : ConnId} (hopened : c = s₀.nextConn) (hlisted : c ∈ s.conns) :
      Effect s₀ i s (s.sendCallback c .listening none .nothing .other)
  | context {c : ConnId} (connContext : Ptr) (hcalls : i.Calls s₀ (.setConnContext c connContext)) :
      Effect s₀ i s (s.modifyConn c fun conn => { conn with connContext := connContext })
  | address {c : ConnId} {ip : UInt32} {port : UInt16}
      (hcalls : i.Calls s₀ (.setRemoteAddress c ip port)) (hstart : s = s₀) :
      Effect s₀ i s
        (s.modifyConn c fun conn =>
          { conn with remoteAddress := { conn.remoteAddress with ip := ip, port := port } })
  | get {c : ConnId} {payload : List UInt8} {context : Ptr} {now : Nat} {w : SendIn}
      {sid : StatusId} {o : Obs} (hcalls : i.Calls s₀ (.get c payload context now w))
      (ho : o.isNote = true) (hstart : s = s₀.log o) (hsid : s.statusOfConn c = some sid)
      (hsent : s₀.getFails c payload w = false) :
      Effect s₀ i s
        (((s.enterGet sid context).log
          (.got c sid (s.status sid).nextReplyId context true)).addTimeout
          now c sid (s.status sid).nextReplyId)
  | failedGet {c : ConnId} {payload : List UInt8} {context : Ptr} {now : Nat} {w : SendIn}
      {sid : StatusId} {o : Obs} (hcalls : i.Calls s₀ (.get c payload context now w))
      (ho : o.isNote = true) (hstart : s = s₀.log o) (hsid : s.statusOfConn c = some sid)
      (hfails : s₀.getFails c payload w = true) :
      Effect s₀ i s
        ((s.enterGet sid context).log (.got c sid (s.status sid).nextReplyId context false))
  | expire {now : Nat} {t : Timeout} {rest : List Timeout} {context : Ptr} {data : MsgData}
      (hinput : i = .timeouts now) (hdue : t ∈ s₀.timeouts.takeWhile fun t => t.at_ ≤ now)
      (htimeouts : s.timeouts = t :: rest) (hlive : s.freed t.conn = false)
      (hlookup : (s.status t.status).replyContexts.lookup t.replyId = some context)
      (hmetadata : data.metadata.replyContext = some context ∧
        data.metadata.remoteAddress = some (s.status (rest.headD t).status).remoteAddress)
      (hpass : ∃ pre, s₀.timeouts = pre ++ t :: rest ∧ ∀ t' ∈ pre ++ [t], t'.at_ ≤ now) :
      Effect s₀ i s
        ((s.timeOut t rest context).sendCallback t.conn .error (some data) .nothing
          (.timeout t.status t.replyId context))
  | swap {now : Nat} (hinput : i = .timeouts now) (hphase : s.phase = .timing) :
      Effect s₀ i s
        { s with immediateCallbacks := [], phase := .delivering s.immediateCallbacks }
  | phase (ph : Phase) (hold : s.phase.saved = []) (hnext : i.Advances s₀ ph)
      (hpass : ph = .polling 0 → s.removals = []) :
      Effect s₀ i s { s with phase := ph }
  | removal (hinput : i = .endPoll ∨ ∃ p, i = .runloop p) (hstart : s = s₀) :
      Effect s₀ i s s.removalPass
  | call {call : PendingCall} {rest : List PendingCall} {junk : State.Junk}
      (hinput : i = .deliver junk) (hstart : s = s₀) (hphase : s.phase = .delivering (call :: rest))
      (hlive : s.freed call.conn = false) :
      Effect s₀ i s (s.makeCall call rest junk)
  | finish {f : Frame} {stack : List Frame}
      (hinput : i = .ret) (hstart : s = s₀) (hphase : s.phase = .app)
      (hstack : s.stack = f :: stack) (hlive : s.freed f.call.conn = false) :
      Effect s₀ i s (s.finishCall f stack)

/-- The effects that end a step: a message that is complete, and those that drop or free a
    conn. -/
inductive Final (s₀ : State) (i : Input) (s : State) : State → Prop
  | handled {c : ConnId} {r : ReadIn} {event : Event} {m : State.Message}
      (hreads : i.Reads s₀ c r) (hevent : State.eventFor m.header r.uninitEvent = some event)
      (hkind : m.header.kind ≠ .reply) (hstatus : s.statusOfConn c = some m.status)
      (hudp : (s.conn c).protocolType = .udp →
        m.data.metadata.replyContext = some null ∧
          m.data.metadata.remoteAddress = some (s.conn c).remoteAddress)
      (hfrom : (s.conn c).protocolType = .udp → s₀.FromDatagram c r s m)
      (htcp : (s.conn c).protocolType = .tcp →
        (s₀.conn c).protocolType = .tcp ∧ (s₀.conn c).forListening = false) :
      Final s₀ i s
        ((s.modifyConn c fun conn => { conn with replyContext := null }).sendCallback c event
          (some m.data) .nothing
          (.frame (s.conn c).remoteAddress m.status m.header m.data.bytes (some null)))
  | matched {c : ConnId} {r : ReadIn} {event : Event} {m : State.Message} {context : Ptr}
      {data : MsgData}
      (hreads : i.Reads s₀ c r) (hevent : State.eventFor m.header r.uninitEvent = some event)
      (hkind : m.header.kind = .reply) (hstatus : s.statusOfConn c = some m.status)
      (hlookup : (s.status m.status).replyContexts.lookup m.header.replyId = some context)
      (hudp : (s.conn c).protocolType = .udp →
        data.metadata.replyContext = some context ∧
          data.metadata.remoteAddress = some (s.conn c).remoteAddress)
      (hbytes : data.bytes = m.data.bytes)
      (hfrom : (s.conn c).protocolType = .udp → s₀.FromDatagram c r s m)
      (htcp : (s.conn c).protocolType = .tcp →
        (s₀.conn c).protocolType = .tcp ∧ (s₀.conn c).forListening = false) :
      Final s₀ i s
        ((s.resolve c m.status m.header.replyId context).sendCallback c event (some data) .nothing
          (.frame (s.conn c).remoteAddress m.status m.header m.data.bytes (some context)))
  | unmatched {c : ConnId} {r : ReadIn} {m : State.Message} {ph : Phase}
      (hreads : i.Reads s₀ c r) (hkind : m.header.kind = .reply)
      (hstatus : s.statusOfConn c = some m.status)
      (hlookup : (s.status m.status).replyContexts.lookup m.header.replyId = none)
      (hold : s.phase.saved = []) (hnext : i.Advances s₀ ph)
      (hfrom : (s.conn c).protocolType = .udp → s₀.FromDatagram c r s m)
      (hunmatched : (s.conn c).protocolType = .udp → s₀.unmatchedReply c r = true)
      (htcp : (s.conn c).protocolType = .tcp →
        (s₀.conn c).protocolType = .tcp ∧ (s₀.conn c).forListening = false) :
      Final s₀ i s
        { s.sendCallback c .error (some (msgNewData "Unrecognized reply_id")) .data
            (.frame (s.conn c).remoteAddress m.status m.header m.data.bytes none) with
          phase := ph }
  | drop {c : ConnId} {event : Event} {ph : Phase}
      (hearly : Relation.ReflTransGen (Early s₀ i) s₀ s) (hdrops : i.Drops s₀ c)
      (hevent : event.isClosing = true) (hold : s.phase.saved = []) (hnext : i.Advances s₀ ph) :
      Final s₀ i s { s.localDisconnect c event with phase := ph }
  | refuse {c : ConnId} {index : Nat} {soError : Option Errno} (msg : String)
      (hvisits : i.Visits s₀ c index soError) (hstart : s = s₀)
      (hpollerr : (s.reventsAt index).pollerr = true)
      (herror : soError = some .connRefused ∨ soError = some .timedOut) :
      Final s₀ i s
        { ({ s with removals := s.removals ++ [(s.conn c).index] }).sendCallback c .error
            (some (msgNewData msg)) (.conn c) .other with phase := .polling (index + 1) }
  | fail (k : Conn) (msg : String) (hopens : i.Opens s₀ k.remoteAddress k.forListening)
      (hconn : s.nextConn = s₀.nextConn) (hreplyId : k.replyId = 0)
      (hreplyContext : k.replyContext = null) (hfailed : i.failedOpen = some k.remoteAddress) :
      Final s₀ i s
        ((s.allocConn k).sendCallback s.nextConn .error (some (msgNewData msg))
          (.conn s.nextConn) .other)

/-- A sequence of effects, the last of which may be a `Final` one. -/
def Effects (s₀ : State) (i : Input) (s s' : State) : Prop :=
  ∃ s₁, Relation.ReflTransGen (Effect s₀ i) s s₁ ∧ (s' = s₁ ∨ Final s₀ i s₁ s')

end Msgbox
