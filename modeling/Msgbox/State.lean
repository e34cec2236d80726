import Mathlib.Tactic.Simps.Basic
import Msgbox.Types

/-!
# Sockets and the process state

The kernel's side of a descriptor, the outcomes of system calls that the program cannot
foresee, and the state of a process that uses the library: the heap, the file-level
variables of `msgbox.c`, where `msg_runloop` stands, and the history of what happened.

## Key results

- `State.modifyConn`, `State.modifyStatus`, `State.log`: the elementary updates, with one
  lemma per field
-/

namespace Msgbox

/-! ## Sockets -/

/-- A datagram in a receive queue, with its sender. -/
structure Datagram where
  ip : UInt32
  port : UInt16
  bytes : List UInt8
  deriving DecidableEq, Repr

/-- The receiving side of an open descriptor: the unread part of a tcp stream and whether
    the peer's stream ends there, or the queue of received udp datagrams. -/
inductive Socket
  | stream (unread : List UInt8) (ended : Bool)
  | dgram (queue : List Datagram)
  deriving DecidableEq, Repr

/-- How one `recv` call turns out: it hands over at most `n` bytes (at least one, if there
    are any), it would block, or it fails. -/
inductive Recv
  | upTo (n : Nat)
  | fail (e : Errno)
  deriving DecidableEq, Repr

def Recv.wouldBlock : Recv := .fail .wouldBlock

/-- The bytes `recv` returns for a buffer of `len` bytes; the empty list is the return
    value 0. A call with `len = 0` returns 0 without looking at the socket. -/
def Socket.recv (k : Socket) (len : Nat) : Recv → Except Errno (List UInt8)
  | .fail e => .error e
  | .upTo n =>
    if len = 0 then .ok []
    else match k with
      | .stream [] true => .ok []
      | .stream [] false => .error .wouldBlock
      | .stream unread _ => .ok (unread.take (min len (max 1 n)))
      | .dgram [] => .error .wouldBlock
      | .dgram (d :: _) => .ok (d.bytes.take len)

/-- What a `recv` of `n` bytes without `MSG_PEEK` removes from the socket. -/
def Socket.consume (k : Socket) (n : Nat) : Socket :=
  match k with
  | .stream unread ended => .stream (unread.drop n) ended
  | .dgram queue => .dgram queue.tail

/-- The results of the `send` calls in the loop of `send_all`: some part of the bytes, but
    at least one, is accepted, or the call fails. -/
inductive SendResult
  | accept (n : Nat)
  | fail (e : Errno)
  deriving DecidableEq, Repr

/-- The system calls of one sending function: `send_all`'s for tcp, one call for udp. -/
structure SendIn where
  schedule : List SendResult := []
  result : Option Errno := none
  deriving DecidableEq, Repr

/-- The system calls of `open_socket`: `socket`, `fcntl`, `bind` or `connect`, `listen`. -/
structure OpenIn where
  socket : Except Errno Sock
  nonBlocking : Option Errno := none
  opener : Option Errno := none
  listen : Option Errno := none

/-- The system calls of `read_from_socket`, and the value that its variable `event` holds
    before it is assigned. -/
structure ReadIn where
  accept : Except Errno (Sock × UInt32 × UInt16) := .error .wouldBlock
  avoidSigpipe : Option Errno := none
  nonBlocking : Option Errno := none
  peek : Recv := .wouldBlock
  body : Recv := .wouldBlock
  recvfrom : Option Errno := none
  uninitEvent : Event := .error

/-- `revents` of a `struct pollfd`. -/
structure Revents where
  pollin : Bool := false
  pollout : Bool := false
  pollerr : Bool := false
  deriving DecidableEq, Repr

/-- `PollMode` of an entry of `poll_fds`; `events` is `POLLIN` or `POLLOUT`. -/
inductive PollMode
  | read
  | write
  deriving DecidableEq, Repr

/-- `struct pollfd`. -/
structure PollFd where
  fd : Sock
  events : PollMode
  revents : Revents := {}
  deriving DecidableEq, Repr

/-- The return value of `poll`, with the `revents` it fills in. -/
inductive PollResult
  | failed (e : Errno)
  | nothing
  | ready (revents : List Revents)
  deriving DecidableEq, Repr

/-! ## Process state -/

/-- A call of `make_call` whose callback is running: the call, the status whose
    `conn_context` was restored, and the calls that are to be made after it. -/
structure Frame where
  call : PendingCall
  status : Option StatusId
  rest : List PendingCall
  deriving DecidableEq, Repr

/-- Where `msg_runloop` stands. In `app` the application's own code runs: outside the
    library if the stack is empty, else in the callback on top of the stack. -/
inductive Phase
  | app
  | polling (i : Nat)
  | reading (i : Nat)
  | timing
  | delivering (saved : List PendingCall)
  deriving DecidableEq, Repr

/-- Ghost: what can be observed of a run.
    `header` is a header that `read_header` accepted, `oneWay` a one-way message that reached
    the switch on the message type, `received` bytes that were taken from a tcp stream
    through the conn, `recvFailed` a failing `recv` of a message body, `datagram` a datagram taken
    from a udp socket, `called` a callback with the conn's fields at that moment, `got` a
    `msg_get` and whether its send succeeded, `sent` the bytes of a frame that were accepted,
    `disconnected` a call of `msg_disconnect`. -/
inductive Obs
  | opened (c : ConnId)
  | header (c : ConnId) (h : Header)
  | oneWay (c : ConnId)
  | received (c : ConnId) (bytes : List UInt8)
  | recvFailed (c : ConnId)
  | datagram (c : ConnId) (sender : Address) (bytes : List UInt8)
  | queued (call : PendingCall)
  | called (conn : Conn) (call : PendingCall)
  | got (c : ConnId) (status : StatusId) (replyId : UInt16) (context : Ptr) (sent : Bool)
  | sent (c : ConnId) (sock : Sock) (accepted : List UInt8) (complete : Bool)
  | disconnected (c : ConnId) (address : Address)
  deriving DecidableEq, Repr

instance : Inhabited ConnStatus := ⟨{ remoteAddress := ⟨0, 0, .other⟩ }⟩

/-- The state of a process. `trace` lists the newest observation first, and so do the ghosts
    `openings`, the descriptors that `socket` and `accept` returned, and `closings`, those that
    were passed to `closesocket`. -/
structure State where
  conn : ConnId → Conn := fun _ => {}
  freed : ConnId → Bool := fun _ => false
  nextConn : ConnId := 0
  status : StatusId → ConnStatus := fun _ => default
  nextStatus : StatusId := 0
  conns : List ConnId := []
  pollFds : List PollFd := []
  removals : List Nat := []
  timeouts : List Timeout := []
  connStatus : AList (fun _ : Address => StatusId) := ∅
  immediateCallbacks : List PendingCall := []
  sockets : Sock → Option Socket := fun _ => none
  phase : Phase := .app
  stack : List Frame := []
  trace : List Obs := []
  openings : List Sock := []
  closings : List Sock := []

/-- The state after `init_if_needed`. -/
def State.init : State := {}

namespace State

/-- Record an observation. -/
@[simps]
def log (s : State) (o : Obs) : State := { s with trace := o :: s.trace }

/-- Write to fields of a conn. -/
@[simps]
def modifyConn (s : State) (c : ConnId) (f : Conn → Conn) : State :=
  { s with conn := Function.update s.conn c (f (s.conn c)) }

/-- Write to fields of a status. -/
@[simps]
def modifyStatus (s : State) (sid : StatusId) (f : ConnStatus → ConnStatus) : State :=
  { s with status := Function.update s.status sid (f (s.status sid)) }

/-- Replace the receiving side of an open descriptor. -/
@[simps]
def setSocket (s : State) (sock : Sock) (k : Socket) : State :=
  { s with sockets := Function.update s.sockets sock (some k) }

/-- A new descriptor, as `socket` and `accept` return it. -/
@[simps]
def openDescriptor (s : State) (sock : Sock) (k : Socket) : State :=
  { s with sockets := Function.update s.sockets sock (some k), openings := sock :: s.openings }

end State

end Msgbox
