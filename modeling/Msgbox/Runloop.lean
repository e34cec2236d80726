import Msgbox.Lib.Machine
import Msgbox.Public

/-!
# The run loop

`msg_runloop` as a machine that takes one step at a time, so that the peer, the kernel and
the application's callbacks can act in between: the call of `poll`, one visit for each
entry of `conns`, one step for each call of `read_from_socket`, the pass over the timeouts,
and two steps for each `make_call`, before and after the callback.

## Key results

- `machine`: the machine whose runs are the runs of a process that uses the library
-/

namespace Msgbox

namespace State

/-! ## Polling -/

/-- The `revents` that `poll` reports for the entries of `poll_fds`; `POLLOUT` only where it
    was asked for. -/
def fillRevents (pollFds : List PollFd) (revents : List Revents) : List PollFd :=
  pollFds.mapIdx fun i pollFd =>
    let r := revents.getD i {}
    { pollFd with revents :=
      { pollin := r.pollin && pollFd.events == .read
        pollout := r.pollout && pollFd.events == .write
        pollerr := r.pollerr } }

/-- `msg_runloop` up to the return of `poll`. -/
def beginRunloop (s : State) (p : PollResult) : State :=
  let s := s.removalPass
  if s.conns.isEmpty then { s with phase := .timing }
  else match p with
    -- The error is at most printed: it belongs to no conn's callback.
    | .failed _ => { s with phase := .timing }
    | .nothing => { s with phase := .timing }
    | .ready revents => { s with pollFds := fillRevents s.pollFds revents, phase := .polling 0 }

/-- One iteration of the loop over `conns`, for the conn at `index`, up to the calls of
    `read_from_socket`; `soError` is the value of `SO_ERROR`. -/
def visitConn (s : State) (index : Nat) (c : ConnId) (soError : Option Errno) : State :=
  let revents := (s.pollFds[index]?.map PollFd.revents).getD {}
  if revents.pollerr ∧ (soError = some .connRefused ∨ soError = some .timedOut) then
    -- The conn stays in `conns` until the removal pass, and is freed after its error.
    let s := { s with removals := s.removals ++ [(s.conn c).index] }
    let s := s.sendCallbackOsError c "connect" (soError.getD .connRefused) (.conn c)
    { s with phase := .polling (index + 1) }
  else
    -- Any other error is left to `read_from_socket`. Writing is polled for only while a tcp conn
    -- connects.
    let s := if revents.pollout then
      (s.remoteAddressSeen c).1.setConnToPollMode index .read else s
    { s with phase := if revents.pollin then .reading index else .polling (index + 1) }

/-! ## Timeouts -/

/-- One timeout of the pass, the first of the array, whose other items are `rest`. The
    pointer to the removed item then points at the next one, if there is one.
    `none` where the pass reads freed memory. -/
def expire (s : State) (t : Timeout) (rest : List Timeout) : Option State :=
  if s.freed t.conn ∨ (s.status t.status).deleted then none
  else
    match (s.status t.status).replyContexts.lookup t.replyId with
    -- `assert(pair)`; without the assertion, `pair` is read although it is `NULL`.
    | none => none
    | some context =>
      let s := s.modifyConn t.conn fun conn => { conn with replyContext := context }
      let s := s.modifyStatus t.status fun status =>
        { status with replyContexts := status.replyContexts.erase t.replyId }
      let s := { s with timeouts := rest }
      let msg := if (s.conn t.conn).protocolType = .tcp then "tcp get timed out"
        else "udp get timed out"
      -- `timeout` is read again after `array__remove_item` has moved the items.
      let slot := rest.headD t
      let metadata : Metadata :=
        { replyContext := some context
          remoteAddress := some (s.status slot.status).remoteAddress }
      let data := { msgNewData msg with metadata := metadata }
      some (s.sendCallback t.conn .error (some data) .nothing
        (.timeout t.status t.replyId context))

/-- The loop over `timeouts` at time `now`. After each removal the index steps back, so the
    loop always looks at the first item. -/
def timeoutLoop (now : Nat) : List Timeout → State → Option State
  | [], s => some s
  | t :: rest, s =>
    -- The timeouts are soonest-first.
    if now < t.at_ then some s
    else (s.expire t rest).bind (timeoutLoop now rest)

/-- One round of that loop as the source writes it, for the item `t` at `index`: the removal
    moves the items behind it down by one, and the pointer to it then points at the next. -/
def expireAt (s : State) (index : Nat) (t : Timeout) : Option State :=
  let timeouts := s.timeouts.eraseIdx index
  (s.expire t (timeouts.drop index)).map fun s => { s with timeouts := timeouts }

/-- The loop over `timeouts` as `array__for` runs it: `index` steps back after each removal,
    and forward at the end of each round. `none` if the fuel runs out. -/
def timeoutFor (now : Nat) : Nat → Int → State → Option State
  | 0, _, _ => none
  | fuel + 1, index, s =>
    match s.timeouts[index.toNat]? with
    | none => some s
    | some t =>
      if now < t.at_ then some s
      else (s.expireAt index.toNat t).bind (timeoutFor now fuel (index - 1 + 1))

/-- The timeout pass, and the swap of the callback queue that follows it. -/
def timeoutPass (s : State) (now : Nat) : Option State :=
  (timeoutLoop now s.timeouts s).map fun s =>
    { s with immediateCallbacks := [], phase := .delivering s.immediateCallbacks }

/-! ## Callbacks -/

/-- What an unwritten metadata preamble holds. -/
structure Junk where
  replyContext : Ptr := null
  remoteAddress : Address := ⟨0, 0, .other⟩
  deriving DecidableEq, Repr

/-- "Copy metadata from msg_Data/status to msg_Conn for udp messages": the conn's fields are
    overwritten if the conn is a udp conn and the call has data. -/
def restoreConn (s : State) (call : PendingCall) (junk : Junk) : State × Option StatusId :=
  match call.data with
  | none => (s, none)
  | some data =>
    if (s.conn call.conn).protocolType = .udp then
      let s := s.modifyConn call.conn fun conn =>
        { conn with
          replyContext := data.metadata.replyContext.getD junk.replyContext
          remoteAddress := data.metadata.remoteAddress.getD junk.remoteAddress }
      match s.statusOfConn call.conn with
      | some sid =>
        (s.modifyConn call.conn fun conn =>
          { conn with connContext := (s.status sid).connContext }, some sid)
      -- `assert` expects this of a `msg_error` only.
      | none => (s, none)
    else (s, none)

/-- `make_call` up to the callback; `rest` are the calls to make after it. -/
def makeCall (s : State) (call : PendingCall) (rest : List PendingCall) (junk : Junk) :
    State :=
  match s.restoreConn call junk with
  | (s, status) =>
    { s.log (.called (s.conn call.conn) call) with
      stack := ⟨call, status, rest⟩ :: s.stack
      phase := .app }

/-- "Save the user's conn_context in case they changed it." -/
def saveContext (s : State) (f : Frame) : State :=
  match f.status with
  | none => s
  | some sid =>
    if (s.conn f.call.conn).protocolType = .udp then
      s.modifyStatus sid fun status =>
        { status with connContext := (s.conn f.call.conn).connContext }
    else s

/-- Free what the call's `to_free` points to. -/
def release (s : State) : ToFree → State
  | .conn c => { s with freed := Function.update s.freed c true }
  | .data => s
  | .nothing => s

/-- `make_call` after the callback. -/
def finishCall (s : State) (f : Frame) (stack : List Frame) : State :=
  { (s.saveContext f).release f.call.toFree with
    stack := stack
    phase := .delivering f.rest }

/-! ## The machine -/

/-- What the network does: bytes or the end of a stream arrive, or a datagram. -/
inductive EnvEvent
  | arrive (sock : Sock) (bytes : List UInt8)
  | hangUp (sock : Sock)
  | datagram (sock : Sock) (d : Datagram)

def environment (s : State) : EnvEvent → Option State
  | .arrive sock bytes =>
    match s.sockets sock with
    | some (.stream unread false) => some (s.setSocket sock (.stream (unread ++ bytes) false))
    | _ => none
  | .hangUp sock =>
    match s.sockets sock with
    | some (.stream unread _) => some (s.setSocket sock (.stream unread true))
    | _ => none
  | .datagram sock d =>
    match s.sockets sock with
    | some (.dgram queue) => some (s.setSocket sock (.dgram (queue ++ [d])))
    | _ => none

end State

/-- The inputs of the machine: an event in the network, a call by the application, the
    entry to `msg_runloop` with the result of `poll`, and the steps of `msg_runloop`. -/
inductive Input
  | env (e : State.EnvEvent)
  | app (call : State.AppCall)
  | runloop (p : PollResult)
  | visit (soError : Option Errno)
  | read (r : ReadIn)
  | endPoll
  | timeouts (now : Nat)
  | deliver (junk : State.Junk)
  | ret

open State in
/-- One step. There is none where the input does not fit the phase, and none where the code
    would use freed memory, a conn whose `protocol_type` is neither tcp nor udp, or the last item
    of an empty array. -/
def step (s : State) : Input → Option State
  | .env e => s.environment e
  | .app call => if s.phase = .app ∧ s.admits call then some (s.appCall call) else none
  | .runloop p =>
    -- Each removal takes a conn out of `conns`. A conn that was marked twice may leave none for
    -- the last one.
    if s.phase = .app ∧ s.removals.length ≤ s.conns.length then some (s.beginRunloop p) else none
  | .visit soError =>
    match s.phase with
    | .polling i =>
      match s.conns[i]? with
      | some c => if s.freed c then none else some (s.visitConn i c soError)
      | none => none
    | _ => none
  | .read r =>
    match s.phase with
    | .reading i =>
      match s.conns[i]? with
      | some c =>
        if s.freed c ∨ (s.conn c).protocolType = .other ∨
            ¬ s.isNewSock (r.accept.map Prod.fst) then none
        else
          match s.readFromSocket c r with
          | (s, true) => some s
          | (s, false) => some { s with phase := .polling (i + 1) }
      | none => none
    | _ => none
  | .endPoll =>
    match s.phase with
    | .polling i =>
      -- `array__for` reads the count in every round, so conns accepted during the pass are visited.
      -- The pass marks no conn twice.
      if s.conns.length ≤ i then some { s.removalPass with phase := .timing } else none
    | _ => none
  | .timeouts now => if s.phase = .timing then s.timeoutPass now else none
  | .deliver junk =>
    match s.phase with
    | .delivering [] => some { s with phase := .app }
    | .delivering (call :: rest) =>
      -- `make_call` begins by reading the conn.
      if s.freed call.conn then none else some (s.makeCall call rest junk)
    | _ => none
  | .ret =>
    match s.phase, s.stack with
    | .app, f :: stack => if s.freed f.call.conn then none else some (s.finishCall f stack)
    | _, _ => none

/-- A process that uses the library. -/
def machine : Machine State Input := ⟨State.init, step⟩

/-! ## Inputs of short runs -/

/-- `msg_connect` to a tcp address, and the cycle that delivers `msg_connection_ready`. -/
def connectRun : List Input :=
  [.app (.connect ['t', 'c', 'p', ':', '/', '/', '1', '.', '2', '.', '3', '.', '4', ':', '8', '0']
      0 null { socket := .ok 3 }),
    .runloop .nothing, .timeouts 0, .deliver {}, .ret, .deliver {}]

/-- A listening udp conn on the socket 3. -/
def listenRun : List Input :=
  [.app (.listen ['u', 'd', 'p', ':', '/', '/', '*', ':', '8', '0'] 0 { socket := .ok 3 }),
    .runloop .nothing, .timeouts 0, .deliver {}, .ret, .deliver {}]

/-- A cycle of `msg_runloop` up to the first callback, in which the only conn is read. -/
def cycle (reads : List ReadIn) : List Input :=
  [.runloop (.ready [{ pollin := true }]), .visit none] ++ reads.map .read ++
    [.endPoll, .timeouts 0, .deliver {}]

/-- The cycle after the given bytes have arrived on the connection of `connectRun`, with the
    given number of messages, of one byte each, read before the first callback. -/
def readMessages (bytes : List UInt8) (messages : Nat) : List Input :=
  [.env (.arrive 3 bytes)] ++
    cycle (List.replicate messages { peek := .upTo 8, body := .upTo 1 } ++ [({} : ReadIn)])

end Msgbox
