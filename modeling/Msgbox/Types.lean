import Mathlib.Data.List.AList

/-!
# Data model

The types of `msgbox.h` and `msgbox.c`: events, addresses, headers, message buffers with
their metadata preamble, connections, per-address statuses, timeouts and pending calls.

Pointers are modelled by numbers: a `ConnId` stands for a `msg_Conn *`, a `StatusId` for a
`ConnStatus *`, and allocation never hands out the same number twice. Contents of memory
that was allocated but never written are `none`.

A few fields are ghosts: no function of the model reads them, they only let a statement say
what a pending call is about (`PendingCall.cause`).
-/

namespace Msgbox

/-- A user's opaque `void *`. -/
abbrev Ptr := Nat

/-- `NULL`, which is also `msg_no_context`. -/
def null : Ptr := 0

abbrev ConnId := Nat
abbrev StatusId := Nat
abbrev Sock := Nat

/-- `msg_Event`. -/
inductive Event
  | message
  | request
  | reply
  | listening
  | listeningEnded
  | connectionReady
  | connectionClosed
  | connectionLost
  | error
  deriving DecidableEq, Repr

/-- The values of the 16-bit `protocol_type` field: `msg_tcp`, `msg_udp`, or any other
    number, such as the 0 of a fresh conn. -/
inductive Protocol
  | tcp
  | udp
  | other
  deriving DecidableEq, Repr

/-- `Address`; `ip` is in network byte order. A `msg_Conn` has the same three fields, which
    `address_of_conn` views as an `Address`. -/
structure Address where
  ip : UInt32
  port : UInt16
  protocolType : Protocol
  deriving DecidableEq, Repr

/-- The possible meanings of a header's 16-bit `message_type`. -/
inductive MsgType
  | oneWay
  | request
  | reply
  | heartbeat
  | close
  | unknown
  deriving DecidableEq, Repr

/-- `Header`, in host byte order. -/
structure Header where
  messageType : UInt16
  replyId : UInt16
  numBytes : UInt32
  deriving DecidableEq, Repr, Inhabited

/-- `header_len`. -/
def headerLen : Nat := 8

/-- The code of a message type on the wire; an unknown type has no code of its own. -/
def MsgType.code : MsgType → UInt16
  | .oneWay => 0
  | .request => 1
  | .reply => 2
  | .heartbeat => 3
  | .close => 4
  | .unknown => 5

/-- The case of `switch (header->message_type)` that a header selects. -/
def Header.kind (h : Header) : MsgType :=
  if h.messageType = 0 then .oneWay
  else if h.messageType = 1 then .request
  else if h.messageType = 2 then .reply
  else if h.messageType = 3 then .heartbeat
  else if h.messageType = 4 then .close
  else .unknown

/-- `Metadata`, the preamble of a message buffer. A field is `none` until it is written. -/
structure Metadata where
  replyContext : Option Ptr := none
  remoteAddress : Option Address := none
  header : Option Header := none
  deriving DecidableEq, Repr

/-- `msg_Data` together with the buffer it points into: `num_bytes` bytes after the
    metadata. A byte is `none` until it is written. -/
structure MsgData where
  bytes : List (Option UInt8)
  metadata : Metadata := {}
  deriving DecidableEq, Repr

def MsgData.numBytes (d : MsgData) : Nat := d.bytes.length

/-- `waiting_buffer`: a pointer into `total_buffer`, given as an offset, and a length. -/
structure WaitingBuffer where
  start : Nat := 0
  numBytes : Nat := 0
  deriving DecidableEq, Repr

/-- `Map reply_id -> reply_context`. -/
abbrev ReplyContexts := AList (fun _ : UInt16 => Ptr)

/-- `ConnStatus`. `deleted` records that `delete_conn_status` has freed `reply_contexts`;
    the struct itself is never freed. -/
structure ConnStatus where
  replyContexts : ReplyContexts := ∅
  connContext : Ptr := null
  nextReplyId : UInt16 := 1
  remoteAddress : Address
  totalBuffer : Option MsgData := none
  waitingBuffer : WaitingBuffer := {}
  deleted : Bool := false

/-- `msg_Conn`. -/
structure Conn where
  connContext : Ptr := null
  replyContext : Ptr := null
  callback : Nat := 0
  remoteAddress : Address := ⟨0, 0, .other⟩
  socket : Sock := 0
  forListening : Bool := false
  replyId : UInt16 := 0
  index : Nat := 0
  deriving DecidableEq, Repr, Inhabited

def Conn.protocolType (conn : Conn) : Protocol := conn.remoteAddress.protocolType

/-- `Timeout`; times are microseconds. -/
structure Timeout where
  at_ : Nat
  conn : ConnId
  status : StatusId
  replyId : UInt16
  deriving DecidableEq, Repr

/-- What the `to_free` pointer of a pending call points to. -/
inductive ToFree
  | nothing
  | conn (c : ConnId)
  | data
  deriving DecidableEq, Repr

/-- Ghost: why a call was queued.
    `frame` is a message that was read completely: the sender's address, the status it was
    matched with, its header and payload, and the reply context that the conn was given,
    none if it is a reply that nobody waits for. `timeout` is a get that timed out, `closing`
    a call of `local_disconnect` while the conn's address was `address`. -/
inductive Cause
  | frame (address : Address) (status : StatusId) (header : Header)
      (payload : List (Option UInt8)) (context : Option Ptr)
  | timeout (status : StatusId) (replyId : UInt16) (context : Ptr)
  | ready (address : Address)
  | closing (address : Address)
  | other
  deriving DecidableEq, Repr

/-- `PendingCall`; `data` is `none` for `msg_no_data`. -/
structure PendingCall where
  conn : ConnId
  event : Event
  data : Option MsgData
  toFree : ToFree
  cause : Cause
  deriving DecidableEq, Repr

/-! ## Errors of system calls -/

/-- `errno` values: the ones the code tests for, and any other with its `strerror` text. -/
inductive Errno
  | wouldBlock
  | inProgress
  | badSock
  | intr
  | connReset
  | connRefused
  | timedOut
  | other (text : String)
  deriving DecidableEq, Repr

/-- `err_str`, that is `strerror(errno)`. -/
def errStr : Errno → String
  | .wouldBlock => "Resource temporarily unavailable"
  | .inProgress => "Operation now in progress"
  | .badSock => "Bad file descriptor"
  | .intr => "Interrupted system call"
  | .connReset => "Connection reset by peer"
  | .connRefused => "Connection refused"
  | .timedOut => "Connection timed out"
  | .other text => text

/-! ## Message buffers -/

/-- `snprintf(buffer, size, "%s", str)`: at most `size - 1` characters. -/
def snprintf (size : Nat) (str : String) : String := String.ofList (str.toList.take (size - 1))

/-- `msg_new_data_space`: allocates, writes nothing. -/
def msgNewDataSpace (numBytes : Nat) : MsgData :=
  { bytes := List.replicate numBytes none }

/-- `msg_new_data`: a copy of a C string with its terminator; the metadata stay unwritten. -/
def msgNewData (str : String) : MsgData :=
  { bytes := (str.toList.map fun ch => some (UInt8.ofNat ch.toNat)) ++ [some 0] }

/-- Copy `bs` into a buffer from offset `start` on. -/
def writeAt (buffer : List (Option UInt8)) (start : Nat) (bs : List UInt8) :
    List (Option UInt8) :=
  buffer.take start ++ bs.map some ++ buffer.drop (start + bs.length)

end Msgbox
