import Msgbox.Spec.Queue

/-!
# Which datagrams leave the receive queue

On a udp conn the header of a message is only peeked, and the datagram is taken by a later
`recvfrom`. The calls that do not get that far leave it at the head of the queue, where the
next call finds it again.

## Key results

- `takes`: the datagrams that a call of `read_from_socket` takes
- `datagram_taken_iff`: a call removes the head of the queue exactly if it takes it, and calls
  in a row take the datagrams in the order of their arrival
-/

namespace Msgbox

/-- The call gets as far as to take the datagram: it holds a whole header which is not that of
    a close, and neither `recv` nor `recvfrom` fails. -/
def takes (d : Datagram) (r : ReadIn) : Bool :=
  (match r.peek with
    | .upTo _ => true
    | .fail _ => false) &&
  headerLen ≤ d.bytes.length && (decodeHeader (d.bytes.take headerLen)).kind ≠ .close &&
  r.recvfrom.isNone

/-- The datagrams that were taken through the conn, in this order. -/
def takenFrom (t : List Obs) (c : ConnId) : List (Address × List UInt8) :=
  (t.filterMap fun o => match o with
    | .datagram c' a bytes => if c' = c then some (a, bytes) else none
    | _ => none).reverse

/-- A datagram with its sender, as it is recorded. -/
def Datagram.taken (d : Datagram) : Address × List UInt8 := (⟨d.ip, d.port, .udp⟩, d.bytes)

@[simp] theorem takenFrom_queued (p : PendingCall) (t : List Obs) (c : ConnId) :
    takenFrom (.queued p :: t) c = takenFrom t c := rfl

@[simp] theorem takenFrom_datagram (c : ConnId) (d : Datagram) (t : List Obs) :
    takenFrom (.datagram c ⟨d.ip, d.port, .udp⟩ d.bytes :: t) c = takenFrom t c ++ [d.taken] := by
  simp [takenFrom, Datagram.taken]

namespace State

variable {s : State} {c : ConnId}

/-! ## Functions that leave the sockets alone -/

@[simp] theorem handleMessage_sockets (s : State) (c : ConnId) (event : Event) (m : Message) :
    (s.handleMessage c event m).1.sockets = s.sockets := by
  unfold handleMessage
  dsimp only
  split
  · split <;> rfl
  · rfl

/-- A drop leaves the sockets alone, or closes the conn's. -/
private theorem localDisconnect_sockets (s : State) (c : ConnId) (event : Event) :
    (s.localDisconnect c event).sockets = s.sockets ∨
      (s.localDisconnect c event).sockets (s.conn c).socket = none := by
  unfold localDisconnect
  split
  · exact .inl rfl
  · exact .inr (Function.update_self _ _ _)

/-- A message that is handed over keeps the conn's address and socket. -/
private theorem handleMessage_conn (s : State) (c : ConnId) (event : Event) (m : Message) :
    ((s.handleMessage c event m).1.conn c).remoteAddress = (s.conn c).remoteAddress ∧
      ((s.handleMessage c event m).1.conn c).socket = (s.conn c).socket := by
  unfold handleMessage
  dsimp only
  split
  · split
    · exact ⟨rfl, rfl⟩
    · simp
  · simp

/-- Queueing the call of a message takes no datagram. -/
private theorem handleMessage_taken (s : State) (c : ConnId) (event : Event) (m : Message) :
    takenFrom (s.handleMessage c event m).1.trace c = takenFrom s.trace c := by
  unfold handleMessage
  dsimp only
  split
  · split <;> rfl
  · rfl

/-- Neither does the first sight of a remote. -/
private theorem remoteAddressSeen_taken (s : State) (c : ConnId) :
    takenFrom (s.remoteAddressSeen c).1.trace c = takenFrom s.trace c := by
  unfold remoteAddressSeen
  split <;> rfl

/-- The header of a datagram is accepted without a record of a datagram. -/
private theorem acceptHeader_taken (hudp : (s.conn c).protocolType = .udp) (raw : List UInt8) :
    takenFrom ((s.acceptHeader c raw).clearOneWay c (decodeHeader raw)).trace c =
      takenFrom s.trace c := by
  have htake : s.takeHeader c raw = s := by
    rw [takeHeader, if_neg (by rw [hudp]; exact Protocol.noConfusion)]
  unfold acceptHeader clearOneWay
  rw [htake]
  split <;> rfl

/-! ## One call -/

/-- The peek at a datagram. -/
theorem peekHeader_dgram {d : Datagram} {rest : List Datagram}
    (hqueue : s.socketOf c = some (.dgram (d :: rest))) (r : Recv) :
    s.peekHeader c r = match r with
      | .upTo _ =>
        if d.bytes.length = 0 then .over
        else if d.bytes.length < headerLen then .blocked
        else .header (d.bytes.take headerLen)
      | .fail .connReset => .over
      | .fail .wouldBlock => .blocked
      | .fail e => .failed e := by
  unfold peekHeader recvOn
  rw [hqueue]
  cases r with
  | upTo n =>
    have hlen : (d.bytes.take headerLen).length = min 8 d.bytes.length := List.length_take
    simp only [Socket.recv, headerLen, Nat.reduceEqDiff, if_false] at hlen ⊢
    rw [hlen]
    by_cases hempty : d.bytes.length = 0
    · simp [hempty]
    · by_cases hshort : d.bytes.length < 8
      · simp [hempty, hshort]
      · have hmin : min 8 d.bytes.length = 8 := by omega
        simp [hempty, hshort, hmin]
  | fail e => cases e <;> rfl

/-- The datagram is left where it is, or the whole queue goes with the conn's socket. -/
def Left (s s' : State) (c : ConnId) : Prop :=
  s'.sockets (s.conn c).socket = s.socketOf c ∨ s'.sockets (s.conn c).socket = none

/-- `local_disconnect` leaves the queue alone or closes its socket. -/
private theorem left_of_localDisconnect (event : Event) : Left s (s.localDisconnect c event) c := by
  rcases localDisconnect_sockets s c event with heq | hclosed
  · exact .inl (by rw [heq]; rfl)
  · exact .inr hclosed

/-- What a call that takes the datagram does. -/
structure Took (s s' : State) (c : ConnId) (d : Datagram) (rest : List Datagram) : Prop where
  queue : s'.socketOf c = some (.dgram rest)
  socket : (s'.conn c).socket = (s.conn c).socket
  protocol : (s'.conn c).protocolType = .udp
  taken : takenFrom s'.trace c = takenFrom s.trace c ++ [d.taken]

/-- The part after the header was accepted. -/
private theorem recvUdp_took {d : Datagram} {rest : List Datagram}
    (hudp : (s.conn c).protocolType = .udp) (hqueue : s.socketOf c = some (.dgram (d :: rest)))
    (header : Header) (event : Event) :
    ∃ s₁ m, s.recvUdp c header none = (s₁, some m) ∧
      Took s (s₁.handleMessage c event m).1 c d rest := by
  have hrecv : s.recvfrom c none = .ok d := by simp [recvfrom, hqueue]
  unfold recvUdp
  simp only [hrecv, hudp]
  refine ⟨_, _, rfl, ?_⟩
  generalize hs₁ : ((s.consume c d.bytes.length).log (.datagram c ⟨d.ip, d.port, .udp⟩
    d.bytes)).modifyConn c _ = s₁
  obtain ⟨haddr, hsocket⟩ := handleMessage_conn (s₁.remoteAddressSeen c).1 c event _
  constructor
  · rw [socketOf, handleMessage_sockets, remoteAddressSeen_sockets, hsocket, remoteAddressSeen_conn,
      ← hs₁]
    simp [hqueue, Socket.consume]
  · rw [hsocket, remoteAddressSeen_conn, ← hs₁]
    simp
  · rw [Conn.protocolType, haddr, remoteAddressSeen_conn, ← hs₁]
    simp
  · rw [handleMessage_taken, remoteAddressSeen_taken, ← hs₁]
    exact takenFrom_datagram c d s.trace

/-- A datagram is taken by a read that peeks and receives without an error, if it has a header
    and is no close. -/
theorem takes_iff {d : Datagram} {r : ReadIn} :
    takes d r = true ↔ (∃ n, r.peek = .upTo n) ∧ headerLen ≤ d.bytes.length ∧
      (decodeHeader (d.bytes.take headerLen)).kind ≠ .close ∧ r.recvfrom = none := by
  unfold takes
  cases r.peek <;> simp [and_assoc]

/-- There is an event for every header but a close. -/
theorem eventFor_isSome (header : Header) (uninit : Event) :
    (eventFor header uninit).isSome = true ↔ header.kind ≠ .close := by
  unfold eventFor
  cases header.kind <;> simp

/-- A call that gets as far as that takes the datagram. -/
theorem readFromSocket_took {d : Datagram} {rest : List Datagram} {r : ReadIn}
    (hudp : (s.conn c).protocolType = .udp)
    (hqueue : s.socketOf c = some (.dgram (d :: rest))) (htakes : takes d r = true) :
    Took s (s.readFromSocket c r).1 c d rest := by
  obtain ⟨⟨n, hpeek⟩, hlen, hkind, hrecvfrom⟩ := takes_iff.mp htakes
  have hnot : (s.conn c).protocolType ≠ .tcp := by
    rw [hudp]
    exact Protocol.noConfusion
  have hempty : d.bytes.length ≠ 0 := by
    intro hzero
    rw [hzero] at hlen
    exact absurd hlen (by decide)
  have hheader : s.peekHeader c r.peek = .header (d.bytes.take headerLen) := by
    rw [peekHeader_dgram hqueue, hpeek]
    simp only
    rw [if_neg hempty, if_neg (by omega)]
  obtain ⟨event, hevent⟩ := Option.isSome_iff_exists.mp
    ((eventFor_isSome (decodeHeader (d.bytes.take headerLen)) r.uninitEvent).mpr hkind)
  unfold readFromSocket readHeader
  rw [if_neg hnot, hheader]
  simp only [hevent, hrecvfrom]
  -- The header was accepted, and the conn is as it was but for its reply id.
  obtain ⟨id, hconn, hsockets⟩ := acceptHeader_udp hudp (d.bytes.take headerLen)
  have htaken := acceptHeader_taken hudp (d.bytes.take headerLen)
  generalize (s.acceptHeader c (d.bytes.take headerLen)).clearOneWay c
    (decodeHeader (d.bytes.take headerLen)) = s₁ at hconn hsockets htaken ⊢
  have hudp₁ : (s₁.conn c).protocolType = .udp := by
    rw [hconn]
    exact hudp
  have hqueue₁ : s₁.socketOf c = some (.dgram (d :: rest)) := by
    rw [socketOf, hconn, hsockets]
    exact hqueue
  obtain ⟨s₂, m, hrecv, htook⟩ :=
    recvUdp_took hudp₁ hqueue₁ (decodeHeader (d.bytes.take headerLen)) event
  rw [hrecv]
  refine ⟨htook.queue, ?_, htook.protocol, htaken ▸ htook.taken⟩
  rw [htook.socket, hconn]

/-- Any other call leaves it in the queue. -/
private theorem readFromSocket_left {d : Datagram} {rest : List Datagram} {r : ReadIn}
    (hudp : (s.conn c).protocolType = .udp)
    (hqueue : s.socketOf c = some (.dgram (d :: rest))) (htakes : takes d r = false) :
    Left s (s.readFromSocket c r).1 c := by
  have hnot : (s.conn c).protocolType ≠ .tcp := by
    rw [hudp]
    exact Protocol.noConfusion
  unfold readFromSocket readHeader
  rw [if_neg hnot]
  cases hheader : s.peekHeader c r.peek with
  | blocked => exact .inl rfl
  | «over» => exact left_of_localDisconnect _
  | failed e => exact .inl rfl
  | header raw =>
    -- The header is whole, so it is that of a close, or `recvfrom` fails.
    have htake : s.takeHeader c raw = s := by rw [takeHeader, if_neg hnot]
    have hsocket : ((s.acceptHeader c raw).conn c).socket = (s.conn c).socket := by
      simp [acceptHeader, htake]
    have hsockets : (s.acceptHeader c raw).sockets = s.sockets := by
      rw [acceptHeader, htake]
      rfl
    dsimp only
    split
    · rcases left_of_localDisconnect (s := s.acceptHeader c raw) (c := c) .connectionClosed with
        hsame | hclosed
      · rw [socketOf, hsocket, hsockets] at hsame
        exact .inl hsame
      · rw [hsocket] at hclosed
        exact .inr hclosed
    · rename_i event hevent
      have hkind := (eventFor_isSome _ _).mp (Option.isSome_of_eq_some hevent)
      have hfails : ∃ err, r.recvfrom = some err := by
        rw [peekHeader_dgram hqueue] at hheader
        split at hheader
        · rename_i n hpeek
          split at hheader
          · exact Peeked.noConfusion hheader
          · split at hheader
            · exact Peeked.noConfusion hheader
            · rename_i hshort
              injection hheader with hraw
              subst hraw
              cases hrecvfrom : r.recvfrom with
              | some err => exact ⟨err, rfl⟩
              | none =>
                have htrue := takes_iff.mpr ⟨⟨n, hpeek⟩, Nat.not_lt.mp hshort, hkind, hrecvfrom⟩
                exact Bool.noConfusion (htakes.symm.trans htrue)
        · exact Peeked.noConfusion hheader
        · exact Peeked.noConfusion hheader
        · exact Peeked.noConfusion hheader
      obtain ⟨err, herr⟩ := hfails
      have hclear : ((s.acceptHeader c raw).clearOneWay c (decodeHeader raw)).sockets =
        s.sockets := by
        rw [← hsockets]
        unfold clearOneWay
        split <;> rfl
      rw [herr]
      exact .inl (congrFun hclear _)

/-- Calls of `read_from_socket` in a row. -/
def readCalls (s : State) (c : ConnId) : List ReadIn → State
  | [] => s
  | r :: rs => (s.readFromSocket c r).1.readCalls c rs

/-- Calls in a row that each take a datagram take them in the order of the queue. -/
private theorem readCalls_took {queue : List Datagram} {rs : List ReadIn}
    (hudp : (s.conn c).protocolType = .udp) (hqueue : s.socketOf c = some (.dgram queue))
    (hlen : rs.length ≤ queue.length) (htakes : ∀ x ∈ queue.zip rs, takes x.1 x.2 = true) :
    (s.readCalls c rs).socketOf c = some (.dgram (queue.drop rs.length)) ∧
      takenFrom (s.readCalls c rs).trace c =
        takenFrom s.trace c ++ (queue.take rs.length).map Datagram.taken := by
  induction rs generalizing s queue with
  | nil => simp [readCalls, hqueue]
  | cons r rs ih =>
    cases queue with
    | nil => exact absurd hlen (Nat.not_succ_le_zero _)
    | cons d rest =>
      have htook := readFromSocket_took hudp hqueue (htakes (d, r) List.mem_cons_self)
      obtain ⟨hrest, htaken⟩ := ih htook.protocol htook.queue (Nat.le_of_succ_le_succ hlen)
        (fun x hx => htakes x (List.mem_cons_of_mem _ hx))
      refine ⟨hrest, ?_⟩
      rw [readCalls, htaken, htook.taken]
      simp

end State

/-- One call of `read_from_socket` on a udp conn with a datagram to read removes the head of
    the queue if and only if it takes it; if not, the head stays, or the socket is closed.
    Calls in a row that all take their datagram take them in the order of their arrival. -/
theorem datagram_taken_iff (s : State) (c : ConnId) (hudp : (s.conn c).protocolType = .udp)
    {d : Datagram} {rest : List Datagram} (hqueue : s.socketOf c = some (.dgram (d :: rest))) :
    (∀ r, (s.readFromSocket c r).1.sockets (s.conn c).socket = some (.dgram rest) ↔
      takes d r = true) ∧
    (∀ r, takes d r = false →
      (s.readFromSocket c r).1.sockets (s.conn c).socket = some (.dgram (d :: rest)) ∨
        (s.readFromSocket c r).1.sockets (s.conn c).socket = none) ∧
    ∀ rs : List ReadIn, rs.length ≤ (d :: rest).length →
      (∀ x ∈ (d :: rest).zip rs, takes x.1 x.2 = true) →
        (s.readCalls c rs).socketOf c = some (.dgram ((d :: rest).drop rs.length)) ∧
          takenFrom (s.readCalls c rs).trace c =
            takenFrom s.trace c ++ ((d :: rest).take rs.length).map Datagram.taken := by
  have hleft : ∀ r, takes d r = false →
      (s.readFromSocket c r).1.sockets (s.conn c).socket = some (.dgram (d :: rest)) ∨
        (s.readFromSocket c r).1.sockets (s.conn c).socket = none := by
    intro r htakes
    rw [← hqueue]
    exact State.readFromSocket_left hudp hqueue htakes
  refine ⟨fun r => ⟨fun hremoved => ?_, fun htakes => ?_⟩, hleft, fun rs hlen htakes => ?_⟩
  · rw [← Bool.not_eq_false]
    intro htakes
    rcases hleft r htakes with hstays | hclosed
    · rw [hremoved] at hstays
      simp at hstays
    · rw [hremoved] at hclosed
      exact absurd hclosed (Option.some_ne_none _)
  · have htook := State.readFromSocket_took hudp hqueue htakes
    rw [← htook.socket]
    exact htook.queue
  · exact State.readCalls_took hudp hqueue hlen htakes

/-- A datagram with the header of a message of one byte, and that byte. -/
def messageDatagram : Datagram := ⟨1, 1, setHeader .oneWay 0 1 ++ [65]⟩

/-- A datagram with the header of a close. -/
def closeDatagram : Datagram := ⟨1, 1, setHeader .close 0 0⟩

/-- A message is taken, and the next one becomes the head of the queue. -/
theorem datagram_taken_message :
    ∃ s, machine.Reach (fun _ _ => True) s ∧
      s.socketOf 0 = some (.dgram [messageDatagram, closeDatagram]) ∧
      (s.readFromSocket 0 { peek := .upTo 8, body := .upTo 1 }).1.sockets (s.conn 0).socket =
        some (.dgram [closeDatagram]) := by
  obtain ⟨s, hreach, hview⟩ := machine.exists_reach_of_run (P := fun _ _ => True)
    (fun _ _ => true) (fun _ _ _ => trivial)
    (listenRun ++ [.env (.datagram 3 messageDatagram), .env (.datagram 3 closeDatagram)])
    (fun s => ((s.conn 0).protocolType, s.socketOf 0))
    (.udp, some (.dgram [messageDatagram, closeDatagram])) (by decide +kernel)
  rw [Prod.mk.injEq] at hview
  exact ⟨s, hreach, hview.2, ((datagram_taken_iff s 0 hview.1 hview.2).1 _).mpr (by decide)⟩

/-- A close datagram stays at the head of the queue of a listening conn. The next call finds it
    again, and each of them queues a `msg_connection_closed`; the message behind it is never
    reached. -/
theorem datagram_not_taken :
    ∃ s, machine.Reach (fun _ _ => True) s ∧ (s.conn 0).protocolType = .udp ∧
      s.socketOf 0 = some (.dgram [closeDatagram, messageDatagram]) ∧
      (s.readCalls 0 [{ peek := .upTo 8 }]).socketOf 0 =
        some (.dgram [closeDatagram, messageDatagram]) ∧
      (s.readCalls 0 [{ peek := .upTo 8 }, { peek := .upTo 8 }]).socketOf 0 =
        some (.dgram [closeDatagram, messageDatagram]) ∧
      (s.readCalls 0 [{ peek := .upTo 8 }, { peek := .upTo 8 }]).immediateCallbacks.map
        PendingCall.event = [.connectionClosed, .connectionClosed] := by
  obtain ⟨s, hreach, hview⟩ := machine.exists_reach_of_run (P := fun _ _ => True)
    (fun _ _ => true) (fun _ _ _ => trivial)
    (listenRun ++ [.env (.datagram 3 closeDatagram), .env (.datagram 3 messageDatagram)])
    (fun s => ((s.conn 0).protocolType, s.socketOf 0,
      (s.readCalls 0 [{ peek := .upTo 8 }]).socketOf 0,
      (s.readCalls 0 [{ peek := .upTo 8 }, { peek := .upTo 8 }]).socketOf 0,
      (s.readCalls 0 [{ peek := .upTo 8 }, { peek := .upTo 8 }]).immediateCallbacks.map
        PendingCall.event))
    (.udp, some (.dgram [closeDatagram, messageDatagram]),
      some (.dgram [closeDatagram, messageDatagram]),
      some (.dgram [closeDatagram, messageDatagram]),
      [.connectionClosed, .connectionClosed]) (by decide +kernel)
  simp only [Prod.mk.injEq] at hview
  exact ⟨s, hreach, hview⟩

end Msgbox
