import Msgbox.Spec.Datagrams

/-!
# What reading a conn does to the state

A call of `read_from_socket` that accepts no connection is a sequence of calls and writes of a few
kinds. What each of them keeps the whole call keeps.

## Key results

- `touches_readFromSocket`: the call as such a sequence
- `Touches.socket`, `Touches.phase`: it leaves every conn on its socket, and the run loop where it
  stands
-/

namespace Msgbox

/-- One call or write below `read_from_socket` for the conn. -/
inductive Touch (c : ConnId) (s : State) : State → Prop
  | drop (event : Event) : Touch c s (s.localDisconnect c event)
  | seen : Touch c s (s.remoteAddressSeen c).1
  | queue (event : Event) (data : Option MsgData) (toFree : ToFree) (cause : Cause) :
      Touch c s (s.sendCallback c event data toFree cause)
  | take (n : Nat) : Touch c s (s.consume c n)
  | log (o : Obs) : Touch c s (s.log o)
  | conn (f : Conn → Conn) (hf : ∀ k, (f k).socket = k.socket) : Touch c s (s.modifyConn c f)
  | status (sid : StatusId) (f : ConnStatus → ConnStatus) : Touch c s (s.modifyStatus sid f)
  | timeout (sid : StatusId) (replyId : UInt16) : Touch c s (s.removeTimeout sid replyId)

/-- Such calls and writes in a row. -/
def Touches (c : ConnId) : State → State → Prop := Relation.ReflTransGen (Touch c)

namespace Touches

variable {c : ConnId} {s s₁ s' : State}

/-- No call touches nothing. -/
theorem refl (c : ConnId) (s : State) : Touches c s s := Relation.ReflTransGen.refl

theorem trans (h : Touches c s s₁) (h' : Touches c s₁ s') : Touches c s s' :=
  Relation.ReflTransGen.trans h h'

theorem touch (h : Touches c s s₁) (h' : Touch c s₁ s') : Touches c s s' :=
  Relation.ReflTransGen.tail h h'

/-- What every one of them keeps all of them keep. -/
theorem keeps {R : State → State → Prop} (hrefl : ∀ s, R s s)
    (htrans : ∀ {s s₁ s'}, R s s₁ → R s₁ s' → R s s') (htouch : ∀ {s s'}, Touch c s s' → R s s')
    (h : Touches c s s') : R s s' := by
  induction h with
  | refl => exact hrefl s
  | tail _ hlast ih => exact htrans ih (htouch hlast)

/-- Every conn stays on its socket. -/
theorem socket (h : Touches c s s') (c' : ConnId) : (s'.conn c').socket = (s.conn c').socket := by
  induction h with
  | refl => rfl
  | tail _ hlast ih =>
    rw [← ih]
    cases hlast with
    | drop event => rw [State.localDisconnect_conn]
    | seen => rw [State.remoteAddressSeen_conn]
    | conn f hf =>
      rw [State.modifyConn_conn]
      by_cases hc : c' = c
      · rw [hc, Function.update_self, hf]
      · rw [Function.update_of_ne hc]
    | _ => rfl

theorem phase (h : Touches c s s') : s'.phase = s.phase := by
  induction h with
  | refl => rfl
  | tail _ hlast ih =>
    rw [← ih]
    cases hlast with
    | drop event => exact State.localDisconnect_phase _ c event
    | seen =>
      unfold State.remoteAddressSeen
      split <;> rfl
    | _ => rfl

end Touches

namespace State

variable {s s' : State} {c : ConnId}

/-- Entering a new status and its header for a conn touches that conn only. -/
private theorem touches_acceptHeader (s : State) (c : ConnId) (raw : List UInt8) :
    Touches c s (s.acceptHeader c raw) := by
  have htake : Touches c s (s.takeHeader c raw) := by
    unfold takeHeader
    split
    · exact (Touches.refl c s).touch (.take headerLen) |>.touch (.log _)
    · exact .refl c s
  exact (htake.touch (.conn _ fun _ => by rfl)).touch (.log _)

/-- Reading a header touches the conn that reads. -/
theorem touches_readHeader (s : State) (c : ConnId) (r : Recv) :
    Touches c s (s.readHeader c r).1 := by
  unfold readHeader
  split
  · exact .refl c s
  · exact (Touches.refl c s).touch (.drop _)
  · exact (Touches.refl c s).touch (.queue _ _ _ _)
  · exact touches_acceptHeader s c _

/-- So does going on with a body. -/
private theorem touches_continueRecv (s : State) (c : ConnId) (sid : StatusId) (r : Recv) :
    Touches c s (s.continueRecv c sid r).1 := by
  unfold continueRecv
  split
  · exact (Touches.refl c s).touch (.drop _)
  · exact .refl c s
  · exact .refl c s
  · dsimp only
    exact (((Touches.refl c s).touch (.take _)).touch (.log _)).touch (.status sid _)

/-- So does completing it. -/
private theorem touches_continueMessage (s : State) (c : ConnId) (sid : StatusId) (header : Header)
    (r : Recv) : Touches c s (s.continueMessage c sid header r).1 := by
  have hrecv := touches_continueRecv s c sid r
  unfold continueMessage
  generalize s.continueRecv c sid r = received at hrecv ⊢
  obtain ⟨s₁, received⟩ := received
  dsimp only at hrecv
  cases received with
  | done =>
    dsimp only
    exact hrecv.touch (.status sid _)
  | failed e =>
    dsimp only
    exact ((hrecv.touch (.queue _ _ _ _)).touch (.status sid _)).touch (.log _)
  | pending => exact hrecv
  | interrupted => exact hrecv

/-- So does a read from a stream. -/
private theorem touches_recvTcp (s : State) (c : ConnId) (r : ReadIn) :
    Touches c s (s.recvTcp c r).1 := by
  have hseen := (Touches.refl c s).touch .seen
  unfold recvTcp
  dsimp only
  split
  · have hheader := hseen.trans (touches_readHeader (s.remoteAddressSeen c).1 c r.peek)
    generalize (s.remoteAddressSeen c).1.readHeader c r.peek = read at hheader ⊢
    obtain ⟨s₁, header⟩ := read
    cases header with
    | none => exact hheader
    | some header =>
      dsimp only at hheader ⊢
      split
      · exact hheader.touch (.drop _)
      · have hbuffer : Touch c s₁ (s₁.newConnStatusBuffer (s.remoteAddressSeen c).2 header) := by
          unfold newConnStatusBuffer
          exact .status _ _
        exact (hheader.touch hbuffer).trans (touches_continueMessage _ c _ header r.body)
  · exact hseen.trans (touches_continueMessage _ c _ _ r.body)

/-- So does clearing what a one-way message leaves. -/
theorem touches_clearOneWay (s : State) (c : ConnId) (header : Header) :
    Touches c s (s.clearOneWay c header) := by
  unfold clearOneWay
  split
  · exact ((Touches.refl c s).touch (.conn _ fun _ => by rfl)).touch (.log _)
  · exact .refl c s

/-- So does taking a datagram. -/
private theorem touches_recvUdp (s : State) (c : ConnId) (header : Header) (r : Option Errno) :
    Touches c s (s.recvUdp c header r).1 := by
  unfold recvUdp
  split
  · exact (Touches.refl c s).touch (.queue _ _ _ _)
  · exact ((((Touches.refl c s).touch (.take _)).touch (.log _)).touch
      (.conn _ fun _ => by rfl)).touch .seen

/-- So does queueing the call of a message. -/
theorem touches_handleMessage (s : State) (c : ConnId) (event : Event) (m : Message) :
    Touches c s (s.handleMessage c event m).1 := by
  unfold handleMessage
  dsimp only
  split
  · split
    · exact (Touches.refl c s).touch (.queue _ _ _ _)
    · exact (((((Touches.refl c s).touch (.timeout _ _)).touch (.conn _ fun _ => by rfl)).touch
        (.status _ _)).touch (.conn _ fun _ => by rfl)).touch (.queue _ _ _ _)
  · exact ((Touches.refl c s).touch (.conn _ fun _ => by rfl)).touch (.queue _ _ _ _)

/-- Reading a conn, unless a connection is accepted. -/
theorem touches_readFromSocket {r : ReadIn}
    (h : ¬ ((s.conn c).protocolType = .tcp ∧ (s.conn c).forListening = true)) :
    Touches c s (s.readFromSocket c r).1 := by
  unfold readFromSocket
  split
  · rename_i htcp
    rw [if_neg fun hlisten => h ⟨htcp, hlisten⟩]
    have hrecv := touches_recvTcp s c r
    generalize s.recvTcp c r = received at hrecv ⊢
    obtain ⟨s₁, message⟩ := received
    cases message with
    | none => exact hrecv
    | some m =>
      dsimp only
      split
      · exact hrecv.touch (.drop _)
      · exact (hrecv.trans (touches_clearOneWay s₁ c _)).trans (touches_handleMessage _ c _ m)
  -- Udp: peek at the header, then take the datagram.
  · have hheader := touches_readHeader s c r.peek
    generalize s.readHeader c r.peek = read at hheader ⊢
    obtain ⟨s₁, header⟩ := read
    cases header with
    | none => exact hheader
    | some header =>
      dsimp only
      split
      · exact hheader.touch (.drop _)
      · have hrecv := (hheader.trans (touches_clearOneWay s₁ c header)).trans
          (touches_recvUdp _ c header r.recvfrom)
        generalize (s₁.clearOneWay c header).recvUdp c header r.recvfrom = received at hrecv ⊢
        obtain ⟨s₂, message⟩ := received
        cases message with
        | none => exact hrecv
        | some m => exact hrecv.trans (touches_handleMessage s₂ c _ m)

end State

end Msgbox
