import Msgbox.Spec.Touches

/-!
# What is unread

Only the network adds to what is unread at a descriptor. The library takes it from the front, closes
descriptors, and opens new ones, at which nothing is unread.

## Key results

- `step_drains`: a step that is no event in the network leaves a suffix of what was unread
- `readFromSocket_shrinks`: a call of `read_from_socket` that is to be repeated takes something
-/

namespace Msgbox

/-- The bytes of a tcp stream that are unread. -/
def streamOf : Option Socket → List UInt8
  | some (.stream unread _) => unread
  | _ => []

/-- The datagrams that are unread. -/
def queueOf : Option Socket → List Datagram
  | some (.dgram queue) => queue
  | _ => []

/-- What is unread at each descriptor was unread there before. -/
def Drains (s s' : State) : Prop :=
  ∀ sock, streamOf (s'.sockets sock) <:+ streamOf (s.sockets sock) ∧
    queueOf (s'.sockets sock) <:+ queueOf (s.sockets sock)

namespace Drains

variable {s s₁ s' : State}

/-- No descriptor is touched. -/
private theorem of_sockets (h : s'.sockets = s.sockets) : Drains s s' := by
  intro sock
  rw [h]
  exact ⟨List.suffix_refl _, List.suffix_refl _⟩

/-- Nothing happens. -/
theorem refl (s : State) : Drains s s := of_sockets rfl

/-- What is left is a part of what was left. -/
theorem trans (h : Drains s s₁) (h' : Drains s₁ s') : Drains s s' := fun sock =>
  ⟨(h' sock).1.trans (h sock).1, (h' sock).2.trans (h sock).2⟩

/-- Nothing is unread at a descriptor that is written to. -/
theorem update {sock : Sock} {k : Option Socket}
    (hsockets : ∀ a, s'.sockets a = Function.update s.sockets sock k a)
    (hstream : streamOf k <:+ streamOf (s.sockets sock))
    (hqueue : queueOf k <:+ queueOf (s.sockets sock)) : Drains s s' := by
  intro sock'
  rw [hsockets]
  by_cases h : sock' = sock
  · subst h
    rw [Function.update_self]
    exact ⟨hstream, hqueue⟩
  · rw [Function.update_of_ne h]
    exact ⟨List.suffix_refl _, List.suffix_refl _⟩

end Drains

namespace State

variable {s s' : State} {c : ConnId}

/-! ## Reading -/

/-- Bytes are taken from the front, or one datagram. -/
private theorem drains_consume (s : State) (c : ConnId) (n : Nat) : Drains s (s.consume c n) := by
  apply Drains.update (consume_sockets s c n)
  · unfold socketOf
    cases s.sockets (s.conn c).socket with
    | none => exact List.suffix_refl _
    | some k =>
      cases k with
      | stream unread ended => exact List.drop_suffix n unread
      | dgram queue => exact List.suffix_refl _
  · unfold socketOf
    cases s.sockets (s.conn c).socket with
    | none => exact List.suffix_refl _
    | some k =>
      cases k with
      | stream unread ended => exact List.suffix_refl _
      | dgram queue => exact List.tail_suffix queue

/-- A closed descriptor holds nothing. -/
private theorem drains_close (s : State) (sock : Sock) : Drains s (s.closesocket sock) :=
  .update (closesocket_sockets s sock) (List.nil_suffix) (List.nil_suffix)

/-- A descriptor that is opened holds nothing. -/
private theorem drains_open (s : State) (sock : Sock) {k : Socket}
    (hstream : streamOf (some k) = [])
    (hqueue : queueOf (some k) = []) : Drains s (s.openDescriptor sock k) := by
  apply Drains.update (openDescriptor_sockets s sock k)
  · rw [hstream]
    exact List.nil_suffix
  · rw [hqueue]
    exact List.nil_suffix

/-- Dropping a conn makes no system call. -/
private theorem drains_localDisconnect (s : State) (c : ConnId) (event : Event) :
    Drains s (s.localDisconnect c event) := by
  unfold localDisconnect
  dsimp only
  split
  · exact .of_sockets rfl
  · exact drains_close s (s.conn c).socket

/-- A write to a conn, a status or the queue makes no system call. -/
private theorem drains_touch (h : Touch c s s') : Drains s s' := by
  cases h with
  | drop event => exact drains_localDisconnect s c event
  | seen => exact .of_sockets (remoteAddressSeen_sockets s c)
  | take n => exact drains_consume s c n
  | _ => exact .of_sockets rfl

/-- Nor do several of them. -/
private theorem drains_touches (h : Touches c s s') : Drains s s' :=
  h.keeps Drains.refl Drains.trans drains_touch

/-- An accepted connection begins with nothing to read. -/
private theorem drains_acceptConn (s : State) (c : ConnId) (r : ReadIn) :
    Drains s (s.acceptConn c r) := by
  unfold acceptConn
  split
  · exact .refl s
  · exact .of_sockets rfl
  · rename_i newSock ip port _
    have hopen : Drains s (s.openDescriptor newSock (.stream [] false)) :=
      drains_open s newSock rfl rfl
    dsimp only
    split
    · exact hopen.trans (.of_sockets rfl)
    · split
      · exact hopen.trans (.of_sockets rfl)
      · exact hopen.trans (.of_sockets (remoteAddressSeen_sockets _ _))

/-- A call of `read_from_socket` only takes away. -/
theorem drains_readFromSocket (s : State) (c : ConnId) (r : ReadIn) :
    Drains s (s.readFromSocket c r).1 := by
  by_cases h : (s.conn c).protocolType = .tcp ∧ (s.conn c).forListening = true
  · have haccept : s.readFromSocket c r = (s.acceptConn c r, false) := by
      rw [readFromSocket, if_pos h.1, if_pos h.2]
    rw [haccept]
    exact drains_acceptConn s c r
  · exact drains_touches (touches_readFromSocket h)

/-! ## Reading again -/

/-- How much is unread at a descriptor. -/
def unreadAt (s : State) (sock : Sock) : Nat :=
  (streamOf (s.sockets sock)).length + (queueOf (s.sockets sock)).length

/-- So there is less to read afterwards. -/
theorem unreadAt_le (h : Drains s s') (sock : Sock) : s'.unreadAt sock ≤ s.unreadAt sock :=
  Nat.add_le_add (h sock).1.length_le (h sock).2.length_le

/-- What is removed is at least one byte, or a datagram. -/
private theorem unreadAt_consume {k : Socket} (hk : s.socketOf c = some k)
    (hpos : 0 < (streamOf (some k)).length + (queueOf (some k)).length) {n : Nat}
    (hn : 0 < n ∨ streamOf (some k) = []) :
    (s.consume c n).unreadAt (s.conn c).socket < s.unreadAt (s.conn c).socket := by
  unfold unreadAt
  rw [consume_sockets, Function.update_self, hk, ← socketOf, hk]
  cases k with
  | stream unread ended =>
    simp only [Socket.consume, Option.map_some, streamOf, queueOf, List.length_drop,
      List.length_nil] at hpos hn ⊢
    have hne : unread ≠ [] := List.ne_nil_of_length_pos (by omega)
    have hn := hn.resolve_right hne
    omega
  | dgram queue =>
    simp only [Socket.consume, Option.map_some, streamOf, queueOf, List.length_tail,
      List.length_nil] at hpos ⊢
    omega

/-- Bytes that `recv` returns are there to be taken. -/
private theorem recvOn_pos {len : Nat} {r : Recv} {bs : List UInt8} (h : s.recvOn c len r = .ok bs)
    (hbs : bs.length ≠ 0) :
    ∃ k, s.socketOf c = some k ∧ 0 < (streamOf (some k)).length + (queueOf (some k)).length := by
  unfold recvOn at h
  split at h
  · cases h
  · rename_i k hk
    refine ⟨k, hk, ?_⟩
    unfold Socket.recv at h
    split at h
    · cases h
    · split at h
      · exact absurd (by rw [← Except.ok.inj h]; rfl) hbs
      · split at h
        -- An ended stream, one that would block, one with bytes, and the two of a datagram socket.
        · exact absurd (by rw [← Except.ok.inj h]; rfl) hbs
        · cases h
        · rename_i unread ended hnotEnded hnotOpen
          show 0 < unread.length + 0
          apply List.length_pos_iff.mpr
          rintro rfl
          cases ended with
          | false => exact hnotOpen rfl rfl
          | true => exact hnotEnded rfl rfl
        · cases h
        · simp [streamOf, queueOf]

/-- A message that is complete was completed by bytes that were taken. -/
private theorem continueRecv_shrinks {sid : StatusId} {r : Recv}
    (h : s.continueRecv c sid r = (s', .done)) :
    s'.unreadAt (s.conn c).socket < s.unreadAt (s.conn c).socket := by
  unfold continueRecv at h
  split at h
  · exact Received.noConfusion (Prod.mk.inj h).2
  · exact Received.noConfusion (Prod.mk.inj h).2
  · exact Received.noConfusion (Prod.mk.inj h).2
  · rename_i bs hbody
    obtain ⟨hrecv, hlen⟩ : s.recvOn c (s.status sid).waitingBuffer.numBytes r = .ok bs ∧
        bs.length ≠ 0 := by
      unfold recvBody at hbody
      split at hbody
      · rename_i bs' hrecv
        split at hbody
        · exact BodyRecv.noConfusion hbody
        · rename_i hlen
          obtain rfl := BodyRecv.bytes.inj hbody
          exact ⟨hrecv, hlen⟩
      · exact BodyRecv.noConfusion hbody
      · exact BodyRecv.noConfusion hbody
      · exact BodyRecv.noConfusion hbody
    obtain ⟨k, hk, hpos⟩ := recvOn_pos hrecv hlen
    -- `recv` returned bytes, so it is not the end of the stream and they are removed.
    have hless := unreadAt_consume hk hpos (.inl (Nat.pos_of_ne_zero hlen))
    rw [← (Prod.mk.inj h).1]
    exact hless

/-- A message that is completed has taken bytes. -/
private theorem continueMessage_shrinks {sid : StatusId} {header : Header} {r : Recv} {m : Message}
    (h : s.continueMessage c sid header r = (s', some m)) :
    s'.unreadAt (s.conn c).socket < s.unreadAt (s.conn c).socket := by
  unfold continueMessage at h
  split at h
  · exact absurd (Prod.mk.inj h).2.symm (Option.some_ne_none m)
  · exact absurd (Prod.mk.inj h).2.symm (Option.some_ne_none m)
  · exact absurd (Prod.mk.inj h).2.symm (Option.some_ne_none m)
  · rename_i s₁ heq
    have hless := continueRecv_shrinks heq
    rw [← (Prod.mk.inj h).1]
    exact hless

/-- A tcp read with a message has taken bytes. -/
private theorem recvTcp_shrinks {r : ReadIn} {m : Message} (h : s.recvTcp c r = (s', some m)) :
    s'.unreadAt (s.conn c).socket < s.unreadAt (s.conn c).socket := by
  have hseen : Touches c s (s.remoteAddressSeen c).1 := (Touches.refl c s).touch .seen
  unfold recvTcp at h
  dsimp only at h
  split at h
  · have hread := hseen.trans (touches_readHeader (s.remoteAddressSeen c).1 c r.peek)
    split at h
    · exact absurd (Prod.mk.inj h).2.symm (Option.some_ne_none m)
    · rename_i s₂ header heq
      split at h
      · exact absurd (Prod.mk.inj h).2.symm (Option.some_ne_none m)
      · rw [heq] at hread
        have hmessage := continueMessage_shrinks h
        rw [newConnStatusBuffer_conn, hread.socket] at hmessage
        exact Nat.lt_of_lt_of_le hmessage (unreadAt_le (drains_touches hread) _)
  -- A message in progress needs no header.
  · have hmessage := continueMessage_shrinks h
    rw [hseen.socket] at hmessage
    exact Nat.lt_of_lt_of_le hmessage (unreadAt_le (drains_touches hseen) _)

/-- The datagram that `recvfrom` returns is the head of the queue. -/
private theorem recvfrom_queue {r : Option Errno} {d : Datagram} (h : s.recvfrom c r = .ok d) :
    ∃ rest, s.socketOf c = some (.dgram (d :: rest)) := by
  unfold recvfrom at h
  split at h
  · cases h
  · rename_i d' rest hsocket
    obtain rfl := Except.ok.inj h
    exact ⟨rest, hsocket⟩
  · cases h
  · cases h

/-- A udp read with a message has taken a datagram. -/
private theorem recvUdp_shrinks {header : Header} {r : Option Errno} {m : Message}
    (h : s.recvUdp c header r = (s', some m)) :
    s'.unreadAt (s.conn c).socket < s.unreadAt (s.conn c).socket := by
  unfold recvUdp at h
  split at h
  · exact absurd (Prod.mk.inj h).2.symm (Option.some_ne_none m)
  · rename_i d hd
    obtain ⟨rest, hqueue⟩ := recvfrom_queue hd
    have hless : (s.consume c d.bytes.length).unreadAt (s.conn c).socket <
        s.unreadAt (s.conn c).socket :=
      unreadAt_consume hqueue (by simp [streamOf, queueOf]) (.inr rfl)
    rw [← (Prod.mk.inj h).1]
    exact Nat.lt_of_le_of_lt (unreadAt_le (.of_sockets (remoteAddressSeen_sockets _ c)) _) hless

/-- A call of `read_from_socket` that is to be repeated has taken something. -/
theorem readFromSocket_shrinks {r : ReadIn} (h : s.readFromSocket c r = (s', true)) :
    s'.unreadAt (s.conn c).socket < s.unreadAt (s.conn c).socket := by
  unfold readFromSocket at h
  split at h
  · split at h
    · exact Bool.noConfusion (Prod.mk.inj h).2
    · split at h
      · exact Bool.noConfusion (Prod.mk.inj h).2
      · rename_i s₁ m hrecv
        have hless := recvTcp_shrinks hrecv
        split at h
        · exact Bool.noConfusion (Prod.mk.inj h).2
        · rename_i event _
          have hrest :=
            (touches_clearOneWay s₁ c m.header).trans (touches_handleMessage _ c event m)
          rw [h] at hrest
          exact Nat.lt_of_le_of_lt (unreadAt_le (drains_touches hrest) _) hless
  · have hread := touches_readHeader s c r.peek
    split at h
    · exact Bool.noConfusion (Prod.mk.inj h).2
    · rename_i s₁ header heq
      rw [heq] at hread
      split at h
      · exact Bool.noConfusion (Prod.mk.inj h).2
      · rename_i event _
        split at h
        · exact Bool.noConfusion (Prod.mk.inj h).2
        · rename_i s₂ m hrecv
          -- The header of a datagram is only peeked at; it is `recvfrom` that removes something.
          have hfirst := hread.trans (touches_clearOneWay s₁ c header)
          have hless := recvUdp_shrinks hrecv
          rw [hfirst.socket] at hless
          have hrest := touches_handleMessage s₂ c event m
          rw [h] at hrest
          exact Nat.lt_of_le_of_lt (unreadAt_le (drains_touches hrest) _)
            (Nat.lt_of_lt_of_le hless (unreadAt_le (drains_touches hfirst) _))

/-! ## Public functions -/

/-- Sending takes nothing from what is to be read. -/
private theorem sendData_sockets (s : State) (c : ConnId) (frame : List UInt8) (w : SendIn) :
    (s.sendData c frame w).1.sockets = s.sockets := by
  rw [sendData_fst]
  rfl

/-- Nor does reporting that it failed. -/
private theorem reportSend_sockets (s : State) (c : ConnId)
    (failedSysCall : Option (String × Errno)) :
    (s.reportSend c failedSysCall).sockets = s.sockets := by
  unfold reportSend
  split <;> rfl

/-- `open_socket` opens a descriptor that holds nothing, and may close it again. -/
private theorem drains_openSocket (s : State) (address : CString) (connContext : Ptr)
    (callback : Nat) (forListening : Bool) (o : OpenIn) :
    Drains s (s.openSocket address connContext callback forListening o) := by
  have hsetup : Drains s ((s.newConnection connContext callback forListening).setupSockaddr
    s.nextConn
      address o.socket).1 := by
    unfold setupSockaddr
    dsimp only
    split
    · exact .of_sockets rfl
    · split
      · exact .of_sockets rfl
      · rename_i sock _
        apply Drains.update fun _ => rfl
        · split <;> exact List.nil_suffix
        · split <;> exact List.nil_suffix
  unfold openSocket
  dsimp only
  generalize (s.newConnection connContext callback forListening).setupSockaddr s.nextConn address
    o.socket = setup at hsetup ⊢
  obtain ⟨s₁, ok⟩ := setup
  cases ok with
  | false => exact hsetup
  | true =>
    apply hsetup.trans
    dsimp only
    split
    · exact .of_sockets rfl
    · split
      · split <;> exact .of_sockets rfl
      · split
        · split <;> exact .of_sockets rfl
        · exact .of_sockets (remoteAddressSeen_sockets s₁ s.nextConn)

/-- `msg_unlisten` closes a descriptor. -/
private theorem drains_msgUnlisten (s : State) (c : ConnId) (result : Option Errno) :
    Drains s (s.msgUnlisten c result) := by
  unfold msgUnlisten
  split
  · exact .of_sockets rfl
  · dsimp only
    generalize hs₁ : s.modifyConn c _ = s₁
    have hclose : Drains s (s₁.closesocket (s₁.conn c).socket) := by
      have hsame : Drains s s₁ := .of_sockets (by rw [← hs₁]; rfl)
      exact hsame.trans (drains_close s₁ _)
    split
    · exact hclose.trans (drains_localDisconnect _ c _)
    · split
      · exact hclose.trans (.of_sockets rfl)
      · exact (hclose.trans (.of_sockets rfl)).trans (drains_localDisconnect _ c _)

/-- `msg_disconnect` sends and drops. -/
private theorem drains_msgDisconnect (s : State) (c : ConnId) (w : SendIn) :
    Drains s (s.msgDisconnect c w) := by
  unfold msgDisconnect
  dsimp only
  -- A send changes no receive queue, and the end of the conn empties its own.
  refine .trans (.of_sockets ?_) (drains_localDisconnect _ c _)
  rw [reportSend_sockets, sendData_sockets]
  rfl

/-- `msg_get` sends. -/
private theorem drains_msgGet (s : State) (c : ConnId) (payload : List UInt8) (replyContext : Ptr)
    (now : Nat) (w : SendIn) : Drains s (s.msgGet c payload replyContext now w) := by
  unfold msgGet
  split
  · exact .of_sockets rfl
  · rename_i sid _
    dsimp only
    generalize hs₁ : s.modifyStatus sid _ = s₁
    generalize setHeader .request _ payload.length ++ payload = frame
    have hsend := sendData_sockets s₁ c frame w
    have hsockets : s₁.sockets = s.sockets := by rw [← hs₁]; rfl
    split
    · rename_i s₂ name e heq
      rw [heq] at hsend
      exact .of_sockets (hsend.trans hsockets)
    · rename_i s₂ heq
      rw [heq] at hsend
      exact .of_sockets (hsend.trans hsockets)

/-- No call by the application makes more to read. -/
private theorem drains_appCall (s : State) (call : AppCall) : Drains s (s.appCall call) := by
  cases call with
  | listen address callback o => exact drains_openSocket s address null callback true o
  | connect address callback connContext o =>
    exact drains_openSocket s address connContext callback false o
  | unlisten conn result =>
    cases conn with
    | none => exact .refl s
    | some c => exact drains_msgUnlisten s c result
  | disconnect c w => exact drains_msgDisconnect s c w
  | send c payload w =>
    show Drains s (s.msgSend c payload w)
    unfold msgSend
    exact .of_sockets ((reportSend_sockets _ c _).trans (sendData_sockets s c _ w))
  | get c payload replyContext now w => exact drains_msgGet s c payload replyContext now w
  | setConnContext c connContext => exact .of_sockets rfl
  | setRemoteAddress c ip port => exact .of_sockets rfl

/-! ## The run loop -/

/-- The removal pass makes no system call. -/
private theorem removalPass_sockets (s : State) : s.removalPass.sockets = s.sockets := by
  obtain ⟨index, heq⟩ := removalPass_eq s
  rw [heq]

/-- Entering `msg_runloop` reads nothing. -/
private theorem beginRunloop_sockets (s : State) (p : PollResult) :
    (s.beginRunloop p).sockets = s.sockets := by
  unfold beginRunloop
  dsimp only
  split
  · exact removalPass_sockets s
  · split <;> exact removalPass_sockets s

/-- A visit reads nothing. -/
theorem visitConn_sockets (s : State) (index : Nat) (c : ConnId) (soError : Option Errno) :
    (s.visitConn index c soError).sockets = s.sockets := by
  unfold visitConn
  dsimp only
  split
  · rfl
  · split
    · exact remoteAddressSeen_sockets s c
    · rfl

/-- Ending a get makes no system call. -/
private theorem expire_sockets {t : Timeout} {rest : List Timeout} (h : s.expire t rest = some s') :
    s'.sockets = s.sockets := by
  unfold expire at h
  split at h
  · exact absurd h.symm (Option.some_ne_none s')
  · split at h
    · exact absurd h.symm (Option.some_ne_none s')
    · rw [← Option.some.inj h]
      rfl

/-- Nor does the timeout loop. -/
private theorem timeoutLoop_sockets {now : Nat} {timeouts : List Timeout}
    (h : timeoutLoop now timeouts s = some s') : s'.sockets = s.sockets := by
  induction timeouts generalizing s with
  | nil => rw [← Option.some.inj h]
  | cons t rest ih =>
    unfold timeoutLoop at h
    split at h
    · rw [← Option.some.inj h]
    · obtain ⟨s₁, hexpire, hloop⟩ := Option.bind_eq_some_iff.mp h
      rw [ih hloop, expire_sockets hexpire]

end State

/-! ## Steps -/

open State in
/-- A step of the library or of the application adds nothing to what is unread. -/
theorem step_drains {s s' : State} {i : Input} (henv : ∀ e, i ≠ .env e) (h : step s i = some s') :
    Drains s s' := by
  cases i with
  | env e => exact absurd rfl (henv e)
  | app call =>
    obtain ⟨-, -, rfl⟩ := step_app h
    exact drains_appCall s call
  | runloop p =>
    obtain ⟨-, -, rfl⟩ := step_runloop h
    exact .of_sockets (beginRunloop_sockets s p)
  | visit soError =>
    obtain ⟨index, c, -, -, -, rfl⟩ := step_visit h
    exact .of_sockets (visitConn_sockets s index c soError)
  -- Only a read takes bytes off a descriptor.
  | read r =>
    obtain ⟨index, c, -, -, -, -, -, rfl⟩ := step_read h
    have hread := drains_readFromSocket s c r
    split
    · exact hread
    · exact hread
  | endPoll =>
    obtain ⟨index, -, -, rfl⟩ := step_endPoll h
    exact .of_sockets (removalPass_sockets s)
  | timeouts now =>
    obtain ⟨-, hpass⟩ := step_timeouts h
    obtain ⟨s₁, hloop, rfl⟩ := Option.map_eq_some_iff.mp hpass
    have hsockets := timeoutLoop_sockets hloop
    exact .of_sockets hsockets
  | deliver junk =>
    rcases step_deliver h with ⟨-, rfl⟩ | ⟨call, rest, -, -, rfl⟩
    · exact .of_sockets rfl
    · rw [makeCall_eq]
      exact .of_sockets rfl
  | ret =>
    obtain ⟨f, stack, -, -, -, rfl⟩ := step_ret h
    rw [finishCall_eq]
    exact .of_sockets rfl

end Msgbox
