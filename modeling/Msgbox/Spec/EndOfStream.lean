import Msgbox.Spec.Accumulating

/-!
# The end of a stream

When the peer has ended its stream, a call of `read_from_socket` takes some of what is left in the
socket, or drops the conn. A header is only taken as a whole, so part of one is left there for
good, and the end of the stream behind it is never seen.

## Key results

- `reads_busy`, `reads_idle`: what a number of calls makes of the bytes that are left
- `end_reported_iff`: the end is reported, after all messages, exactly if every message has a body,
  none comes after a close, and the stream is not cut within a header
-/

namespace Msgbox

/-! ## Calls -/

/-- `recv` hands over what there is: the eight bytes that are peeked at, as far as they are unread,
    and at least one byte of a body. -/
def ReadIn.delivers (r : ReadIn) : Bool :=
  match r.peek, r.body with
  | .upTo k, .upTo _ => headerLen ≤ k
  | _, _ => false

namespace State

/-- The closing events that were queued for a conn which they free. -/
def closingCalls (s : State) (c : ConnId) : List PendingCall :=
  (queuedCalls s.trace).filter fun p =>
    p.frees c && (p.event == .connectionClosed || p.event == .connectionLost)

/-- One closing event is queued for the conn, and the conn is marked for removal. -/
def Dropped (s : State) (c : ConnId) : Prop :=
  (closingCalls s c).length = 1 ∧ (s.conn c).index ∈ s.removals

/-- A connection on which the bytes `unread` are left before the end of the stream. -/
structure Ending (s : State) (c : ConnId) (unread : List UInt8) : Prop where
  tcp : (s.conn c).protocolType = .tcp
  connected : (s.conn c).forListening = false
  live : s.freeing c = false
  socket : s.socketOf c = some (.stream unread true)

/-- Calls of `read_from_socket` for a conn. There is none once it is dropped. -/
def reads (c : ConnId) : State → List ReadIn → State
  | s, [] => s
  | s, r :: rs => if s.freeing c then s else reads c (s.readFromSocket c r).1 rs

variable {s₀ s s' : State} {c : ConnId} {u : List UInt8}

/-- A dropped conn waits for its closing call, which frees it. -/
private theorem freeing_of_dropped (h : Dropped s c) : s.freeing c = true := by
  have hpos : 0 < (closingCalls s c).length := by
    rw [h.1]
    exact Nat.one_pos
  obtain ⟨p, hp⟩ := List.exists_mem_of_length_pos hpos
  obtain ⟨hmem, hfrees⟩ := List.mem_filter.mp hp
  rw [Bool.and_eq_true] at hfrees
  exact freeing_iff.mpr ⟨p, mem_queuedCalls.mp hmem, hfrees.1⟩

/-- No closing event is queued for a conn that is not to be freed. -/
private theorem closings_of_live (h : s.freeing c = false) : closingCalls s c = [] := by
  apply List.filter_eq_nil_iff.mpr
  intro p hp hclosing
  rw [Bool.and_eq_true] at hclosing
  have hfreeing := freeing_iff.mpr ⟨p, mem_queuedCalls.mp hp, hclosing.1⟩
  exact Bool.noConfusion (hfreeing.symm.trans h)

/-- A conn that still reads is not dropped. -/
private theorem Ending.not_dropped (h : Ending s c u) : ¬ Dropped s c := by
  intro hdropped
  exact Bool.noConfusion ((freeing_of_dropped hdropped).symm.trans h.live)

/-- `local_disconnect` with a closing event drops the conn. -/
private theorem Ending.dropped (h : Ending s c u) {event : Event}
    (hevent : event = .connectionClosed ∨ event = .connectionLost) :
    Dropped (s.localDisconnect c event) c := by
  have hlistening : s.isListeningUdp c = false := by simp [isListeningUdp, h.tcp]
  constructor
  · have hclosing : closingCalls (s.localDisconnect c event) c =
        closingCalls s c ++ [s.closingCall c event] := by
      rw [closingCalls, localDisconnect_trace, queuedCalls_queued, List.filter_append]
      congr 1
      rcases hevent with rfl | rfl <;> simp [PendingCall.frees, closingCall, hlistening]
    rw [hclosing, closings_of_live h.live]
    rfl
  · rw [localDisconnect_conn, localDisconnect_removals]
    simp [hlistening]

/-- A dropped conn reads no more. -/
private theorem reads_dropped (h : Dropped s c) (rs : List ReadIn) : s.reads c rs = s := by
  cases rs with
  | nil => rfl
  | cons r rs => rw [reads, if_pos (freeing_of_dropped h)]

/-- A conn that is not dropped takes the next read of the schedule. -/
private theorem Ending.reads_cons (h : Ending s c u) (r : ReadIn) (rs : List ReadIn) :
    s.reads c (r :: rs) = (s.readFromSocket c r).1.reads c rs := by
  rw [reads, if_neg (by rw [h.live]; exact Bool.false_ne_true)]

/-- What `recv` returns when the stream has ended. -/
theorem Ending.recvOn (h : Ending s c u) (len k : Nat) :
    s.recvOn c len (.upTo k) = .ok (u.take (min len (max 1 k))) := by
  unfold State.recvOn
  rw [h.socket]
  dsimp only [Socket.recv]
  split
  · rename_i hzero
    rw [hzero, Nat.zero_min, List.take_zero]
  · cases u with
    | nil => simp
    | cons b u => rfl

/-! ## What a call leaves alone -/

/-- The conn is what it was, its descriptor included. -/
structure Alike (c : ConnId) (s s' : State) : Prop where
  socket : (s'.conn c).socket = (s.conn c).socket
  address : (s'.conn c).remoteAddress = (s.conn c).remoteAddress
  listening : (s'.conn c).forListening = (s.conn c).forListening
  sockets : s'.sockets = s.sockets
  freeing : s'.freeing c = s.freeing c

/-- States that agree on the stream of `c` agree along the way. -/
theorem Alike.trans {s'' : State} (h : Alike c s s') (h' : Alike c s' s'') : Alike c s s'' :=
  ⟨h'.socket.trans h.socket, h'.address.trans h.address, h'.listening.trans h.listening,
    h'.sockets.trans h.sockets, h'.freeing.trans h.freeing⟩

/-- Such a state is at the same point of the stream. -/
private theorem Ending.alike (h : Ending s c u) (hsame : Alike c s s') : Ending s' c u where
  tcp := by
    rw [Conn.protocolType, hsame.address]
    exact h.tcp
  connected := hsame.listening.trans h.connected
  live := hsame.freeing.trans h.live
  socket := by
    rw [socketOf, hsame.sockets, hsame.socket]
    exact h.socket

/-- The first sight of the remote leaves the stream. -/
private theorem alike_seen (s : State) (c : ConnId) : Alike c s (s.remoteAddressSeen c).1 := by
  have hfreeing := freeing_remoteAddressSeen s c c
  refine ⟨?_, ?_, ?_, remoteAddressSeen_sockets s c, hfreeing⟩ <;> rw [remoteAddressSeen_conn]

/-- So does clearing what a one-way message leaves in the conn. -/
private theorem alike_clearOneWay (s : State) (c : ConnId) (header : Header) :
    Alike c s (s.clearOneWay c header) := by
  have hfreeing := freeing_eq (clearOneWay_same s c header).1 c
  unfold clearOneWay at hfreeing ⊢
  split
  · rename_i hkind
    rw [if_pos hkind] at hfreeing
    exact ⟨by simp, by simp, by simp, rfl, hfreeing⟩
  · exact ⟨rfl, rfl, rfl, rfl, rfl⟩

/-- So does queueing the call of a complete message. -/
private theorem alike_handleMessage (s : State) (c : ConnId) (event : Event) (m : Message) :
    Alike c s (s.handleMessage c event m).1 := by
  have hqueue : ∀ {s' : State} {p : PendingCall}, s'.trace = .queued p :: s.trace →
      p.frees c = false → s'.freeing c = s.freeing c := by
    intro s' p htrace hfrees
    have hqueued : queuedCalls s'.trace = queuedCalls s.trace ++ [p] := by
      rw [htrace, queuedCalls_queued]
    rw [freeing_queue hqueued, hfrees, Bool.or_false]
  unfold handleMessage
  dsimp only
  split
  · split
    · exact ⟨rfl, rfl, rfl, rfl, hqueue rfl rfl⟩
    · exact ⟨by simp, by simp, by simp, rfl, hqueue rfl rfl⟩
  · exact ⟨by simp, by simp, by simp, rfl, hqueue rfl rfl⟩

/-- A message that is handed on. -/
private theorem alike_read {r : ReadIn} {s₁ : State} {m : Message}
    (htcp : (s.conn c).protocolType = .tcp)
    (hconn : (s.conn c).forListening = false) (hkind : m.header.kind ≠ .close)
    (hrecv : s.recvTcp c r = (s₁, some m)) : Alike c s₁ (s.readFromSocket c r).1 := by
  unfold readFromSocket
  rw [if_pos htcp, if_neg (by rw [hconn]; exact Bool.false_ne_true), hrecv]
  dsimp only
  split
  · rename_i hevent
    unfold eventFor at hevent
    split at hevent <;> first | exact absurd hevent (Option.some_ne_none _) | contradiction
  · exact (alike_clearOneWay s₁ c m.header).trans (alike_handleMessage _ c _ m)

/-- Taking bytes off the descriptor leaves the rest of the stream. -/
theorem Ending.consume {bs rest : List UInt8} (h : Ending s c (bs ++ rest)) :
    Ending (s.consume c bs.length) c rest where
  tcp := h.tcp
  connected := h.connected
  live := h.live
  socket := by
    show Function.update s.sockets (s.conn c).socket _ (s.conn c).socket = _
    rw [Function.update_self, h.socket]
    show some (Socket.stream ((bs ++ rest).drop bs.length) true) = _
    rw [List.drop_left]

/-- So does taking them into the buffer of the message. -/
theorem Ending.received {bs rest : List UInt8} (h : Ending s c (bs ++ rest)) (sid : StatusId) :
    Ending (s.received c sid bs) c rest := by
  have hconsume := h.consume
  have hlive : (s.received c sid bs).freeing c = s.freeing c :=
    freeing_eq (s := s.consume c bs.length) (queuedCalls_cons rfl _) c
  exact ⟨h.tcp, h.connected, hlive.trans h.live, hconsume.socket⟩

/-! ## Bodies -/

section Body

variable {r : ReadIn} {sid : StatusId} {header : Header} {filled bs rest : List UInt8} {n : Nat}

/-- The stream ends before the body is complete. -/
private theorem Ending.recv_over (h : Ending s c u) (htcp : (s₀.conn c).protocolType = .tcp)
    (hconn : (s₀.conn c).forListening = false) (hfilling : Filling (s.status sid) header filled n)
    (hrecv : s₀.recvTcp c r = s.continueMessage c sid header r.body)
    (hover : s.recvOn c n r.body = .ok []) :
    Dropped (s₀.readFromSocket c r).1 c ∧
      tcpMessages (s₀.readFromSocket c r).1.trace c = tcpMessages s.trace c := by
  have hcase : s.recvBody c sid r.body = .over := by
    simp [recvBody, hfilling.waiting, hover]
  rw [read_none htcp hconn (hrecv.trans (continue_over hcase))]
  refine ⟨h.dropped (.inr rfl), ?_⟩
  exact (calm_drop s c .connectionLost s.phase).messages c

/-- Some of the body arrives. -/
private theorem Ending.recv_part (h : Ending s c (bs ++ rest))
    (htcp : (s₀.conn c).protocolType = .tcp) (hconn : (s₀.conn c).forListening = false)
    (hsid : s.statusOfConn c = some sid) (hfilling : Filling (s.status sid) header filled n)
    (hrecv : s₀.recvTcp c r = s.continueMessage c sid header r.body)
    (hbytes : s.recvOn c n r.body = .ok bs) (hne : bs ≠ []) (hlt : bs.length < n) :
    Ending (s₀.readFromSocket c r).1 c rest ∧
      InBody (s₀.readFromSocket c r).1 c header (filled ++ bs) (n - bs.length) ∧
      tcpMessages (s₀.readFromSocket c r).1.trace c = tcpMessages s.trace c := by
  have hcase : s.recvBody c sid r.body = .bytes bs := by
    simp [recvBody, hfilling.waiting, hbytes, hne]
  have hwaiting : (s.status sid).waitingBuffer.numBytes = n := by rw [hfilling.waiting]
  rw [read_none htcp hconn (hrecv.trans (continue_part hcase (hwaiting.symm ▸ hlt)))]
  refine ⟨h.received sid, ⟨sid, hsid, ?_⟩, tcpMessages_other rfl s.trace c⟩
  exact filling_fill (s := (s.consume c bs.length).log (.received c bs)) hfilling hlt.le

/-- The rest of the body arrives. -/
private theorem Ending.recv_whole (h : Ending s c (bs ++ rest))
    (htcp : (s₀.conn c).protocolType = .tcp) (hconn : (s₀.conn c).forListening = false)
    (hsid : s.statusOfConn c = some sid) (hfilling : Filling (s.status sid) header filled n)
    (hrecv : s₀.recvTcp c r = s.continueMessage c sid header r.body)
    (hbytes : s.recvOn c n r.body = .ok bs) (hne : bs ≠ []) (heq : bs.length = n) :
    Ending (s₀.readFromSocket c r).1 c rest ∧ (s₀.readFromSocket c r).1.waitingBytes c = 0 ∧
      tcpMessages (s₀.readFromSocket c r).1.trace c =
        tcpMessages s.trace c ++ [(header, (filled ++ bs).map some)] := by
  have hcase : s.recvBody c sid r.body = .bytes bs := by
    simp [recvBody, hfilling.waiting, hbytes, hne]
  have hwaiting : (s.status sid).waitingBuffer.numBytes = n := by rw [hfilling.waiting]
  have hcontinues := continues_of_recv htcp hconn h.tcp hsid hfilling hrecv
  rw [hbytes] at hcontinues
  obtain ⟨b, bs, rfl⟩ := List.exists_cons_of_ne_nil hne
  obtain ⟨-, hrest⟩ := hcontinues
  rw [if_neg (Nat.not_lt.mpr heq.ge)] at hrest
  obtain ⟨-, ⟨sid', hsid', hempty⟩, p, hp, hqueued⟩ := hrest
  have hwhole := hrecv.trans (continue_whole hcase (heq.trans hwaiting.symm))
  refine ⟨?_, ?_, ?_⟩
  · have hclear : Ending ((s.received c sid (b :: bs)).clearConnStatusBuffer sid) c rest := by
      obtain ⟨htcp', hconn', hlive, hsocket⟩ := h.received sid
      exact ⟨htcp', hconn', hlive, hsocket⟩
    exact hclear.alike (alike_read htcp hconn hfilling.kind hwhole)
  · simp [waitingBytes, hsid', hempty.2]
  · rw [tcpMessages, hqueued, List.filterMap_append, List.filterMap_cons_some hp.1]
    rfl

/-- There is nothing to take. -/
theorem Ending.nothing (h : Ending s c u) (hr : r.delivers = true) (n : Nat)
    (hzero : n = 0 ∨ u = []) : s.recvOn c n r.body = .ok [] := by
  unfold ReadIn.delivers at hr
  split at hr
  · rename_i k k' _ hbody
    rw [hbody, h.recvOn]
    rcases hzero with rfl | rfl
    · rw [Nat.zero_min, List.take_zero]
    · rw [List.take_nil]
  · exact Bool.noConfusion hr

/-- As long as bytes are left, a call takes some. -/
private theorem Ending.chunk (h : Ending s c u) (hne : u ≠ []) (hpos : 0 < n)
    (hr : r.delivers = true) :
    ∃ bs rest, u = bs ++ rest ∧ bs ≠ [] ∧ bs.length ≤ n ∧ s.recvOn c n r.body = .ok bs := by
  unfold ReadIn.delivers at hr
  split at hr
  · rename_i k k' _ hbody
    rw [hbody]
    refine ⟨u.take (min n (max 1 k')), u.drop (min n (max 1 k')), (List.take_append_drop _ u).symm,
      ?_, ?_, h.recvOn n k'⟩
    · rw [Ne, List.take_eq_nil_iff, not_or]
      exact ⟨by omega, hne⟩
    · rw [List.length_take]
      omega
  · exact Bool.noConfusion hr

end Body

/-! ## Headers -/

section Header

variable {r : ReadIn} {raw rest : List UInt8}

/-- What is peeked at. -/
theorem Ending.peek (h : Ending s c u) (hr : r.delivers = true) :
    s.peekHeader c r.peek =
      if u.length = 0 then .over else if u.length < headerLen then .blocked
      else .header (u.take headerLen) := by
  unfold ReadIn.delivers at hr
  split at hr
  · rename_i k k' hpeek _
    have hk : headerLen ≤ k := of_decide_eq_true hr
    have hmin : min headerLen (max 1 k) = headerLen := by omega
    unfold peekHeader
    rw [hpeek, h.recvOn, hmin]
    dsimp only
    rw [List.length_take]
    have hpos : 0 < headerLen := by decide
    by_cases hzero : u.length = 0
    · rw [if_pos hzero, if_pos (by omega)]
    · rw [if_neg hzero, if_neg (by omega)]
      by_cases hshort : u.length < headerLen
      · rw [if_pos hshort, if_pos (by omega)]
      · rw [if_neg hshort, if_neg (by omega)]
  · exact Bool.noConfusion hr

/-- The conn is seen, and no message is in progress. -/
theorem Ending.seen (h : Ending s c u) (hidle : s.waitingBytes c = 0) :
    Ending (s.remoteAddressSeen c).1 c u ∧
      ((s.remoteAddressSeen c).1.status (s.remoteAddressSeen c).2).waitingBuffer.numBytes = 0 ∧
      tcpMessages (s.remoteAddressSeen c).1.trace c = tcpMessages s.trace c :=
  ⟨h.alike (alike_seen s c), (remoteAddressSeen_waiting s c).trans hidle,
    (calm_remoteAddressSeen s c).messages c⟩

/-- At a bare end the next read drops the conn and delivers nothing. -/
private theorem Ending.idle_over (h : Ending s c []) (hidle : s.waitingBytes c = 0)
    (hr : r.delivers = true) :
    Dropped (s.readFromSocket c r).1 c ∧
      tcpMessages (s.readFromSocket c r).1.trace c = tcpMessages s.trace c := by
  obtain ⟨hseen, hwaiting, hmessages⟩ := h.seen hidle
  have hpeek := hseen.peek hr
  have hrecv : s.recvTcp c r = ((s.remoteAddressSeen c).1.localDisconnect c .connectionLost,
    none) := by
    unfold recvTcp readHeader
    dsimp only
    rw [if_pos hwaiting, hpeek]
    rfl
  rw [read_none h.tcp h.connected hrecv]
  exact ⟨hseen.dropped (.inr rfl),
    ((calm_drop _ c .connectionLost .app).messages c).trans hmessages⟩

/-- Part of a header stays where it is. -/
private theorem Ending.idle_blocked (h : Ending s c u) (hidle : s.waitingBytes c = 0)
    (hr : r.delivers = true) (hne : u ≠ []) (hlt : u.length < headerLen) :
    Ending (s.readFromSocket c r).1 c u ∧ (s.readFromSocket c r).1.waitingBytes c = 0 ∧
      tcpMessages (s.readFromSocket c r).1.trace c = tcpMessages s.trace c := by
  obtain ⟨hseen, hwaiting, hmessages⟩ := h.seen hidle
  have hpeek := hseen.peek hr
  have hpos : u.length ≠ 0 := fun hzero => hne (List.eq_nil_of_length_eq_zero hzero)
  rw [if_neg hpos, if_pos hlt] at hpeek
  have hrecv : s.recvTcp c r = ((s.remoteAddressSeen c).1, none) := by
    unfold recvTcp readHeader
    dsimp only
    rw [if_pos hwaiting, hpeek]
  rw [read_none h.tcp h.connected hrecv]
  refine ⟨hseen, ?_, hmessages⟩
  rw [waitingBytes, remoteAddressSeen_status]
  exact hwaiting

/-- Accepting a header takes its eight bytes off the stream. -/
theorem Ending.accept (h : Ending s c (raw ++ rest)) (hraw : raw.length = headerLen) :
    Ending (s.acceptHeader c raw) c rest := by
  have hconsume := h.consume
  have hlive : (s.acceptHeader c raw).freeing c = s.freeing c := by
    apply freeing_eq
    rw [acceptHeader_trace h.tcp, List.cons_append, queuedCalls_cons rfl, List.singleton_append,
      queuedCalls_cons rfl]
  refine ⟨?_, ?_, hlive.trans h.live, ?_⟩
  · rw [Conn.protocolType, acceptHeader_remoteAddress]
    exact h.tcp
  · unfold acceptHeader takeHeader
    rw [if_pos h.tcp]
    simp [h.connected]
  · rw [socketOf, acceptHeader_sockets h.tcp, acceptHeader_socket, ← hraw]
    exact hconsume.socket

/-- A whole header is taken. -/
theorem Ending.header (h : Ending s c (raw ++ rest)) (hidle : s.waitingBytes c = 0)
    (hr : r.delivers = true) (hraw : raw.length = headerLen) :
    ∃ s₁ sid, Ending s₁ c rest ∧ s₁.statusOfConn c = some sid ∧
      tcpMessages s₁.trace c = tcpMessages s.trace c ∧
      s.recvTcp c r =
        if (decodeHeader raw).kind = .close then (s₁.localDisconnect c .connectionClosed, none)
        else (s₁.newConnStatusBuffer sid (decodeHeader raw)).continueMessage c sid
          (decodeHeader raw)
          r.body := by
  obtain ⟨hseen, -, hmessages⟩ := h.seen hidle
  have hpeek := h.peek hr
  have hlong : headerLen ≤ (raw ++ rest).length := by
    rw [List.length_append]
    omega
  have hpos : (raw ++ rest).length ≠ 0 := by
    have : 0 < headerLen := by decide
    omega
  rw [if_neg hpos, if_neg (Nat.not_lt.mpr hlong), ← hraw, List.take_left] at hpeek
  refine ⟨(s.remoteAddressSeen c).1.acceptHeader c raw, (s.remoteAddressSeen c).2,
    hseen.accept hraw, ?_, ?_, recvTcp_header hidle hpeek⟩
  · rw [acceptHeader_statusOfConn, remoteAddressSeen_status]
  · rw [acceptHeader_trace hseen.tcp, ← hmessages]
    exact (tcpMessages_other rfl _ c).trans (tcpMessages_other rfl _ c)

/-- A close header drops the conn and delivers nothing. -/
private theorem Ending.idle_close (h : Ending s c (raw ++ rest)) (hidle : s.waitingBytes c = 0)
    (hr : r.delivers = true) (hraw : raw.length = headerLen)
    (hclose : (decodeHeader raw).kind = .close) :
    Dropped (s.readFromSocket c r).1 c ∧
      tcpMessages (s.readFromSocket c r).1.trace c = tcpMessages s.trace c := by
  obtain ⟨s₁, sid, h₁, -, hmessages, hrecv⟩ := h.header hidle hr hraw
  rw [if_pos hclose] at hrecv
  rw [read_none h.tcp h.connected hrecv]
  exact ⟨h₁.dropped (.inl rfl),
    ((calm_drop s₁ c .connectionClosed .app).messages c).trans hmessages⟩

/-- The body of a new message is read on with the header. -/
private theorem Ending.idle_message (h : Ending s c (raw ++ rest)) (hidle : s.waitingBytes c = 0)
    (hr : r.delivers = true) (hraw : raw.length = headerLen)
    (hopen : (decodeHeader raw).kind ≠ .close) :
    ∃ s₁ sid, Ending s₁ c rest ∧ s₁.statusOfConn c = some sid ∧
      Filling (s₁.status sid) (decodeHeader raw) [] (decodeHeader raw).numBytes.toNat ∧
      tcpMessages s₁.trace c = tcpMessages s.trace c ∧
      s.recvTcp c r = s₁.continueMessage c sid (decodeHeader raw) r.body := by
  obtain ⟨s₁, sid, h₁, hsid, hmessages, hrecv⟩ := h.header hidle hr hraw
  rw [if_neg hopen] at hrecv
  obtain ⟨htcp, hconn, hlive, hsocket⟩ := h₁
  refine ⟨s₁.newConnStatusBuffer sid (decodeHeader raw), sid, ?_, hsid, filling_new hopen s₁ sid,
    hmessages, hrecv⟩
  exact ⟨htcp, hconn, hlive, hsocket⟩

end Header

/-! ## Runs of calls -/

section Runs

variable {header : Header} {filled : List UInt8} {n : Nat} {rs : List ReadIn}

/-- The end of the stream within a body. -/
private theorem Ending.reads_cut (h : Ending s c u) (hbody : InBody s c header filled n)
    (hlt : u.length < n) (hrs : ∀ r ∈ rs, r.delivers = true) (hlen : u.length < rs.length) :
    Dropped (s.reads c rs) c ∧ tcpMessages (s.reads c rs).trace c = tcpMessages s.trace c := by
  -- Each read takes a piece, until the stream is over.
  induction rs generalizing s u filled n with
  | nil => exact absurd hlen (Nat.not_lt_zero _)
  | cons r rs ih =>
    obtain ⟨sid, hsid, hfilling⟩ := hbody
    have hr := hrs r List.mem_cons_self
    have hrecv := recvTcp_body (by omega) hsid hfilling r
    rw [h.reads_cons]
    by_cases hnil : u = []
    · subst hnil
      have hover := h.nothing hr n (.inr rfl)
      obtain ⟨hdropped, hmessages⟩ := h.recv_over h.tcp h.connected hfilling hrecv hover
      rw [reads_dropped hdropped]
      exact ⟨hdropped, hmessages⟩
    · have hpos : 0 < n := by omega
      obtain ⟨bs, rest, rfl, hne, hle, hbytes⟩ := h.chunk hnil hpos hr
      rw [List.length_append] at hlt hlen
      have hbs := List.length_pos_iff.mpr hne
      obtain ⟨h₁, hbody₁, hmessages⟩ :=
        h.recv_part h.tcp h.connected hsid hfilling hrecv hbytes hne (by omega)
      rw [List.length_cons] at hlen
      have hrest := ih h₁ hbody₁ (by omega) (fun r' hr' => hrs r' (List.mem_cons_of_mem _ hr'))
        (by omega)
      rw [hmessages] at hrest
      exact hrest

/-- A call that reads some of a body, and those that read the rest of it, if it is there. -/
private theorem Ending.reads_body {r : ReadIn} {sid : StatusId} {body rest : List UInt8}
    (h : Ending s c (body ++ rest)) (htcp : (s₀.conn c).protocolType = .tcp)
    (hconn : (s₀.conn c).forListening = false) (hsid : s.statusOfConn c = some sid)
    (hfilling : Filling (s.status sid) header filled n) (hn : body.length = n) (hpos : 0 < n)
    (hrecv : s₀.recvTcp c r = s.continueMessage c sid header r.body) (hr : r.delivers = true)
    (hrs : ∀ r ∈ rs, r.delivers = true) (hlen : (body ++ rest).length ≤ rs.length) :
    ∃ s' rs', (s₀.readFromSocket c r).1.reads c rs = s'.reads c rs' ∧ Ending s' c rest ∧
      s'.waitingBytes c = 0 ∧
      tcpMessages s'.trace c = tcpMessages s.trace c ++ [(header, (filled ++ body).map some)] ∧
      (∀ r ∈ rs', r.delivers = true) ∧ rest.length < rs'.length := by
  induction rs generalizing s₀ s r sid body filled n with
  | nil =>
    rw [List.length_append, List.length_nil] at hlen
    omega
  | cons r' rs ih =>
    have hnil : body ++ rest ≠ [] := by
      intro heq
      rw [(List.append_eq_nil_iff.mp heq).1] at hn
      exact Nat.ne_of_gt hpos hn.symm
    obtain ⟨bs, rest', hsplit, hne, hle, hbytes⟩ := h.chunk hnil hpos hr
    -- What arrives is the front of the body.
    obtain ⟨more, rfl⟩ : ∃ more, body = bs ++ more := by
      have hfront : bs <+: body :=
        List.prefix_of_prefix_length_le ⟨rest', hsplit.symm⟩ (List.prefix_append body rest)
          (by omega)
      obtain ⟨more, hmore⟩ := hfront
      exact ⟨more, hmore.symm⟩
    rw [List.append_assoc] at h hlen
    rw [List.length_append] at hn
    rw [List.length_append, List.length_cons] at hlen
    have hbs := List.length_pos_iff.mpr hne
    by_cases hlt : bs.length < n
    · obtain ⟨h₁, ⟨sid₁, hsid₁, hfilling₁⟩, hmessages⟩ :=
        h.recv_part htcp hconn hsid hfilling hrecv hbytes hne hlt
      have hleft : 0 < n - bs.length := by omega
      rw [h₁.reads_cons]
      obtain ⟨s', rs', hreads, hrest⟩ :=
        ih h₁ h₁.tcp h₁.connected hsid₁ hfilling₁ (by omega) hleft
          (recvTcp_body hleft hsid₁ hfilling₁ r') (hrs r' List.mem_cons_self)
          (fun r hr => hrs r (List.mem_cons_of_mem _ hr)) (by omega)
      rw [hmessages, List.append_assoc] at hrest
      exact ⟨s', rs', hreads, hrest⟩
    · have hall : bs.length = n := by omega
      obtain rfl : more = [] := List.eq_nil_of_length_eq_zero (by omega)
      obtain ⟨h₁, hidle, hmessages⟩ :=
        h.recv_whole htcp hconn hsid hfilling hrecv hbytes hne hall
      rw [List.nil_append] at h₁ hlen
      rw [List.append_nil]
      exact ⟨_, r' :: rs, rfl, h₁, hidle, hmessages, hrs, by rw [List.length_cons]; omega⟩

/-- Part of a header stays for good. -/
private theorem Ending.reads_stuck (h : Ending s c u) (hidle : s.waitingBytes c = 0) (hne : u ≠ [])
    (hlt : u.length < headerLen) (hrs : ∀ r ∈ rs, r.delivers = true) :
    Ending (s.reads c rs) c u ∧ tcpMessages (s.reads c rs).trace c = tcpMessages s.trace c := by
  induction rs generalizing s with
  | nil => exact ⟨h, rfl⟩
  | cons r rs ih =>
    rw [h.reads_cons]
    obtain ⟨h₁, hidle₁, hmessages⟩ := h.idle_blocked hidle (hrs r List.mem_cons_self) hne hlt
    have hrest := ih h₁ hidle₁ fun r' hr' => hrs r' (List.mem_cons_of_mem _ hr')
    rw [hmessages] at hrest
    exact hrest

/-- A message that is cut behind its header, or in its body. -/
private theorem Ending.reads_tail (h : Ending s c u) (hidle : s.waitingBytes c = 0)
    (hlong : headerLen ≤ u.length) (htail : u.length < headerLen + bodySize (u.take headerLen))
    (hrs : ∀ r ∈ rs, r.delivers = true) (hlen : u.length < rs.length) :
    Dropped (s.reads c rs) c ∧ tcpMessages (s.reads c rs).trace c = tcpMessages s.trace c := by
  cases rs with
  | nil => exact absurd hlen (Nat.not_lt_zero _)
  | cons r rs =>
    have hr := hrs r List.mem_cons_self
    have hrs' : ∀ r' ∈ rs, r'.delivers = true := fun r' hr' => hrs r' (List.mem_cons_of_mem _ hr')
    have hraw : (u.take headerLen).length = headerLen := by
      rw [List.length_take]
      omega
    have hopen : (decodeHeader (u.take headerLen)).kind ≠ .close := by
      intro hclose
      rw [bodySize, if_pos hclose] at htail
      omega
    rw [bodySize, if_neg hopen] at htail
    have hsplit : Ending s c (u.take headerLen ++ u.drop headerLen) := by
      rw [List.take_append_drop]
      exact h
    obtain ⟨s₁, sid, h₁, hsid, hfilling, hmessages₁, hrecv⟩ :=
      hsplit.idle_message hidle hr hraw hopen
    have hrest : (u.drop headerLen).length < (decodeHeader (u.take headerLen)).numBytes.toNat := by
      rw [List.length_drop]
      omega
    rw [h.reads_cons]
    -- The read of the header goes on to the body, which is not there or only in part.
    by_cases hnil : u.drop headerLen = []
    · have hover := h₁.nothing hr (decodeHeader (u.take headerLen)).numBytes.toNat (.inr hnil)
      obtain ⟨hdropped, hmessages⟩ := h₁.recv_over h.tcp h.connected hfilling hrecv hover
      rw [reads_dropped hdropped]
      exact ⟨hdropped, hmessages.trans hmessages₁⟩
    · have hpos : 0 < (decodeHeader (u.take headerLen)).numBytes.toNat := by omega
      obtain ⟨bs, rest, hbs, hne, -, hbytes⟩ := h₁.chunk hnil hpos hr
      rw [hbs] at h₁ hrest
      rw [List.length_append] at hrest
      obtain ⟨h₂, hbody, hmessages⟩ :=
        h₁.recv_part h.tcp h.connected hsid hfilling hrecv hbytes hne (by omega)
      have hsome := List.length_pos_iff.mpr hne
      have hdrop := congrArg List.length hbs
      rw [List.length_drop, List.length_append] at hdrop
      rw [List.length_cons] at hlen
      obtain ⟨hdropped, hmessages'⟩ := h₂.reads_cut hbody (by omega) hrs' (by omega)
      exact ⟨hdropped, hmessages'.trans (hmessages.trans hmessages₁)⟩

end Runs

/-! ## Frames -/

/-- A message with a body. -/
def hasBody (f : List UInt8) : Bool := headerLen < f.length

def isClose (f : List UInt8) : Bool := (decodeHeader f).kind == .close

/-- The message of a frame. -/
def toMessage (f : List UInt8) : Header × List (Option UInt8) :=
  (decodeHeader f, (f.drop headerLen).map some)

section Frame

variable {f rest : List UInt8} {rs : List ReadIn} {r : ReadIn}

/-- A frame without a body ends the connection. -/
private theorem Ending.frame_empty (h : Ending s c (f ++ rest)) (hidle : s.waitingBytes c = 0)
    (hr : r.delivers = true) (hwhole : Frames.Whole headerLen bodySize f)
    (hempty : hasBody f = false) :
    Dropped (s.readFromSocket c r).1 c ∧
      tcpMessages (s.readFromSocket c r).1.trace c = tcpMessages s.trace c := by
  have hle : f.length ≤ headerLen := Nat.not_lt.mp (of_decide_eq_false hempty)
  rw [Frames.Whole] at hwhole
  have hlen : f.length = headerLen := by omega
  have hsize : bodySize f = 0 := by
    rw [← hlen, List.take_length] at hwhole
    omega
  by_cases hclose : (decodeHeader f).kind = .close
  · exact h.idle_close hidle hr hlen hclose
  · rw [bodySize, if_neg hclose] at hsize
    obtain ⟨s₁, sid, h₁, -, hfilling, hmessages₁, hrecv⟩ := h.idle_message hidle hr hlen hclose
    have hover := h₁.nothing hr (decodeHeader f).numBytes.toNat (.inl hsize)
    obtain ⟨hdropped, hmessages⟩ := h₁.recv_over h.tcp h.connected hfilling hrecv hover
    exact ⟨hdropped, hmessages.trans hmessages₁⟩

/-- The calls that read a message with a body. -/
private theorem Ending.reads_frame (h : Ending s c (f ++ rest)) (hidle : s.waitingBytes c = 0)
    (hwhole : Frames.Whole headerLen bodySize f) (hbody : hasBody f = true)
    (hrs : ∀ r ∈ rs, r.delivers = true) (hlen : (f ++ rest).length < rs.length) :
    ∃ s' rs', s.reads c rs = s'.reads c rs' ∧ Ending s' c rest ∧ s'.waitingBytes c = 0 ∧
      tcpMessages s'.trace c = tcpMessages s.trace c ++ [toMessage f] ∧
      (∀ r ∈ rs', r.delivers = true) ∧ rest.length < rs'.length := by
  cases rs with
  | nil => exact absurd hlen (Nat.not_lt_zero _)
  | cons r rs =>
    have hr := hrs r List.mem_cons_self
    have hrs' : ∀ r' ∈ rs, r'.delivers = true := fun r' hr' => hrs r' (List.mem_cons_of_mem _ hr')
    have hlong : headerLen < f.length := of_decide_eq_true hbody
    rw [Frames.Whole] at hwhole
    have hraw : (f.take headerLen).length = headerLen := by
      rw [List.length_take]
      omega
    have hopen : (decodeHeader (f.take headerLen)).kind ≠ .close := by
      intro hclose
      rw [bodySize, if_pos hclose] at hwhole
      omega
    rw [bodySize, if_neg hopen] at hwhole
    have hheader : decodeHeader (f.take headerLen) = decodeHeader f :=
      decodeHeader_prefix (List.take_prefix _ f) hraw.ge
    have hsplit : Ending s c (f.take headerLen ++ (f.drop headerLen ++ rest)) := by
      rw [← List.append_assoc, List.take_append_drop]
      exact h
    obtain ⟨s₁, sid, h₁, hsid, hfilling, hmessages₁, hrecv⟩ :=
      hsplit.idle_message hidle hr hraw hopen
    have hsize : (f.drop headerLen).length = (decodeHeader (f.take headerLen)).numBytes.toNat := by
      rw [List.length_drop]
      omega
    have hpos : 0 < (decodeHeader (f.take headerLen)).numBytes.toNat := by omega
    rw [List.length_append, List.length_cons] at hlen
    -- The reads that are left are enough for the body and the rest.
    have hbound : (f.drop headerLen ++ rest).length ≤ rs.length := by
      rw [List.length_append, List.length_drop]
      omega
    obtain ⟨s', rs', hreads, hrest⟩ :=
      h₁.reads_body h.tcp h.connected hsid hfilling hsize hpos hrecv hr hrs' hbound
    rw [h.reads_cons]
    rw [hmessages₁, hheader, List.nil_append] at hrest
    exact ⟨s', rs', hreads, hrest⟩

end Frame

/-- What a number of calls makes of the bytes that are left when no message is in progress: the
    messages up to the first frame without a body are handed on, and the conn is dropped, unless
    these are all the frames and there is a part of a header behind them. -/
theorem Ending.reads_idle {frames : List (List UInt8)} {tail : List UInt8} {rs : List ReadIn}
    (h : Ending s c (frames.flatten ++ tail)) (hidle : s.waitingBytes c = 0)
    (hwhole : ∀ f ∈ frames, Frames.Whole headerLen bodySize f)
    (htail : tail.length < headerLen + bodySize (tail.take headerLen))
    (hrs : ∀ r ∈ rs, r.delivers = true) (hlen : (frames.flatten ++ tail).length < rs.length) :
    tcpMessages (s.reads c rs).trace c =
        tcpMessages s.trace c ++ (frames.takeWhile hasBody).map toMessage ∧
      (Dropped (s.reads c rs) c ↔
        (∃ f ∈ frames, hasBody f = false) ∨ tail = [] ∨ headerLen ≤ tail.length) := by
  -- Frame by frame; what is left at last is no whole frame.
  induction frames generalizing s rs with
  | nil =>
    rw [List.flatten_nil, List.nil_append] at h hlen
    rw [List.takeWhile_nil, List.map_nil, List.append_nil]
    -- A bare end is seen by the next read, and a part of a header never.
    by_cases hnil : tail = []
    · subst hnil
      cases rs with
      | nil => exact absurd hlen (Nat.not_lt_zero _)
      | cons r rs =>
        obtain ⟨hdropped, hmessages⟩ := h.idle_over hidle (hrs r List.mem_cons_self)
        rw [h.reads_cons, reads_dropped hdropped]
        exact ⟨hmessages, iff_of_true hdropped (.inr (.inl rfl))⟩
    · by_cases hlong : headerLen ≤ tail.length
      · obtain ⟨hdropped, hmessages⟩ := h.reads_tail hidle hlong htail hrs hlen
        exact ⟨hmessages, iff_of_true hdropped (.inr (.inr hlong))⟩
      · obtain ⟨hstuck, hmessages⟩ := h.reads_stuck hidle hnil (Nat.lt_of_not_le hlong) hrs
        refine ⟨hmessages, iff_of_false hstuck.not_dropped ?_⟩
        rintro (⟨f, hf, -⟩ | hnil' | hlong')
        · exact absurd hf List.not_mem_nil
        · exact hnil hnil'
        · exact hlong hlong'
  | cons f frames ih =>
    have hf := hwhole f List.mem_cons_self
    rw [List.flatten_cons, List.append_assoc] at h hlen
    cases hbody : hasBody f with
    -- A frame without a body ends the connection, as `recv` of no bytes returns 0.
    | false =>
      rw [List.takeWhile_cons_of_neg (by rw [hbody]; exact Bool.false_ne_true), List.map_nil,
        List.append_nil]
      cases rs with
      | nil => exact absurd hlen (Nat.not_lt_zero _)
      | cons r rs =>
        obtain ⟨hdropped, hmessages⟩ := h.frame_empty hidle (hrs r List.mem_cons_self) hf hbody
        rw [h.reads_cons, reads_dropped hdropped]
        exact ⟨hmessages, iff_of_true hdropped (.inl ⟨f, List.mem_cons_self, hbody⟩)⟩
    -- Any other one is handed over, and the reads go on behind it.
    | true =>
      obtain ⟨s', rs', hreads, h', hidle', hmessages, hrs', hlen'⟩ :=
        h.reads_frame hidle hf hbody hrs hlen
      obtain ⟨hrest, hdropped⟩ :=
        ih h' hidle' (fun g hg => hwhole g (List.mem_cons_of_mem _ hg)) hrs' hlen'
      rw [hreads, List.takeWhile_cons_of_pos hbody, List.map_cons]
      refine ⟨?_, hdropped.trans (or_congr_left ?_)⟩
      · rw [hrest, hmessages, List.append_assoc]
        rfl
      · simp [hbody]

/-! ## All that is left -/

/-- The message in progress, if the rest of it is among the bytes. -/
def completed (s : State) (c : ConnId) (u : List UInt8) : List (Header × List (Option UInt8)) :=
  match s.statusOfConn c with
  | none => []
  | some sid =>
    let waiting := (s.status sid).waitingBuffer
    let total := ((s.status sid).totalBuffer.map MsgData.bytes).getD []
    if 0 < waiting.numBytes ∧ waiting.numBytes ≤ u.length then
      [(s.savedHeader sid, writeAt total waiting.start (u.take waiting.numBytes))]
    else []

/-- The frames behind the message in progress. -/
def framesLeft (s : State) (c : ConnId) (u : List UInt8) : Frames.Decoder UInt8 :=
  Frames.decode headerLen bodySize ((u.drop (s.waitingBytes c)).map some)

/-- All complete messages among the bytes. -/
def messagesLeft (s : State) (c : ConnId) (u : List UInt8) : List (Header × List (Option UInt8)) :=
  s.completed c u ++ ((s.framesLeft c u).frames.filter fun f => !isClose f).map toMessage

/-- Every message behind the one in progress has a body and none comes after a close; unless there
    is a close, the stream does not end within a header. -/
def endsWell (s : State) (c : ConnId) (u : List UInt8) : Bool :=
  ((s.framesLeft c u).frames.dropWhile hasBody).all isClose &&
    ((s.framesLeft c u).frames.any isClose || (s.framesLeft c u).pending.isEmpty ||
      headerLen ≤ (s.framesLeft c u).pending.length)

/-- The end of the stream is reported by one closing event, after all complete messages. -/
def EndReported (s s' : State) (c : ConnId) (u : List UInt8) : Prop :=
  Dropped s' c ∧ tcpMessages s'.trace c = tcpMessages s.trace c ++ s.messagesLeft c u

/-- A close has no body. -/
private theorem hasBody_of_isClose {f : List UInt8} (hwhole : Frames.Whole headerLen bodySize f)
    (hclose : isClose f = true) : hasBody f = false := by
  rw [Frames.Whole] at hwhole
  have hlong : headerLen ≤ f.length := by omega
  have hraw : headerLen ≤ (f.take headerLen).length := by
    rw [List.length_take]
    omega
  have hkind : (decodeHeader f).kind = .close := eq_of_beq hclose
  rw [bodySize, decodeHeader_prefix (List.take_prefix _ f) hraw, if_pos hkind] at hwhole
  apply decide_eq_false
  omega

/-- The messages in front of the first frame without a body are all of them if only closes
    follow. -/
private theorem leading_iff {frames : List (List UInt8)}
    (hwhole : ∀ f ∈ frames, Frames.Whole headerLen bodySize f) :
    (frames.takeWhile hasBody).map toMessage = (frames.filter fun f => !isClose f).map toMessage ↔
      (frames.dropWhile hasBody).all isClose = true := by
  induction frames with
  | nil => simp
  | cons f frames ih =>
    have hf := hwhole f List.mem_cons_self
    cases hbody : hasBody f with
    | true =>
      have hopen : isClose f = false := by
        cases hclose : isClose f with
        | false => rfl
        | true => exact hbody.symm.trans (hasBody_of_isClose hf hclose)
      rw [List.takeWhile_cons_of_pos hbody, List.dropWhile_cons_of_pos hbody,
        List.filter_cons_of_pos (by simp [hopen]), List.map_cons, List.map_cons,
        List.cons_inj_right]
      exact ih fun g hg => hwhole g (List.mem_cons_of_mem _ hg)
    | false =>
      rw [List.takeWhile_cons_of_neg (by simp [hbody]),
        List.dropWhile_cons_of_neg (by simp [hbody]), List.map_nil, eq_comm, List.map_eq_nil_iff,
        List.filter_eq_nil_iff, List.all_eq_true]
      simp

/-- What has to be the case for all messages to be handed on and the conn to be dropped. -/
private theorem ends_iff {frames : List (List UInt8)} {tail : List UInt8}
    (hwhole : ∀ f ∈ frames, Frames.Whole headerLen bodySize f) :
    (((∃ f ∈ frames, hasBody f = false) ∨ tail = [] ∨ headerLen ≤ tail.length) ∧
      (frames.takeWhile hasBody).map toMessage =
        (frames.filter fun f => !isClose f).map toMessage) ↔
    ((frames.dropWhile hasBody).all isClose &&
      (frames.any isClose || tail.isEmpty || headerLen ≤ tail.length)) = true := by
  rw [leading_iff hwhole, and_comm, Bool.and_eq_true]
  apply and_congr_right
  intro hall
  have hempty : (∃ f ∈ frames, hasBody f = false) ↔ frames.any isClose = true := by
    rw [List.any_eq_true]
    constructor
    · rintro ⟨f, hf, hbody⟩
      refine ⟨f, hf, List.all_eq_true.mp hall f ?_⟩
      -- It is not among those in front.
      rw [← List.takeWhile_append_dropWhile (p := hasBody) (l := frames), List.mem_append] at hf
      rcases hf with hfront | hback
      · have hall' := List.all_eq_true.mp (List.all_takeWhile (l := frames)) f hfront
        exact absurd (hbody.symm.trans hall') Bool.false_ne_true
      · exact hback
    · rintro ⟨f, hf, hclose⟩
      exact ⟨f, hf, hasBody_of_isClose (hwhole f hf) hclose⟩
  rw [hempty]
  simp [or_assoc]

/-- Between two messages, a schedule longer than the rest of the stream meets the end as the
    decoder of frames sees it. -/
private theorem Ending.reported_idle {frames : Frames.Decoder UInt8} {rs : List ReadIn}
    {more : List UInt8} (h : Ending s c more) (hidle : s.waitingBytes c = 0)
    (hframes : frames = Frames.decode headerLen bodySize (more.map some))
    (hrs : ∀ r ∈ rs, r.delivers = true) (hlen : more.length < rs.length) :
    (Dropped (s.reads c rs) c ∧ tcpMessages (s.reads c rs).trace c = tcpMessages s.trace c ++
        (frames.frames.filter fun f => !isClose f).map toMessage) ↔
      (frames.frames.dropWhile hasBody).all isClose &&
        (frames.frames.any isClose || frames.pending.isEmpty ||
          headerLen ≤ frames.pending.length) := by
  have hpos : 0 < headerLen := by decide
  have hmore := @Frames.flatten_decode _ headerLen bodySize more
  have hfound := @Frames.found_decode _ headerLen bodySize hpos (more.map some)
  rw [← hframes] at hmore hfound
  rw [← hmore] at h hlen
  obtain ⟨hmessages, hdropped⟩ := h.reads_idle hidle hfound.2 hfound.1 hrs hlen
  rw [← ends_iff hfound.2, hdropped, hmessages, List.append_cancel_left_eq]

end State

/-! ## Main result -/

/-- The calls of `read_from_socket` that follow the end of the peer's stream, one more than bytes
    are unread, report it by one closing event, after all messages that are complete, exactly if
    every message behind the one in progress has a body, none comes after a close and, unless there
    is a close, the stream does not end within a header. -/
theorem end_reported_iff {s : State} {c : ConnId} {u : List UInt8} {rs : List ReadIn}
    (hs : machine.Reach (fun _ _ => True) s) (h : s.Ending c u)
    (hrs : ∀ r ∈ rs, r.delivers = true) (hlen : rs.length = u.length + 1) :
    s.EndReported (s.reads c rs) c u ↔ s.endsWell c u = true := by
  have hlen : u.length < rs.length := by omega
  by_cases hidle : s.waitingBytes c = 0
  -- No message is in progress: the decoder of frames says all.
  · have hcompleted : s.completed c u = [] := by
      unfold State.completed
      unfold State.waitingBytes at hidle
      split
      · rfl
      · rename_i sid hsid
        rw [hsid] at hidle
        rw [if_neg fun hpos => Nat.ne_of_gt hpos.1 hidle]
    rw [State.EndReported, State.messagesLeft, hcompleted, List.nil_append]
    apply h.reported_idle hidle _ hrs hlen
    rw [State.framesLeft, hidle, List.drop_zero]
  · -- A message is in progress.
    obtain ⟨sid, hsid, hwaiting⟩ : ∃ sid, s.statusOfConn c = some sid ∧
        s.waitingBytes c = (s.status sid).waitingBuffer.numBytes := by
      cases hstatus : s.statusOfConn c with
      | none => simp [State.waitingBytes, hstatus] at hidle
      | some sid => exact ⟨sid, rfl, by simp [State.waitingBytes, hstatus]⟩
    have hpos : 0 < s.waitingBytes c := Nat.pos_of_ne_zero hidle
    obtain ⟨header, filled, hfilling⟩ := reach_filled hs sid (hwaiting ▸ hpos)
    rw [← hwaiting] at hfilling
    -- The stream ends in the middle of it, or completes it.
    by_cases hlt : u.length < s.waitingBytes c
    · obtain ⟨hdropped, hmessages⟩ := h.reads_cut ⟨sid, hsid, hfilling⟩ hlt hrs hlen
      have hcompleted : s.completed c u = [] := by
        unfold State.completed
        rw [hsid]
        dsimp only
        rw [if_neg]
        rw [← hwaiting]
        omega
      have hframes : s.framesLeft c u = {} := by
        rw [State.framesLeft, List.drop_eq_nil_of_le hlt.le]
        rfl
      apply iff_of_true
      · rw [State.EndReported, State.messagesLeft, hcompleted, hframes]
        exact ⟨hdropped, hmessages.trans (List.append_nil _).symm⟩
      · rw [State.endsWell, hframes]
        rfl
    · have hge : s.waitingBytes c ≤ u.length := Nat.le_of_not_lt hlt
      cases rs with
      | nil => exact absurd hlen (Nat.not_lt_zero _)
      | cons r rs =>
        have hsplit : s.Ending c (u.take (s.waitingBytes c) ++ u.drop (s.waitingBytes c)) := by
          rw [List.take_append_drop]
          exact h
        rw [List.length_cons] at hlen
        obtain ⟨s', rs', hreads, h', hidle', hmessages, hrs', hlen'⟩ :=
          hsplit.reads_body h.tcp h.connected hsid hfilling
            (by rw [List.length_take]; omega) hpos (State.recvTcp_body hpos hsid hfilling r)
            (hrs r List.mem_cons_self) (fun r' hr' => hrs r' (List.mem_cons_of_mem _ hr'))
            (by rw [List.take_append_drop]; omega)
        have hcompleted : s.completed c u =
            [(header, (filled ++ u.take (s.waitingBytes c)).map some)] := by
          have hwrite := State.writeAt_append (filled.map some) (s.waitingBytes c)
            (u.take (s.waitingBytes c))
          rw [List.length_map, List.length_take, Nat.min_eq_left hge, Nat.sub_self,
            List.replicate_zero, List.append_nil, ← List.map_append] at hwrite
          simp [State.completed, hsid, hfilling.waiting, hfilling.total, State.savedHeader,
            hpos, hge, hwrite]
        rw [State.EndReported, State.messagesLeft, hcompleted, h.reads_cons, hreads,
          ← List.append_assoc, ← hmessages]
        exact h'.reported_idle hidle' rfl hrs' hlen'

/-- A connection on which the peer sends some bytes and ends its stream. -/
def endedRun (bytes : List UInt8) : List Input :=
  connectRun ++ [.env (.arrive 3 bytes), .env (.hangUp 3)]

/-- A message of one byte, and half of a second one. -/
theorem end_reported_half : ∃ s, machine.Reach (fun _ _ => True) s ∧
    s.Ending 0 (setHeader .oneWay 0 1 ++ [65] ++ setHeader .request 1 2 ++ [66]) ∧
    s.EndReported (s.reads 0 (List.replicate 19 { peek := .upTo 8, body := .upTo 1 })) 0
      (setHeader .oneWay 0 1 ++ [65] ++ setHeader .request 1 2 ++ [66]) := by
  obtain ⟨s, hreach, hview⟩ := machine.exists_reach_of_run (P := fun _ _ => True)
    (fun _ _ => true) (fun _ _ _ => trivial)
    (endedRun (setHeader .oneWay 0 1 ++ [65] ++ setHeader .request 1 2 ++ [66]))
    (fun s => ((s.conn 0).protocolType, (s.conn 0).forListening, s.freeing 0, s.socketOf 0,
      s.endsWell 0 (setHeader .oneWay 0 1 ++ [65] ++ setHeader .request 1 2 ++ [66])))
    (.tcp, false, false,
      some (.stream (setHeader .oneWay 0 1 ++ [65] ++ setHeader .request 1 2 ++ [66]) true), true)
    (by decide +kernel)
  simp only [Prod.mk.injEq] at hview
  obtain ⟨htcp, hconn, hlive, hsocket, hends⟩ := hview
  have h : s.Ending 0 (setHeader .oneWay 0 1 ++ [65] ++ setHeader .request 1 2 ++ [66]) :=
    ⟨htcp, hconn, hlive, hsocket⟩
  refine ⟨s, hreach, h, (end_reported_iff hreach h ?_ rfl).mpr hends⟩
  intro r hr
  rw [List.eq_of_mem_replicate hr]
  rfl

/-- The stream ends after three bytes of a header: no number of calls reports it. -/
theorem end_not_reported : ∃ s, machine.Reach (fun _ _ => True) s ∧ s.Ending 0 [0, 0, 0] ∧
    ∀ rs : List ReadIn, (∀ r ∈ rs, r.delivers = true) → ¬ (s.reads 0 rs).Dropped 0 := by
  obtain ⟨s, hreach, hview⟩ := machine.exists_reach_of_run (P := fun _ _ => True)
    (fun _ _ => true) (fun _ _ _ => trivial) (endedRun [0, 0, 0])
    (fun s => ((s.conn 0).protocolType, (s.conn 0).forListening, s.freeing 0, s.socketOf 0,
      s.waitingBytes 0))
    (.tcp, false, false, some (.stream [0, 0, 0] true), 0) (by decide +kernel)
  simp only [Prod.mk.injEq] at hview
  obtain ⟨htcp, hconn, hlive, hsocket, hidle⟩ := hview
  have h : s.Ending 0 [0, 0, 0] := ⟨htcp, hconn, hlive, hsocket⟩
  refine ⟨s, hreach, h, fun rs hrs => ?_⟩
  obtain ⟨hstuck, -⟩ := h.reads_stuck hidle (List.cons_ne_nil _ _) (by decide) hrs
  exact hstuck.not_dropped

end Msgbox
