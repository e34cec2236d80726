import Msgbox.Spec.EndOfStream
import Msgbox.Spec.Framing
import Msgbox.Spec.ReplyIds

/-!
# From `msg_send` and `msg_get` to the events of the peer

What is passed to `msg_send` and `msg_get` on one conn is written as frames, and a conn of another
process that receives these bytes, in any pieces, has the messages again, if each of them has a
body that is shorter than 2³² bytes. A message without a body ends the connection.

## Key results

- `writes_messages`: the output of a conn is the frames of what was passed
- `closings_nil`: as long as every message has a body no closing event is queued
- `round_trip_iff`: the receiver has the same messages again exactly if each has a body of less than
  2³² bytes
-/

namespace Msgbox

open State (sendAll)

/-! ## Messages -/

/-- A message that is passed to `msg_send` or `msg_get`, and the id in its header. -/
structure SentMessage where
  kind : MsgType
  replyId : UInt16
  payload : List UInt8
  deriving DecidableEq, Repr

namespace SentMessage

/-- What is written for the message. -/
def frame (m : SentMessage) : List UInt8 :=
  setHeader m.kind m.replyId m.payload.length ++ m.payload

/-- It is a one-way message or a request. -/
def isPlain (m : SentMessage) : Bool := m.kind == .oneWay || m.kind == .request

/-- There is a payload, and its length fits the header. -/
def fits (m : SentMessage) : Bool := 0 < m.payload.length && m.payload.length < 4294967296

/-- The event that the receiver is to queue: its kind, the id in the header, and the data. -/
def event (m : SentMessage) : Event × UInt16 × Option (List (Option UInt8)) :=
  (if m.kind = .request then .request else .message, m.replyId, some (m.payload.map some))

variable {m : SentMessage}

/-- The header of a frame is decoded as it was sent. -/
theorem header_frame (m : SentMessage) :
    decodeHeader m.frame = ⟨m.kind.code, m.replyId, UInt32.ofNat m.payload.length⟩ :=
  decodeHeader_encodeHeader _ m.payload

/-- So is its kind. -/
theorem kind_frame (m : SentMessage) : (decodeHeader m.frame).kind = m.kind := by
  rw [header_frame]
  exact kind_code m.kind _ _

/-- A frame is its header and its payload. -/
theorem length_frame (m : SentMessage) : m.frame.length = headerLen + m.payload.length := by
  rw [frame, List.length_append, length_setHeader]

/-- Behind the header stands the payload. -/
theorem drop_frame (m : SentMessage) : m.frame.drop headerLen = m.payload := by
  rw [frame, ← length_setHeader m.kind m.replyId m.payload.length, List.drop_left]

/-- A message fits when it has a payload and its length fits 32 bits. -/
private theorem fits_iff :
    m.fits = true ↔ 0 < m.payload.length ∧ m.payload.length < 4294967296 := by
  simp [fits]

/-- The header announces the payload, if its length fits. -/
private theorem whole_frame (hplain : m.isPlain = true) (hfits : m.fits = true) :
    Frames.Whole headerLen bodySize m.frame := by
  have hlen := (fits_iff.mp hfits).2
  have htake : (m.frame.take headerLen).length = headerLen := by
    rw [List.length_take, length_frame]
    omega
  have hheader : decodeHeader (m.frame.take headerLen) = decodeHeader m.frame :=
    decodeHeader_prefix (List.take_prefix _ _) htake.ge
  have hopen : (decodeHeader m.frame).kind ≠ .close := by
    rw [kind_frame]
    intro hclose
    simp [isPlain, hclose] at hplain
  rw [Frames.Whole, bodySize, hheader, if_neg hopen, header_frame, length_frame,
    UInt32.toNat_ofNat', Nat.mod_eq_of_lt hlen]

end SentMessage

/-- The message that a step passes to `msg_send` or `msg_get` on the conn. -/
def passed (c : ConnId) (s : State) : Input → Option SentMessage
  | .app (.send c' payload _) =>
    if c' = c then
      some ⟨if (s.conn c).replyId ≠ 0 then .reply else .oneWay, (s.conn c).replyId, payload⟩
    else none
  | .app (.get c' payload _ _ _) =>
    if c' = c then
      (s.statusOfConn c).map fun sid => ⟨.request, (s.status sid).nextReplyId, payload⟩
    else none
  | _ => none

/-- All messages that a run passes on the conn, in this order. -/
def sentMessages (c : ConnId) (run : List (State × Input)) : List SentMessage :=
  run.reverse.filterMap fun x => passed c x.1 x.2

/-- What the step sends through the conn, if anything, is a one-way message or a request, and is
    sent. -/
def sendsMessage (c : ConnId) (s : State) : Input → Bool
  | .app (.send c' payload w) =>
    c' ≠ c || (s.conn c).replyId == 0 && !s.sendFails c (s.sendFrame c payload) w
  | .app (.get c' payload _ _ w) => c' ≠ c || !s.getFails c payload w
  | .app (.disconnect c' _) => c' ≠ c
  | _ => true

/-- One more step sends at most one more message. -/
private theorem sentMessages_cons (c : ConnId) (s : State) (i : Input)
    (run : List (State × Input)) :
    sentMessages c ((s, i) :: run) = sentMessages c run ++ (passed c s i).toList := by
  rw [sentMessages, List.reverse_cons, List.filterMap_append]
  rfl

/-- Under the condition only one-way messages and requests are passed. -/
private theorem plain_of_passed {c : ConnId} {s : State} {i : Input} {m : SentMessage}
    (hok : sendsMessage c s i = true) (h : passed c s i = some m) : m.isPlain = true := by
  unfold passed at h
  split at h
  · split at h
    · rename_i heq
      subst heq
      simp only [sendsMessage, ne_eq, not_true_eq_false, decide_false, Bool.false_or,
        Bool.and_eq_true, beq_iff_eq] at hok
      rw [← Option.some.inj h, if_neg (by rw [hok.1]; exact fun hne => hne rfl)]
      rfl
    · exact absurd h.symm (Option.some_ne_none m)
  · split at h
    · obtain ⟨sid, -, rfl⟩ := Option.map_eq_some_iff.mp h
      rfl
    · exact absurd h.symm (Option.some_ne_none m)
  · exact absurd h.symm (Option.some_ne_none m)

/-- Where the condition holds at every step, no message sent is a close. -/
private theorem plain_of_sent {c : ConnId} {run : List (State × Input)} {m : SentMessage}
    (hok : ∀ x ∈ run, sendsMessage c x.1 x.2 = true) (h : m ∈ sentMessages c run) :
    m.isPlain = true := by
  obtain ⟨x, hx, hpassed⟩ := List.mem_filterMap.mp h
  exact plain_of_passed (hok x (List.mem_reverse.mp hx)) hpassed

/-! ## Sending -/

namespace State

variable {s s' : State} {i : Input} {c : ConnId}

/-- The loop of `send_all` ends without an error when everything was accepted. -/
private theorem sendAll_whole {schedule : List SendResult} {remaining : List UInt8}
    (h : (sendAll schedule remaining).2 = none) : (sendAll schedule remaining).1 = remaining := by
  induction schedule generalizing remaining with
  | nil => cases remaining <;> rfl
  | cons r schedule ih =>
    cases remaining with
    | nil => rfl
    | cons b remaining =>
      cases r with
      | accept n =>
        have hrest := @ih ((b :: remaining).drop (max 1 n)) h
        show (b :: remaining).take (max 1 n) ++ (sendAll schedule _).1 = _
        rw [hrest, List.take_append_drop]
      | fail e =>
        cases e with
        | wouldBlock => exact ih h
        | _ => exact absurd h (Option.some_ne_none _)

/-- A send that does not fail returns no error. -/
private theorem sendData_none {frame : List UInt8} {w : SendIn}
    (h : s.sendFails c frame w = false) : (s.sendData c frame w).2 = none := by
  rw [← Option.not_isSome_iff_eq_none]
  exact fun hfails => Bool.noConfusion (hfails.symm.trans h)

/-- A send that does not fail writes the whole frame. -/
private theorem sendOutcome_whole {frame : List UInt8} {w : SendIn}
    (h : s.sendFails c frame w = false) : (s.sendOutcome c frame w).1 = frame := by
  have hnone := sendData_none h
  unfold sendData at hnone
  unfold sendOutcome
  dsimp only at hnone
  cases hsock : s.sockets (s.conn c).socket with
  | none =>
    rw [hsock] at hnone
    exact absurd hnone (Option.some_ne_none _)
  | some k =>
    rw [hsock] at hnone
    dsimp only at hnone ⊢
    split
    · rename_i htcp
      rw [if_pos htcp] at hnone
      exact sendAll_whole (Option.map_eq_none_iff.mp hnone)
    · rename_i hnot
      rw [if_neg hnot] at hnone
      cases hresult : w.result with
      | none => rfl
      | some e =>
        rw [hresult] at hnone
        exact absurd hnone (Option.some_ne_none _)

/-- One whole frame is written. -/
private theorem writes_whole {t : List Obs} {sock : Sock} {frame : List UInt8} {complete : Bool}
    (hne : frame ≠ []) : writes (.sent c sock frame complete :: t) c = writes t c ++ [frame] := by
  rw [writes_sent, if_pos ⟨rfl, hne⟩]

/-- A step that sends nothing through the conn. -/
theorem writes_other (hstep : step s i = some s')
    (hother : ∀ frame w, outgoing s i ≠ some (c, frame, w)) :
    writes s'.trace c = writes s.trace c := by
  rcases step_sent hstep with hquiet | ⟨c', frame, w, hsends, htrace⟩
  · exact writes_eq hquiet c
  · have hne : c' ≠ c := by
      rintro rfl
      exact hother frame w hsends.outgoing_eq
    have hsent := writes_sent (s.trace.filter Obs.isSent) c' c (s.conn c').socket
      (s.sendOutcome c' frame w).1 (s.sendOutcome c' frame w).2
    rw [← htrace, writes_filter, writes_filter, if_neg fun h => hne h.1] at hsent
    exact hsent

/-- `msg_send` writes its frame behind what was written before. -/
private theorem writes_send {payload : List UInt8} {w : SendIn}
    (hsent : s.sendFails c (s.sendFrame c payload) w = false) :
    writes (s.msgSend c payload w).trace c = writes s.trace c ++ [s.sendFrame c payload] := by
  unfold msgSend
  dsimp only
  rw [sendData_none hsent, reportSend, sendData_fst, sendOutcome_whole hsent]
  exact writes_whole (by simp [sendFrame, setHeader, encodeHeader, putU16])

/-- `msg_get` writes a request under the next id of the status. -/
private theorem writes_get {payload : List UInt8} {context : Ptr} {now : Nat} {w : SendIn}
    {sid : StatusId} (hsid : s.statusOfConn c = some sid) (hsent : s.getFails c payload w = false) :
    writes (s.msgGet c payload context now w).trace c =
      writes s.trace c ++ [setHeader .request (s.status sid).nextReplyId payload.length ++
        payload] := by
  obtain ⟨s₁, hs₁⟩ : ∃ s₁, s.enterGet sid context = s₁ := ⟨_, rfl⟩
  -- The id is taken and the entry made before anything is sent.
  have houtcome : s₁.sendFails c
      (setHeader .request (s.status sid).nextReplyId payload.length ++ payload) w = false := by
    rw [sendFails, ← hs₁, ← getFails_eq payload context w hsid]
    exact hsent
  have hdata := sendData_fst s₁ c
    (setHeader .request (s.status sid).nextReplyId payload.length ++ payload) w
  rw [sendOutcome_whole houtcome] at hdata
  have hnone := sendData_none houtcome
  have htrace : (s.msgGet c payload context now w).trace =
      .got c sid (s.status sid).nextReplyId context true :: (s₁.sendData c
        (setHeader .request (s.status sid).nextReplyId payload.length ++ payload) w).1.trace := by
    unfold msgGet
    rw [hsid]
    dsimp only
    rw [← hs₁] at hnone ⊢
    split
    · rename_i s₂ name e heq
      have heq' := congrArg Prod.snd heq
      exact absurd (heq'.symm.trans hnone) (Option.some_ne_none _)
    · rename_i s₂ heq
      have heq' : s₂ = _ := (congrArg Prod.fst heq).symm
      subst heq'
      rfl
  rw [htrace, hdata, writes_cons rfl]
  subst hs₁
  exact writes_whole (by simp [setHeader, encodeHeader, putU16])

/-- A step writes the frame of the message that it passes. -/
private theorem writes_step (hok : sendsMessage c s i = true) (hstep : step s i = some s') :
    writes s'.trace c = writes s.trace c ++ ((passed c s i).map SentMessage.frame).toList := by
  have hnone : passed c s i = none → (∀ frame w, outgoing s i ≠ some (c, frame, w)) →
      writes s'.trace c = writes s.trace c ++ ((passed c s i).map SentMessage.frame).toList := by
    intro hpassed hother
    rw [hpassed, writes_other hstep hother]
    exact (List.append_nil _).symm
  cases i with
  | app call =>
    obtain ⟨-, hcall⟩ := Option.ite_none_right_eq_some.mp hstep
    obtain rfl := Option.some.inj hcall
    cases call with
    | send c' payload w =>
      by_cases hc : c' = c
      · subst hc
        simp only [sendsMessage, ne_eq, not_true_eq_false, decide_false, Bool.false_or,
          Bool.and_eq_true, Bool.not_eq_true'] at hok
        simp only [passed, if_pos]
        exact writes_send hok.2
      · apply hnone (if_neg hc)
        intro frame w' heq
        exact hc (congrArg Prod.fst (Option.some.inj heq))
    | get c' payload context now w =>
      by_cases hc : c' = c
      · subst hc
        simp only [sendsMessage, ne_eq, not_true_eq_false, decide_false, Bool.false_or,
          Bool.not_eq_true'] at hok
        -- A get without a status fails.
        cases hsid : s.statusOfConn c' with
        | none =>
          rw [getFails, hsid] at hok
          exact Bool.noConfusion hok
        | some sid =>
          simp only [passed, if_pos, hsid]
          exact writes_get hsid hok
      · apply hnone (if_neg hc)
        intro frame w' heq
        obtain ⟨sid, -, heq⟩ := Option.map_eq_some_iff.mp heq
        exact hc (congrArg Prod.fst heq)
    | disconnect c' w =>
      apply hnone rfl
      intro frame w' heq
      exact of_decide_eq_true hok (congrArg Prod.fst (Option.some.inj heq))
    | listen | connect | unlisten | setConnContext | setRemoteAddress =>
      exact hnone rfl fun _ _ heq => absurd heq.symm (Option.some_ne_none _)
  | env | runloop | visit | read | endPoll | timeouts | deliver | ret =>
    exact hnone rfl fun _ _ heq => absurd heq.symm (Option.some_ne_none _)

end State

/-- The output of a conn is the frames of the messages that were passed. -/
theorem writes_messages {run : List (State × Input)} {s : State} {c : ConnId}
    (h : machine.Steps run s) (hok : ∀ x ∈ run, sendsMessage c x.1 x.2 = true) :
    writes s.trace c = (sentMessages c run).map SentMessage.frame := by
  induction h with
  | init => rfl
  | @step run s s' i _ hstep ih =>
    have hbefore := ih fun x hx => hok x (List.mem_cons_of_mem _ hx)
    rw [State.writes_step (hok (s, i) List.mem_cons_self) hstep, hbefore, sentMessages_cons,
      List.map_append]
    cases passed c s i <;> rfl

/-! ## Receiving -/

/-- A call of `recv` hands over some bytes, or it would block. -/
def Recv.isPiece : Recv → Bool
  | .upTo _ => true
  | .fail e => e == .wouldBlock

namespace State

/-- The descriptor of the conn is a stream that the peer has not ended. -/
def isOpenStream (s : State) (c : ConnId) : Bool :=
  match s.socketOf c with
  | some (.stream _ false) => true
  | _ => false

end State

/-- A read of the conn receives pieces of a stream that is not ended, messages in progress on other
    conns are left alone, and nothing but a read drops the conn. -/
def receivesFrom (c : ConnId) (s : State) (i : Input) : Bool :=
  undisturbed s i &&
    match i.dataTarget s with
    | some (c', r) => c' ≠ c || r.peek.isPiece && r.body.isPiece && s.isOpenStream c
    | none => i.dropTarget s ≠ some c

/-- The events that were queued for the messages of a tcp conn, in this order, each with the id in
    the header and with the data. -/
def messageEvents (t : List Obs) (c : ConnId) :
  List (Event × UInt16 × Option (List (Option UInt8))) :=
  (queuedCalls t).filterMap fun p =>
    (p.tcpMessage c).map fun m => (p.event, m.1.replyId, p.data.map MsgData.bytes)

/-- Exactly the given messages were queued for the conn, and no closing event. -/
def Delivered (s : State) (c : ConnId) (sent : List SentMessage) : Prop :=
  messageEvents s.trace c = sent.map SentMessage.event ∧ s.closingCalls c = []

namespace State

variable {s₀ s s' : State} {i : Input} {c : ConnId}

/-- A stream that goes on is not over. -/
private theorem recvOver_open (hopen : s.isOpenStream c = true) {r : Recv} (hr : r.isPiece = true)
    {len : Nat} (hlen : len ≠ 0) : s.recvOver c len r = false := by
  unfold isOpenStream at hopen
  split at hopen
  · rename_i unread hsocket
    unfold recvOver State.recvOn
    rw [hsocket]
    cases r with
    | fail e =>
      obtain rfl := eq_of_beq hr
      rfl
    | upTo k =>
      dsimp only [Socket.recv]
      rw [if_neg hlen]
      cases unread with
      | nil => rfl
      | cons b unread =>
        dsimp only
        rw [List.isEmpty_eq_false_iff, Ne, List.take_eq_nil_iff]
        simp
        omega
  · exact Bool.noConfusion hopen

/-- Taking bytes off a stream does not end it. -/
private theorem isOpenStream_consume (h : s.isOpenStream c = true) (n : Nat) :
    (s.consume c n).isOpenStream c = true := by
  unfold isOpenStream at h ⊢
  split at h
  · rename_i unread hsocket
    have hafter : (s.consume c n).socketOf c = some (.stream (unread.drop n) false) := by
      show Function.update s.sockets (s.conn c).socket _ (s.conn c).socket = _
      rw [Function.update_self, hsocket]
      rfl
    rw [hafter]
  · exact Bool.noConfusion h

/-- A stream is over when there is nothing to peek at and the other side has closed. -/
private theorem peekHeader_over {r : Recv} (h : s.peekHeader c r = .over) :
    s.recvOver c headerLen r = true := by
  unfold peekHeader at h
  unfold recvOver
  generalize s.recvOn c headerLen r = received at h ⊢
  split at h
  · split at h
    · rename_i hlen
      simpa using hlen
    · split at h <;> exact Peeked.noConfusion h
  · rfl
  · exact Peeked.noConfusion h
  · exact Peeked.noConfusion h

/-- Pieces of a stream that goes on drop the conn only if they are the header of a message without a
    body, or of a close. -/
private theorem header_of_tcpDrops (hfilled : Filled s) {r : ReadIn}
    (hdrops : s.tcpDrops c r = true) (hopen : s.isOpenStream c = true)
    (hpeek : r.peek.isPiece = true) (hbody : r.body.isPiece = true) :
    s.waitingBytes c = 0 ∧ ∃ raw, s.peekHeader c r.peek = .header raw ∧ bodySize raw = 0 := by
  unfold tcpDrops at hdrops
  split at hdrops
  · rename_i hidle
    refine ⟨hidle, ?_⟩
    split at hdrops
    · rename_i hover
      have hover' := peekHeader_over hover
      rw [recvOver_open hopen hpeek (by decide)] at hover'
      exact Bool.noConfusion hover'
    · rename_i raw hraw
      refine ⟨raw, hraw, ?_⟩
      unfold bodySize
      split
      · rfl
      · rename_i hkind
        rw [beq_eq_false_iff_ne.mpr hkind, Bool.false_or] at hdrops
        -- On an open stream a body is there, or still to come.
        by_contra hpos
        rw [recvOver_open (isOpenStream_consume hopen _) hbody hpos] at hdrops
        exact Bool.noConfusion hdrops
    · exact Bool.noConfusion hdrops
  · -- The rest of a body is awaited, and no body belongs to a close.
    rename_i hpos
    rw [recvOver_open hopen hbody hpos, Bool.false_or] at hdrops
    exfalso
    unfold savedClose at hdrops
    unfold waitingBytes at hpos
    cases hsid : s.statusOfConn c with
    | none =>
      rw [hsid] at hpos
      exact hpos rfl
    | some sid =>
      rw [hsid] at hpos hdrops
      obtain ⟨header, filled, hfilling⟩ := hfilled sid (Nat.pos_of_ne_zero hpos)
      have hheader : s.savedHeader sid = header := by simp [savedHeader, hfilling.total]
      dsimp only at hdrops
      rw [hheader] at hdrops
      exact hfilling.kind (eq_of_beq hdrops)

/-- A header without a body is taken as a whole. -/
private theorem stream_bare (htcp : (s.conn c).protocolType = .tcp)
    (hconn : (s.conn c).forListening = false)
    {r : ReadIn} {raw : List UInt8} (hidle : s.waitingBytes c = 0)
    (hpeek : s.peekHeader c r.peek = .header raw) (hsize : bodySize raw = 0) :
    stream s.trace c ++ raw.map some <+: stream (s.readFromSocket c r).1.trace c := by
  have hseen : ((s.remoteAddressSeen c).1.conn c).protocolType = .tcp := by
    rw [remoteAddressSeen_conn]
    exact htcp
  have hstream := acceptHeader_stream hseen raw
  rw [(calm_remoteAddressSeen s c).stream] at hstream
  rw [← hstream]
  apply stream_suffix
  have hrecv := recvTcp_header hidle hpeek
  generalize (s.remoteAddressSeen c).1.acceptHeader c raw = s₁ at hrecv ⊢
  split at hrecv
  · rw [read_none htcp hconn hrecv, localDisconnect_trace]
    exact List.suffix_cons _ _
  · rename_i hopen
    rw [bodySize, if_neg hopen] at hsize
    generalize (s.remoteAddressSeen c).2 = sid at hrecv
    have hzero : ((s₁.newConnStatusBuffer sid (decodeHeader raw)).status
        sid).waitingBuffer.numBytes = 0 := by
      rw [newConnStatusBuffer_status, Function.update_self]
      exact hsize
    -- The body of no bytes is asked for, which returns none.
    cases hcase : (s₁.newConnStatusBuffer sid (decodeHeader raw)).recvBody c sid r.body with
    | «over» =>
      rw [read_none htcp hconn (hrecv.trans (continue_over hcase)), localDisconnect_trace]
      exact List.suffix_cons _ _
    | blocked =>
      rw [read_none htcp hconn (hrecv.trans (continue_blocked hcase))]
      exact List.suffix_rfl
    | failed e =>
      rw [read_none htcp hconn (hrecv.trans (continue_failed hcase))]
      exact (List.suffix_cons _ _).trans (List.suffix_cons _ _)
    | bytes bs =>
      obtain ⟨hne, hle⟩ := recvBody_bytes hcase
      rw [hzero] at hle
      exact absurd (List.eq_nil_of_length_eq_zero (Nat.le_zero.mp hle)) hne

/-! ## Closing events -/

/-- Calls that free the conn for an error only are no closing events. -/
private theorem closingCalls_append {ps : List PendingCall}
    (htrace : queuedCalls s'.trace = queuedCalls s.trace ++ ps)
    (hps : ∀ p ∈ ps, p.frees c = true → p.event = .error) :
    s'.closingCalls c = s.closingCalls c := by
  have hnone : (ps.filter fun p =>
      p.frees c && (p.event == .connectionClosed || p.event == .connectionLost)) = [] := by
    apply List.filter_eq_nil_iff.mpr
    intro p hp hclosing
    rw [Bool.and_eq_true] at hclosing
    rw [hps p hp hclosing.1] at hclosing
    exact absurd hclosing.2 (by decide)
  rw [closingCalls, htrace, List.filter_append, hnone, List.append_nil]
  rfl

/-- A closing event of `c` is queued only where `c` is dropped. -/
private theorem closingCalls_final (hfinal : Final s₀ i s s') :
    s'.closingCalls c = s.closingCalls c ∨ i.Drops s₀ c := by
  have hqueue : ∀ {p : PendingCall} {t : List Obs}, queuedCalls t = queuedCalls s.trace →
      s'.trace = .queued p :: t → (p.frees c = true → p.event = .error) →
      s'.closingCalls c = s.closingCalls c := by
    intro p t ht htrace hp
    have happend : queuedCalls s'.trace = queuedCalls s.trace ++ [p] := by
      rw [htrace, queuedCalls_queued, ht]
    exact closingCalls_append happend fun q hq => List.mem_singleton.mp hq ▸ hp
  cases hfinal with
  | handled | matched | unmatched => exact .inl (hqueue rfl rfl fun h => Bool.noConfusion h)
  | @drop c' event ph hearly hdrops =>
    by_cases hc : c' = c
    · exact .inr (hc ▸ hdrops)
    · left
      apply hqueue rfl (localDisconnect_trace s c' event)
      exact fun hfrees => absurd (own_closingCall s c' event c hfrees).symm hc
  | refuse => exact .inl (hqueue rfl rfl fun _ => rfl)
  | fail => exact .inl (hqueue (queuedCalls_cons rfl _) rfl fun _ => rfl)

/-- Closing events are queued for conns that are dropped. -/
private theorem closingCalls_step (hstep : step s i = some s') :
    s'.closingCalls c = s.closingCalls c ∨ i.Drops s c := by
  obtain ⟨s₁, heffects, hlast⟩ := step_effects hstep
  have hsame : s₁.closingCalls c = s.closingCalls c := by
    clear hlast
    induction heffects with
    | refl => rfl
    | tail _ heffect ih =>
      obtain ⟨ps, htrace, hps⟩ := effect_queued heffect
      rw [← ih]
      apply closingCalls_append htrace
      intro p hp hfrees
      rw [PendingCall.frees, hps p hp] at hfrees
      exact Bool.noConfusion hfrees
  rw [← hsame]
  rcases hlast with rfl | hfinal
  · exact .inl rfl
  · exact closingCalls_final hfinal

/-- A read of a conn is about that conn only. -/
private theorem conn_of_drops {c' : ConnId} {r : ReadIn} (hreads : i.Reads s c' r)
    (hdrops : i.Drops s c) :
    c = c' ∧ s.readDrops c r = true := by
  have htarget := hdrops.target
  obtain ⟨index, hphase, hlisted⟩ := hreads.listed
  simp only [hreads.input, Input.dropTarget, hphase, hlisted] at htarget
  obtain ⟨heq, hread⟩ := Option.filter_eq_some_iff.mp htarget
  obtain rfl := Option.some.inj heq
  exact ⟨rfl, hread⟩

/-- No message is in progress where a header is read. -/
private theorem finished_of_header (h : Decoded s) {r : ReadIn} {raw : List UInt8}
    (hown : s.readsOwn c r = true) (hidle : s.waitingBytes c = 0)
    (hpeek : s.peekHeader c r.peek = .header raw) : unfinished s.trace c = false := by
  have hlive : s.freeing c = false := by
    simp only [readsOwn, tcpIdle, if_pos hidle, hpeek, Bool.false_or, Bool.and_eq_true,
      Bool.not_eq_true'] at hown
    exact hown.1
  rw [Bool.eq_false_iff]
  intro hun
  obtain ⟨-, -, sid, hsid, hholds⟩ := h.buffer c hun hlive
  have hpos := hholds.pos
  simp only [waitingBytes, hsid] at hidle
  omega

end State

/-- As long as what arrives are frames with a body, no closing event is queued. -/
theorem closings_nil {s : State} {c : ConnId} {frames : List (List UInt8)}
    (h : machine.Reach (fun s i => receivesFrom c s i = true) s)
    (hwhole : ∀ f ∈ frames, Frames.Whole headerLen bodySize f)
    (hbody : ∀ f ∈ frames, headerLen < f.length)
    (hfront : stream s.trace c <+: frames.flatMap fun f => f.map some) : s.closingCalls c = [] := by
  induction h with
  | init => rfl
  | @step s s' i hreach hok hstep ih =>
    have hsuffix := State.stream_suffix (State.suffix_step hstep) c
    have hbefore := ih (hsuffix.trans hfront)
    rcases State.closingCalls_step hstep with hsame | hdrops
    · exact hsame.trans hbefore
    · exfalso
      obtain ⟨hundisturbed, hcond⟩ := Bool.and_eq_true_iff.mp hok
      cases htarget : i.dataTarget s with
      | none =>
        rw [htarget] at hcond
        exact of_decide_eq_true hcond hdrops.target
      | some x =>
        obtain ⟨c', r⟩ := x
        obtain ⟨hreads, htcp, hconn, ph, rfl⟩ := State.dataTarget_step htarget hstep
        obtain ⟨rfl, hread⟩ := State.conn_of_drops hreads hdrops
        rw [htarget] at hcond
        simp only [ne_eq, not_true_eq_false, decide_false, Bool.false_or, Bool.and_eq_true] at hcond
        obtain ⟨⟨hpeek, hpiece⟩, hopen⟩ := hcond
        rw [State.readDrops, if_pos htcp, hconn, Bool.not_false, Bool.true_and] at hread
        have hfilled := reach_filled hreach
        obtain ⟨hidle, raw, hraw, hsize⟩ :=
          State.header_of_tcpDrops hfilled hread hopen hpeek hpiece
        have hown : s.readsOwn c r = true := by
          have hdata := (Bool.and_eq_true_iff.mp hundisturbed).2
          rw [htarget] at hdata
          exact hdata
        have hdecoded := reach_decoded (hreach.mono fun s i hok => (Bool.and_eq_true_iff.mp hok).1)
        have hstart := State.finished_of_header hdecoded hown hidle hraw
        -- The header alone is a frame of what arrives.
        have hbare := (State.stream_bare htcp hconn hidle hraw hsize).trans hfront
        obtain ⟨rest, hrest⟩ := hbare
        have hmem : raw ∈ frames := by
          have hpos : 0 < headerLen := by decide
          have hframes := @Frames.frames_append _ headerLen bodySize
            (stream s.trace c ++ raw.map some) rest
          rw [hrest, Frames.decode_frames hpos hwhole] at hframes
          apply hframes.subset
          have hlast := State.decoded_header hstart (State.peekHeader_length hraw)
            (stream_received c raw s.trace)
          rw [if_pos hsize, decoded, stream_received] at hlast
          rw [hlast]
          exact List.mem_append_right _ List.mem_cons_self
        have hlong := hbody raw hmem
        have hlen := State.peekHeader_length hraw
        omega

/-! ## Messages that arrive -/

/-- What is queued for a message that is no reply. -/
private theorem PendingCall.HandsOver.handed {p : PendingCall} {c : ConnId}
    {m : Header × List (Option UInt8)} (h : p.HandsOver) (hp : p.tcpMessage c = some m)
    (herror : p.event ≠ .error ∨ m.1.kind ≠ .reply) :
    (∃ uninit, State.eventFor m.1 uninit = some p.event) ∧ p.data.map MsgData.bytes = some m.2 := by
  unfold tcpMessage at hp
  split at hp
  · rename_i a sid header payload context hcause
    split at hp
    · obtain rfl := Option.some.inj hp
      have hcases := h a sid header payload context hcause
      cases context with
      | none => exact absurd hcases.2 (herror.resolve_right fun hkind => hkind hcases.1)
      | some context => exact hcases
    · exact absurd hp.symm (Option.some_ne_none m)
  · exact absurd hp.symm (Option.some_ne_none m)

/-- The events are those of the messages, if these are one-way messages and requests. -/
private theorem messageEvents_eq {s : State} {c : ConnId} (h : HandsOver s)
    (hplain : ∀ m ∈ tcpMessages s.trace c, m.1.kind = .oneWay ∨ m.1.kind = .request) :
    messageEvents s.trace c = (tcpMessages s.trace c).map fun m =>
      (if m.1.kind = .request then .request else .message, m.1.replyId, some m.2) := by
  rw [messageEvents, tcpMessages, List.map_filterMap]
  apply List.filterMap_congr
  intro p hp
  cases hm : p.tcpMessage c with
  | none => rfl
  | some m =>
    have hkind := hplain m (List.mem_filterMap.mpr ⟨p, hp, hm⟩)
    have hnot : m.1.kind ≠ .reply := by
      rcases hkind with hkind | hkind
      all_goals
        rw [hkind]
        exact MsgType.noConfusion
    obtain ⟨⟨uninit, hevent⟩, hdata⟩ := (h p (mem_queuedCalls.mp hp)).handed hm (.inr hnot)
    have hp' : p.event = if m.1.kind = .request then .request else .message := by
      unfold State.eventFor at hevent
      rcases hkind with hkind | hkind
      all_goals
        rw [hkind] at hevent ⊢
        exact (Option.some.inj hevent).symm
    rw [Option.map_some, Option.map_some, hp', hdata]

/-- A message that is found in a stream has a body of less than 2³² bytes. -/
private theorem length_of_found {stream : List (Option UInt8)} {m : Header × List (Option UInt8)}
    (h : m ∈ messagesIn (Frames.decode headerLen bodySize stream).frames) :
    0 < m.2.length ∧ m.2.length < 4294967296 := by
  obtain ⟨f, hf, rfl⟩ := List.mem_map.mp h
  obtain ⟨hmem, hlong⟩ := List.mem_filter.mp hf
  have hlong := of_decide_eq_true hlong
  have hwhole : f.length = headerLen + bodySize (f.take headerLen) :=
    Frames.whole_of_mem (by decide) hmem
  have hbound : bodySize (f.take headerLen) < 4294967296 := by
    unfold bodySize
    split
    · omega
    · exact UInt32.toNat_lt _
  rw [List.length_map, List.length_drop]
  omega

/-- Frames with a body are found again. -/
private theorem messagesIn_frames {sent : List SentMessage} (hfits : ∀ m ∈ sent, m.fits = true) :
    messagesIn (sent.map SentMessage.frame) = sent.map fun m =>
      (⟨m.kind.code, m.replyId, UInt32.ofNat m.payload.length⟩, m.payload.map some) := by
  induction sent with
  | nil => rfl
  | cons m sent ih =>
    have hm := SentMessage.fits_iff.mp (hfits m List.mem_cons_self)
    have hlong : headerLen < m.frame.length := by
      rw [SentMessage.length_frame]
      omega
    have hrest := ih fun m' hm' => hfits m' (List.mem_cons_of_mem _ hm')
    rw [messagesIn] at hrest ⊢
    rw [List.map_cons, List.filter_cons, if_pos (decide_eq_true hlong), List.map_cons, hrest,
      List.map_cons, SentMessage.header_frame, SentMessage.drop_frame]

/-- The events of messages that are delivered have data of less than 2³² bytes, but some. -/
private theorem fits_of_delivered {s : State} {c : ConnId} {sent : List SentMessage}
    (h : machine.Reach (fun s i => undisturbed s i = true) s)
    (hevents : messageEvents s.trace c = sent.map SentMessage.event) {m : SentMessage}
    (hm : m ∈ sent) : m.fits = true := by
  obtain ⟨hmessages, hhands⟩ := streams_decoded h
  have hevent : m.event ∈ messageEvents s.trace c := by
    rw [hevents]
    exact List.mem_map_of_mem hm
  obtain ⟨p, hp, hsome⟩ := List.mem_filterMap.mp hevent
  obtain ⟨found, hfound, heq⟩ := Option.map_eq_some_iff.mp hsome
  simp only [SentMessage.event, Prod.mk.injEq] at heq
  obtain ⟨hkind, -, hdata⟩ := heq
  have herror : p.event ≠ .error := by
    rw [hkind]
    split <;> exact Event.noConfusion
  obtain ⟨-, hbytes⟩ := (hhands p (mem_queuedCalls.mp hp)).handed hfound (.inl herror)
  rw [hdata] at hbytes
  have hmem : found ∈ tcpMessages s.trace c := List.mem_filterMap.mpr ⟨p, hp, hfound⟩
  rw [hmessages] at hmem
  have hlen := length_of_found hmem
  rw [← Option.some.inj hbytes, List.length_map] at hlen
  exact SentMessage.fits_iff.mpr hlen

/-! ## Main result -/

/-- One process sends one-way messages and requests on a conn, and all sends succeed. Another one
    has received, in any pieces, a part of the bytes from the front: all of them, unless it has
    queued a closing event. Then it has queued exactly the events of these messages, and no closing
    event, exactly if each message has a payload, of less than 2³² bytes. -/
theorem round_trip_iff {run : List (State × Input)} {s s' : State} {c c' : ConnId}
    (hrun : machine.Steps run s) (hsends : ∀ x ∈ run, sendsMessage c x.1 x.2 = true)
    (hs' : machine.Reach (fun s i => receivesFrom c' s i = true) s')
    (hfront : stream s'.trace c' <+: (writes s.trace c).flatten.map some)
    (hall : s'.closingCalls c' ≠ [] ∨ stream s'.trace c' = (writes s.trace c).flatten.map some) :
    Delivered s' c' (sentMessages c run) ↔ ∀ m ∈ sentMessages c run, m.fits = true := by
  have hundisturbed : machine.Reach (fun s i => undisturbed s i = true) s' :=
    hs'.mono fun s i hok => (Bool.and_eq_true_iff.mp hok).1
  constructor
  · intro hdelivered m hm
    exact fits_of_delivered hundisturbed hdelivered.1 hm
  · intro hfits
    have hplain : ∀ m ∈ sentMessages c run, m.isPlain = true := fun m hm => plain_of_sent hsends hm
    have hwhole : ∀ f ∈ (sentMessages c run).map SentMessage.frame,
        Frames.Whole headerLen bodySize f := by
      intro f hf
      obtain ⟨m, hm, rfl⟩ := List.mem_map.mp hf
      exact SentMessage.whole_frame (hplain m hm) (hfits m hm)
    have hbody : ∀ f ∈ (sentMessages c run).map SentMessage.frame, headerLen < f.length := by
      intro f hf
      obtain ⟨m, hm, rfl⟩ := List.mem_map.mp hf
      have hpos := (SentMessage.fits_iff.mp (hfits m hm)).1
      rw [SentMessage.length_frame]
      omega
    rw [writes_messages hrun hsends, List.map_flatten, ← List.flatMap_def] at hfront hall
    have hopen := closings_nil hs' hwhole hbody hfront
    refine ⟨?_, hopen⟩
    -- So all the bytes have been received, and the frames are those that were written.
    have hstream := hall.resolve_left fun hclosing => hclosing hopen
    obtain ⟨hmessages, hhands⟩ := streams_decoded hundisturbed
    have hfound := hmessages c'
    rw [decoded, hstream, Frames.decode_frames (by decide) hwhole,
      messagesIn_frames hfits] at hfound
    rw [messageEvents_eq hhands, hfound, List.map_map]
    · apply List.map_congr_left
      intro m _
      show (if Header.kind ⟨m.kind.code, _, _⟩ = .request then _ else _, _, _) = _
      rw [kind_code]
      rfl
    · intro m hm
      rw [hfound] at hm
      obtain ⟨m', hm', rfl⟩ := List.mem_map.mp hm
      have hcases := hplain m' hm'
      rw [SentMessage.isPlain, Bool.or_eq_true, beq_iff_eq, beq_iff_eq] at hcases
      rw [kind_code]
      exact hcases

/-- A one-way message and a request, which are received in two cycles. -/
theorem round_trip_two : ∃ run s s',
    machine.Steps run s ∧ machine.Reach (fun s i => receivesFrom 0 s i = true) s' ∧
      sentMessages 0 run = [⟨.oneWay, 0, [65]⟩, ⟨.request, 1, [66, 67]⟩] ∧
      stream s'.trace 0 = (writes s.trace 0).flatten.map some ∧
      Delivered s' 0 (sentMessages 0 run) := by
  obtain ⟨run, s, hrun, hview⟩ := machine.exists_steps_of_run
    (connectRun ++ [.app (.send 0 [65] {}), .app (.get 0 [66, 67] null 0 {})])
    (fun x => (sentMessages 0 x.1, writes x.2.trace 0, x.1.all fun y => sendsMessage 0 y.1 y.2))
    ([⟨.oneWay, 0, [65]⟩, ⟨.request, 1, [66, 67]⟩],
      [setHeader .oneWay 0 1 ++ [65], setHeader .request 1 2 ++ [66, 67]], true)
    (by decide +kernel)
  obtain ⟨s', hs', hreceived⟩ := machine.exists_reach_of_run (receivesFrom 0) (fun _ _ h => h)
    (connectRun ++
      [.env (.arrive 3 (setHeader .oneWay 0 1 ++ [65] ++ setHeader .request 1 2 ++ [66, 67]))] ++
      cycle [{ peek := .upTo 8, body := .upTo 1 }, { peek := .upTo 8, body := .upTo 1 }] ++
      [.ret, .deliver {}] ++ cycle [{ body := .upTo 1 }, {}])
    (fun s => stream s.trace 0)
    ((setHeader .oneWay 0 1 ++ [65] ++ setHeader .request 1 2 ++ [66, 67]).map some)
    (by decide +kernel)
  simp only [Prod.mk.injEq, List.all_eq_true] at hview
  obtain ⟨hsent, hwrites, hsends⟩ := hview
  have hstream : stream s'.trace 0 = (writes s.trace 0).flatten.map some := by
    rw [hreceived, hwrites]
    rfl
  refine ⟨run, s, s', hrun, hs', hsent, hstream, ?_⟩
  apply (round_trip_iff hrun hsends hs' (by rw [hstream]) (.inr hstream)).mpr
  rw [hsent]
  decide

/-- A message of no bytes, as `msg_new_data_space(0)` makes it: its header is received, no message
    is queued, and the connection is reported as lost. -/
theorem round_trip_empty : ∃ run s s',
    machine.Steps run s ∧ (∀ x ∈ run, sendsMessage 0 x.1 x.2 = true) ∧
      machine.Reach (fun s i => receivesFrom 0 s i = true) s' ∧
      sentMessages 0 run = [⟨.oneWay, 0, []⟩] ∧
      stream s'.trace 0 = (writes s.trace 0).flatten.map some ∧
      messageEvents s'.trace 0 = [] ∧
      (s'.closingCalls 0).map PendingCall.event = [.connectionLost] ∧
      ¬ Delivered s' 0 (sentMessages 0 run) := by
  obtain ⟨run, s, hrun, hview⟩ := machine.exists_steps_of_run
    (connectRun ++ [.app (.send 0 [] {})])
    (fun x => (sentMessages 0 x.1, writes x.2.trace 0, x.1.all fun y => sendsMessage 0 y.1 y.2))
    ([⟨.oneWay, 0, []⟩], [setHeader .oneWay 0 0], true) (by decide +kernel)
  obtain ⟨s', hs', hreceived⟩ := machine.exists_reach_of_run (receivesFrom 0) (fun _ _ h => h)
    (connectRun ++ [.env (.arrive 3 (setHeader .oneWay 0 0))] ++
      cycle [{ peek := .upTo 8, body := .upTo 1 }])
    (fun s => (stream s.trace 0, (messageEvents s.trace 0).length,
      (s.closingCalls 0).map PendingCall.event))
    ((setHeader .oneWay 0 0).map some, 0, [.connectionLost]) (by decide +kernel)
  simp only [Prod.mk.injEq, List.all_eq_true] at hview hreceived
  obtain ⟨hsent, hwrites, hsends⟩ := hview
  obtain ⟨hstream, hevents, hclosing⟩ := hreceived
  refine ⟨run, s, s', hrun, hsends, hs', hsent, ?_, List.eq_nil_of_length_eq_zero hevents, hclosing,
    ?_⟩
  · rw [hstream, hwrites]
    rfl
  · intro hdelivered
    rw [hdelivered.2] at hclosing
    exact absurd hclosing (by decide)

end Msgbox
