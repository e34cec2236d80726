import Msgbox.Spec.Streams

/-!
# Messages in progress

A tcp message that is partly received is kept in the status of the conn's address. Where no
other conn has one there, a read adds what it receives to the conn's own message.

## Key results

- `Holds`: the buffer of a status holds an unfinished frame
- `Decoded`: each conn's messages are the frames of its stream, and the unfinished ones are kept
- `State.recvTcp_decoded`: what a read of a conn keeps
- `State.handleMessage_decoded`: a complete message is queued
-/

namespace Msgbox

/-! ## Messages in progress -/

/-- The buffer of a status holds an unfinished frame. -/
structure Holds (status : ConnStatus) (pending : List UInt8) : Prop where
  header : headerLen ≤ pending.length
  incomplete : pending.length < headerLen + bodySize (pending.take headerLen)
  total : status.totalBuffer = some
    { bytes := (pending.drop headerLen).map some ++
        List.replicate (headerLen + bodySize (pending.take headerLen) - pending.length) none
      metadata := { header := some (decodeHeader pending) } }
  waiting : status.waitingBuffer =
    { start := pending.length - headerLen
      numBytes := headerLen + bodySize (pending.take headerLen) - pending.length }

/-- The unfinished frame of a conn is in the status of its address. -/
structure InProgress (s : State) (c : ConnId) : Prop where
  lt : c < s.nextConn
  tcp : (s.conn c).protocolType = .tcp
  holds : ∃ sid, s.statusOfConn c = some sid ∧ Holds (s.status sid) (decoded s.trace c).pending

/-- The messages that were queued for a conn, and those that are due now, are the frames of its
    stream. Unfinished frames of conns that were not dropped are in progress, at most one for
    each address. -/
structure Decoding (due : ConnId → List (Header × List (Option UInt8))) (s : State) : Prop where
  messages : ∀ c, tcpMessages s.trace c ++ due c = messagesIn (decoded s.trace c).frames
  buffer : ∀ c, unfinished s.trace c = true → s.freeing c = false → InProgress s c
  apart : ∀ c c', unfinished s.trace c = true → s.freeing c = false →
    unfinished s.trace c' = true → s.freeing c' = false →
    (s.conn c).remoteAddress = (s.conn c').remoteAddress → c = c'

/-- No message is due. -/
def Decoded (s : State) : Prop := Decoding (fun _ => []) s

/-- No other conn has a message in progress at the conn's address. -/
def Sole (s : State) (c : ConnId) : Prop :=
  ∀ c', c' ≠ c → unfinished s.trace c' = true → s.freeing c' = false →
    (s.conn c').remoteAddress ≠ (s.conn c).remoteAddress

/-- The buffers decide what is pending. -/
theorem Holds.same {status status' : ConnStatus} {pending : List UInt8} (h : Holds status pending)
    (hsame : SameBuffer status status') : Holds status' pending :=
  ⟨h.header, h.incomplete, hsame.1.trans h.total, hsame.2.trans h.waiting⟩

/-- A close is never kept as a message in progress. -/
private theorem Holds.kind_ne_close {status : ConnStatus} {pending : List UInt8}
    (h : Holds status pending) :
    (decodeHeader pending).kind ≠ .close := by
  intro hclose
  have hheader := h.header
  have hincomplete := h.incomplete
  have htake : headerLen ≤ (pending.take headerLen).length := by
    rw [List.length_take]
    omega
  rw [bodySize, decodeHeader_prefix (List.take_prefix headerLen pending) htake, if_pos hclose]
    at hincomplete
  omega

/-- A message in progress misses bytes. -/
theorem Holds.pos {status : ConnStatus} {pending : List UInt8} (h : Holds status pending) :
    0 < status.waitingBuffer.numBytes := by
  rw [h.waiting]
  exact Nat.sub_pos_of_lt h.incomplete

namespace State

variable {s s' : State} {c : ConnId} {due due' : ConnId → List (Header × List (Option UInt8))}

/-- What was decoded is a matter of the stream. -/
private theorem decoded_congr {t t' : List Obs} (h : stream t' c = stream t c) :
    decoded t' c = decoded t c := by
  rw [decoded, decoded, h]

/-- So is whether a message is in progress. -/
theorem unfinished_congr {t t' : List Obs} (h : stream t' c = stream t c) :
    unfinished t' c = unfinished t c := by
  rw [unfinished, unfinished, decoded_congr h]

/-- A calm step, which spares the addresses of messages in progress. -/
private theorem decoding_calm (h : Decoding due s) (ha : Allocated s) {except : Option Address}
    (hcalm : Calm except s s') (hexcept : ∀ a, except = some a → ∀ c, unfinished s.trace c = true →
      s'.freeing c = false → (s.conn c).remoteAddress ≠ a) : Decoding due s' where
  messages c := by
    rw [hcalm.messages, decoded_congr (hcalm.stream c)]
    exact h.messages c
  buffer c hun hfree := by
    rw [unfinished_congr (hcalm.stream c)] at hun
    obtain ⟨hlt, htcp, sid, hsid, hholds⟩ := h.buffer c hun (hcalm.freeing hfree)
    refine ⟨hlt.trans_le hcalm.next, hcalm.tcp hlt htcp, sid, ?_, ?_⟩
    · rw [statusOfConn, hcalm.address c hlt htcp]
      exact hcalm.lookup _ sid (fun heq => hexcept _ heq c hun hfree rfl) hsid
    · rw [decoded_congr (hcalm.stream c)]
      exact hholds.same (hcalm.buffers sid (ha.status _ sid hsid).1)
  apart c c' hun hfree hun' hfree' haddr := by
    rw [unfinished_congr (hcalm.stream _)] at hun hun'
    have hc := h.buffer c hun (hcalm.freeing hfree)
    have hc' := h.buffer c' hun' (hcalm.freeing hfree')
    rw [hcalm.address c hc.lt hc.tcp, hcalm.address c' hc'.lt hc'.tcp] at haddr
    exact h.apart c c' hun (hcalm.freeing hfree) hun' (hcalm.freeing hfree') haddr

/-- A calm step that drops no status. -/
theorem decoding_quiet (h : Decoding due s) (ha : Allocated s) (hcalm : Calm none s s') :
    Decoding due s' :=
  decoding_calm h ha hcalm fun _ heq => absurd heq.symm (Option.some_ne_none _)

/-- A drop of a conn leaves the messages of the others in progress. -/
theorem decoding_drop (h : Decoding due s) (ha : Allocated s) (hsole : Sole s c) (event : Event) :
    Decoding due (s.localDisconnect c event) := by
  have hcalm := calm_drop s c event (s.localDisconnect c event).phase
  apply decoding_calm h ha hcalm
  intro a heq c' hun hfree
  obtain rfl := Option.some.inj heq
  by_cases hc : c' = c
  · subst hc
    exfalso
    have htcp := (h.buffer c' hun (hcalm.freeing hfree)).tcp
    exact Bool.noConfusion ((freeing_drop htcp event).symm.trans hfree)
  · exact hsole c' hc hun (hcalm.freeing hfree)

/-- Where no message is in progress at the conn's address, or it is the conn's own. -/
private theorem sole_of_waiting (h : Decoding due s) (hwaiting : s.waitingBytes c = 0 ∨
      unfinished s.trace c = true ∧ s.freeing c = false) : Sole s c := by
  intro c' hne hun hfree haddr
  rcases hwaiting with hzero | ⟨hun', hfree'⟩
  · obtain ⟨-, -, sid, hsid, hholds⟩ := h.buffer c' hun hfree
    have hpos := hholds.pos
    rw [statusOfConn, haddr] at hsid
    have hsid : s.statusOfConn c = some sid := hsid
    rw [waitingBytes, hsid] at hzero
    exact absurd hzero (Nat.pos_iff_ne_zero.mp hpos)
  · exact hne (h.apart c' c hun hfree hun' hfree' haddr)

/-! ## Reading data -/

/-- What a read of the conn leaves alone: the streams of the others, what was queued, and all
    buffers but one. -/
structure Writes (c : ConnId) (sid : StatusId) (s s' : State) : Prop where
  trace : ∃ os, s'.trace = os ++ s.trace ∧ ∀ o ∈ os, o.isDataOf c = true
  next : s'.nextConn = s.nextConn
  address : ∀ c', (s'.conn c').remoteAddress = (s.conn c').remoteAddress
  lookup : s'.connStatus = s.connStatus
  buffers : ∀ sid', sid' ≠ sid → SameBuffer (s.status sid') (s'.status sid')

/-- Data of one conn is not in another one's stream. -/
private theorem stream_isDataOf {os t : List Obs} (h : ∀ o ∈ os, o.isDataOf c = true) {c' : ConnId}
    (hc : c' ≠ c) : stream (os ++ t) c' = stream t c' := by
  induction os with
  | nil => rfl
  | cons o os ih =>
    rw [List.cons_append, stream_cons, ih fun o' ho' => h o' (List.mem_cons_of_mem _ ho')]
    have ho := h o List.mem_cons_self
    cases o with
    | received c₁ bytes =>
      have hc₁ : c₁ = c := of_decide_eq_true ho
      simp [Obs.symbols, hc₁, Ne.symm hc]
    | recvFailed c₁ =>
      have hc₁ : c₁ = c := of_decide_eq_true ho
      simp [Obs.symbols, hc₁, Ne.symm hc]
    | _ => exact List.append_nil _

/-- Data hands over no message. -/
private theorem tcpMessages_isDataOf {os t : List Obs} (h : ∀ o ∈ os, o.isDataOf c = true)
    (c' : ConnId) :
    tcpMessages (os ++ t) c' = tcpMessages t c' := by
  induction os with
  | nil => rfl
  | cons o os ih =>
    rw [List.cons_append]
    have hcons : tcpMessages (o :: (os ++ t)) c' = tcpMessages (os ++ t) c' := by
      cases o with
      | queued p =>
        have hcalm : (Obs.queued p).isCalm = true := h _ List.mem_cons_self
        exact tcpMessages_calm hcalm _ c'
      | _ => exact tcpMessages_other rfl _ c'
    rw [hcons, ih fun o' ho' => h o' (List.mem_cons_of_mem _ ho')]

/-- A read of a conn, where no other conn has a message in progress at its address. -/
private theorem decoding_write (h : Decoding due s) (ha : Allocated s) (hsole : Sole s c)
    {sid : StatusId} (hlt : c < s.nextConn) (htcp : (s.conn c).protocolType = .tcp)
    (hsid : s.statusOfConn c = some sid) (hwrites : Writes c sid s s')
    (hdue : ∀ c', c' ≠ c → due' c' = due c')
    (hmessages : tcpMessages s.trace c ++ due' c = messagesIn (decoded s'.trace c).frames)
    (hbuffer : unfinished s'.trace c = true →
      Holds (s'.status sid) (decoded s'.trace c).pending) : Decoding due' s' := by
  obtain ⟨os, htrace, hos⟩ := hwrites.trace
  have hfreeing : ∀ c', s'.freeing c' = false → s.freeing c' = false := by
    intro c' hfree
    rw [Bool.eq_false_iff] at hfree ⊢
    exact fun hs => hfree (freeing_mono (fun _ ho => htrace ▸ List.mem_append_right _ ho) hs)
  have hstream : ∀ c', c' ≠ c → stream s'.trace c' = stream s.trace c' :=
    fun c' hc => htrace ▸ stream_isDataOf hos hc
  have haddr : ∀ c', s.statusOfConn c' = s'.statusOfConn c' := by
    intro c'
    rw [statusOfConn, statusOfConn, hwrites.lookup, hwrites.address c']
  -- The messages in progress on other conns are at other addresses.
  have hother : ∀ c', c' ≠ c → unfinished s'.trace c' = true → s'.freeing c' = false →
      InProgress s c' ∧ (s.conn c').remoteAddress ≠ (s.conn c).remoteAddress := by
    intro c' hc hun hfree
    rw [unfinished_congr (hstream c' hc)] at hun
    exact ⟨h.buffer c' hun (hfreeing c' hfree), hsole c' hc hun (hfreeing c' hfree)⟩
  refine ⟨fun c' => ?_, fun c' hun hfree => ?_, fun c₁ c₂ hun₁ hfree₁ hun₂ hfree₂ hsame => ?_⟩
  · rw [htrace, tcpMessages_isDataOf hos, ← htrace]
    by_cases hc : c' = c
    · exact hc ▸ hmessages
    · rw [hdue c' hc, decoded_congr (hstream c' hc)]
      exact h.messages c'
  · by_cases hc : c' = c
    · subst hc
      refine ⟨hwrites.next ▸ hlt, ?_, sid, haddr c' ▸ hsid, hbuffer hun⟩
      rw [Conn.protocolType, hwrites.address]
      exact htcp
    · obtain ⟨⟨hlt', htcp', sid', hsid', hholds⟩, hne⟩ := hother c' hc hun hfree
      refine ⟨hwrites.next ▸ hlt', ?_, sid', haddr c' ▸ hsid', ?_⟩
      · rw [Conn.protocolType, hwrites.address]
        exact htcp'
      · rw [decoded_congr (hstream c' hc)]
        refine hholds.same (hwrites.buffers sid' ?_)
        -- Each status is filed under its own address.
        rintro rfl
        exact hne ((ha.status _ _ hsid').2.1.symm.trans (ha.status _ _ hsid).2.1)
  · rw [hwrites.address, hwrites.address] at hsame
    by_cases hc₁ : c₁ = c
    · by_cases hc₂ : c₂ = c
      · rw [hc₁, hc₂]
      · exact absurd (hc₁ ▸ hsame).symm (hother c₂ hc₂ hun₂ hfree₂).2
    · by_cases hc₂ : c₂ = c
      · exact absurd (hc₂ ▸ hsame) (hother c₁ hc₁ hun₁ hfree₁).2
      · rw [unfinished_congr (hstream _ ‹_›)] at hun₁ hun₂
        exact h.apart c₁ c₂ hun₁ (hfreeing c₁ hfree₁) hun₂ (hfreeing c₂ hfree₂) hsame

/-- A conn that is the only one on its status stays the only one while it is written to. -/
private theorem sole_writes {sid : StatusId} (h : Sole s c) (hwrites : Writes c sid s s') :
    Sole s' c := by
  obtain ⟨os, htrace, hos⟩ := hwrites.trace
  intro c' hne hun hfree
  rw [hwrites.address, hwrites.address]
  rw [htrace, unfinished_congr (stream_isDataOf hos hne)] at hun
  apply h c' hne hun
  rw [Bool.eq_false_iff] at hfree ⊢
  exact fun hs => hfree (freeing_mono (fun _ ho => htrace ▸ List.mem_append_right _ ho) hs)

/-- What is received is decoded on top of what was decoded before. -/
private theorem decoded_received {t t' : List Obs} {bs : List UInt8}
    (h : stream t' c = stream t c ++ bs.map some) :
    decoded t' c = (bs.map some).foldl (Frames.feed headerLen bodySize) (decoded t c) := by
  rw [decoded, h, Frames.decode_append]
  rfl

/-- `recv` returns no more than was asked for. -/
theorem recvOn_length {len : Nat} {r : Recv} {bs : List UInt8} (h : s.recvOn c len r = .ok bs) :
    bs.length ≤ len := by
  unfold recvOn at h
  split at h
  · exact absurd h (by simp)
  · unfold Socket.recv at h
    split at h
    · exact absurd h (by simp)
    · split at h
      · obtain rfl := Except.ok.inj h
        exact Nat.zero_le _
      · split at h
        · obtain rfl := Except.ok.inj h
          exact Nat.zero_le _
        · exact absurd h (by simp)
        · obtain rfl := Except.ok.inj h
          rw [List.length_take]
          omega
        · exact absurd h (by simp)
        · obtain rfl := Except.ok.inj h
          rw [List.length_take]
          omega

/-- Bytes that are written behind those that are there already. -/
theorem writeAt_append (xs : List (Option UInt8)) (k : Nat) (bs : List UInt8) :
    writeAt (xs ++ List.replicate k none) xs.length bs =
      xs ++ bs.map some ++ List.replicate (k - bs.length) none := by
  rw [writeAt, List.take_left, List.drop_append, List.drop_replicate]
  simp

/-- Some bytes of a body, and no more than are missing. -/
theorem recvBody_bytes {sid : StatusId} {r : Recv} {bs : List UInt8}
    (h : s.recvBody c sid r = .bytes bs) :
    bs ≠ [] ∧ bs.length ≤ (s.status sid).waitingBuffer.numBytes := by
  unfold recvBody at h
  cases hrecv : s.recvOn c (s.status sid).waitingBuffer.numBytes r with
  | ok bs' =>
    simp only [hrecv] at h
    split at h
    · exact BodyRecv.noConfusion h
    · rename_i hne
      obtain rfl := BodyRecv.bytes.inj h
      exact ⟨fun heq => hne (heq ▸ rfl), recvOn_length hrecv⟩
  | error e =>
    rw [hrecv] at h
    cases e <;> exact BodyRecv.noConfusion h

/-- A frame that is given up. -/
private theorem decoded_recvFailed {t t' : List Obs} (h : stream t' c = stream t c ++ [none]) :
    decoded t' c = { decoded t c with pending := [] } := by
  rw [decoded, h, Frames.decode_none]
  rfl

/-- More of a frame, the header of which has been read. -/
private theorem bodySize_append {pending : List UInt8} (h : headerLen ≤ pending.length)
    (bs : List UInt8) :
    bodySize ((pending ++ bs).take headerLen) = bodySize (pending.take headerLen) := by
  rw [List.take_append_of_le_length h]

/-- What is in the buffer behind some more bytes. -/
private theorem fill_bytes {pending : List UInt8} (h : headerLen ≤ pending.length) (k : Nat)
    (bs : List UInt8) :
    writeAt ((pending.drop headerLen).map some ++ List.replicate k none)
        (pending.length - headerLen) bs =
      ((pending ++ bs).drop headerLen).map some ++ List.replicate (k - bs.length) none := by
  have hlen : ((pending.drop headerLen).map some).length = pending.length - headerLen := by
    rw [List.length_map, List.length_drop]
  rw [← hlen, writeAt_append, List.drop_append_of_le_length h, List.map_append]

/-- The buffer holds what it held and the new bytes, if the frame is still incomplete. -/
private theorem holds_fill {pending : List UInt8} {sid : StatusId}
    (h : Holds (s.status sid) pending)
    {bs : List UInt8} (hlt : bs.length < (s.status sid).waitingBuffer.numBytes) :
    Holds ((s.fillWaiting sid bs).status sid) (pending ++ bs) := by
  have hsize := bodySize_append h.header bs
  have hheader := h.header
  rw [h.waiting] at hlt
  dsimp only at hlt
  refine ⟨?_, ?_, ?_, ?_⟩
  · rw [List.length_append]
    omega
  · rw [hsize, List.length_append]
    omega
  · rw [fillWaiting_status, Function.update_self, hsize,
      ← decodeHeader_prefix (List.prefix_append pending bs) h.header]
    simp only [h.total, h.waiting, Option.map_some, fill_bytes h.header, List.length_append,
      Nat.sub_add_eq]
  · rw [fillWaiting_status, Function.update_self, hsize]
    simp only [h.waiting, WaitingBuffer.mk.injEq, List.length_append]
    omega

/-- The message that is due for a conn. -/
def dueFor (c : ConnId) (m : Message) : ConnId → List (Header × List (Option UInt8)) :=
  fun c' => if c' = c then [(m.header, m.data.bytes)] else []

/-- `recv` fails in the middle of a message, which is given up. -/
private theorem decoded_failed (h : Decoded s) (ha : Allocated s) (hsole : Sole s c)
    {sid : StatusId} (hlt : c < s.nextConn) (htcp : (s.conn c).protocolType = .tcp)
    (hsid : s.statusOfConn c = some sid) (e : Errno) :
    Decoded (((s.sendCallbackOsError c "recv" e .nothing).clearConnStatusBuffer sid).log
      (.recvFailed c)) := by
  generalize hs' : ((s.sendCallbackOsError c "recv" e .nothing).clearConnStatusBuffer sid).log
    (.recvFailed c) = s'
  have htrace : ∃ p, s'.trace = [.recvFailed c, .queued p] ++ s.trace ∧ p.cause = .other := by
    rw [← hs']
    exact ⟨_, rfl, rfl⟩
  -- The decoder gives up its frame when `recv` fails, as `recv_tcp` does with the buffer.
  obtain ⟨p, htrace, hcause⟩ := htrace
  have hcalm : (Obs.queued p).isCalm = true := by rw [Obs.isCalm, hcause]
  have hdecoded : decoded s'.trace c = { decoded s.trace c with pending := [] } := by
    apply decoded_recvFailed
    rw [htrace, List.cons_append, List.singleton_append, stream_recvFailed, stream_calm hcalm]
  refine decoding_write h ha hsole hlt htcp hsid ⟨⟨_, htrace, ?_⟩, ?_, ?_, ?_, ?_⟩
    (fun _ _ => rfl) ?_ ?_
  · intro o ho
    rcases List.mem_cons.mp ho with rfl | ho
    · exact decide_eq_true rfl
    · rw [List.mem_singleton.mp ho]
      exact hcalm
  · rw [← hs']
    rfl
  · rw [← hs']
    exact fun _ => rfl
  · rw [← hs']
    rfl
  · intro sid' hne
    rw [← hs', log_status, clearConnStatusBuffer_status, Function.update_of_ne hne]
    exact .refl _
  · rw [hdecoded]
    exact h.messages c
  · intro hun
    rw [unfinished, hdecoded] at hun
    exact Bool.noConfusion hun

/-- Bytes of the body that leave the message incomplete. -/
private theorem decoded_fill (h : Decoded s) (ha : Allocated s) (hsole : Sole s c) {sid : StatusId}
    (hsid : s.statusOfConn c = some sid) (hun : unfinished s.trace c = true)
    (hfree : s.freeing c = false) {bs : List UInt8}
    (hlt : bs.length < (s.status sid).waitingBuffer.numBytes) :
    Decoded (((s.consume c bs.length).log (.received c bs)).fillWaiting sid bs) := by
  obtain ⟨hconn, htcp, sid', hsid', hholds⟩ := h.buffer c hun hfree
  obtain rfl := Option.some.inj (hsid.symm.trans hsid')
  have hfill := holds_fill hholds hlt
  have hincomplete := hfill.incomplete
  have hdecoded : decoded (.received c bs :: s.trace) c =
      { decoded s.trace c with pending := (decoded s.trace c).pending ++ bs } := by
    rw [decoded_received (stream_received c bs s.trace), Frames.feed_part hincomplete]
  refine decoding_write h ha hsole hconn htcp hsid ⟨⟨[.received c bs], rfl, ?_⟩, rfl, fun _ => rfl,
    rfl, ?_⟩
    (fun _ _ => rfl) ?_ ?_
  · exact fun o ho => List.mem_singleton.mp ho ▸ decide_eq_true rfl
  · intro sid' hne
    rw [fillWaiting_status, Function.update_of_ne hne]
    exact .refl _
  · show _ = messagesIn (decoded (.received c bs :: s.trace) c).frames
    rw [hdecoded]
    exact h.messages c
  · intro _
    show Holds _ (decoded (.received c bs :: s.trace) c).pending
    rw [hdecoded]
    exact hfill

/-- The rest of the body. -/
private theorem decoded_complete (h : Decoded s) (ha : Allocated s) (hsole : Sole s c)
    {sid : StatusId} (hsid : s.statusOfConn c = some sid) (hun : unfinished s.trace c = true)
    (hfree : s.freeing c = false) {header : Header}
    (hheader : header = decodeHeader (decoded s.trace c).pending) {bs : List UInt8} (hne : bs ≠ [])
    (hlen : bs.length = (s.status sid).waitingBuffer.numBytes) {data : MsgData}
    (hdata : ((((s.consume c bs.length).log (.received c bs)).fillWaiting sid bs).status
      sid).totalBuffer = some data) :
    Decoding (dueFor c ⟨sid, header, data⟩)
      ((((s.consume c bs.length).log (.received c bs)).fillWaiting sid bs).clearConnStatusBuffer
        sid) := by
  obtain ⟨hconn, htcp, sid', hsid', hholds⟩ := h.buffer c hun hfree
  obtain rfl := Option.some.inj (hsid.symm.trans hsid')
  have hstart := hholds.header
  have hincomplete := hholds.incomplete
  rw [hholds.waiting] at hlen
  dsimp only at hlen
  generalize hpending : (decoded s.trace c).pending = pending
    at hheader hholds hstart hincomplete hlen
  -- The decoder has its frame with the same bytes as the buffer.
  have hwhole : Frames.Whole headerLen bodySize ((decoded s.trace c).pending ++ bs) := by
    rw [hpending, Frames.Whole, bodySize_append hstart, List.length_append]
    omega
  have hdecoded : decoded (.received c bs :: s.trace) c =
      { pending := [], frames := (decoded s.trace c).frames ++ [pending ++ bs] } := by
    rw [decoded_received (stream_received c bs s.trace), Frames.feed_whole hne hwhole, hpending]
  -- What is in the buffer is the body of that frame.
  have hbytes : data.bytes = ((pending ++ bs).drop headerLen).map some := by
    rw [fillWaiting_status, Function.update_self] at hdata
    simp only [log_status, consume_status, hholds.total, Option.map_some,
      Option.some.injEq] at hdata
    rw [← hdata]
    show writeAt _ (s.status sid).waitingBuffer.start bs = _
    rw [hholds.waiting, fill_bytes hstart, hlen, Nat.sub_self, List.replicate_zero, List.append_nil]
  refine decoding_write h ha hsole hconn htcp hsid ⟨⟨[.received c bs], rfl, ?_⟩, rfl, fun _ => rfl,
    rfl, ?_⟩
    ?_ ?_ ?_
  · exact fun o ho => List.mem_singleton.mp ho ▸ decide_eq_true rfl
  · intro sid' hne'
    rw [clearConnStatusBuffer_status, Function.update_of_ne hne', fillWaiting_status,
      Function.update_of_ne hne']
    exact .refl _
  · intro c' hc
    exact if_neg hc
  · show _ = messagesIn (decoded (.received c bs :: s.trace) c).frames
    have hmessages := h.messages c
    rw [List.append_nil] at hmessages
    have hbody : headerLen < (pending ++ bs).length := by
      rw [List.length_append]
      omega
    rw [hdecoded, hmessages, messagesIn_concat hbody, dueFor, if_pos rfl,
      ← decodeHeader_prefix (List.prefix_append pending bs) hstart, ← hbytes, ← hheader]
  · intro hun'
    have hun' : unfinished (.received c bs :: s.trace) c = true := hun'
    rw [unfinished, hdecoded] at hun'
    exact Bool.noConfusion hun'

/-- A new status is filed for a conn that was made. -/
private theorem allocated_remoteAddressSeen (h : Allocated s) (hlt : c < s.nextConn) :
    Allocated (s.remoteAddressSeen c).1 := by
  unfold remoteAddressSeen
  split
  · exact h
  · rename_i hnone
    exact allocated_sendCallback (allocated_addStatus h) hlt _ _ _ _

/-- A header refers to nothing. -/
private theorem allocated_acceptHeader (h : Allocated s) (raw : List UInt8) :
    Allocated (s.acceptHeader c raw) := by
  have htake : Allocated (s.takeHeader c raw) := by
    unfold takeHeader
    split
    · exact allocated_log (s := s.consume c headerLen) (o := .received c raw)
        ⟨h.conns, h.timeouts, h.queued, h.pending, h.status⟩ rfl
    · exact h
  exact allocated_log (s := (s.takeHeader c raw).modifyConn c fun conn =>
      { conn with replyId := (decodeHeader raw).replyId }) (o := .header c (decodeHeader raw))
    ⟨htake.conns, htake.timeouts, htake.queued, htake.pending, htake.status⟩ rfl

/-- A read that leaves its message in progress or completes it. -/
private theorem continueMessage_decoding (h : Decoded s) (ha : Allocated s) (hsole : Sole s c)
    {sid : StatusId} (hlt : c < s.nextConn) (htcp : (s.conn c).protocolType = .tcp)
    (hsid : s.statusOfConn c = some sid)
    (hwaiting : 0 < (s.status sid).waitingBuffer.numBytes →
      unfinished s.trace c = true ∧ s.freeing c = false)
    {header : Header}
    (hheader : unfinished s.trace c = true → header = decodeHeader (decoded s.trace c).pending)
    {r : Recv} {m : Option Message} (hres : s.continueMessage c sid header r = (s', m)) :
    (m = none → Decoded s') ∧ ∀ m', m = some m' →
      Decoding (dueFor c m') s' ∧ m'.header.kind ≠ .close ∧ s'.conn = s.conn := by
  unfold continueMessage continueRecv at hres
  cases hrecv : s.recvBody c sid r with
  | «over» =>
    simp only [hrecv, Prod.mk.injEq] at hres
    obtain ⟨rfl, rfl⟩ := hres
    exact ⟨fun _ => decoding_drop h ha hsole _, fun _ hm => absurd hm.symm (Option.some_ne_none _)⟩
  | blocked =>
    simp only [hrecv, Prod.mk.injEq] at hres
    obtain ⟨rfl, rfl⟩ := hres
    exact ⟨fun _ => h, fun _ hm => absurd hm.symm (Option.some_ne_none _)⟩
  | failed e =>
    simp only [hrecv, Prod.mk.injEq] at hres
    obtain ⟨rfl, rfl⟩ := hres
    exact ⟨fun _ => decoded_failed h ha hsole hlt htcp hsid e,
      fun _ hm => absurd hm.symm (Option.some_ne_none _)⟩
  | bytes bs =>
    simp only [hrecv] at hres
    obtain ⟨hne, hle⟩ := recvBody_bytes hrecv
    have hpos : 0 < bs.length := List.length_pos_iff.mpr hne
    obtain ⟨hun, hfree⟩ := hwaiting (hpos.trans_le hle)
    have hleft : ((((s.consume c bs.length).log (.received c bs)).fillWaiting sid bs).status
        sid).waitingBuffer.numBytes = (s.status sid).waitingBuffer.numBytes - bs.length := by
      rw [fillWaiting_status, Function.update_self]
      rfl
    rw [hleft] at hres
    by_cases hall : (s.status sid).waitingBuffer.numBytes - bs.length = 0
    · simp only [if_pos hall, Prod.mk.injEq] at hres
      obtain ⟨rfl, rfl⟩ := hres
      refine ⟨fun hm => absurd hm (Option.some_ne_none _), fun m' hm => ?_⟩
      obtain rfl := Option.some.inj hm
      obtain ⟨-, -, sid', hsid', hholds⟩ := h.buffer c hun hfree
      obtain rfl := Option.some.inj (hsid.symm.trans hsid')
      refine ⟨?_, ?_, rfl⟩
      · apply decoded_complete h ha hsole hsid hun hfree (hheader hun) hne (by omega)
        -- There is a buffer to hand over.
        simp [hholds.total]
      · rw [hheader hun]
        exact hholds.kind_ne_close
    · simp only [if_neg hall, Prod.mk.injEq] at hres
      obtain ⟨rfl, rfl⟩ := hres
      refine ⟨fun _ => ?_, fun _ hm => absurd hm.symm (Option.some_ne_none _)⟩
      exact decoded_fill h ha hsole hsid hun hfree (by omega)

/-- The call of a message that was due is queued. -/
private theorem decoded_queue {m : Message} (h : Decoding (dueFor c m) s) (ha : Allocated s)
    (htcp : (s.conn c).protocolType = .tcp) {event : Event} {data : Option MsgData}
    {toFree : ToFree} {context : Option Ptr} (hnext : s'.nextConn = s.nextConn)
    (hnextStatus : s'.nextStatus = s.nextStatus)
    (haddr : ∀ c', (s'.conn c').remoteAddress = (s.conn c').remoteAddress)
    (hlookup : s'.connStatus = s.connStatus)
    (hstatus : ∀ sid, SameBuffer (s.status sid) (s'.status sid))
    (htrace : s'.trace = .queued ⟨c, event, data, toFree, .frame (s.conn c).remoteAddress m.status
      m.header m.data.bytes context⟩ :: s.trace) : Decoded s' := by
  -- Apart from the call nothing happens.
  have hcalm : Calm none s { s' with trace := s.trace } :=
    calm_quiet rfl hnext hnextStatus (fun c' _ _ => haddr c') hlookup hstatus
  have hrest := decoding_quiet h ha hcalm
  have hstream : ∀ c', stream s'.trace c' = stream s.trace c' := by
    intro c'
    rw [htrace, stream_cons]
    exact List.append_nil _
  have hfreeing : ∀ c', s'.freeing c' = false →
    ({ s' with trace := s.trace } : State).freeing c' = false := by
    intro c' hfree
    rw [Bool.eq_false_iff] at hfree ⊢
    exact fun hs => hfree (freeing_mono (fun _ ho => htrace ▸ List.mem_cons_of_mem _ ho) hs)
  refine ⟨fun c' => ?_, fun c' hun hfree => ?_, fun c₁ c₂ hun₁ hfree₁ hun₂ hfree₂ hsame => ?_⟩
  · rw [decoded_congr (hstream c'), ← h.messages c', List.append_nil, htrace, tcpMessages_queued]
    congr 1
    have hproto : (s.conn c).remoteAddress.protocolType = .tcp := htcp
    by_cases hc : c' = c
    · subst hc
      simp [PendingCall.tcpMessage, dueFor, hproto]
    · simp [PendingCall.tcpMessage, dueFor, hc, Ne.symm hc]
  · rw [unfinished_congr (hstream c')] at hun
    obtain ⟨hlt, hproto, sid, hsid, hholds⟩ := hrest.buffer c' hun (hfreeing c' hfree)
    exact ⟨hlt, hproto, sid, hsid, by rw [decoded_congr (hstream c')]; exact hholds⟩
  · rw [unfinished_congr (hstream _)] at hun₁ hun₂
    exact hrest.apart c₁ c₂ hun₁ (hfreeing c₁ hfree₁) hun₂ (hfreeing c₂ hfree₂) hsame

/-- The message that was due is handed over. -/
theorem handleMessage_decoded {m : Message} (h : Decoding (dueFor c m) s) (ha : Allocated s)
    (htcp : (s.conn c).protocolType = .tcp) (event : Event) :
    Decoded (s.handleMessage c event m).1 := by
  unfold handleMessage
  dsimp only
  split
  · split
    · exact decoded_queue h ha htcp rfl rfl (fun _ => rfl) rfl (fun _ => .refl _) rfl
    · rename_i context _
      refine decoded_queue h ha htcp rfl rfl (fun c' => ?_) rfl
        (sameBuffer_update (by exact ⟨rfl, rfl⟩)) rfl
      by_cases hc : c' = c <;> simp [hc]
  · exact decoded_queue h ha htcp rfl rfl (update_remoteAddress (by rfl)) rfl (fun _ => .refl _) rfl

/-- A header has eight bytes. -/
theorem peekHeader_length {r : Recv} {raw : List UInt8} (h : s.peekHeader c r = .header raw) :
    raw.length = headerLen := by
  unfold peekHeader at h
  cases hrecv : s.recvOn c headerLen r with
  | ok bytes =>
    simp only [hrecv] at h
    split at h
    · exact Peeked.noConfusion h
    · split at h
      · exact Peeked.noConfusion h
      · obtain rfl := Peeked.header.inj h
        have hle := recvOn_length hrecv
        omega
  | error e =>
    rw [hrecv] at h
    cases e <;> exact Peeked.noConfusion h

/-- Taking a header is observed twice: as bytes, and decoded. -/
theorem acceptHeader_trace (htcp : (s.conn c).protocolType = .tcp) (raw : List UInt8) :
    (s.acceptHeader c raw).trace =
      [.header c (decodeHeader raw), .received c raw] ++ s.trace := by
  unfold acceptHeader takeHeader
  rw [if_pos htcp]
  rfl

/-- A new frame begins, and perhaps ends, with the header. -/
theorem decoded_header {t : List Obs} (hstart : unfinished t c = false) {raw : List UInt8}
    (hraw : raw.length = headerLen) {t' : List Obs}
    (ht' : stream t' c = stream t c ++ raw.map some) :
    decoded t' c =
      if bodySize raw = 0 then { pending := [], frames := (decoded t c).frames ++ [raw] }
      else { decoded t c with pending := raw } := by
  have hpending : (decoded t c).pending = [] := by simpa [unfinished] using hstart
  have htake : raw.take headerLen = raw := by rw [← hraw, List.take_length]
  rw [decoded_received ht']
  split
  · rename_i hzero
    have hwhole : Frames.Whole headerLen bodySize ((decoded t c).pending ++ raw) := by
      rw [hpending, List.nil_append, Frames.Whole, htake, hzero, hraw]
      rfl
    rw [Frames.feed_whole (by rintro rfl; exact absurd hraw (by decide)) hwhole, hpending]
    rfl
  · rename_i hpos
    rw [Frames.feed_part, hpending, List.nil_append]
    rw [hpending, List.nil_append, htake, hraw]
    omega

/-- Nothing that a call of `recv` on the conn would change, or reports. -/
def tcpIdle (s : State) (c : ConnId) (r : ReadIn) : Bool :=
  if s.waitingBytes c = 0 then
    match s.peekHeader c r.peek with
    | .blocked => true
    | .failed _ => true
    | _ => false
  else
    match s.recvOn c (s.waitingBytes c) r.body with
    | .error .wouldBlock => true
    | _ => false

/-- A `msg_connection_ready` frees no conn. -/
theorem freeing_remoteAddressSeen (s : State) (c c' : ConnId) :
    (s.remoteAddressSeen c).1.freeing c' = s.freeing c' := by
  unfold remoteAddressSeen
  split
  · rfl
  · exact freeing_queue_nothing rfl c'

/-- Both are data of the conn. -/
private theorem acceptHeader_isDataOf (raw : List UInt8) :
    ∀ o ∈ [Obs.header c (decodeHeader raw), .received c raw], o.isDataOf c = true := by
  intro o ho
  rcases List.mem_cons.mp ho with rfl | ho
  · rfl
  · rw [List.mem_singleton.mp ho]
    exact decide_eq_true rfl

/-- The header goes to the end of the stream. -/
theorem acceptHeader_stream (htcp : (s.conn c).protocolType = .tcp) (raw : List UInt8) :
    stream (s.acceptHeader c raw).trace c = stream s.trace c ++ raw.map some := by
  rw [acceptHeader_trace htcp, List.cons_append, List.singleton_append, stream_calm rfl,
    stream_received]

/-- The buffer of a new message holds its header. -/
private theorem holds_new {raw : List UInt8} (hraw : raw.length = headerLen)
    (hopen : (decodeHeader raw).kind ≠ .close) (hpos : bodySize raw ≠ 0) (sid : StatusId) :
    Holds ((s.newConnStatusBuffer sid (decodeHeader raw)).status sid) raw := by
  have htake : raw.take headerLen = raw := by rw [← hraw, List.take_length]
  have hsize : bodySize raw = (decodeHeader raw).numBytes.toNat := by rw [bodySize, if_neg hopen]
  rw [newConnStatusBuffer_status, Function.update_self]
  refine ⟨hraw.ge, ?_, ?_, ?_⟩
  · rw [htake, hraw]
    omega
  · rw [htake, hraw, hsize, ← hraw, List.drop_length, Nat.add_sub_cancel_left, List.map_nil,
      List.nil_append, msgNewDataSpace]
  · rw [htake, hraw, hsize, Nat.sub_self, Nat.add_sub_cancel_left]

/-- The header of a message is read. -/
private theorem decoded_newHeader (h : Decoded s) (ha : Allocated s) (hsole : Sole s c)
    {sid : StatusId} (hlt : c < s.nextConn) (htcp : (s.conn c).protocolType = .tcp)
    (hsid : s.statusOfConn c = some sid) (hstart : unfinished s.trace c = false)
    {raw : List UInt8} (hraw : raw.length = headerLen) (hopen : (decodeHeader raw).kind ≠ .close) :
    Decoded ((s.acceptHeader c raw).newConnStatusBuffer sid (decodeHeader raw)) ∧
      Sole ((s.acceptHeader c raw).newConnStatusBuffer sid (decodeHeader raw)) c := by
  have hdecoded := decoded_header hstart hraw (acceptHeader_stream htcp raw)
  have hwrites : Writes c sid s
      ((s.acceptHeader c raw).newConnStatusBuffer sid (decodeHeader raw)) := by
    refine ⟨⟨_, acceptHeader_trace htcp raw, acceptHeader_isDataOf raw⟩,
      acceptHeader_nextConn s c raw, acceptHeader_remoteAddress s c raw,
      acceptHeader_connStatus s c raw, fun sid' hne => ?_⟩
    rw [newConnStatusBuffer_status, Function.update_of_ne hne, acceptHeader_status]
    exact .refl _
  refine ⟨decoding_write h ha hsole hlt htcp hsid hwrites (fun _ _ => rfl) ?_ ?_,
    sole_writes hsole hwrites⟩
  · show _ = messagesIn (decoded (s.acceptHeader c raw).trace c).frames
    rw [hdecoded]
    split
    · rw [messagesIn_short hraw]
      exact h.messages c
    · exact h.messages c
  · intro hun
    have hun : unfinished (s.acceptHeader c raw).trace c = true := hun
    show Holds _ (decoded (s.acceptHeader c raw).trace c).pending
    rw [unfinished, hdecoded] at hun
    rw [hdecoded]
    split at hun
    · exact Bool.noConfusion hun
    · rename_i hpos
      rw [if_neg hpos]
      exact holds_new hraw hopen hpos sid

/-- A header is read, and what of its body is there. -/
private theorem recvHeader_decoded (h : Decoded s) (ha : Allocated s) (hsole : Sole s c)
    {sid : StatusId} (hlt : c < s.nextConn) (htcp : (s.conn c).protocolType = .tcp)
    (hsid : s.statusOfConn c = some sid) (hfree : s.freeing c = false)
    (hstart : unfinished s.trace c = false) {raw : List UInt8} (hraw : raw.length = headerLen)
    {r : Recv} {m : Option Message}
    (hres : (if (decodeHeader raw).kind = .close then
        ((s.acceptHeader c raw).localDisconnect c .connectionClosed, none)
      else ((s.acceptHeader c raw).newConnStatusBuffer sid (decodeHeader raw)).continueMessage c sid
        (decodeHeader raw) r) = (s', m)) :
    (m = none → Decoded s') ∧ ∀ m', m = some m' →
      Decoding (dueFor c m') s' ∧ m'.header.kind ≠ .close ∧ (s'.conn c).protocolType = .tcp := by
  have halloc : Allocated (s.acceptHeader c raw) := allocated_acceptHeader ha raw
  have hdecoded := decoded_header hstart hraw (acceptHeader_stream htcp raw)
  have htcp' : ((s.acceptHeader c raw).conn c).protocolType = .tcp := by
    rw [Conn.protocolType, acceptHeader_remoteAddress]
    exact htcp
  split at hres
  -- A close is a frame without a body, and the conn is dropped.
  · rename_i hclose
    simp only [Prod.mk.injEq] at hres
    obtain ⟨rfl, rfl⟩ := hres
    refine ⟨fun _ => ?_, fun _ hm => absurd hm.symm (Option.some_ne_none _)⟩
    have hwrites : Writes c sid s (s.acceptHeader c raw) :=
      ⟨⟨_, acceptHeader_trace htcp raw, acceptHeader_isDataOf raw⟩, acceptHeader_nextConn s c raw,
        acceptHeader_remoteAddress s c raw, acceptHeader_connStatus s c raw,
        fun _ _ => acceptHeader_status s c raw ▸ .refl _⟩
    rw [if_pos (by rw [bodySize, if_pos hclose])] at hdecoded
    apply decoding_drop _ halloc (sole_writes hsole hwrites)
    apply decoding_write h ha hsole hlt htcp hsid hwrites (fun _ _ => rfl)
    · rw [hdecoded, messagesIn_short hraw]
      exact h.messages c
    · intro hun
      rw [unfinished, hdecoded] at hun
      exact Bool.noConfusion hun
  -- Any other header gets a new buffer, which the body is read into.
  · rename_i hopen
    have hsize : bodySize raw = (decodeHeader raw).numBytes.toNat := by rw [bodySize, if_neg hopen]
    obtain ⟨hnew, hnewSole⟩ := decoded_newHeader h ha hsole hlt htcp hsid hstart hraw hopen
    have hnewAlloc : Allocated
        ((s.acceptHeader c raw).newConnStatusBuffer sid (decodeHeader raw)) := by
      unfold newConnStatusBuffer modifyStatus
      exact allocated_entry halloc sid
        (fun status => { status with totalBuffer := _, waitingBuffer := _ })
        rfl rfl
    have hsid' : (s.acceptHeader c raw).statusOfConn c = some sid :=
      (acceptHeader_statusOfConn s c raw c).trans hsid
    have hfree' : (s.acceptHeader c raw).freeing c = false := by
      rw [← hfree]
      apply freeing_eq
      rw [acceptHeader_trace htcp, List.cons_append, queuedCalls_cons rfl, List.singleton_append,
        queuedCalls_cons rfl]
    -- The decoder waits for a body exactly if the buffer does.
    have hbusy : bodySize raw ≠ 0 → unfinished (s.acceptHeader c raw).trace c = true := by
      intro hpos
      rw [unfinished, hdecoded, if_neg hpos]
      cases raw with
      | nil => exact absurd hraw (by decide)
      | cons => rfl
    have hwaits : 0 < (((s.acceptHeader c raw).newConnStatusBuffer sid
        (decodeHeader raw)).status sid).waitingBuffer.numBytes → bodySize raw ≠ 0 := by
      rw [newConnStatusBuffer_status, Function.update_self, hsize]
      exact Nat.pos_iff_ne_zero.mp
    have hheader : unfinished (s.acceptHeader c raw).trace c = true →
        decodeHeader raw = decodeHeader (decoded (s.acceptHeader c raw).trace c).pending := by
      intro hun
      rw [unfinished, hdecoded] at hun
      rw [hdecoded]
      split at hun
      · exact Bool.noConfusion hun
      · rename_i hpos
        rw [if_neg hpos]
    obtain ⟨hnone, hsome⟩ := continueMessage_decoding hnew hnewAlloc hnewSole
      (by exact hlt.trans_eq (acceptHeader_nextConn s c raw).symm) htcp' hsid'
      (fun hpos => ⟨hbusy (hwaits hpos), hfree'⟩) hheader hres
    refine ⟨hnone, fun m' hm => ⟨(hsome m' hm).1, (hsome m' hm).2.1, ?_⟩⟩
    rw [(hsome m' hm).2.2]
    exact htcp'

/-- One call for a conn that has data to read or none. -/
theorem recvTcp_decoded (h : Decoded s) (ha : Allocated s) (hlt : c < s.nextConn)
    (htcp : (s.conn c).protocolType = .tcp) {r : ReadIn}
    (hcond : s.tcpIdle c r = true ∨
      s.freeing c = false ∧ (s.waitingBytes c = 0 ∨ unfinished s.trace c = true))
    {m : Option Message} (hres : s.recvTcp c r = (s', m)) :
    (m = none → Decoded s') ∧ ∀ m', m = some m' →
      Decoding (dueFor c m') s' ∧ m'.header.kind ≠ .close ∧ (s'.conn c).protocolType = .tcp := by
  have hcalm := calm_remoteAddressSeen s c
  have hseen := decoding_quiet h ha hcalm
  have halloc := allocated_remoteAddressSeen ha hlt
  have hstatus := remoteAddressSeen_status s c
  have hwaiting := remoteAddressSeen_waiting s c
  have hconns := remoteAddressSeen_conn s c
  have hsockets := remoteAddressSeen_sockets s c
  have hfreeing := freeing_remoteAddressSeen s c c
  have hun := unfinished_congr (hcalm.stream c)
  unfold recvTcp at hres
  unfold tcpIdle at hcond
  generalize s.remoteAddressSeen c = seen
    at hres hcalm hseen halloc hstatus hwaiting hconns hsockets hfreeing hun
  obtain ⟨s₁, sid⟩ := seen
  dsimp only at hres hcalm hseen halloc hstatus hwaiting hconns hsockets hfreeing hun
  have hsock : (s₁.conn c).socket = (s.conn c).socket := by rw [hconns]
  have htcp₁ : (s₁.conn c).protocolType = .tcp := by rw [hconns]; exact htcp
  have hlt₁ := hlt.trans_le hcalm.next
  have hwaits : s₁.waitingBytes c = s.waitingBytes c := by
    rw [waitingBytes, hstatus]
    exact hwaiting
  rw [hwaiting] at hres
  split at hres
  -- No message is in progress, so the conn is the only one that uses its status.
  · rename_i hzero
    rw [if_pos hzero] at hcond
    have hsole : Sole s₁ c := sole_of_waiting hseen (.inl (hwaits.trans hzero))
    -- Then the decoder stands between two messages, or the buffer would be waiting.
    have hstart : s.freeing c = false → unfinished s₁.trace c = false := by
      intro hfree
      rw [Bool.eq_false_iff]
      intro hun₁
      obtain ⟨-, -, sid', hsid', hholds⟩ := hseen.buffer c hun₁ (hfreeing.trans hfree)
      obtain rfl := Option.some.inj (hstatus.symm.trans hsid')
      have hpos := hholds.pos
      omega
    unfold readHeader at hres
    rw [peekHeader_congr hsockets hsock] at hres
    cases hpeek : s.peekHeader c r.peek with
    | blocked =>
      simp only [hpeek, Prod.mk.injEq] at hres
      obtain ⟨rfl, rfl⟩ := hres
      exact ⟨fun _ => hseen, fun _ hm => absurd hm.symm (Option.some_ne_none _)⟩
    | «over» =>
      simp only [hpeek, Prod.mk.injEq] at hres
      obtain ⟨rfl, rfl⟩ := hres
      exact ⟨fun _ => decoding_drop hseen halloc hsole _,
        fun _ hm => absurd hm.symm (Option.some_ne_none _)⟩
    | failed e =>
      simp only [hpeek, Prod.mk.injEq] at hres
      obtain ⟨rfl, rfl⟩ := hres
      refine ⟨fun _ => ?_, fun _ hm => absurd hm.symm (Option.some_ne_none _)⟩
      apply decoding_quiet hseen halloc
      exact calm_log rfl rfl rfl rfl (fun _ _ _ => rfl) rfl fun _ => .refl _
    | header raw =>
      simp only [hpeek] at hres hcond
      have hfree : s.freeing c = false := (hcond.resolve_left Bool.false_ne_true).1
      have hread := recvHeader_decoded hseen halloc hsole hlt₁ htcp₁ hstatus (hfreeing.trans hfree)
        (hstart hfree) (peekHeader_length hpeek) hres
      exact hread
  -- A message is in progress in the status: it is this conn's, or nothing is read.
  · rename_i hpos
    rw [if_neg hpos] at hcond
    have hrecv : s₁.recvBody c sid r.body = .blocked ∨
        s.freeing c = false ∧ unfinished s.trace c = true := by
      rcases hcond with hidle | ⟨hfree, hbusy⟩
      · left
        rw [recvBody, recvOn_congr hsockets hsock, hwaiting]
        split at hidle
        · rename_i hblocked
          rw [hblocked]
        · exact absurd hidle Bool.false_ne_true
      · exact .inr ⟨hfree, hbusy.resolve_left hpos⟩
    rcases hrecv with hblocked | ⟨hfree, hbusy⟩
    · simp only [continueMessage, continueRecv, hblocked, Prod.mk.injEq] at hres
      obtain ⟨rfl, rfl⟩ := hres
      exact ⟨fun _ => hseen, fun _ hm => absurd hm.symm (Option.some_ne_none _)⟩
    -- The buffer holds what the decoder has of the message.
    · have hbusy₁ : unfinished s₁.trace c = true := hun.trans hbusy
      have hsole : Sole s₁ c := sole_of_waiting hseen (.inr ⟨hbusy₁, hfreeing.trans hfree⟩)
      have hheader : unfinished s₁.trace c = true →
          s₁.savedHeader sid = decodeHeader (decoded s₁.trace c).pending := by
        intro hun₁
        obtain ⟨-, -, sid', hsid', hholds⟩ := hseen.buffer c hun₁ (hfreeing.trans hfree)
        obtain rfl := Option.some.inj (hstatus.symm.trans hsid')
        rw [savedHeader, hholds.total]
        rfl
      obtain ⟨hnone, hsome⟩ := continueMessage_decoding hseen halloc hsole hlt₁ htcp₁ hstatus
        (fun _ => ⟨hbusy₁, hfreeing.trans hfree⟩) hheader hres
      refine ⟨hnone, fun m' hm => ⟨(hsome m' hm).1, (hsome m' hm).2.1, ?_⟩⟩
      rw [(hsome m' hm).2.2]
      exact htcp₁

end State

end Msgbox
