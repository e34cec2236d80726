import Msgbox.Spec.Interference

/-!
# Bodies

While the body of a tcp message arrives, the total buffer of the status holds the bytes that
arrived, behind the header that was saved, and the waiting buffer is the rest of it. Every read
of the conn asks for that rest.

## Key results

- `Filling`: the bytes that arrived and the room for those that are outstanding
- `reach_filled`: every message in progress is one of these
- `body_accumulates`: what any number of reads makes of a message in progress
-/

namespace Msgbox

/-! ## Buffers -/

/-- Of the body behind the header, `filled` has arrived and `n` bytes are outstanding. -/
structure Filling (status : ConnStatus) (header : Header) (filled : List UInt8) (n : Nat) :
  Prop where
  total : status.totalBuffer = some
    { bytes := filled.map some ++ List.replicate n none, metadata := { header := some header } }
  waiting : status.waitingBuffer = { start := filled.length, numBytes := n }
  size : filled.length + n = header.numBytes.toNat
  kind : header.kind ≠ .close

/-- Both buffers are empty. -/
def Emptied (status : ConnStatus) : Prop :=
  status.totalBuffer = none ∧ status.waitingBuffer = {}

/-- Every status that waits for bytes is one in which a body is filled in. -/
def Filled (s : State) : Prop :=
  ∀ sid, 0 < (s.status sid).waitingBuffer.numBytes →
    ∃ header filled, Filling (s.status sid) header filled (s.status sid).waitingBuffer.numBytes

/-- The buffers decide what a status holds. -/
theorem Filling.same {status status' : ConnStatus} {header : Header} {filled : List UInt8} {n : Nat}
    (h : Filling status header filled n) (hsame : SameBuffer status status') :
    Filling status' header filled n :=
  ⟨hsame.1.trans h.total, hsame.2.trans h.waiting, h.size, h.kind⟩

namespace State

variable {s₀ s s' : State} {i : Input} {c : ConnId}

/-- If all buffers are the same, so is what they hold. -/
private theorem filled_of_same (h : Filled s)
    (hstatus : ∀ sid, SameBuffer (s.status sid) (s'.status sid)) : Filled s' := by
  intro sid hpos
  rw [(hstatus sid).2] at hpos ⊢
  obtain ⟨header, filled, hfilling⟩ := h sid hpos
  exact ⟨header, filled, hfilling.same (hstatus sid)⟩

/-- A write to one status. -/
private theorem filled_update (h : Filled s) (sid : StatusId) {status : ConnStatus}
    (hstatus : s'.status = Function.update s.status sid status)
    (hnew : 0 < status.waitingBuffer.numBytes →
      ∃ header filled, Filling status header filled status.waitingBuffer.numBytes) : Filled s' := by
  intro sid' hpos
  rw [hstatus] at hpos ⊢
  by_cases hsid : sid' = sid
  · subst hsid
    rw [Function.update_self] at hpos ⊢
    exact hnew hpos
  · rw [Function.update_of_ne hsid] at hpos ⊢
    exact h sid' hpos

/-- A new status holds nothing. -/
private theorem filled_seen (h : Filled s) (c : ConnId) : Filled (s.remoteAddressSeen c).1 := by
  unfold remoteAddressSeen
  split
  · exact h
  · apply filled_update h _ rfl
    exact fun hpos => absurd hpos (Nat.lt_irrefl 0)

/-- A status that is unset keeps its buffers. -/
private theorem filled_unset (h : Filled s) (a : Address) : Filled (s.unsetStatus a) := by
  apply filled_of_same h
  intro sid
  rw [unsetStatus_status_apply]
  split <;> exact ⟨rfl, rfl⟩

/-- Dropping a conn empties no buffer. -/
private theorem filled_drop (h : Filled s) (c : ConnId) (event : Event) :
    Filled (s.localDisconnect c event) := by
  apply filled_of_same (filled_unset h (s.conn c).remoteAddress)
  rw [localDisconnect_status]
  exact fun _ => .refl _

/-! ## Steps that read no data -/

/-- Early effects of a step without data leave the buffers. -/
private theorem filled_early (hdata : NoData s₀ i) (h : Filled s) (heffect : Early s₀ i s s') :
    Filled s' := by
  cases heffect with
  | buffer _ _ hreads htcp _ hconn => exact (hdata.absurd hreads htcp hconn).elim
  | ready =>
    apply filled_update h _ rfl
    exact fun hpos => absurd hpos (Nat.lt_irrefl 0)
  | _ => exact filled_of_same h fun _ => .refl _

/-- So do the other effects. -/
private theorem filled_effect (hdata : NoData s₀ i) (h : Filled s) (heffect : Effect s₀ i s s') :
    Filled s' := by
  cases heffect with
  | early hearly => exact filled_early hdata h hearly
  | get | failedGet | expire =>
    exact filled_of_same h (sameBuffer_update (by exact ⟨rfl, rfl⟩))
  | removal =>
    obtain ⟨index, heq⟩ := removalPass_eq s
    rw [heq]
    exact h
  | call =>
    rw [makeCall_eq]
    exact h
  | @finish f =>
    rw [finishCall_eq]
    apply filled_of_same h
    intro sid
    obtain ⟨connContext, heq⟩ := saveContext_status s f sid
    show SameBuffer (s.status sid) ((s.saveContext f).status sid)
    rw [heq]
    exact ⟨rfl, rfl⟩
  | _ => exact filled_of_same h fun _ => .refl _

/-- So does the last effect. -/
private theorem filled_final (h : Filled s) (hfinal : Final s₀ i s s') : Filled s' := by
  cases hfinal with
  | matched => exact filled_of_same h (sameBuffer_update (by exact ⟨rfl, rfl⟩))
  | @drop c event => exact filled_of_same (filled_drop h c event) fun _ => .refl _
  | _ => exact filled_of_same h fun _ => .refl _

/-- A step without data keeps the invariant. -/
private theorem filled_noData (hdata : NoData s i) (h : Filled s) (hstep : step s i = some s') :
    Filled s' := by
  obtain ⟨s₁, heffects, hlast⟩ := step_effects hstep
  have h₁ : Filled s₁ := by
    clear hlast
    induction heffects with
    | refl => exact h
    | tail _ heffect ih => exact filled_effect hdata ih heffect
  rcases hlast with rfl | hfinal
  · exact h₁
  · exact filled_final h₁ hfinal

/-! ## Reads -/

/-- What `recv` adds to the body. -/
theorem filling_fill {sid : StatusId} {header : Header} {filled : List UInt8} {n : Nat}
    (h : Filling (s.status sid) header filled n) {bs : List UInt8} (hle : bs.length ≤ n) :
    Filling ((s.fillWaiting sid bs).status sid) header (filled ++ bs) (n - bs.length) := by
  have hsize := h.size
  refine ⟨?_, ?_, ?_, h.kind⟩
  · rw [fillWaiting_status, Function.update_self]
    have hwrite := writeAt_append (filled.map some) n bs
    rw [List.length_map] at hwrite
    simp only [h.total, h.waiting, Option.map_some, hwrite, List.map_append]
  · rw [fillWaiting_status, Function.update_self]
    simp only [h.waiting, List.length_append]
  · rw [List.length_append]
    omega

/-- The buffers of a message that begins. -/
theorem filling_new {header : Header} (hkind : header.kind ≠ .close) (s : State) (sid : StatusId) :
    Filling ((s.newConnStatusBuffer sid header).status sid) header [] header.numBytes.toNat := by
  rw [newConnStatusBuffer_status, Function.update_self]
  exact ⟨rfl, rfl, Nat.zero_add _, hkind⟩

/-- A body that goes on: bytes are appended, or the buffers are emptied. -/
private theorem filled_continue (h : Filled s) (c : ConnId) (sid : StatusId) (header : Header)
    (r : Recv) :
    Filled (s.continueMessage c sid header r).1 := by
  unfold continueMessage continueRecv
  cases hrecv : s.recvBody c sid r with
  | «over» => exact filled_drop h c _
  | blocked => exact h
  | failed e =>
    apply filled_update h sid rfl
    exact fun hpos => absurd hpos (Nat.lt_irrefl 0)
  | bytes bs =>
    obtain ⟨hne, hle⟩ := recvBody_bytes hrecv
    have hpos : 0 < bs.length := List.length_pos_iff.mpr hne
    obtain ⟨saved, filled, hfilling⟩ := h sid (hpos.trans_le hle)
    -- Bytes received lengthen the part of the body that is filled.
    have hfill := filling_fill (s := (s.consume c bs.length).log (.received c bs)) hfilling hle
    have hfilled : Filled (((s.consume c bs.length).log (.received c bs)).fillWaiting sid bs) := by
      apply filled_update h sid rfl
      intro _
      rw [fillWaiting_status, Function.update_self] at hfill
      exact ⟨saved, filled ++ bs, hfill⟩
    dsimp only
    split
    · rename_i heq
      exact absurd heq (by split <;> simp)
    · rename_i heq
      exact absurd heq (by split <;> simp)
    · rename_i s₁ heq
      simp only [Prod.mk.injEq] at heq
      exact heq.1 ▸ hfilled
    · rename_i s₁ heq
      simp only [Prod.mk.injEq] at heq
      obtain ⟨rfl, -⟩ := heq
      apply filled_update hfilled sid rfl
      -- A whole body leaves nothing to wait for.
      exact fun hpos => absurd hpos (Nat.lt_irrefl 0)

/-- A tcp read fills new buffers or those that are there. -/
private theorem filled_recvTcp (h : Filled s) (c : ConnId) (r : ReadIn) :
    Filled (s.recvTcp c r).1 := by
  have hseen := filled_seen h c
  unfold recvTcp
  cases hcase : s.remoteAddressSeen c with
  | mk s₁ sid =>
    rw [hcase] at hseen
    dsimp only at hseen ⊢
    split
    · unfold readHeader
      cases hpeek : s₁.peekHeader c r.peek with
      | blocked => exact hseen
      | «over» => exact filled_drop hseen c _
      | failed e => exact filled_of_same hseen fun _ => .refl _
      | header raw =>
        have haccept : Filled (s₁.acceptHeader c raw) := by
          apply filled_of_same hseen
          rw [acceptHeader_status]
          exact fun _ => .refl _
        dsimp only
        split
        · exact filled_drop haccept c _
        · rename_i hkind
          -- A new header makes a buffer of which only the header is filled.
          have hnew := filling_new hkind (s₁.acceptHeader c raw) sid
          apply filled_continue
          apply filled_update haccept sid rfl
          intro _
          rw [newConnStatusBuffer_status, Function.update_self] at hnew
          exact ⟨_, _, hnew⟩
    · exact filled_continue hseen c sid _ r.body

/-- Clearing the fields of the conn touches no buffer. -/
private theorem filled_clearOneWay (h : Filled s) (c : ConnId) (header : Header) :
    Filled (s.clearOneWay c header) := by
  unfold clearOneWay
  split <;> exact h

/-- Handing a message over touches no buffer. -/
private theorem filled_handle (h : Filled s) (c : ConnId) (event : Event) (m : Message) :
    Filled (s.handleMessage c event m).1 := by
  unfold handleMessage
  dsimp only
  split
  · split
    · exact h
    · exact filled_of_same h (sameBuffer_update (by exact ⟨rfl, rfl⟩))
  · exact h

/-- A call of `read_from_socket` on a connection keeps the invariant. -/
private theorem filled_read (h : Filled s) (htcp : (s.conn c).protocolType = .tcp)
    (hconn : (s.conn c).forListening = false) (r : ReadIn) : Filled (s.readFromSocket c r).1 := by
  have hrecv := filled_recvTcp h c r
  unfold readFromSocket
  rw [if_pos htcp, if_neg (by rw [hconn]; exact Bool.false_ne_true)]
  cases hcase : s.recvTcp c r with
  | mk s₁ m =>
    rw [hcase] at hrecv
    cases m with
    | none => exact hrecv
    | some m =>
      dsimp only
      split
      · exact filled_drop hrecv c _
      · exact filled_handle (filled_clearOneWay hrecv c m.header) c _ m

/-- Every step keeps the invariant. -/
private theorem filled_step (h : Filled s) (hstep : step s i = some s') : Filled s' := by
  cases htarget : i.dataTarget s with
  | none => exact filled_noData (noData_of_target htarget) h hstep
  | some x =>
    obtain ⟨-, htcp, hconn, ph, rfl⟩ := dataTarget_step htarget hstep
    exact filled_read h htcp hconn x.2

end State

/-- In every reachable state a status that waits for bytes has the body of one message, filled in
    up to the waiting buffer. -/
theorem reach_filled {ok : State → Input → Prop} {s : State} (h : machine.Reach ok s) :
    Filled s := by
  apply h.invariant
  · exact fun _ hpos => absurd hpos (Nat.lt_irrefl 0)
  · exact fun _ _ _ _ hinv _ hstep => State.filled_step hinv hstep

/-! ## Other steps -/

/-- The body of a message in progress on a conn. -/
def InBody (s : State) (c : ConnId) (header : Header) (filled : List UInt8) (n : Nat) : Prop :=
  ∃ sid, s.statusOfConn c = some sid ∧ Filling (s.status sid) header filled n

/-- The step neither reads from nor drops another conn at the conn's address: the conn is the only
    one that uses its status. -/
def sparesStatus (c : ConnId) (s : State) (i : Input) : Prop :=
  ∀ c', c' ≠ c → (∃ r, i.Reads s c' r) ∨ i.Drops s c' →
    (s.conn c').remoteAddress ≠ (s.conn c).remoteAddress

/-- The conn's address has a status, both buffers of which are empty. -/
def NoBody (s : State) (c : ConnId) : Prop :=
  ∃ sid, s.statusOfConn c = some sid ∧ Emptied (s.status sid)

/-- The call hands on a message with its body behind its header, or reports a reply that nobody
    waits for. -/
def PendingCall.HandsOn (p : PendingCall) (c : ConnId) (header : Header) (body : List UInt8) :
  Prop :=
  p.tcpMessage c = some (header, body.map some) ∧ p.frees c = false ∧
    (p.data = some { bytes := body.map some, metadata := { header := some header } } ∨
      header.kind = .reply ∧ p.event = .error)

/-- What a read of the conn makes of the result of its `recv`, which asked for the `n` bytes that
    are outstanding. -/
def Continues (c : ConnId) (header : Header) (filled : List UInt8) (n : Nat) (s s' : State) :
    Except Errno (List UInt8) → Prop
  | .error .wouldBlock =>
    stream s'.trace c = stream s.trace c ∧ InBody s' c header filled n ∧
      queuedCalls s'.trace = queuedCalls s.trace
  -- The conn is dropped, and its status with it.
  | .error .connReset | .ok [] =>
    stream s'.trace c = stream s.trace c ∧ s'.statusOfConn c = none ∧ s'.freeing c = true ∧
      queuedCalls s'.trace = queuedCalls s.trace ++ [s.closingCall c .connectionLost]
  | .error _ =>
    stream s'.trace c = stream s.trace c ++ [none] ∧ NoBody s' c ∧
      ∃ p, p.event = .error ∧ p.tcpMessage c = none ∧
        queuedCalls s'.trace = queuedCalls s.trace ++ [p]
  | .ok bs =>
    stream s'.trace c = stream s.trace c ++ bs.map some ∧
      if bs.length < n then
        InBody s' c header (filled ++ bs) (n - bs.length) ∧
          queuedCalls s'.trace = queuedCalls s.trace
      else
        bs.length = n ∧ NoBody s' c ∧ ∃ p, p.HandsOn c header (filled ++ bs) ∧
          queuedCalls s'.trace = queuedCalls s.trace ++ [p]

namespace State

variable {s₀ s s' : State} {i : Input} {c : ConnId}

/-- From `s` to `s'` nothing happens to the message in progress on the conn. -/
structure Aside (c : ConnId) (s s' : State) : Prop where
  stream : stream s'.trace c = stream s.trace c
  messages : tcpMessages s'.trace c = tcpMessages s.trace c
  address : (s'.conn c).remoteAddress = (s.conn c).remoteAddress
  body : ∀ header filled n, InBody s c header filled n → InBody s' c header filled n

/-- Two stretches in which the conn is left alone. -/
theorem Aside.trans {s'' : State} (h : Aside c s s') (h' : Aside c s' s'') : Aside c s s'' where
  stream := h'.stream.trans h.stream
  messages := h'.messages.trans h.messages
  address := h'.address.trans h.address
  body header filled n hbody := h'.body header filled n (h.body header filled n hbody)

/-- A calm stretch leaves the conn alone, if it spares its address. -/
private theorem aside_of_calm (ha : Allocated s) (hc : c < s.nextConn)
    (htcp : (s.conn c).protocolType = .tcp) {except : Option Address} (hcalm : Calm except s s')
    (hexcept : except ≠ some (s.conn c).remoteAddress) : Aside c s s' where
  stream := hcalm.stream c
  messages := hcalm.messages c
  address := hcalm.address c hc htcp
  body header filled n hbody := by
    obtain ⟨sid, hsid, hfilling⟩ := hbody
    refine ⟨sid, ?_, hfilling.same (hcalm.buffers sid (ha.status _ sid hsid).1)⟩
    rw [statusOfConn, hcalm.address c hc htcp]
    exact hcalm.lookup _ sid hexcept hsid

/-- Data that another conn takes is for another status. -/
private theorem aside_of_takes (ha : Allocated s) {c' : ConnId} (hne : c' ≠ c)
    (haddr : (s.conn c').remoteAddress ≠ (s.conn c).remoteAddress) (htakes : TakesData c' s s') :
    Aside c s s' := by
  cases htakes with
  | received bytes =>
    refine ⟨?_, tcpMessages_other rfl s.trace c, rfl, fun _ _ _ h => h⟩
    rw [log_trace, stream_cons, Obs.symbols, if_neg hne, List.append_nil]
  | failed =>
    refine ⟨?_, tcpMessages_other rfl s.trace c, rfl, fun _ _ _ h => h⟩
    rw [log_trace, stream_cons, Obs.symbols, if_neg hne, List.append_nil]
  | @buffer sid' total waiting hsid' =>
    refine ⟨rfl, rfl, rfl, fun header filled n hbody => ?_⟩
    obtain ⟨sid, hsid, hfilling⟩ := hbody
    have hsids : sid ≠ sid' := by
      -- Each status is filed under its own address.
      intro heq
      rw [← heq] at hsid'
      exact haddr ((ha.status _ _ hsid').2.1.symm.trans (ha.status _ _ hsid).2.1)
    refine ⟨sid, hsid, ?_⟩
    rw [modifyStatus_status, Function.update_of_ne hsids]
    exact hfilling

/-- The effects of a step that does not read the conn leave it alone. -/
private theorem aside_effects (ha : Allocated s₀) (hc : c < s₀.nextConn)
    (htcp : (s₀.conn c).protocolType = .tcp) (hspares : sparesStatus c s₀ i)
    (hnot : ∀ r, ¬ i.Reads s₀ c r) (h : Relation.ReflTransGen (Effect s₀ i) s₀ s) :
    Aside c s₀ s := by
  induction h with
  | refl => exact ⟨rfl, rfl, rfl, fun _ _ _ h => h⟩
  | @tail s s' hsteps heffect haside =>
    have halloc := allocated_effects ha hsteps
    obtain ⟨hkeeps, hle⟩ := keepsTcp_effects hsteps
    have htcp' : (s.conn c).protocolType = .tcp := by
      rw [Conn.protocolType, haside.address]
      exact htcp
    apply haside.trans
    rcases calm_or_takes heffect with hcalm | ⟨c', r, hreads, hdata, -, htakes⟩
    · exact aside_of_calm halloc (hc.trans_le hle) htcp' hcalm (Option.some_ne_none _).symm
    · have hne : c' ≠ c := by
        rintro rfl
        exact hnot r hreads
      apply aside_of_takes halloc hne _ htakes
      rw [haside.address, hkeeps c' (hreads.allocated ha) hdata]
      exact hspares c' hne (.inl ⟨r, hreads⟩)

/-- A call that is queued for another conn. -/
private theorem aside_queue {c' : ConnId} (hne : c' ≠ c) {event : Event} {data : Option MsgData}
    {toFree : ToFree} {cause : Cause}
    (htrace : s'.trace = .queued ⟨c', event, data, toFree, cause⟩ :: s.trace)
    (haddr : (s'.conn c).remoteAddress = (s.conn c).remoteAddress)
    (hlookup : s'.connStatus = s.connStatus)
    (hstatus : ∀ sid, SameBuffer (s.status sid) (s'.status sid)) : Aside c s s' where
  stream := by
    rw [htrace, stream_cons]
    exact List.append_nil _
  messages := by
    have hnone : PendingCall.tcpMessage c ⟨c', event, data, toFree, cause⟩ = none := by
      unfold PendingCall.tcpMessage
      split
      · exact if_neg fun h => hne h.1
      · rfl
    rw [htrace, tcpMessages_queued, hnone]
    exact List.append_nil _
  address := haddr
  body header filled n hbody := by
    obtain ⟨sid, hsid, hfilling⟩ := hbody
    refine ⟨sid, ?_, hfilling.same (hstatus sid)⟩
    rw [statusOfConn, hlookup, haddr]
    exact hsid

/-- The end of a step that does not read from the conn. -/
private theorem aside_final (hs : Aside c s₀ s) (ha : Allocated s) (hc : c < s.nextConn)
    (htcp : (s.conn c).protocolType = .tcp) (hspares : sparesStatus c s₀ i)
    (hnot : ∀ r, ¬ i.Reads s₀ c r) (hfree : s'.freeing c = false) (hfinal : Final s₀ i s s') :
    Aside c s s' := by
  -- The conn is not the one read.
  have hother : ∀ {c' r}, i.Reads s₀ c' r → c' ≠ c := by
    rintro c' r hreads rfl
    exact hnot r hreads
  cases hfinal with
  | handled hreads =>
    exact aside_queue (hother hreads) rfl (update_remoteAddress (by rfl) c) rfl fun _ => .refl _
  | matched hreads =>
    exact aside_queue (hother hreads) rfl (update_remoteAddress (by rfl) c) rfl
      (sameBuffer_update (by exact ⟨rfl, rfl⟩))
  | unmatched hreads => exact aside_queue (hother hreads) rfl rfl rfl fun _ => .refl _
  | @drop c' event ph hearly hdrops =>
    have hcalm := calm_drop s c' event ph
    by_cases hne : c' = c
    · subst hne
      -- Dropping the conn would free it, and it is not being freed.
      have hdropped : (s.localDisconnect c' event).freeing c' = false := hfree
      exact Bool.noConfusion ((freeing_drop htcp event).symm.trans hdropped)
    · apply aside_of_calm ha hc htcp hcalm
      intro heq
      -- Another conn that is dropped has another address.
      have haddr := Option.some.inj heq
      rw [hs.address, early_remoteAddress hearly] at haddr
      exact hspares c' hne (.inr hdrops) haddr
  | refuse =>
    exact aside_of_calm ha hc htcp
      (calm_log (by rfl) rfl rfl rfl (fun _ _ _ => rfl) rfl fun _ => .refl _)
      (Option.some_ne_none _).symm
  | @fail k msg => exact aside_of_calm ha hc htcp (calm_fail s k msg) (Option.some_ne_none _).symm

/-- A step that does not read the conn leaves it alone. -/
private theorem aside_step (ha : Allocated s) (hc : c < s.nextConn)
    (htcp : (s.conn c).protocolType = .tcp)
    (hspares : sparesStatus c s i) (hnot : ∀ r, ¬ i.Reads s c r) (hfree : s'.freeing c = false)
    (hstep : step s i = some s') : Aside c s s' := by
  obtain ⟨s₁, heffects, hlast⟩ := step_effects hstep
  have haside := aside_effects ha hc htcp hspares hnot heffects
  rcases hlast with rfl | hfinal
  · exact haside
  · have hle := effects_nextConn_le heffects
    have htcp₁ : (s₁.conn c).protocolType = .tcp := by
      rw [Conn.protocolType, haside.address]
      exact htcp
    exact haside.trans (aside_final haside (allocated_effects ha heffects) (hc.trans_le hle) htcp₁
      hspares hnot hfree hfinal)

/-! ## The kind of a conn -/

/-- A write to a conn that does not make it listen. -/
private theorem connected_update {c' : ConnId} {k : Conn} (h : (s.conn c).forListening = false)
    (hk : (s.conn c').forListening = false → k.forListening = false) :
    (Function.update s.conn c' k c).forListening = false := by
  by_cases hne : c = c'
  · subst hne
    rw [Function.update_self]
    exact hk h
  · rw [Function.update_of_ne hne]
    exact h

/-- No effect makes a conn listen. -/
private theorem connected_effect (hc : c < s.nextConn) (h : (s.conn c).forListening = false)
    (heffect : Effect s₀ i s s') : (s'.conn c).forListening = false := by
  cases heffect with
  | early hearly =>
    cases hearly with
    | header => exact connected_update h fun hk => hk
    | unflag => exact connected_update h fun _ => rfl
    | _ => exact h
  | oneWay | datagram | context | address | expire => exact connected_update h fun hk => hk
  | opened k =>
    show (Function.update s.conn s.nextConn k c).forListening = false
    rw [Function.update_of_ne (Nat.ne_of_lt hc)]
    exact h
  | removal =>
    obtain ⟨index, heq⟩ := removalPass_eq s
    rw [heq]
    exact h
  | @call call rest junk =>
    rw [makeCall_eq]
    apply connected_update h
    rw [(loaded_fields s call junk).2.2.1]
    exact fun hk => hk
  | finish =>
    rw [finishCall_eq]
    exact h
  | _ => exact h

/-- Nor does the last one. -/
private theorem connected_final (hc : c < s.nextConn) (h : (s.conn c).forListening = false)
    (hfinal : Final s₀ i s s') : (s'.conn c).forListening = false := by
  cases hfinal with
  | handled | matched => exact connected_update h fun hk => hk
  | @drop c' event =>
    show ((s.localDisconnect c' event).conn c).forListening = false
    rw [localDisconnect_conn]
    exact h
  | fail k =>
    show (Function.update s.conn s.nextConn k c).forListening = false
    rw [Function.update_of_ne (Nat.ne_of_lt hc)]
    exact h
  | _ => exact h

/-- Only a new conn may listen. -/
private theorem connected_step (hc : c < s.nextConn) (h : (s.conn c).forListening = false)
    (hstep : step s i = some s') : (s'.conn c).forListening = false := by
  obtain ⟨s₁, heffects, hlast⟩ := step_effects hstep
  have h₁ : (s₁.conn c).forListening = false := by
    clear hlast
    induction heffects with
    | refl => exact h
    | tail hsteps heffect ih =>
      exact connected_effect (hc.trans_le (effects_nextConn_le hsteps)) ih heffect
  rcases hlast with rfl | hfinal
  · exact h₁
  · exact connected_final (hc.trans_le (effects_nextConn_le heffects)) h₁ hfinal

/-! ## Reads of the conn -/

section Continue

variable {sid : StatusId} {header : Header} {r : Recv}

/-- The stream has ended within the body. -/
theorem continue_over (h : s.recvBody c sid r = .over) :
    s.continueMessage c sid header r = (s.localDisconnect c .connectionLost, none) := by
  simp only [continueMessage, continueRecv, h]

/-- No bytes are there. -/
theorem continue_blocked (h : s.recvBody c sid r = .blocked) :
    s.continueMessage c sid header r = (s, none) := by
  simp only [continueMessage, continueRecv, h]

/-- `recv` failed, and what was received is given up. -/
theorem continue_failed {e : Errno} (h : s.recvBody c sid r = .failed e) :
    s.continueMessage c sid header r =
      (((s.sendCallbackOsError c "recv" e .nothing).clearConnStatusBuffer sid).log (.recvFailed c),
        none) := by
  simp only [continueMessage, continueRecv, h]

/-- What `recv` returned is in the buffer. -/
def received (s : State) (c : ConnId) (sid : StatusId) (bs : List UInt8) : State :=
  ((s.consume c bs.length).log (.received c bs)).fillWaiting sid bs

/-- A part of what is missing was received. -/
theorem continue_part {bs : List UInt8} (h : s.recvBody c sid r = .bytes bs)
    (hlt : bs.length < (s.status sid).waitingBuffer.numBytes) :
    s.continueMessage c sid header r = (s.received c sid bs, none) := by
  have hleft : ((s.received c sid bs).status sid).waitingBuffer.numBytes ≠ 0 := by
    rw [received, fillWaiting_status, Function.update_self]
    exact Nat.sub_ne_zero_of_lt hlt
  simp only [continueMessage, continueRecv, h]
  rw [received] at hleft
  rw [if_neg hleft]
  rfl

/-- All that was missing was received. -/
theorem continue_whole {bs : List UInt8} (h : s.recvBody c sid r = .bytes bs)
    (heq : bs.length = (s.status sid).waitingBuffer.numBytes) :
    s.continueMessage c sid header r =
      ((s.received c sid bs).clearConnStatusBuffer sid,
        some ⟨sid, header,
          ((s.received c sid bs).status sid).totalBuffer.getD (msgNewDataSpace 0)⟩) := by
  have hleft : ((s.received c sid bs).status sid).waitingBuffer.numBytes = 0 := by
    rw [received, fillWaiting_status, Function.update_self]
    exact Nat.sub_eq_zero_of_le heq.ge
  simp only [continueMessage, continueRecv, h]
  rw [received] at hleft
  rw [if_pos hleft]
  rfl

end Continue

/-- A complete tcp message is handed on with its buffer. -/
private theorem handleMessage_tcp (htcp : (s.conn c).protocolType = .tcp) (event : Event)
    {m : Message} {body : List UInt8}
    (hdata : m.data = { bytes := body.map some, metadata := { header := some m.header } }) :
    ∃ p : PendingCall, p.HandsOn c m.header body ∧
      (s.handleMessage c event m).1.trace = .queued p :: s.trace ∧
      (s.handleMessage c event m).1.connStatus = s.connStatus ∧
      (∀ c', ((s.handleMessage c event m).1.conn c').remoteAddress = (s.conn c').remoteAddress) ∧
      ∀ sid, SameBuffer (s.status sid) ((s.handleMessage c event m).1.status sid) := by
  have hproto : (s.conn c).remoteAddress.protocolType = .tcp := htcp
  have hmessage : ∀ (event : Event) (data : Option MsgData) (toFree : ToFree)
      (context : Option Ptr),
      PendingCall.tcpMessage c ⟨c, event, data, toFree, .frame (s.conn c).remoteAddress m.status
        m.header m.data.bytes context⟩ = some (m.header, body.map some) := by
    intro event data toFree context
    simp [PendingCall.tcpMessage, hproto, hdata]
  unfold handleMessage
  dsimp only
  split
  · rename_i hkind
    split
    · exact ⟨_, ⟨hmessage _ _ _ _, rfl, .inr ⟨hkind, rfl⟩⟩, rfl, rfl, fun _ => rfl,
        fun _ => .refl _⟩
    · rename_i context _
      refine ⟨_, ⟨hmessage _ _ _ _, rfl, .inl ?_⟩, rfl, rfl, fun c' => ?_,
        sameBuffer_update (by exact ⟨rfl, rfl⟩)⟩
      · -- Only udp messages are given a context of their own.
        simp [Conn.protocolType, hproto, hdata]
      · by_cases hc : c' = c <;> simp [hc]
  · exact ⟨_, ⟨hmessage _ _ _ _, rfl, .inl (by rw [hdata])⟩, rfl, rfl,
      update_remoteAddress (by rfl), fun _ => .refl _⟩

/-- Clearing the fields of the conn queues nothing and leaves the statuses. -/
theorem clearOneWay_same (s : State) (c : ConnId) (header : Header) :
    queuedCalls (s.clearOneWay c header).trace = queuedCalls s.trace ∧
      (s.clearOneWay c header).connStatus = s.connStatus ∧
      (s.clearOneWay c header).status = s.status := by
  unfold clearOneWay
  split
  · exact ⟨queuedCalls_cons rfl _, rfl, rfl⟩
  · exact ⟨rfl, rfl, rfl⟩

/-- A message with a body is handed on. -/
private theorem read_whole (htcp : (s.conn c).protocolType = .tcp)
    (hconn : (s.conn c).forListening = false) {r : ReadIn} {s₁ : State} {sid : StatusId}
    {header : Header} {body : List UInt8} (hkind : header.kind ≠ .close)
    (htcp₁ : (s₁.conn c).protocolType = .tcp)
    (hrecv : s.recvTcp c r = (s₁, some ⟨sid, header,
      { bytes := body.map some, metadata := { header := some header } }⟩))
    (hsid : s₁.statusOfConn c = some sid) (hempty : Emptied (s₁.status sid)) :
    NoBody (s.readFromSocket c r).1 c ∧
      stream (s.readFromSocket c r).1.trace c = stream s₁.trace c ∧
      ∃ p : PendingCall, p.HandsOn c header body ∧
        queuedCalls (s.readFromSocket c r).1.trace = queuedCalls s₁.trace ++ [p] := by
  unfold readFromSocket
  rw [if_pos htcp, if_neg (by rw [hconn]; exact Bool.false_ne_true), hrecv]
  dsimp only
  split
  · rename_i hevent
    -- A close has no body.
    unfold eventFor at hevent
    split at hevent <;> first | exact absurd hevent (Option.some_ne_none _) | contradiction
  · rename_i event _
    obtain ⟨hqueued, hlookup, hstatus⟩ := clearOneWay_same s₁ c header
    have hproto : ((s₁.clearOneWay c header).conn c).protocolType = .tcp := by
      rw [Conn.protocolType, clearOneWay_remoteAddress]
      exact htcp₁
    obtain ⟨p, hp, htrace, hlookup', haddr', hbuffer⟩ := handleMessage_tcp hproto event
      (m := ⟨sid, header, { bytes := body.map some, metadata := { header := some header } }⟩) rfl
    refine ⟨⟨sid, ?_, ?_⟩, ?_, p, hp, ?_⟩
    · rw [statusOfConn, hlookup', haddr', hlookup, clearOneWay_remoteAddress]
      exact hsid
    · have hsame := hbuffer sid
      rw [hstatus] at hsame
      exact ⟨hsame.1.trans hempty.1, hsame.2.trans hempty.2⟩
    · rw [htrace, stream_cons, (calm_clearOneWay s₁ c header).stream]
      exact List.append_nil _
    · rw [htrace, queuedCalls_queued, hqueued]

/-- A read that hands nothing on ends with `continue_recv`. -/
theorem read_none (htcp : (s.conn c).protocolType = .tcp) (hconn : (s.conn c).forListening = false)
    {r : ReadIn} {s₁ : State} (hrecv : s.recvTcp c r = (s₁, none)) :
    (s.readFromSocket c r).1 = s₁ := by
  unfold readFromSocket
  rw [if_pos htcp, if_neg (by rw [hconn]; exact Bool.false_ne_true), hrecv]

/-- A read of a conn with a message in progress. -/
theorem recvTcp_body {header : Header} {filled : List UInt8} {n : Nat} (hpos : 0 < n)
    {sid : StatusId}
    (hsid : s.statusOfConn c = some sid) (hfilling : Filling (s.status sid) header filled n)
    (r : ReadIn) : s.recvTcp c r = s.continueMessage c sid header r.body := by
  have hseen : s.remoteAddressSeen c = (s, sid) := by
    unfold remoteAddressSeen
    rw [hsid]
  have hsaved : s.savedHeader sid = header := by simp [savedHeader, hfilling.total]
  have hwaiting : (s.status sid).waitingBuffer.numBytes ≠ 0 := by
    rw [hfilling.waiting]
    exact Nat.ne_of_gt hpos
  simp only [recvTcp, hseen, if_neg hwaiting, hsaved]

/-- A read that finds a whole header, when no message is in progress. -/
theorem recvTcp_header {r : ReadIn} {raw : List UInt8} (hidle : s.waitingBytes c = 0)
    (hpeek : s.peekHeader c r.peek = .header raw) :
    s.recvTcp c r =
      if (decodeHeader raw).kind = .close then
        (((s.remoteAddressSeen c).1.acceptHeader c raw).localDisconnect c .connectionClosed, none)
      else
        (((s.remoteAddressSeen c).1.acceptHeader c raw).newConnStatusBuffer
          (s.remoteAddressSeen c).2
          (decodeHeader raw)).continueMessage c (s.remoteAddressSeen c).2 (decodeHeader raw)
          r.body := by
  have hwaiting := (remoteAddressSeen_waiting s c).trans hidle
  have hsocket : ((s.remoteAddressSeen c).1.conn c).socket = (s.conn c).socket := by
    rw [remoteAddressSeen_conn]
  have hseen := peekHeader_congr (remoteAddressSeen_sockets s c) hsocket r.peek
  unfold recvTcp readHeader
  dsimp only
  rw [if_pos hwaiting, hseen, hpeek]

/-- A read that asks for the outstanding bytes does one of five things with the result. -/
theorem continues_of_recv {header : Header} {filled : List UInt8} {n : Nat} {r : ReadIn}
    {sid : StatusId} (htcp : (s₀.conn c).protocolType = .tcp)
    (hconn : (s₀.conn c).forListening = false) (htcp₁ : (s.conn c).protocolType = .tcp)
    (hsid : s.statusOfConn c = some sid) (hfilling : Filling (s.status sid) header filled n)
    (hrecv : s₀.recvTcp c r = s.continueMessage c sid header r.body) :
    Continues c header filled n s (s₀.readFromSocket c r).1 (s.recvOn c n r.body) := by
  have hwaiting : (s.status sid).waitingBuffer.numBytes = n := by rw [hfilling.waiting]
  have hover : s.recvBody c sid r.body = .over →
      stream (s₀.readFromSocket c r).1.trace c = stream s.trace c ∧
        (s₀.readFromSocket c r).1.statusOfConn c = none ∧
        (s₀.readFromSocket c r).1.freeing c = true ∧
        queuedCalls (s₀.readFromSocket c r).1.trace =
          queuedCalls s.trace ++ [s.closingCall c .connectionLost] := by
    intro hcase
    rw [read_none htcp hconn (hrecv.trans (continue_over hcase)), localDisconnect_trace,
      queuedCalls_queued, stream_cons, statusOfConn, localDisconnect_connStatus,
      localDisconnect_conn]
    exact ⟨List.append_nil _, AList.lookup_erase _ _, freeing_drop htcp₁ _, rfl⟩
  have hfailed : ∀ e, s.recvBody c sid r.body = .failed e →
      stream (s₀.readFromSocket c r).1.trace c = stream s.trace c ++ [none] ∧
        NoBody (s₀.readFromSocket c r).1 c ∧
        ∃ p : PendingCall, p.event = .error ∧ p.tcpMessage c = none ∧
          queuedCalls (s₀.readFromSocket c r).1.trace = queuedCalls s.trace ++ [p] := by
    intro e hcase
    rw [read_none htcp hconn (hrecv.trans (continue_failed hcase))]
    refine ⟨?_, ⟨sid, hsid, ?_⟩, _, rfl, rfl, queuedCalls_queued _ s.trace⟩
    · rw [log_trace, stream_recvFailed]
      congr 1
      -- The error that is queued is about no message.
      exact stream_calm (o := .queued ⟨c, .error, _, .nothing, .other⟩) rfl s.trace c
    · rw [log_status, clearConnStatusBuffer_status, Function.update_self]
      exact ⟨rfl, rfl⟩
  cases hcase : s.recvOn c n r.body with
  | error e =>
    cases e with
    | wouldBlock =>
      have hblocked : s.recvBody c sid r.body = .blocked := by simp only [recvBody, hwaiting, hcase]
      rw [read_none htcp hconn (hrecv.trans (continue_blocked hblocked))]
      exact ⟨rfl, ⟨sid, hsid, hfilling⟩, rfl⟩
    | connReset => exact hover (by simp only [recvBody, hwaiting, hcase])
    | _ =>
      apply hfailed
      simp only [recvBody, hwaiting, hcase]
      rfl
  | ok bs =>
    by_cases hnil : bs = []
    · subst hnil
      exact hover (by simp [recvBody, hwaiting, hcase])
    · have hbytes : s.recvBody c sid r.body = .bytes bs := by
        simp [recvBody, hwaiting, hcase, hnil]
      have hle := recvOn_length hcase
      have hstream : stream (s.received c sid bs).trace c = stream s.trace c ++ bs.map some :=
        stream_received c bs s.trace
      have hqueued : queuedCalls (s.received c sid bs).trace = queuedCalls s.trace :=
        queuedCalls_cons rfl s.trace
      have hfill : Filling ((s.received c sid bs).status sid) header (filled ++ bs)
          (n - bs.length) := filling_fill hfilling hle
      obtain ⟨b, bs, rfl⟩ := List.exists_cons_of_ne_nil hnil
      show _ ∧ if _ then _ else _
      split
      · rename_i hlt
        rw [read_none htcp hconn (hrecv.trans (continue_part hbytes (hwaiting.symm ▸ hlt)))]
        exact ⟨hstream, ⟨sid, hsid, hfill⟩, hqueued⟩
      · rename_i hge
        have hall : (b :: bs).length = n := Nat.le_antisymm hle (Nat.le_of_not_lt hge)
        have hwhole := hrecv.trans (continue_whole hbytes (hall.trans hwaiting.symm))
        rw [hfill.total, hall, Nat.sub_self, List.replicate_zero, List.append_nil,
          Option.getD_some] at hwhole
        have hempty : Emptied
          (((s.received c sid (b :: bs)).clearConnStatusBuffer sid).status sid) := by
          rw [clearConnStatusBuffer_status, Function.update_self]
          exact ⟨rfl, rfl⟩
        obtain ⟨hnoBody, hsame, p, hp, hcalls⟩ :=
          read_whole htcp hconn hfilling.kind (by exact htcp₁) hwhole hsid hempty
        exact ⟨hsame.trans hstream, hall, hnoBody, p, hp,
          hcalls.trans (congrArg (· ++ [p]) hqueued)⟩

/-- A read of a conn with a message in progress asks for the outstanding bytes. -/
private theorem read_continues {header : Header} {filled : List UInt8} {n : Nat}
    (hbody : InBody s c header filled n) (hpos : 0 < n) (htcp : (s.conn c).protocolType = .tcp)
    (hconn : (s.conn c).forListening = false) (r : ReadIn) :
    Continues c header filled n s (s.readFromSocket c r).1 (s.recvOn c n r.body) := by
  obtain ⟨sid, hsid, hfilling⟩ := hbody
  exact continues_of_recv htcp hconn htcp hsid hfilling (recvTcp_body hpos hsid hfilling r)

/-! ## Runs -/

/-- A stream that is as it was. -/
private theorem no_more {received : List (Option UInt8)} {more : List UInt8}
    (h : received ++ more.map some = received) : more = [] := by
  rw [List.append_right_eq_self, List.map_eq_nil_iff] at h
  exact h

/-- Bytes that arrive and leave some outstanding are filled in, and nothing is queued. -/
private theorem continues_part {header : Header} {filled more : List UInt8} {n : Nat}
    {res : Except Errno (List UInt8)} (h : Continues c header filled n s s' res)
    (hfree : s'.freeing c = false)
    (hstream : stream s'.trace c = stream s.trace c ++ more.map some) (hlt : more.length < n) :
    InBody s' c header (filled ++ more) (n - more.length) ∧
      queuedCalls s'.trace = queuedCalls s.trace := by
  unfold Continues at h
  split at h
  · -- Nothing arrived.
    obtain ⟨hsame, hbody, hqueued⟩ := h
    obtain rfl := no_more (hstream.symm.trans hsame)
    rw [List.append_nil]
    exact ⟨hbody, hqueued⟩
  · exact Bool.noConfusion (h.2.2.1.symm.trans hfree)
  · exact Bool.noConfusion (h.2.2.1.symm.trans hfree)
  · -- A failure is not among the bytes.
    have hfailed := List.append_cancel_left (hstream.symm.trans h.1)
    have hmem : none ∈ more.map some := hfailed ▸ List.mem_singleton_self none
    obtain ⟨b, -, hb⟩ := List.mem_map.mp hmem
    exact absurd hb (Option.some_ne_none b)
  · obtain ⟨hreceived, hrest⟩ := h
    have hbytes := List.append_cancel_left (hstream.symm.trans hreceived)
    obtain rfl := List.map_injective_iff.mpr (Option.some_injective _) hbytes
    rw [if_pos hlt] at hrest
    exact hrest

/-- A step reads from the conn, or it has nothing to do with its message. -/
private theorem body_step (ha : Allocated s) (hc : c < s.nextConn)
    (htcp : (s.conn c).protocolType = .tcp)
    (hspares : sparesStatus c s i) (hfree : s'.freeing c = false) (hstep : step s i = some s') :
    Aside c s s' ∨ ∃ r, i.Reads s c r := by
  by_cases hreads : ∃ r, i.Reads s c r
  · exact .inr hreads
  · left
    exact aside_step ha hc htcp hspares (fun r hr => hreads ⟨r, hr⟩) hfree hstep

/-- A step that reads from a conn with a message in progress. -/
private theorem continues_step {header : Header} {filled : List UInt8} {n : Nat} {r : ReadIn}
    (hbody : InBody s c header filled n) (hpos : 0 < n) (htcp : (s.conn c).protocolType = .tcp)
    (hconn : (s.conn c).forListening = false) (hreads : i.Reads s c r)
    (hstep : step s i = some s') :
    Continues c header filled n s s' (s.recvOn c n r.body) := by
  obtain ⟨-, -, -, ph, rfl⟩ := dataTarget_step (dataTarget_of_reads hreads htcp hconn) hstep
  exact read_continues hbody hpos htcp hconn r

/-- What is kept along a path while a message is in progress. -/
structure Progress (c : ConnId) (header : Header) (filled : List UInt8) (n : Nat) (s s' : State) :
    Prop where
  lt : c < s'.nextConn
  tcp : (s'.conn c).protocolType = .tcp
  connected : (s'.conn c).forListening = false
  stream : Msgbox.stream s.trace c <+: Msgbox.stream s'.trace c
  body : ∀ arrived, s'.freeing c = false →
    Msgbox.stream s'.trace c = Msgbox.stream s.trace c ++ arrived.map some → arrived.length < n →
      InBody s' c header (filled ++ arrived) (n - arrived.length) ∧
        tcpMessages s'.trace c = tcpMessages s.trace c

/-- At its beginning a stretch has received what there was. -/
private theorem progress_refl {header : Header} {filled : List UInt8} {n : Nat}
    (hc : c < s.nextConn)
    (htcp : (s.conn c).protocolType = .tcp) (hconn : (s.conn c).forListening = false)
    (hbody : InBody s c header filled n) : Progress c header filled n s s where
  lt := hc
  tcp := htcp
  connected := hconn
  stream := List.prefix_rfl
  body arrived _ hstream _ := by
    obtain rfl := no_more hstream.symm
    rw [List.append_nil]
    exact ⟨hbody, rfl⟩

/-- One step more, which reads the conn or leaves it alone. -/
private theorem progress_step {header : Header} {filled : List UInt8} {n : Nat} {s₁ s₂ : State}
    (h : Progress c header filled n s s₁) (ha : Allocated s₁) (hspares : sparesStatus c s₁ i)
    (hstep : step s₁ i = some s₂) : Progress c header filled n s s₂ := by
  obtain ⟨hkeeps, hle⟩ := keepsTcp_step hstep
  have hsuffix := suffix_step hstep
  refine ⟨h.lt.trans_le hle, ?_, connected_step h.lt h.connected hstep,
    h.stream.trans (stream_suffix hsuffix c), fun arrived hfree hstream hlt => ?_⟩
  · rw [Conn.protocolType, hkeeps c h.lt h.tcp]
    exact h.tcp
  · have hfree₁ : s₁.freeing c = false := by
      rw [Bool.eq_false_iff] at hfree ⊢
      exact fun hs => hfree (freeing_mono hsuffix.subset hs)
    -- What had arrived before the step.
    obtain ⟨before, hbefore⟩ := h.stream
    obtain ⟨new, hnew⟩ := stream_suffix hsuffix c
    have hsplit : arrived.map some = before ++ new := by
      rw [← hbefore, List.append_assoc] at hnew
      exact List.append_cancel_left (hstream.symm.trans hnew.symm)
    obtain ⟨old, more, rfl, hold, hmore⟩ := List.map_eq_append_iff.mp hsplit
    rw [List.length_append] at hlt
    obtain ⟨hbody, hmessages⟩ := h.body old hfree₁ (by rw [hold, hbefore]) (by omega)
    have hstream₂ : Msgbox.stream s₂.trace c = Msgbox.stream s₁.trace c ++ more.map some := by
      rw [hmore, hnew]
    rcases body_step ha h.lt h.tcp hspares hfree hstep with haside | ⟨r, hreads⟩
    · obtain rfl := no_more (hstream₂.symm.trans haside.stream)
      rw [List.append_nil]
      exact ⟨haside.body _ _ _ hbody, haside.messages.trans hmessages⟩
    · have hcontinues := continues_step hbody (by omega) h.tcp h.connected hreads hstep
      obtain ⟨hbody₂, hqueued⟩ := continues_part hcontinues hfree hstream₂ (by omega)
      rw [List.append_assoc, Nat.sub_sub] at hbody₂
      rw [List.length_append]
      refine ⟨hbody₂, ?_⟩
      rw [tcpMessages, hqueued]
      exact hmessages

end State

/-! ## Main result -/

/-- The body of every message in progress, on a conn that is the only one to use its status: it
    has arrived up to the waiting buffer, and any number of reads fill in what arrives and hand
    nothing on while bytes are outstanding. Each of these reads asks for the outstanding bytes; the
    one in which the last of them arrives hands the message on, with all bytes that arrived behind
    the header that was saved. Then both buffers are empty, as they are after an error. -/
theorem body_accumulates {s : State} {c : ConnId} (hs : machine.Reach (fun _ _ => True) s)
    (hc : c < s.nextConn) (htcp : (s.conn c).protocolType = .tcp)
    (hconn : (s.conn c).forListening = false) (hpos : 0 < s.waitingBytes c) :
    ∃ header filled, InBody s c header filled (s.waitingBytes c) ∧
      ∀ s₁ arrived, machine.Path (sparesStatus c) s s₁ → s₁.freeing c = false →
        stream s₁.trace c = stream s.trace c ++ arrived.map some →
        arrived.length < s.waitingBytes c →
        InBody s₁ c header (filled ++ arrived) (s.waitingBytes c - arrived.length) ∧
          tcpMessages s₁.trace c = tcpMessages s.trace c ∧
          ∀ i r s₂, i.Reads s₁ c r → step s₁ i = some s₂ →
            Continues c header (filled ++ arrived) (s.waitingBytes c - arrived.length) s₁ s₂
              (s₁.recvOn c (s.waitingBytes c - arrived.length) r.body) := by
  obtain ⟨sid, hsid, hwaiting⟩ : ∃ sid, s.statusOfConn c = some sid ∧
      s.waitingBytes c = (s.status sid).waitingBuffer.numBytes := by
    cases hstatus : s.statusOfConn c with
    | none => simp [State.waitingBytes, hstatus] at hpos
    | some sid => exact ⟨sid, rfl, by simp [State.waitingBytes, hstatus]⟩
  obtain ⟨header, filled, hfilling⟩ := reach_filled hs sid (hwaiting ▸ hpos)
  rw [← hwaiting] at hfilling
  have hbody : InBody s c header filled (s.waitingBytes c) := ⟨sid, hsid, hfilling⟩
  refine ⟨header, filled, hbody, fun s₁ arrived hpath hfree hstream hlt => ?_⟩
  have hprogress : State.Progress c header filled (s.waitingBytes c) s s₁ :=
    hpath.keeps (fun _ _ _ => trivial) _ hs (State.progress_refl hc htcp hconn hbody)
      fun _ _ _ hreach hinv hok hstep => State.progress_step hinv (reach_allocated hreach) hok hstep
  obtain ⟨hbody₁, hmessages⟩ := hprogress.body arrived hfree hstream hlt
  refine ⟨hbody₁, hmessages, fun i r s₂ hreads hstep => ?_⟩
  exact State.continues_step hbody₁ (Nat.sub_pos_of_lt hlt) hprogress.tcp hprogress.connected hreads
    hstep

/-- One of the two bytes of a message has arrived. -/
theorem body_accumulates_half : ∃ s, machine.Reach (fun _ _ => True) s ∧ s.waitingBytes 0 = 1 ∧
    ∃ header filled, InBody s 0 header filled 1 := by
  obtain ⟨s, hreach, hview⟩ := machine.exists_reach_of_run (P := fun _ _ => True)
    (fun _ _ => true) (fun _ _ _ => trivial) (halfAndWhole '1')
    (fun s => (decide (0 < s.nextConn), (s.conn 0).protocolType, (s.conn 0).forListening,
      s.waitingBytes 0))
    (true, .tcp, false, 1) (by decide +kernel)
  simp only [Prod.mk.injEq, decide_eq_true_eq] at hview
  obtain ⟨hc, htcp, hconn, hwaiting⟩ := hview
  obtain ⟨header, filled, hbody, -⟩ :=
    body_accumulates hreach hc htcp hconn (by rw [hwaiting]; exact Nat.one_pos)
  exact ⟨s, hreach, hwaiting, header, filled, hwaiting ▸ hbody⟩

end Msgbox
