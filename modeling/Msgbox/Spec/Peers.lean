import Msgbox.Lib.Exchange
import Msgbox.Spec.Delivery
import Msgbox.Spec.RoundTrip

/-!
# Two processes and a tcp connection

Two processes, each with an application that makes any calls, and a tcp connection between a conn of
the one and a conn of the other. Some sends are accepted in part, some fail, and what arrives is cut
into any pieces. What a process hands over to its callback are messages that the other one has sent,
in their order, none twice and none left out.

## Key results

- `tcpLink`: the connection
- `transmitted`: the messages that a run gets through a conn as a whole
- `writes_transmitted`: the output of a conn is the frames of these, with perhaps a part of one more
- `peers_in_order`: what is handed over is what was sent, from the front
-/

namespace Msgbox

open State

/-! ## What is sent -/

/-- The message that a step sends through the conn; `msg_disconnect` sends a close. -/
def sending (c : ConnId) (s : State) : Input → Option SentMessage
  | .app (.disconnect c' _) => if c' = c then some ⟨.close, 0, []⟩ else none
  | i => passed c s i

/-- What the kernel accepts of the frame that a step sends through the conn. -/
def acceptedOf (c : ConnId) (s : State) (i : Input) : List UInt8 :=
  match outgoing s i with
  | some (c', frame, w) => if c' = c then (s.sendOutcome c frame w).1 else []
  | none => []

/-- The message that a step gets through the conn as a whole. -/
def transmits (c : ConnId) (s : State) (i : Input) : Option SentMessage :=
  (sending c s i).filter fun m => acceptedOf c s i = m.frame

/-- All messages that a run gets through the conn as a whole, in this order. -/
def transmitted (c : ConnId) (run : List (State × Input)) : List SentMessage :=
  run.reverse.filterMap fun x => transmits c x.1 x.2

namespace SentMessage

variable {m : SentMessage}

/-- The header fits the payload, and a close has none. -/
def sane (m : SentMessage) : Bool :=
  decide (m.payload.length < 4294967296) && (m.kind != .close || m.payload.isEmpty)

/-- What is found of the message at the other end. -/
def found (m : SentMessage) : Header × List (Option UInt8) :=
  (⟨m.kind.code, m.replyId, UInt32.ofNat m.payload.length⟩, m.payload.map some)

/-- A frame has at least its header. -/
theorem frame_ne_nil (m : SentMessage) : m.frame ≠ [] := by
  intro h
  have hlen := m.length_frame
  rw [h, List.length_nil, headerLen] at hlen
  omega

/-- The payload of a sane message has a length of 32 bits. -/
theorem length_lt (h : m.sane = true) : m.payload.length < 4294967296 := by
  simp only [sane, Bool.and_eq_true, decide_eq_true_eq] at h
  exact h.1

/-- The frame is as long as its header says. -/
private theorem whole_of_sane (h : m.sane = true) : Frames.Whole headerLen bodySize m.frame := by
  simp only [sane, Bool.and_eq_true, decide_eq_true_eq, Bool.or_eq_true, bne_iff_ne,
    List.isEmpty_iff] at h
  obtain ⟨hlen, hclose⟩ := h
  have htake : (m.frame.take headerLen).length = headerLen := by
    rw [List.length_take, length_frame]
    omega
  have hheader : decodeHeader (m.frame.take headerLen) = decodeHeader m.frame :=
    decodeHeader_prefix (List.take_prefix _ _) htake.ge
  rw [Frames.Whole, bodySize, hheader, kind_frame, length_frame]
  split
  · -- For a close no body is read, whatever its header says.
    rename_i hkind
    rw [hclose.resolve_left fun hne => hne hkind]
    rfl
  · rw [header_frame, UInt32.toNat_ofNat', Nat.mod_eq_of_lt hlen]

end SentMessage

/-- The messages with a payload are found again. -/
private theorem messagesIn_sent (sent : List SentMessage) :
    messagesIn (sent.map SentMessage.frame) =
      (sent.filter fun m => !m.payload.isEmpty).map SentMessage.found := by
  induction sent with
  | nil => rfl
  | cons m sent ih =>
    have hlen := m.length_frame
    simp only [messagesIn] at ih ⊢
    rw [List.map_cons, List.filter_cons, List.filter_cons]
    cases hpayload : m.payload with
    | nil =>
      -- No call is queued for a frame that is only a header.
      rw [hpayload, List.length_nil] at hlen
      rw [if_neg (by simp [hlen]), if_neg (by simp), ih]
    | cons b payload =>
      rw [hpayload, List.length_cons] at hlen
      rw [if_pos (by simp [hlen]), if_pos (by simp), List.map_cons, List.map_cons, ih,
        SentMessage.header_frame, SentMessage.drop_frame]
      rfl

/-- What a step sends is a message. -/
private theorem sending_of_outgoing {c : ConnId} {s : State} {i : Input} {frame : List UInt8}
    {w : SendIn} (h : outgoing s i = some (c, frame, w)) :
    ∃ m, sending c s i = some m ∧ m.frame = frame ∧ (m.kind ≠ .close ∨ m.payload = []) := by
  cases i with
  | app call =>
    cases call with
    | send c' payload w' =>
      simp only [outgoing, Option.some.injEq, Prod.mk.injEq] at h
      obtain ⟨rfl, rfl, rfl⟩ := h
      refine ⟨_, if_pos rfl, rfl, .inl ?_⟩
      dsimp only
      split <;> exact MsgType.noConfusion
    | get c' payload context now w' =>
      obtain ⟨sid, hsid, heq⟩ := Option.map_eq_some_iff.mp h
      simp only [Prod.mk.injEq] at heq
      obtain ⟨rfl, rfl, rfl⟩ := heq
      refine ⟨⟨.request, (s.status sid).nextReplyId, payload⟩, ?_, rfl, .inl MsgType.noConfusion⟩
      show (if c' = c' then _ else none) = _
      rw [if_pos rfl, hsid, Option.map_some]
    | disconnect c' w' =>
      simp only [outgoing, Option.some.injEq, Prod.mk.injEq] at h
      obtain ⟨rfl, rfl, rfl⟩ := h
      exact ⟨⟨.close, 0, []⟩, if_pos rfl, List.append_nil _, .inr rfl⟩
    | _ => exact absurd h.symm (Option.some_ne_none _)
  | _ => exact absurd h.symm (Option.some_ne_none _)

/-- The three ways to send a message. -/
theorem sending_cases {c : ConnId} {s : State} {i : Input} {m : SentMessage}
    (h : sending c s i = some m) :
    (∃ out, i = .app (.send c m.payload out) ∧ m.replyId = (s.conn c).replyId ∧
      m.kind = if (s.conn c).replyId ≠ 0 then .reply else .oneWay) ∨
    (∃ context now out sid, i = .app (.get c m.payload context now out) ∧
      s.statusOfConn c = some sid ∧ m.replyId = (s.status sid).nextReplyId ∧ m.kind = .request) ∨
    ∃ out, i = .app (.disconnect c out) ∧ m = ⟨.close, 0, []⟩ := by
  cases i with
  | app call =>
    cases call with
    | send c' payload out =>
      obtain ⟨rfl, heq⟩ := Option.ite_none_right_eq_some.mp h
      obtain rfl := Option.some.inj heq
      exact .inl ⟨out, rfl, rfl, rfl⟩
    | get c' payload context now out =>
      obtain ⟨rfl, heq⟩ := Option.ite_none_right_eq_some.mp h
      obtain ⟨sid, hsid, rfl⟩ := Option.map_eq_some_iff.mp heq
      exact .inr (.inl ⟨context, now, out, sid, rfl, hsid, rfl, rfl⟩)
    | disconnect c' out =>
      obtain ⟨rfl, heq⟩ := Option.ite_none_right_eq_some.mp h
      exact .inr (.inr ⟨out, rfl, (Option.some.inj heq).symm⟩)
    | _ => exact absurd h.symm (Option.some_ne_none m)
  | _ => exact absurd h.symm (Option.some_ne_none m)

/-- A message that is sent goes out as its frame. -/
theorem outgoing_of_sending {c : ConnId} {s : State} {i : Input} {m : SentMessage}
    (h : sending c s i = some m) : ∃ w, outgoing s i = some (c, m.frame, w) := by
  rcases sending_cases h with ⟨out, rfl, hid, hkind⟩ |
    ⟨context, now, out, sid, rfl, hsid, hid, hkind⟩ | ⟨out, rfl, rfl⟩
  · refine ⟨out, ?_⟩
    rw [SentMessage.frame, hid, hkind]
    rfl
  · refine ⟨out, ?_⟩
    rw [SentMessage.frame, hid, hkind, outgoing, hsid, Option.map_some]
  · exact ⟨out, rfl⟩

/-- What a step transmits of its frame is what the kernel takes of it. -/
theorem acceptedOf_outgoing {c : ConnId} {s : State} {i : Input} {frame : List UInt8} {w : SendIn}
    (h : outgoing s i = some (c, frame, w)) :
    acceptedOf c s i = (s.sendOutcome c frame w).1 := by
  rw [acceptedOf, h]
  exact if_pos rfl

/-- A step with no frame for `c` transmits nothing on it. -/
private theorem acceptedOf_other {c : ConnId} {s : State} {i : Input}
    (h : ∀ frame w, outgoing s i ≠ some (c, frame, w)) : acceptedOf c s i = [] := by
  unfold acceptedOf
  split
  · rename_i c' frame w hout
    rw [if_neg]
    rintro rfl
    exact h frame w hout
  · rfl

/-- Neither does a step that sends no message. -/
theorem acceptedOf_of_not_sending {c : ConnId} {s : State} {i : Input} (h : sending c s i = none) :
    acceptedOf c s i = [] := by
  apply acceptedOf_other
  intro frame w hout
  obtain ⟨m, hm, -⟩ := sending_of_outgoing hout
  exact absurd (hm.symm.trans h) (Option.some_ne_none m)

/-- A message gets through as a whole if its frame is accepted. -/
theorem transmits_of_sending {c : ConnId} {s : State} {i : Input} {m : SentMessage}
    (h : sending c s i = some m) :
    transmits c s i = if acceptedOf c s i = m.frame then some m else none := by
  rw [transmits, h, Option.filter_some]
  by_cases hall : acceptedOf c s i = m.frame
  · rw [if_pos (decide_eq_true hall), if_pos hall]
  · rw [if_neg fun hdec => hall (of_decide_eq_true hdec), if_neg hall]

/-! ## The output of a conn -/

namespace State

variable {s s' : State} {i : Input} {c : ConnId}

/-- Reporting a failed send writes nothing. -/
private theorem writes_reportSend (s : State) (c c' : ConnId) (failed : Option (String × Errno)) :
    writes (s.reportSend c failed).trace c' = writes s.trace c' := by
  unfold reportSend
  split
  · exact writes_cons rfl _ _
  · rfl

/-- `send_data` writes what the kernel takes of the frame. -/
private theorem writes_sendData (s : State) (c : ConnId) (frame : List UInt8) (w : SendIn) :
    writes (s.sendData c frame w).1.trace c = writes s.trace c ++
      [(s.sendOutcome c frame w).1].filter fun b => !b.isEmpty := by
  rw [sendData_fst]
  show writes (.sent _ _ _ _ :: s.trace) c = _
  rw [writes_sent]
  cases (s.sendOutcome c frame w).1 <;> simp

/-- `msg_get` writes what the kernel takes of its request. -/
private theorem writes_msgGet {payload : List UInt8} {context : Ptr} {now : Nat} {w : SendIn}
    {sid : StatusId} (hsid : s.statusOfConn c = some sid) :
    writes (s.msgGet c payload context now w).trace c = writes s.trace c ++
      [(s.sendOutcome c (setHeader .request (s.status sid).nextReplyId payload.length ++ payload)
        w).1].filter fun b => !b.isEmpty := by
  have hsent := writes_sendData (s.enterGet sid context) c
    (setHeader .request (s.status sid).nextReplyId payload.length ++ payload) w
  have htrace : writes (s.msgGet c payload context now w).trace c =
      writes ((s.enterGet sid context).sendData c
        (setHeader .request (s.status sid).nextReplyId payload.length ++ payload) w).1.trace c := by
    unfold msgGet
    rw [hsid]
    dsimp only
    split
    · rename_i s₁ name e heq
      have hfst : s₁ = _ := (congrArg Prod.fst heq).symm
      subst hfst
      exact (writes_cons rfl _ _).trans (writes_cons rfl _ _)
    · rename_i s₁ heq
      have hfst : s₁ = _ := (congrArg Prod.fst heq).symm
      subst hfst
      exact writes_cons rfl _ _
  rw [htrace, hsent]
  rfl

/-- `msg_disconnect` writes what the kernel takes of the close header. -/
private theorem writes_msgDisconnect (s : State) (c : ConnId) (w : SendIn) :
    writes (s.msgDisconnect c w).trace c = writes s.trace c ++
      [(s.sendOutcome c (setHeader .close 0 0) w).1].filter fun b => !b.isEmpty := by
  have hsent := writes_sendData (s.log (.disconnected c (s.conn c).remoteAddress)) c
    (setHeader .close 0 0) w
  unfold msgDisconnect
  dsimp only
  rw [localDisconnect_trace, writes_cons rfl, writes_reportSend, hsent]
  rw [log_trace, writes_cons rfl]
  rfl

/-- A step writes what is accepted of the frame that it sends. -/
theorem writes_outgoing (hstep : step s i = some s') :
    writes s'.trace c = writes s.trace c ++ [acceptedOf c s i].filter fun b => !b.isEmpty := by
  by_cases h : ∃ frame w, outgoing s i = some (c, frame, w)
  · obtain ⟨frame, w, hout⟩ := h
    rw [acceptedOf_outgoing hout]
    -- Only `msg_send`, `msg_get` and `msg_disconnect` call `send_data`.
    cases i with
    | app call =>
      obtain ⟨-, hcall⟩ := Option.ite_none_right_eq_some.mp hstep
      obtain rfl := Option.some.inj hcall
      cases call with
      | send c' payload w' =>
        simp only [outgoing, Option.some.injEq, Prod.mk.injEq] at hout
        obtain ⟨rfl, rfl, rfl⟩ := hout
        show writes (s.msgSend c' payload w').trace c' = _
        unfold msgSend
        dsimp only
        rw [writes_reportSend, writes_sendData]
      | get c' payload context now w' =>
        obtain ⟨sid, hsid, heq⟩ := Option.map_eq_some_iff.mp hout
        simp only [Prod.mk.injEq] at heq
        obtain ⟨rfl, rfl, rfl⟩ := heq
        exact writes_msgGet hsid
      | disconnect c' w' =>
        simp only [outgoing, Option.some.injEq, Prod.mk.injEq] at hout
        obtain ⟨rfl, rfl, rfl⟩ := hout
        exact writes_msgDisconnect s c' w'
      | _ => exact absurd hout.symm (Option.some_ne_none _)
    | _ => exact absurd hout.symm (Option.some_ne_none _)
  · have hother : ∀ frame w, outgoing s i ≠ some (c, frame, w) :=
      fun frame w hout => h ⟨frame, w, hout⟩
    rw [writes_other hstep hother, acceptedOf_other hother]
    simp

end State

/-- One more step transmits at most one more message. -/
theorem transmitted_cons (c : ConnId) (s : State) (i : Input) (run : List (State × Input)) :
    transmitted c ((s, i) :: run) = transmitted c run ++ (transmits c s i).toList := by
  rw [transmitted, List.reverse_cons, List.filterMap_append]
  rfl

/-- The frame of a message, without its last bytes. -/
def IsCutOff (bs : List UInt8) : Prop :=
  bs ≠ [] ∧ ∃ m : SentMessage, m.sane = true ∧ bs <+: m.frame ∧ bs ≠ m.frame

/-- A frame that was cut off is no frame. -/
theorem IsCutOff.not_frame {bs : List UInt8} (h : IsCutOff bs) : ¬ IsFrame bs := by
  obtain ⟨-, m, hsane, hpart, hne⟩ := h
  exact IsCut.not_frame ⟨m.frame, isFrame_setHeader _ _ rfl (SentMessage.length_lt hsane),
    hpart, hne⟩

/-- A run that keeps the framing writes the messages that it gets through as a whole, and perhaps a
    part of one more. -/
theorem writes_transmitted {run : List (State × Input)} {s : State} {c : ConnId}
    (h : machine.Steps run s) (hok : ∀ x ∈ run, keepsFraming x.1 x.2 = true) :
    (∀ m ∈ transmitted c run, m.sane = true) ∧
      (writes s.trace c = (transmitted c run).map SentMessage.frame ∨
        ∃ cut, IsCutOff cut ∧
          writes s.trace c = (transmitted c run).map SentMessage.frame ++ [cut]) := by
  induction h with
  | init => exact ⟨fun m hm => absurd hm List.not_mem_nil, .inl rfl⟩
  | @step run s s' i _ hstep ih =>
    obtain ⟨hsane, hwrites⟩ := ih fun x hx => hok x (List.mem_cons_of_mem _ hx)
    have hframing := hok (s, i) List.mem_cons_self
    rw [State.writes_outgoing hstep, transmitted_cons]
    cases hsending : sending c s i with
    | none =>
      have htransmits : transmits c s i = none := by rw [transmits, hsending, Option.filter_none]
      rw [acceptedOf_of_not_sending hsending, htransmits]
      simpa using ⟨hsane, hwrites⟩
    | some m =>
      obtain ⟨w, hout⟩ := outgoing_of_sending hsending
      have haccepted := acceptedOf_outgoing hout
      have hpart : acceptedOf c s i <+: m.frame := by
        rw [haccepted]
        exact State.sendOutcome_prefix s c m.frame w
      obtain ⟨m', hm', -, hclose⟩ := sending_of_outgoing hout
      obtain rfl := Option.some.inj (hsending.symm.trans hm')
      simp only [keepsFraming, hout, Bool.and_eq_true, decide_eq_true_eq, Bool.or_eq_true,
        Bool.not_eq_true'] at hframing
      obtain ⟨hlen, hcut⟩ := hframing
      -- The condition bounds the length of what is sent.
      have hm : m.sane = true := by
        rw [SentMessage.length_frame] at hlen
        simp only [SentMessage.sane, Bool.and_eq_true, decide_eq_true_eq, Bool.or_eq_true,
          bne_iff_ne, List.isEmpty_iff]
        exact ⟨by omega, hclose⟩
      by_cases hempty : acceptedOf c s i = []
      · -- Nothing is accepted.
        have htransmits : transmits c s i = none := by
          rw [transmits_of_sending hsending, if_neg]
          rw [hempty]
          exact fun heq => m.frame_ne_nil heq.symm
        rw [hempty, htransmits]
        simpa using ⟨hsane, hwrites⟩
      · -- So what was written before are whole frames.
        have hwhole : writes s.trace c = (transmitted c run).map SentMessage.frame := by
          rcases hwrites with hwhole | ⟨cut, hcutOff, hwrites⟩
          · exact hwhole
          · have hoff : cutOff s.trace c = true := by
              rw [cutOff, hwrites, List.getLast?_concat]
              simpa using hcutOff.not_frame
            rw [hoff] at hcut
            rcases hcut with hcut | hrefused
            · exact Bool.noConfusion hcut
            · -- A send that is refused is accepted in no part.
              exact absurd (haccepted.trans (State.sendOutcome_refused hrefused m.frame)) hempty
        by_cases hall : acceptedOf c s i = m.frame
        · rw [transmits_of_sending hsending, if_pos hall, hwhole, hall]
          refine ⟨fun m' hm' => ?_, .inl ?_⟩
          · rcases List.mem_append.mp hm' with hold | hnew
            · exact hsane m' hold
            · rw [Option.toList_some, List.mem_singleton] at hnew
              exact hnew ▸ hm
          · rw [List.map_append, List.filter_cons_of_pos]
            · rfl
            · simpa using m.frame_ne_nil
        · -- From now on the output ends in a part of a frame, and nothing may follow.
          rw [transmits_of_sending hsending, if_neg hall, hwhole]
          refine ⟨by simpa using hsane, .inr ⟨acceptedOf c s i, ⟨hempty, m, hm, hpart, hall⟩, ?_⟩⟩
          rw [List.filter_cons_of_pos (by simpa using hempty)]
          simp

/-! ## Two processes -/

/-- A tcp connection between a conn of each process. It carries what the kernel accepted on the one
    conn to the calls of `recv` on the other. -/
def tcpLink (ends : Bool → ConnId) : Machine.Link State (Option UInt8) where
  put b s := (writes s.trace (ends b)).flatten.map some
  taken b s := stream s.trace (ends b)

/-- The messages with a payload among those that a run gets through the conn. -/
def withPayload (c : ConnId) (run : List (State × Input)) : List SentMessage :=
  (transmitted c run).filter fun m => !m.payload.isEmpty

section Peers

variable {ok : Bool → State → Input → Prop} {ends : Bool → ConnId} {w : Machine.Pair State Input}
  {b : Bool}

/-- The messages that were queued for the one conn were sent through the other. -/
theorem tcpMessages_peers (h : Machine.Exchange machine ok (tcpLink ends) w)
    (hframing : ∀ s i, ok (!b) s i → keepsFraming s i = true)
    (hundisturbed : ∀ s i, ok b s i → undisturbed s i = true) :
    tcpMessages (w.now b).trace (ends b) <+:
      (withPayload (ends !b) (w.past !b)).map SentMessage.found := by
  obtain ⟨hsane, hwrites⟩ := writes_transmitted (c := ends !b) (h.steps (!b)) fun x hx =>
    hframing x.1 x.2 (h.meets hx)
  have hmessages := (reach_decoded ((h.reach b).mono hundisturbed)).messages (ends b)
  rw [List.append_nil] at hmessages
  have hcarries : stream (w.now b).trace (ends b) <+:
      (writes (w.now !b).trace (ends !b)).flatten.map some :=
    h.carries (fun _ => List.nil_prefix) b
  have hwhole : ∀ f ∈ (transmitted (ends !b) (w.past !b)).map SentMessage.frame,
      Frames.Whole headerLen bodySize f := by
    intro f hf
    obtain ⟨m, hm, rfl⟩ := List.mem_map.mp hf
    exact SentMessage.whole_of_sane (hsane m hm)
  -- The frames of all that was written are those of the messages.
  have hframes : (Frames.decode headerLen bodySize
      ((writes (w.now !b).trace (ends !b)).flatten.map some)).frames =
      (transmitted (ends !b) (w.past !b)).map SentMessage.frame := by
    rcases hwrites with hwrites | ⟨cut, ⟨-, m, hm, hpart, hne⟩, hwrites⟩
    · rw [hwrites, List.map_flatten, ← List.flatMap_def, Frames.decode_frames (by decide) hwhole]
    · rw [hwrites, List.flatten_append, List.map_append, List.map_flatten, ← List.flatMap_def,
        List.flatten_singleton]
      exact Frames.decode_frames_cut (by decide) hwhole (SentMessage.whole_of_sane hm) hpart hne
  -- What was read is decoded to the first of these, wherever it was cut.
  obtain ⟨rest, hrest⟩ := hcarries
  have hfront := @Frames.frames_append _ headerLen bodySize
    (stream (w.now b).trace (ends b)) rest
  rw [hrest, hframes] at hfront
  rw [hmessages, withPayload, ← messagesIn_sent]
  exact (hfront.filter _).map _

end Peers

/-! ## Main result -/

/-- No callback calls `msg_runloop`, nothing is written behind a part of a frame, and the messages
    in progress on other conns are left alone. -/
def orderly (s : State) (i : Input) : Bool := plain s i && keepsFraming s i && undisturbed s i

/-- The messages of the conn whose callbacks were called, in this order. -/
def calledMessages (t : List Obs) (c : ConnId) : List (Header × List (Option UInt8)) :=
  (calledCalls t).filterMap (PendingCall.tcpMessage c)

/-- Whatever the applications of two processes call, however their sends succeed, and however what
    arrives is cut into pieces: at any time the messages that a process has handed over for its
    end of the connection are messages that the other one has got through its end, in the same
    order, from the first one on, and each was handed over with the event of its kind and its own
    payload. -/
theorem peers_in_order {ends : Bool → ConnId} {w : Machine.Pair State Input}
    (h : Machine.Exchange machine (fun _ s i => orderly s i = true) (tcpLink ends) w) (b : Bool) :
    calledMessages (w.now b).trace (ends b) <+:
        (withPayload (ends !b) (w.past !b)).map SentMessage.found ∧
      ∀ p ∈ calledCalls (w.now b).trace, p.HandsOver := by
  have hok : ∀ {s i}, orderly s i = true →
      (plain s i = true ∧ keepsFraming s i = true) ∧ undisturbed s i = true := by
    intro s i hok
    simpa only [orderly, Bool.and_eq_true] using hok
  have horder := (reach_inOrder ((h.reach b).mono fun s i hs => (hok hs).1.1)).order
  constructor
  · -- The callbacks are called in the order in which they were queued, so from the front.
    have hqueued :=
      tcpMessages_peers (b := b) h (fun s i hs => (hok hs).1.2) fun s i hs => (hok hs).2
    apply List.IsPrefix.trans _ hqueued
    rw [calledMessages, tcpMessages, horder, List.filterMap_append]
    exact List.prefix_append _ _
  · intro p hp
    apply reach_handsOver (h.reach b)
    apply mem_queuedCalls.mp
    rw [horder]
    exact List.mem_append_left _ hp

/-- The ends of the connections in the examples: the second conn of the process that listens, and
    the first one of the process that connects. -/
def listenerAndCaller (b : Bool) : ConnId := if b then 0 else 1

/-- Steps of one of the processes. -/
def stepsOf (b : Bool) (is : List Input) : List (Bool × Input) := is.map fun i => (b, i)

/-- One process listens on the socket 3 and accepts the connection of the other one on the socket 4.
    The latter sends a message and a request, both of one byte. -/
def connectPeers : List (Bool × Input) :=
  stepsOf false [.app (.listen ['t', 'c', 'p', ':', '/', '/', '*', ':', '8', '0'] 0
      { socket := .ok 3 }), .runloop (.ready [{ pollin := true }]), .visit none,
    .read { accept := .ok (4, 1, 1) }, .visit none, .endPoll, .timeouts 0, .deliver {}, .ret,
    .deliver {}, .ret, .deliver {}] ++
  stepsOf true (connectRun ++ [.app (.send 0 [65] {}), .app (.get 0 [66] 7 0 {})])

/-- A cycle in which one message of one byte is read on the accepted conn, up to its callback. -/
def acceptedCycle : List Input :=
  [.runloop (.ready [{}, { pollin := true }]), .visit none, .visit none,
    .read { peek := .upTo 8, body := .upTo 1 }, .read {}, .endPoll, .timeouts 0, .deliver {}]

/-- The listening process reads the message and, in the next cycle, the request, which its callback
    answers. The process that connected reads the reply. -/
def answerPeer : List (Bool × Input) :=
  stepsOf false ([.env (.arrive 4 (setHeader .oneWay 0 1 ++ [65]))] ++ acceptedCycle ++
    [.ret, .deliver {}, .env (.arrive 4 (setHeader .request 1 1 ++ [66]))] ++ acceptedCycle ++
    [.app (.send 1 [67] {}), .ret, .deliver {}]) ++
  stepsOf true (readMessages (setHeader .reply 1 1 ++ [67]) 1)

/-- A message, a request and the reply. -/
theorem peers_in_order_reply : ∃ w,
    Machine.Exchange machine (fun _ s i => orderly s i = true) (tcpLink listenerAndCaller) w ∧
      withPayload 0 (w.past true) = [⟨.oneWay, 0, [65]⟩, ⟨.request, 1, [66]⟩] ∧
      calledMessages (w.now true).trace 0 = [SentMessage.found ⟨.reply, 1, [67]⟩] ∧
      calledMessages (w.now false).trace 1 <+:
        [SentMessage.found ⟨.oneWay, 0, [65]⟩, SentMessage.found ⟨.request, 1, [66]⟩] := by
  obtain ⟨w, hw, hview⟩ := Machine.Exchange.exists_of_run machine (fun _ => orderly)
    (tcpLink listenerAndCaller) (connectPeers ++ answerPeer)
    (fun w => (withPayload 0 (w.past true), calledMessages (w.now true).trace 0))
    ([⟨.oneWay, 0, [65]⟩, ⟨.request, 1, [66]⟩], [SentMessage.found ⟨.reply, 1, [67]⟩])
    (by decide +kernel)
  obtain ⟨hsent, hanswer⟩ := Prod.mk.inj hview
  refine ⟨w, hw, hsent, hanswer, ?_⟩
  have hfalse := (peers_in_order hw false).1
  show calledMessages (w.now false).trace (listenerAndCaller false) <+: _
  rw [show withPayload (listenerAndCaller !false) (w.past !false) = _ from hsent] at hfalse
  exact hfalse

end Msgbox
