import Msgbox.Spec.Framing
import Msgbox.Spec.Streams

/-!
# What goes out on a descriptor is a sequence of frames

The output of a descriptor is what the kernel accepted on it since it was opened. A send that an
error ends in the middle of its frame leaves a part of a frame there, and from then on the output
stays a sequence of frames exactly as long as the kernel takes nothing more on this descriptor.
Whether this happened is read off the results of `send`, not off the output.

## Key results

- `Line`: the output of a descriptor, and whether a send on it broke off
- `keepsFrames`: nothing more is taken on a descriptor on which a send broke off
- `output_framed`: the output of every descriptor is framed in every run of such steps, and is not
  after one other step
- `output_not_framed`: a send that is interrupted after three bytes, and one behind it
-/

namespace Msgbox

open State (sendAll)

/-! ## Descriptors -/

/-- The bytes that an observation reports as written to the descriptor. -/
def Obs.writtenTo (sock : Sock) : Obs → Option (List UInt8)
  | .sent _ sock' accepted _ => if sock' = sock ∧ accepted ≠ [] then some accepted else none
  | _ => none

/-- A descriptor since it was opened: the writes that the kernel accepted, oldest first, and whether
    a send broke off. -/
structure Line where
  output : List (List UInt8) := []
  broken : Bool := false

/-- The kernel accepts a part of the bytes of a frame, and then an error ends the loop. -/
def SendIn.breaksOff (w : SendIn) (len : Nat) : Bool :=
  w.schedule.any SendResult.isError &&
    decide (0 < (accepted w.schedule).sum ∧ (accepted w.schedule).sum < len)

/-- The step sends on the descriptor and breaks off. -/
def breaksOff (s : State) (i : Input) (sock : Sock) : Bool :=
  match outgoing s i with
  | none => false
  | some (c, frame, w) =>
    decide ((s.conn c).socket = sock ∧ (s.sockets sock).isSome = true ∧
      (s.conn c).protocolType = .tcp) && w.breaksOff frame.length

/-- What a step adds to the notes on the descriptors. A descriptor that the step opens begins
    anew. -/
def noteLines (lines : Sock → Line) (s : State) (i : Input) (sock : Sock) : Line :=
  match step s i with
  | none => lines sock
  | some s' =>
    if sock ∈ s'.openings.take (s'.openings.length - s.openings.length) then {}
    else
      { output := (lines sock).output ++
          ((s'.trace.take (s'.trace.length - s.trace.length)).filterMap
          (Obs.writtenTo sock)).reverse
        broken := (lines sock).broken || breaksOff s i sock }

/-- The payload is shorter than 2³² bytes, and on a descriptor on which a send broke off the kernel
    takes nothing more: the descriptor is closed, or `send` fails before it accepts a byte. -/
def keepsFrames (lines : Sock → Line) (s : State) (i : Input) : Bool :=
  match outgoing s i with
  | none => true
  | some (c, frame, w) =>
    decide (frame.length < headerLen + 4294967296) &&
      (!(lines (s.conn c).socket).broken || sendRefused s c w)

/-! ## One call of `send_data` -/

/-- Each call that is accepted takes at least a byte. -/
private theorem sum_accepted_pos {schedule : List SendResult} (h : accepted schedule ≠ []) :
    0 < (accepted schedule).sum := by
  obtain ⟨n, hn⟩ := List.exists_mem_of_ne_nil _ h
  have hpos : 0 < n := by
    obtain ⟨r, -, hr⟩ := List.mem_filterMap.mp hn
    cases r with
    | accept m =>
      obtain rfl := Option.some.inj hr
      omega
    | fail e => exact absurd hr.symm (Option.some_ne_none n)
  exact List.sum_pos_iff_exists_pos_nat.mpr ⟨n, hn, hpos⟩

/-- The first call that does not ask to try again fails, if nothing is accepted before an error. -/
private theorem refused_iff (w : SendIn) : w.refused = true ↔
    w.schedule.any SendResult.isError = true ∧ accepted w.schedule = [] := by
  obtain ⟨schedule, result⟩ := w
  induction schedule with
  | nil => simp [SendIn.refused]
  | cons r schedule ih =>
    cases r with
    | accept n => simp [SendIn.refused]
    | fail e =>
      cases e with
      | wouldBlock => exact ih
      | _ => simp [SendIn.refused, SendResult.isError, accepted_error]

/-- The loop breaks off exactly if it gets through a part of the frame. -/
private theorem breaksOff_iff (w : SendIn) (frame : List UInt8) : w.breaksOff frame.length = true ↔
    (sendAll w.schedule frame).1 ≠ [] ∧ (sendAll w.schedule frame).1 ≠ frame := by
  rw [sendAll_fst, SendIn.breaksOff, Bool.and_eq_true, decide_eq_true_eq]
  split
  · rename_i herror
    rw [herror, Ne, List.take_eq_nil_iff, Ne, List.take_eq_self_iff]
    constructor
    · rintro ⟨-, hpos, hlt⟩
      refine ⟨?_, by omega⟩
      rintro (hzero | rfl)
      · omega
      · exact Nat.not_lt_zero _ hlt
    · rintro ⟨hne, hlt⟩
      refine ⟨rfl, ?_, by omega⟩
      exact Nat.pos_of_ne_zero fun hzero => hne (.inl hzero)
  · rename_i hnone
    exact ⟨fun h => absurd h.1 hnone, fun h => absurd rfl h.2⟩

namespace State

variable {s s' : State} {i : Input} {c : ConnId} {frame : List UInt8} {w : SendIn}

/-- A send breaks off when something, but not the whole frame, is written. -/
private theorem breaksOff_outcome (hout : outgoing s i = some (c, frame, w)) :
    breaksOff s i (s.conn c).socket = true ↔
      (s.sendOutcome c frame w).1 ≠ [] ∧ (s.sendOutcome c frame w).1 ≠ frame := by
  rw [breaksOff, hout]
  unfold sendOutcome
  cases hsock : s.sockets (s.conn c).socket with
  | none => simp
  | some k =>
    simp only [Option.isSome_some, true_and]
    split
    · rename_i htcp
      simpa [htcp] using breaksOff_iff w frame
    · rename_i hnot
      simp only [hnot, decide_false, Bool.false_and, Bool.false_eq_true, false_iff]
      split <;> simp

/-- What is not refused gets through in part at least. -/
private theorem sendRefused_iff (hne : frame ≠ []) :
    sendRefused s c w = true ↔ (s.sendOutcome c frame w).1 = [] := by
  constructor
  · exact fun h => sendOutcome_refused h frame
  · unfold sendRefused sendOutcome
    cases hsock : s.sockets (s.conn c).socket with
    | none => exact fun _ => rfl
    | some k =>
      dsimp only
      rw [Option.isNone_some, Bool.false_or]
      split
      · intro hnil
        dsimp only at hnil
        rw [sendAll_fst] at hnil
        split at hnil
        · rename_i herror
          rw [List.take_eq_nil_iff] at hnil
          refine (refused_iff w).mpr ⟨herror, ?_⟩
          -- An accepted piece has at least one byte.
          by_contra haccepted
          have hpos := sum_accepted_pos haccepted
          rcases hnil with hzero | hnil
          · omega
          · exact hne hnil
        · exact absurd hnil hne
      · cases w.result with
        | none => exact fun hnil => absurd hnil hne
        | some e => exact fun _ => rfl

/-- Reporting a failed send neither sends nor opens. -/
private theorem reportSend_sent (s : State) (c : ConnId) (failed : Option (String × Errno)) :
    (s.reportSend c failed).trace.filter Obs.isSent = s.trace.filter Obs.isSent ∧
      (s.reportSend c failed).openings = s.openings := by
  unfold reportSend
  split
  · exact ⟨List.filter_cons_of_neg Bool.false_ne_true, rfl⟩
  · exact ⟨rfl, rfl⟩

/-- `msg_send` is one send of its frame. -/
private theorem msgSend_oneSent (s : State) (c : ConnId) (payload : List UInt8) (w : SendIn) :
    (s.msgSend c payload w).trace.filter Obs.isSent =
        .sent c (s.conn c).socket (s.sendOutcome c (s.sendFrame c payload) w).1
          (s.sendOutcome c (s.sendFrame c payload) w).2 :: s.trace.filter Obs.isSent ∧
      (s.msgSend c payload w).openings = s.openings := by
  unfold msgSend
  dsimp only
  obtain ⟨htrace, hopenings⟩ := reportSend_sent (s.sendData c (s.sendFrame c payload) w).1 c
    (s.sendData c (s.sendFrame c payload) w).2
  rw [htrace, hopenings, sendData_fst]
  exact ⟨List.filter_cons_of_pos rfl, rfl⟩

/-- `msg_disconnect` is one send of a close header. -/
private theorem msgDisconnect_oneSent (s : State) (c : ConnId) (w : SendIn) :
    (s.msgDisconnect c w).trace.filter Obs.isSent =
        .sent c (s.conn c).socket (s.sendOutcome c (setHeader .close 0 0) w).1
          (s.sendOutcome c (setHeader .close 0 0) w).2 :: s.trace.filter Obs.isSent ∧
      (s.msgDisconnect c w).openings = s.openings := by
  unfold msgDisconnect
  dsimp only
  generalize hs₁ : s.log (.disconnected c (s.conn c).remoteAddress) = s₁
  have houtcome : s₁.sendOutcome c (setHeader .close 0 0) w =
      s.sendOutcome c (setHeader .close 0 0) w := by
    subst hs₁
    exact sendOutcome_congr rfl rfl _ w
  obtain ⟨htrace, hopenings⟩ := reportSend_sent (s₁.sendData c (setHeader .close 0 0) w).1 c
    (s₁.sendData c (setHeader .close 0 0) w).2
  rw [localDisconnect_trace, localDisconnect_openings, hopenings,
    List.filter_cons_of_neg (by simp [Obs.isSent]), htrace, sendData_fst, houtcome]
  subst hs₁
  exact ⟨List.filter_cons_of_pos rfl, rfl⟩

/-- `msg_get` is one send of its request. -/
private theorem msgGet_oneSent {sid : StatusId} (hsid : s.statusOfConn c = some sid)
    (payload : List UInt8) (context : Ptr) (now : Nat) (w : SendIn)
    (hframe : frame = setHeader .request (s.status sid).nextReplyId payload.length ++ payload) :
    (s.msgGet c payload context now w).trace.filter Obs.isSent =
        .sent c (s.conn c).socket (s.sendOutcome c frame w).1 (s.sendOutcome c frame w).2 ::
          s.trace.filter Obs.isSent ∧
      (s.msgGet c payload context now w).openings = s.openings := by
  unfold msgGet
  rw [hsid]
  dsimp only
  rw [← hframe]
  generalize hs₁ : s.modifyStatus sid _ = s₁
  -- Entering the get in its status leaves descriptors and conns alone.
  have houtcome : s₁.sendOutcome c frame w = s.sendOutcome c frame w := by
    subst hs₁
    exact sendOutcome_congr rfl rfl _ w
  have hdata := sendData_fst s₁ c frame w
  rw [houtcome] at hdata
  have hsent : (s₁.sendData c frame w).1.trace.filter Obs.isSent =
      .sent c (s.conn c).socket (s.sendOutcome c frame w).1 (s.sendOutcome c frame w).2 ::
        s.trace.filter Obs.isSent ∧ (s₁.sendData c frame w).1.openings = s.openings := by
    rw [hdata]
    subst hs₁
    exact ⟨List.filter_cons_of_pos rfl, rfl⟩
  split
  · rename_i s₂ name e heq
    rw [heq] at hsent
    exact ⟨(List.filter_cons_of_neg (by simp [Obs.isSent])).trans
      ((List.filter_cons_of_neg (by simp [Obs.isSent])).trans hsent.1), hsent.2⟩
  · rename_i s₂ heq
    rw [heq] at hsent
    exact ⟨(List.filter_cons_of_neg (by simp [Obs.isSent])).trans hsent.1, hsent.2⟩

/-- A call that has a frame to send passes it to `send_data`, and opens no descriptor. -/
theorem step_outgoing (hstep : step s i = some s') (hout : outgoing s i = some (c, frame, w)) :
    s'.trace.filter Obs.isSent = .sent c (s.conn c).socket (s.sendOutcome c frame w).1
        (s.sendOutcome c frame w).2 :: s.trace.filter Obs.isSent ∧ s'.openings = s.openings := by
  cases i with
  | app call =>
    obtain ⟨-, -, rfl⟩ := step_app hstep
    cases call with
    | send c' payload w' =>
      obtain ⟨rfl, rfl, rfl⟩ : c' = c ∧ s.sendFrame c' payload = frame ∧ w' = w := by
        simpa [outgoing] using hout
      exact msgSend_oneSent s c' payload w'
    | get c' payload context now w' =>
      obtain ⟨sid, hsid, heq⟩ := Option.map_eq_some_iff.mp hout
      simp only [Prod.mk.injEq] at heq
      obtain ⟨rfl, hframe, rfl⟩ := heq
      exact msgGet_oneSent hsid payload context now w' hframe.symm
    | disconnect c' w' =>
      obtain ⟨rfl, rfl, rfl⟩ : c' = c ∧ setHeader .close 0 0 = frame ∧ w' = w := by
        simpa [outgoing] using hout
      exact msgDisconnect_oneSent s c' w'
    | _ => exact absurd hout.symm (Option.some_ne_none _)
  | _ => exact absurd hout.symm (Option.some_ne_none _)

end State

/-! ## Runs -/

/-- The sends decide what was written to a descriptor. -/
private theorem filterMap_writtenTo (sock : Sock) (t : List Obs) :
    (t.filter Obs.isSent).filterMap (Obs.writtenTo sock) = t.filterMap (Obs.writtenTo sock) := by
  rw [List.filterMap_filter]
  congr 1
  funext o
  cases o <;> rfl

/-- The notes after a step on a descriptor that it does not open. -/
private theorem noteLines_eq {lines : Sock → Line} {s s' : State} {i : Input}
    (hstep : step s i = some s')
    (sock : Sock) (hold : sock ∉ s'.openings.take (s'.openings.length - s.openings.length)) :
    noteLines lines s i sock =
      { output := (lines sock).output ++ match outgoing s i with
          | none => []
          | some (c, frame, w) =>
            if (s.conn c).socket = sock ∧ (s.sendOutcome c frame w).1 ≠ [] then
              [(s.sendOutcome c frame w).1] else []
        broken := (lines sock).broken || breaksOff s i sock } := by
  obtain ⟨new, hnew⟩ := State.suffix_step hstep
  -- What the step has added to the trace is what the note is read off.
  have htake : s'.trace.take (s'.trace.length - s.trace.length) = new := by
    rw [← hnew, List.length_append, Nat.add_sub_cancel, List.take_left]
  unfold noteLines
  rw [hstep]
  dsimp only
  rw [if_neg hold, htake, ← filterMap_writtenTo]
  -- Of the new observations only those of a send count.
  have hsent : ∀ l, s'.trace.filter Obs.isSent = l ++ s.trace.filter Obs.isSent →
      new.filter Obs.isSent = l := by
    intro l hl
    rw [← hnew, List.filter_append, List.append_left_inj] at hl
    exact hl
  cases hout : outgoing s i with
  | none =>
    have hquiet : new.filter Obs.isSent = [] := by
      rcases State.step_sent hstep with hquiet | ⟨c, frame, w, hsends, -⟩
      · exact hsent [] hquiet
      · exact absurd (hout.symm.trans hsends.outgoing_eq) (Option.some_ne_none _).symm
    rw [hquiet]
    rfl
  | some x =>
    obtain ⟨c, frame, w⟩ := x
    rw [hsent [_] (State.step_outgoing hstep hout).1]
    by_cases hwritten : (s.conn c).socket = sock ∧ (s.sendOutcome c frame w).1 ≠ []
    · have hsome : (Obs.sent c (s.conn c).socket (s.sendOutcome c frame w).1
          (s.sendOutcome c frame w).2).writtenTo sock = some (s.sendOutcome c frame w).1 :=
        if_pos hwritten
      dsimp only
      rw [List.filterMap_cons_some hsome, if_pos hwritten]
      rfl
    · have hnone : (Obs.sent c (s.conn c).socket (s.sendOutcome c frame w).1
          (s.sendOutcome c frame w).2).writtenTo sock = none := if_neg hwritten
      dsimp only
      rw [List.filterMap_cons_none hnone, if_neg hwritten]
      rfl

/-- Each frame that is passed to `send_data` has a header with the payload that it announces. -/
private theorem isFrame_outgoing {s : State} {i : Input} {c : ConnId} {frame : List UInt8}
    {w : SendIn}
    (hout : outgoing s i = some (c, frame, w)) (hlen : frame.length < headerLen + 4294967296) :
    IsFrame frame := by
  have hpayload : ∀ (t : MsgType) (id : UInt16) (payload : List UInt8),
      frame = setHeader t id payload.length ++ payload → IsFrame frame := by
    rintro t id payload rfl
    apply isFrame_setHeader t id rfl
    rw [List.length_append, length_setHeader] at hlen
    omega
  unfold outgoing at hout
  split at hout
  · obtain ⟨-, heq⟩ := Prod.mk.inj (Option.some.inj hout)
    exact hpayload _ _ _ (Prod.mk.inj heq).1.symm
  · obtain ⟨sid, -, heq⟩ := Option.map_eq_some_iff.mp hout
    exact hpayload _ _ _ (Prod.mk.inj (Prod.mk.inj heq).2).1.symm
  · obtain ⟨-, heq⟩ := Prod.mk.inj (Option.some.inj hout)
    rw [← (Prod.mk.inj heq).1]
    decide
  · exact absurd hout.symm (Option.some_ne_none _)

/-- The output is framed, and its last write is a part of a frame exactly if a send broke off. -/
structure Line.Noted (l : Line) : Prop where
  framed : Framed l.output
  broken : l.broken = true ↔ ∃ b, l.output.getLast? = some b ∧ ¬ IsFrame b

/-- One more write, after which a send may have broken off. -/
theorem Line.Noted.write {l : Line} (h : l.Noted) (hwhole : l.broken = false)
    {frame bs : List UInt8} (hframe : IsFrame frame) (hfront : bs <+: frame) {broken : Bool}
    (hbroken : broken = true ↔ bs ≠ frame) : Line.Noted ⟨l.output ++ [bs], broken⟩ where
  framed := by
    apply framed_append h.framed
    · intro b hb
      by_contra hcut
      rw [h.broken.mpr ⟨b, hb, hcut⟩] at hwhole
      exact Bool.noConfusion hwhole
    · by_cases hall : bs = frame
      · exact .inl (hall ▸ hframe)
      · exact .inr ⟨frame, hframe, hfront, hall⟩
  broken := by
    rw [hbroken, List.getLast?_concat]
    constructor
    · exact fun hne => ⟨bs, rfl, IsCut.not_frame ⟨frame, hframe, hfront, hne⟩⟩
    · rintro ⟨b, hb, hcut⟩ rfl
      exact hcut (Option.some.inj hb ▸ hframe)

/-- Every step within the condition keeps the lines as noted. -/
private theorem noted_step {lines : Sock → Line} {s s' : State} {i : Input}
    (hok : keepsFrames lines s i = true) (hstep : step s i = some s')
    (h : ∀ sock, (lines sock).Noted) (sock : Sock) : (noteLines lines s i sock).Noted := by
  by_cases hopened : sock ∈ s'.openings.take (s'.openings.length - s.openings.length)
  · -- A descriptor that the step opens begins with no output.
    have hnew : noteLines lines s i sock = {} := by
      unfold noteLines
      rw [hstep]
      exact if_pos hopened
    rw [hnew]
    exact ⟨framed_nil, by simp⟩
  · rw [noteLines_eq hstep sock hopened]
    cases hout : outgoing s i with
    -- A step that sends nothing writes to no descriptor.
    | none =>
      have hquiet : breaksOff s i sock = false := by rw [breaksOff, hout]
      rw [hquiet, Bool.or_false]
      simpa using h sock
    | some x =>
      obtain ⟨c, frame, w⟩ := x
      dsimp only
      unfold keepsFrames at hok
      rw [hout] at hok
      simp only [Bool.and_eq_true, decide_eq_true_eq, Bool.or_eq_true, Bool.not_eq_true'] at hok
      obtain ⟨hlen, hcut⟩ := hok
      have hframe := isFrame_outgoing hout hlen
      by_cases hsock : (s.conn c).socket = sock
      · subst hsock
        have hbreaks := State.breaksOff_outcome hout
        by_cases hnil : (s.sendOutcome c frame w).1 = []
        · have hquiet : breaksOff s i (s.conn c).socket = false := by
            rw [Bool.eq_false_iff]
            exact fun hbreak => (hbreaks.mp hbreak).1 hnil
          rw [if_neg fun hwritten => hwritten.2 hnil, hquiet, Bool.or_false, List.append_nil]
          exact h (s.conn c).socket
        · -- What is not refused goes out behind a frame.
          have hwhole : (lines (s.conn c).socket).broken = false :=
            hcut.resolve_right fun hrefused => hnil (State.sendOutcome_refused hrefused frame)
          rw [if_pos ⟨rfl, hnil⟩, hwhole, Bool.false_or]
          apply (h (s.conn c).socket).write hwhole hframe (State.sendOutcome_prefix s c frame w)
          rw [hbreaks, and_iff_right hnil]
      · have hquiet : breaksOff s i sock = false := by simp [breaksOff, hout, hsock]
        rw [if_neg fun hwritten => hsock hwritten.1, hquiet, Bool.or_false, List.append_nil]
        exact h sock

/-- In every such run each line is what was written since its descriptor was opened. -/
theorem reach_noted {x : State × (Sock → Line)}
    (h : (machine.noting noteLines fun _ => {}).Reach (fun x i => keepsFrames x.2 x.1 i = true) x)
    (sock : Sock) : (x.2 sock).Noted := by
  induction h generalizing sock with
  | init => exact ⟨framed_nil, by simp [Machine.noting]⟩
  | step _ hok hs ih =>
    obtain ⟨s', hstep, rfl⟩ := Option.map_eq_some_iff.mp hs
    exact noted_step hok hstep ih sock

/-- In every run in which payloads fit their length field and the kernel takes nothing more on a
    descriptor on which a send broke off, the output of every descriptor is a sequence of frames,
    the last of which may be cut. A step that makes the kernel take more there ends this. -/
theorem output_framed {s : State} {lines : Sock → Line}
    (h : (machine.noting noteLines fun _ => {}).Reach (fun x i => keepsFrames x.2 x.1 i = true)
      (s, lines)) :
    (∀ sock, Framed (lines sock).output) ∧
    ∀ i s' c frame w, step s i = some s' → outgoing s i = some (c, frame, w) →
      frame.length < headerLen + 4294967296 → keepsFrames lines s i = false →
        ¬ Framed (noteLines lines s i (s.conn c).socket).output := by
  refine ⟨fun sock => (reach_noted h sock).framed, ?_⟩
  intro i s' c frame w hstep hout hlen hbad hframed
  unfold keepsFrames at hbad
  rw [hout] at hbad
  simp only [decide_eq_true hlen, Bool.true_and, Bool.or_eq_false_iff, Bool.not_eq_false'] at hbad
  obtain ⟨hbroken, htaken⟩ := hbad
  obtain ⟨cut, hlast, hcut⟩ := (reach_noted h (s.conn c).socket).broken.mp hbroken
  have hne : frame ≠ [] := by
    rintro rfl
    exact absurd (isFrame_outgoing hout hlen).1 (by decide)
  have hsome : (s.sendOutcome c frame w).1 ≠ [] := by
    intro hnil
    rw [(State.sendRefused_iff hne).mpr hnil] at htaken
    exact Bool.noConfusion htaken
  have hold : (s.conn c).socket ∉ s'.openings.take (s'.openings.length - s.openings.length) := by
    rw [(State.step_outgoing hstep hout).2, Nat.sub_self]
    exact List.not_mem_nil
  rw [noteLines_eq hstep _ hold, hout] at hframed
  dsimp only at hframed
  rw [if_pos ⟨rfl, hsome⟩] at hframed
  -- The part of a frame is no longer the last write.
  have hbefore := framed_dropLast hframed
  rw [List.dropLast_concat] at hbefore
  exact hcut (hbefore cut (List.mem_of_getLast? hlast))

/-- On the connection of `connectRun` a message is sent and the next one cut off after three
    bytes. -/
def cutRun : List Input :=
  connectRun ++ [.app (.send 0 [65] {}),
    .app (.send 0 [65] { schedule := [.accept 3, .fail .connReset] })]

/-- The cut message is the last one that goes out, unless the next one is accepted; a connection
    that is given the descriptor after the end of the first one has an output of its own. -/
theorem output_framed_cut :
    (∃ s lines, (machine.noting noteLines fun _ => {}).Reach
        (fun x i => keepsFrames x.2 x.1 i = true) (s, lines) ∧
      (lines 3).output = [setHeader .oneWay 0 1 ++ [65], [0, 0, 0]] ∧ Framed (lines 3).output ∧
      ¬ Framed (noteLines lines s (.app (.send 0 [66] {})) 3).output) ∧
    ∃ s lines, (machine.noting noteLines fun _ => {}).Reach
        (fun x i => keepsFrames x.2 x.1 i = true) (s, lines) ∧
      (lines 3).output = [setHeader .oneWay 0 1 ++ [66]] ∧ Framed (lines 3).output := by
  constructor
  · obtain ⟨⟨s, lines⟩, hreach, hview⟩ := (machine.noting noteLines fun _ => {}).exists_reach_of_run
      (fun x i => keepsFrames x.2 x.1 i) (fun _ _ h => h) cutRun
      (fun x => ((x.2 3).output, (x.1.conn 0).socket,
        (step x.1 (.app (.send 0 [66] {}))).isSome && !keepsFrames x.2 x.1 (.app (.send 0 [66] {})),
        decide ((x.1.sendFrame 0 [66]).length = 9)))
      ([setHeader .oneWay 0 1 ++ [65], [0, 0, 0]], 3, true, true) (by decide +kernel)
    simp only [Prod.mk.injEq, Bool.and_eq_true, Bool.not_eq_true', decide_eq_true_eq] at hview
    obtain ⟨houtput, hsock, ⟨hstep, hbad⟩, hlen⟩ := hview
    obtain ⟨s', hs'⟩ := Option.isSome_iff_exists.mp hstep
    obtain ⟨hframed, hexact⟩ := output_framed hreach
    have hnot := hexact (.app (.send 0 [66] {})) s' 0 (s.sendFrame 0 [66]) {} hs' rfl
      (by rw [hlen]; decide) hbad
    rw [hsock] at hnot
    exact ⟨s, lines, hreach, houtput, hframed 3, hnot⟩
  · obtain ⟨⟨s, lines⟩, hreach, hview⟩ := (machine.noting noteLines fun _ => {}).exists_reach_of_run
      (fun x i => keepsFrames x.2 x.1 i) (fun _ _ h => h)
      (cutRun ++ [.app (.disconnect 0 { schedule := [.fail .connReset] }),
        .app (.connect ['t', 'c', 'p', ':', '/', '/', '1', '.', '2', '.', '3', '.', '4', ':',
        '8', '0']
          0 null { socket := .ok 3 }), .app (.send 1 [66] {})])
      (fun x => (x.2 3).output) [setHeader .oneWay 0 1 ++ [66]] (by decide +kernel)
    exact ⟨s, lines, hreach, hview, (output_framed hreach).1 3⟩

/-- A signal interrupts `send` after three bytes of a message. The conn stays connected, and the
    next message is written behind them. -/
theorem output_not_framed : ∃ s lines,
    (machine.noting noteLines fun _ => {}).Reach (fun _ _ => True) (s, lines) ∧
    (s.conn 0).protocolType = .tcp ∧ (s.conn 0).socket = 3 ∧
    (lines 3).output = [[0, 0, 0], setHeader .oneWay 0 1 ++ [66]] ∧ ¬ Framed (lines 3).output := by
  obtain ⟨⟨s, lines⟩, hreach, hview⟩ := (machine.noting noteLines fun _ => {}).exists_reach_of_run
    (P := fun _ _ => True) (fun _ _ => true) (fun _ _ _ => trivial)
    (connectRun ++ [.app (.send 0 [65] { schedule := [.accept 3, .fail .intr] }),
      .app (.send 0 [66] {})])
    (fun x => ((x.1.conn 0).protocolType, (x.1.conn 0).socket, (x.2 3).output))
    (.tcp, 3, [[0, 0, 0], setHeader .oneWay 0 1 ++ [66]]) (by decide +kernel)
  simp only [Prod.mk.injEq] at hview
  obtain ⟨htcp, hsock, houtput⟩ := hview
  refine ⟨s, lines, hreach, htcp, hsock, houtput, ?_⟩
  intro hframed
  rw [houtput] at hframed
  exact absurd (framed_dropLast hframed [0, 0, 0] (by simp)) (by decide)

end Msgbox
