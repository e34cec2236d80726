import Mathlib.Algebra.GroupWithZero.Nat
import Msgbox.Spec.Queue

/-!
# What a conn sends is a sequence of frames

A call of `send_data` writes one frame or a part from its front. Where a part was written the
next call writes from its own beginning, so the output stays a sequence of frames exactly as
long as nothing follows a part.

## Key results

- `IsFrame`, `IsCut`: a whole frame, and a proper part from the front of one
- `Framed`: frames, the last of which may be cut
- `accepted`, `sendAll_fst`: how many bytes the calls of `send` accept, and what gets through
- `keepsFraming`: a step writes nothing behind a part of a frame
- `step_sent`: a step sends nothing, or one frame
-/

namespace Msgbox

open State (sendAll)

/-! ## Frames -/

/-- A header and as many bytes as it announces. -/
def IsFrame (bs : List UInt8) : Prop :=
  headerLen ≤ bs.length ∧ bs.length = headerLen + (decodeHeader bs).numBytes.toNat

instance (bs : List UInt8) : Decidable (IsFrame bs) := by
  unfold IsFrame
  infer_instance

/-- A proper part from the front of a frame. -/
def IsCut (bs : List UInt8) : Prop := ∃ f, IsFrame f ∧ bs <+: f ∧ bs ≠ f

/-- Whole frames, with perhaps one part of a frame behind them. -/
def Framed (writes : List (List UInt8)) : Prop :=
  ∃ frames last, writes = frames ++ last ∧ (∀ f ∈ frames, IsFrame f) ∧
    (last = [] ∨ ∃ b, last = [b] ∧ IsCut b)

/-- A part of a frame is not a frame: its header announces more. -/
theorem IsCut.not_frame {bs : List UInt8} (h : IsCut bs) : ¬ IsFrame bs := by
  obtain ⟨f, hf, hprefix, hne⟩ := h
  intro hbs
  apply hne
  apply hprefix.eq_of_length
  rw [hbs.2, hf.2, decodeHeader_prefix hprefix hbs.1]

/-- What `set_header` writes in front of a payload makes it a frame. -/
theorem isFrame_setHeader (t : MsgType) (id : UInt16) {n : Nat} {payload : List UInt8}
    (hn : n = payload.length) (hlen : payload.length < 4294967296) :
    IsFrame (setHeader t id n ++ payload) := by
  subst hn
  constructor
  · rw [List.length_append, length_setHeader]
    omega
  · rw [setHeader, decodeHeader_encodeHeader, List.length_append, length_encodeHeader,
      UInt32.toNat_ofNat', Nat.mod_eq_of_lt hlen]

/-- Nothing written is framed. -/
theorem framed_nil : Framed [] :=
  ⟨[], [], rfl, fun _ h => absurd h List.not_mem_nil, .inl rfl⟩

/-- All writes but the last are frames. -/
theorem framed_dropLast {writes : List (List UInt8)} (h : Framed writes) :
    ∀ b ∈ writes.dropLast, IsFrame b := by
  obtain ⟨frames, last, rfl, hframes, hlast⟩ := h
  intro b hb
  apply hframes
  rcases hlast with rfl | ⟨cut, rfl, -⟩
  · rw [List.append_nil] at hb
    exact List.mem_of_mem_dropLast hb
  · rwa [List.dropLast_concat] at hb

/-- Where the last write was a frame, one more may follow, whole or cut. -/
theorem framed_append {writes : List (List UInt8)} {b : List UInt8} (h : Framed writes)
    (hlast : ∀ w, writes.getLast? = some w → IsFrame w) (hb : IsFrame b ∨ IsCut b) :
    Framed (writes ++ [b]) := by
  obtain ⟨frames, last, rfl, hframes, hcut⟩ := h
  -- The last write is not cut, for it is a frame.
  have hnil : last = [] := by
    rcases hcut with hnil | ⟨cut, rfl, hcut⟩
    · exact hnil
    · exact absurd (hlast cut (by rw [List.getLast?_concat])) hcut.not_frame
  subst hnil
  rw [List.append_nil]
  rcases hb with hframe | hcut
  · refine ⟨frames ++ [b], [], (List.append_nil _).symm, ?_, .inl rfl⟩
    intro f hf
    rcases List.mem_append.mp hf with hold | hnew
    · exact hframes f hold
    · exact List.mem_singleton.mp hnew ▸ hframe
  · exact ⟨frames, [b], rfl, hframes, .inr ⟨b, rfl, hcut⟩⟩

/-! ## The loop of `send_all` -/

/-- `send_all` gets through bytes from the front. -/
private theorem sendAll_prefix (schedule : List SendResult) (remaining : List UInt8) :
    (sendAll schedule remaining).1 <+: remaining := by
  induction schedule generalizing remaining with
  | nil => cases remaining <;> exact List.prefix_rfl
  | cons r schedule ih =>
    cases remaining with
    | nil => exact List.prefix_rfl
    | cons b remaining =>
      cases r with
      | accept n =>
        have hrest := ih ((b :: remaining).drop (max 1 n))
        have happend := (List.prefix_append_right_inj ((b :: remaining).take (max 1 n))).mpr hrest
        rw [List.take_append_drop] at happend
        exact happend
      | fail e =>
        cases e with
        | wouldBlock => exact ih (b :: remaining)
        | _ => exact List.nil_prefix

/-- An error that ends the loop of `send_all`. -/
def SendResult.isError : SendResult → Bool
  | .fail e => e != .wouldBlock
  | .accept _ => false

/-- A schedule has an error when some call fails other than by blocking. -/
theorem any_isError_iff {schedule : List SendResult} :
    schedule.any SendResult.isError = true ↔
      ∃ e, e ≠ .wouldBlock ∧ SendResult.fail e ∈ schedule := by
  rw [List.any_eq_true]
  constructor
  · rintro ⟨r, hr, herror⟩
    cases r with
    | accept n => exact Bool.noConfusion herror
    | fail e => exact ⟨e, by simpa [SendResult.isError] using herror, hr⟩
  · rintro ⟨e, he, hmem⟩
    exact ⟨.fail e, hmem, by simpa [SendResult.isError] using he⟩

/-- How many bytes a call of `send` accepts, as long as so many are left. -/
def SendResult.amount : SendResult → Option Nat
  | .accept n => some (max 1 n)
  | .fail _ => none

/-- How many bytes the calls of `send` before the first error accept. -/
def accepted (schedule : List SendResult) : List Nat :=
  (schedule.takeWhile fun r => !r.isError).filterMap SendResult.amount

@[simp] theorem accepted_nil : accepted [] = [] := rfl

@[simp] theorem accepted_accept (n : Nat) (schedule : List SendResult) :
    accepted (.accept n :: schedule) = max 1 n :: accepted schedule := rfl

@[simp] theorem accepted_wouldBlock (schedule : List SendResult) :
    accepted (.fail .wouldBlock :: schedule) = accepted schedule := rfl

/-- What comes after a hard error is never called. -/
theorem accepted_error {e : Errno} (he : e ≠ .wouldBlock) (schedule : List SendResult) :
    accepted (.fail e :: schedule) = [] := by
  simp [accepted, SendResult.isError, he]

/-- `send_all` gets through as many bytes as the calls before the first error accept. -/
theorem sendAll_fst (schedule : List SendResult) (remaining : List UInt8) :
    (sendAll schedule remaining).1 =
      if schedule.any SendResult.isError then remaining.take (accepted schedule).sum
      else remaining := by
  induction schedule generalizing remaining with
  | nil => cases remaining <;> rfl
  | cons r schedule ih =>
    cases remaining with
    | nil => simp [sendAll]
    | cons b remaining =>
      cases r with
      | accept n =>
        simp only [sendAll, ih, List.any_cons, SendResult.isError, Bool.false_or, accepted_accept,
          List.sum_cons]
        split
        · rw [List.take_add]
        · rw [List.take_append_drop]
      | fail e =>
        cases e with
        | wouldBlock => exact ih (b :: remaining)
        | _ => simp [sendAll, SendResult.isError, accepted_error]

/-- The first call of `send` that does not ask to try again fails. -/
def SendIn.refused (w : SendIn) : Bool :=
  match w.schedule.dropWhile (· == .fail .wouldBlock) with
  | .fail _ :: _ => true
  | _ => false

/-- A refused send writes nothing. -/
private theorem sendAll_refused {w : SendIn} (h : w.refused = true) (frame : List UInt8) :
    (sendAll w.schedule frame).1 = [] := by
  obtain ⟨schedule, result⟩ := w
  induction schedule with
  | nil => exact Bool.noConfusion h
  | cons r schedule ih =>
    cases frame with
    | nil => rfl
    | cons b frame =>
      cases r with
      | accept n => exact Bool.noConfusion h
      | fail e =>
        cases e with
        | wouldBlock => exact ih h
        | _ => rfl

/-! ## The output of a conn -/

/-- The bytes that an observation reports as written through the conn. -/
def Obs.written (c : ConnId) : Obs → Option (List UInt8)
  | .sent c' _ accepted _ => if c' = c ∧ accepted ≠ [] then some accepted else none
  | _ => none

/-- The writes through the conn, oldest first: what the kernel accepted of each frame, if it
    accepted some of it. -/
def writes (t : List Obs) (c : ConnId) : List (List UInt8) :=
  (t.filterMap (Obs.written c)).reverse

/-- The last write was a part of a frame. -/
def cutOff (t : List Obs) (c : ConnId) : Bool :=
  match (writes t c).getLast? with
  | some w => !decide (IsFrame w)
  | none => false

/-- Only sends write. -/
theorem writes_cons {o : Obs} (ho : o.isSent = false) (t : List Obs) (c : ConnId) :
    writes (o :: t) c = writes t c := by
  have hnone : o.written c = none := by
    cases o with
    | sent => exact Bool.noConfusion ho
    | _ => rfl
  rw [writes, List.filterMap_cons_none hnone]
  rfl

/-- The writes depend only on what was sent. -/
theorem writes_filter (t : List Obs) (c : ConnId) :
    writes (t.filter Obs.isSent) c = writes t c := by
  induction t with
  | nil => rfl
  | cons o t ih =>
    cases ho : o.isSent with
    | false => rw [List.filter_cons_of_neg (by simp [ho]), ih, writes_cons ho]
    | true =>
      rw [List.filter_cons_of_pos ho]
      simp only [writes, List.filterMap_cons] at ih ⊢
      cases o.written c with
      | none => exact ih
      | some w =>
        rw [List.reverse_cons, List.reverse_cons, ih]

/-- What one call of `send_data` adds. -/
theorem writes_sent (t : List Obs) (c c' : ConnId) (sock : Sock) (accepted : List UInt8)
    (complete : Bool) :
    writes (.sent c sock accepted complete :: t) c' =
      if c = c' ∧ accepted ≠ [] then writes t c' ++ [accepted] else writes t c' := by
  simp only [writes, List.filterMap_cons, Obs.written]
  split
  · rename_i h
    split at h
    · exact absurd h (Option.some_ne_none _)
    · rename_i hnot
      rw [if_neg hnot]
  · rename_i h
    split at h
    · rename_i hsent
      rw [if_pos hsent, ← Option.some.inj h, List.reverse_cons]
    · exact absurd h.symm (Option.some_ne_none _)

/-! ## Steps -/

/-- The frame that a step sends, through which conn, and the system calls. -/
def outgoing (s : State) : Input → Option (ConnId × List UInt8 × SendIn)
  | .app (.send c payload w) => some (c, s.sendFrame c payload, w)
  | .app (.get c payload _ _ w) =>
    (s.statusOfConn c).map fun sid =>
      (c, setHeader .request (s.status sid).nextReplyId payload.length ++ payload, w)
  | .app (.disconnect c w) => some (c, setHeader .close 0 0, w)
  | _ => none

/-- The descriptor is closed, or the kernel refuses the frame before it takes a byte of it. -/
def sendRefused (s : State) (c : ConnId) (w : SendIn) : Bool :=
  (s.sockets (s.conn c).socket).isNone ||
    if (s.conn c).protocolType = .tcp then w.refused else w.result.isSome

/-- The payload is shorter than 2³² bytes, and if a part of a frame was the last that was
    written through the conn, the kernel takes nothing more. -/
def keepsFraming (s : State) (i : Input) : Bool :=
  match outgoing s i with
  | none => true
  | some (c, frame, w) =>
    decide (frame.length < headerLen + 4294967296) && (!cutOff s.trace c || sendRefused s c w)

/-- The frame of a step that sends is its outgoing one. -/
theorem Input.Sends.outgoing_eq {s : State} {i : Input} {c : ConnId} {frame : List UInt8}
    {w : SendIn} (h : i.Sends s c frame w) : outgoing s i = some (c, frame, w) := by
  cases h with
  | send hcalls => rw [hcalls.input, outgoing]
  | get hcalls hsid => rw [hcalls.input, outgoing, hsid, Option.map_some]
  | disconnect hcalls => rw [hcalls.input, outgoing]

/-- Each call of `send_data` is given a header with the payload it announces. -/
theorem Input.Sends.isFrame {s : State} {i : Input} {c : ConnId} {frame : List UInt8}
    {w : SendIn} (h : i.Sends s c frame w) (hlen : frame.length < headerLen + 4294967296) :
    IsFrame frame := by
  cases h with
  | send =>
    apply isFrame_setHeader _ _ rfl
    rw [State.sendFrame, List.length_append, length_setHeader] at hlen
    omega
  | get =>
    apply isFrame_setHeader _ _ rfl
    rw [List.length_append, length_setHeader] at hlen
    omega
  | disconnect => decide

namespace State

variable {s₀ s s' : State} {i : Input}

/-- The bytes that are accepted are the frame, or come from its front. -/
theorem sendOutcome_prefix (s : State) (c : ConnId) (frame : List UInt8) (w : SendIn) :
    (s.sendOutcome c frame w).1 <+: frame := by
  unfold sendOutcome
  split
  · exact List.nil_prefix
  · split
    · exact sendAll_prefix w.schedule frame
    · split
      · exact List.prefix_rfl
      · exact List.nil_prefix

/-- Where the send is refused, nothing of the frame is written. -/
theorem sendOutcome_refused {c : ConnId} {w : SendIn} (h : sendRefused s c w = true)
    (frame : List UInt8) : (s.sendOutcome c frame w).1 = [] := by
  unfold sendRefused at h
  unfold sendOutcome
  cases hsock : s.sockets (s.conn c).socket with
  | none => rfl
  | some k =>
    rw [hsock, Option.isNone_some, Bool.false_or] at h
    dsimp only
    split
    · rename_i htcp
      rw [if_pos htcp] at h
      exact sendAll_refused h frame
    · rename_i htcp
      rw [if_neg htcp] at h
      rw [if_neg]
      intro hnone
      rw [Option.isNone_iff_eq_none.mp hnone] at h
      exact Bool.noConfusion h

/-- An effect sends nothing, or the one frame of its step. -/
private theorem effect_sent (heffect : Effect s₀ i s s') :
    s'.trace.filter Obs.isSent = s.trace.filter Obs.isSent ∨
      ∃ c frame w, i.Sends s₀ c frame w ∧
        s.trace.filter Obs.isSent = s₀.trace.filter Obs.isSent ∧
        s'.trace = .sent c (s₀.conn c).socket (s₀.sendOutcome c frame w).1
          (s₀.sendOutcome c frame w).2 :: s.trace := by
  have hlog : ∀ {o : Obs}, o.isSent = false →
      (o :: s.trace).filter Obs.isSent = s.trace.filter Obs.isSent :=
    fun ho => List.filter_cons_of_neg (by simp [ho])
  cases heffect with
  | early hearly =>
    cases hearly with
    | note o ho hnotes =>
      cases hnotes with
      -- The only effect that writes.
      | sent hsends hfirst => exact .inr ⟨_, _, _, hsends, hfirst, rfl⟩
      | received | recvFailed | disconnected => exact .inl (hlog rfl)
    | header | ready | error => exact .inl (hlog rfl)
    | kernel | leak | close | poll | buffer | unflag => exact .inl rfl
  | oneWay | datagram | opened | listening | get | failedGet | expire => exact .inl (hlog rfl)
  | context | address | swap | phase => exact .inl rfl
  | removal =>
    obtain ⟨index, heq⟩ := removalPass_eq s
    rw [heq]
    exact .inl rfl
  | call =>
    rw [makeCall_eq]
    exact .inl (hlog rfl)
  | finish =>
    rw [finishCall_eq]
    exact .inl rfl

/-- The end of a step sends nothing. -/
private theorem final_sent (hfinal : Final s₀ i s s') :
    s'.trace.filter Obs.isSent = s.trace.filter Obs.isSent := by
  have hlog : ∀ {o : Obs}, o.isSent = false →
      (o :: s.trace).filter Obs.isSent = s.trace.filter Obs.isSent :=
    fun ho => List.filter_cons_of_neg (by simp [ho])
  cases hfinal with
  | handled | matched | unmatched | refuse => exact hlog rfl
  | @drop c event =>
    show (s.localDisconnect c event).trace.filter Obs.isSent = _
    rw [localDisconnect_trace]
    exact hlog rfl
  | fail k msg =>
    show (_ :: .opened s.nextConn :: s.trace).filter Obs.isSent = _
    rw [List.filter_cons_of_neg (by simp [Obs.isSent]), hlog rfl]

/-- The sends decide what was written. -/
theorem writes_eq {t t' : List Obs} (h : t'.filter Obs.isSent = t.filter Obs.isSent) (c : ConnId) :
    writes t' c = writes t c := by
  rw [← writes_filter, h, writes_filter]

/-- A step sends nothing, or one frame. -/
theorem step_sent (hstep : step s i = some s') :
    s'.trace.filter Obs.isSent = s.trace.filter Obs.isSent ∨
      ∃ c frame w, i.Sends s c frame w ∧
        s'.trace.filter Obs.isSent = .sent c (s.conn c).socket (s.sendOutcome c frame w).1
          (s.sendOutcome c frame w).2 :: s.trace.filter Obs.isSent := by
  obtain ⟨s₁, heffects, hlast⟩ := step_effects hstep
  have hend : s'.trace.filter Obs.isSent = s₁.trace.filter Obs.isSent := by
    rcases hlast with rfl | hfinal
    · rfl
    · exact final_sent hfinal
  rw [hend]
  clear hlast hend
  induction heffects with
  | refl => exact .inl rfl
  | tail _ heffect ih =>
    rcases effect_sent heffect with hquiet | ⟨c, frame, w, hsends, hfirst, htrace⟩
    · rw [hquiet]
      exact ih
    · refine .inr ⟨c, frame, w, hsends, ?_⟩
      rw [htrace, List.filter_cons_of_pos rfl, hfirst]

end State

end Msgbox
