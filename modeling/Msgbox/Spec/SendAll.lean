import Msgbox.Spec.Framing

/-!
# The loop of `send_all`

The loop moves a pointer into the message buffer, from the header in front of `data.bytes` on,
together with the number of bytes that remain. Whatever part of them each call of `send` accepts,
the pieces are the frame from its front.

## Key results

- `sendAllLoop_window`: the pieces are the front of the bytes that remain, and all of them exactly
  if the loop returns 0
- `sendAllLoop_accepted`: which pieces the calls of `send` take, and how the loop ends
- `send_all_exact`: the same of `send_all`, for the header and the payload
- `sendAll_of_loop`, `sendData_of_loop`: `sendAll` and `sendData` run this loop
-/

namespace Msgbox

open State

/-! ## The buffer -/

namespace State.DataInMemory

/-- The header in front of the data. -/
def header (data : DataInMemory) : List UInt8 :=
  (data.memory.drop (data.bytes - headerLen)).take headerLen

def payload (data : DataInMemory) : List UInt8 := (data.memory.drop data.bytes).take data.numBytes

private theorem length_header (data : DataInMemory) : data.header.length = headerLen := by
  have hheader := data.header_le
  have hend := data.end_le
  rw [header, List.length_take, List.length_drop]
  omega

private theorem length_payload (data : DataInMemory) : data.payload.length = data.numBytes := by
  have hend := data.end_le
  rw [payload, List.length_take, List.length_drop]
  omega

/-- The window that `send_all` starts with is the header and the payload. -/
private theorem window_eq (data : DataInMemory) :
    (data.memory.drop (data.bytes - headerLen)).take (data.numBytes + headerLen) =
      data.header ++ data.payload := by
  have hheader := data.header_le
  rw [Nat.add_comm, List.take_add, List.drop_drop, Nat.sub_add_cancel hheader]
  rfl

/-- `set_header` writes in front of the data. -/
def setHeader (data : DataInMemory) (t : MsgType) (id : UInt16) : DataInMemory where
  memory := data.memory.take (data.bytes - headerLen) ++
    (Msgbox.setHeader t id data.numBytes ++ data.memory.drop data.bytes)
  bytes := data.bytes
  numBytes := data.numBytes
  header_le := data.header_le
  end_le := by
    have hheader := data.header_le
    have hend := data.end_le
    rw [List.length_append, List.length_append, length_setHeader, List.length_take,
      List.length_drop]
    omega

private theorem setHeader_header (data : DataInMemory) (t : MsgType) (id : UInt16) :
    (data.setHeader t id).header = Msgbox.setHeader t id data.numBytes := by
  have hend := data.end_le
  have hlen : (data.memory.take (data.bytes - headerLen)).length = data.bytes - headerLen := by
    rw [List.length_take]
    omega
  show ((_ ++ (Msgbox.setHeader t id data.numBytes ++ _)).drop (data.bytes - headerLen)).take _ = _
  rw [List.drop_left' hlen, List.take_left' (length_setHeader t id data.numBytes)]

private theorem setHeader_payload (data : DataInMemory) (t : MsgType) (id : UInt16) :
    (data.setHeader t id).payload = data.payload := by
  have hheader := data.header_le
  have hend := data.end_le
  have hlen : (data.memory.take (data.bytes - headerLen) ++
      Msgbox.setHeader t id data.numBytes).length = data.bytes := by
    rw [List.length_append, List.length_take, length_setHeader]
    omega
  show ((_ ++ (Msgbox.setHeader t id data.numBytes ++ _)).drop data.bytes).take data.numBytes = _
  rw [← List.append_assoc, List.drop_left' hlen]
  rfl

end State.DataInMemory

/-! ## The loop -/

/-- A piece from the front of a window, and the window that remains. -/
private theorem window_split (memory : List UInt8) (bytes : Nat) {justSent numBytes : Nat}
    (h : justSent ≤ numBytes) :
    (memory.drop bytes).take numBytes = (memory.drop bytes).take justSent ++
      (memory.drop (bytes + justSent)).take (numBytes - justSent) := by
  conv => lhs; rw [show numBytes = justSent + (numBytes - justSent) by omega]
  rw [List.take_add, List.drop_drop]

/-- The pieces are the front of the window. The loop returns 0 if they are all of it, and is
    interrupted before if it returns -1 or needs more results. -/
theorem sendAllLoop_window (memory : List UInt8) (schedule : List SendResult) (bytes numBytes : Nat)
    (hend : bytes + numBytes ≤ memory.length) :
    let r := sendAllLoop memory schedule bytes numBytes
    r.1.flatten <+: (memory.drop bytes).take numBytes ∧
      (r.2 = some 0 ↔ r.1.flatten.length = numBytes) := by
  induction schedule generalizing bytes numBytes with
  | nil =>
    cases numBytes with
    | zero => simp [sendAllLoop]
    | succ numBytes => simp [sendAllLoop]
  | cons result schedule ih =>
    cases numBytes with
    | zero => simp [sendAllLoop]
    | succ numBytes =>
      cases result with
      | accept n =>
        -- The pointer and the count move by what was accepted, and still give the window's end.
        have hle : min (max 1 n) (numBytes + 1) ≤ numBytes + 1 := by omega
        simp only [sendAllLoop]
        generalize min (max 1 n) (numBytes + 1) = justSent at hle ⊢
        obtain ⟨hfront, hall⟩ := ih (bytes + justSent) (numBytes + 1 - justSent) (by omega)
        have hpiece : ((memory.drop bytes).take justSent).length = justSent := by
          rw [List.length_take, List.length_drop]
          omega
        constructor
        · rw [window_split memory bytes hle, List.flatten_cons]
          exact (List.prefix_append_right_inj _).mpr hfront
        · rw [hall, List.flatten_cons, List.length_append, hpiece]
          omega
      | fail e =>
        cases e with
        | wouldBlock =>
          simp only [sendAllLoop]
          exact ih bytes (numBytes + 1) hend
        | _ => simp [sendAllLoop]

/-- A call of `send` that accepts bytes. -/
def SendResult.accepts : SendResult → Bool
  | .accept _ => true
  | .fail _ => false

/-- As many acceptances as there are bytes end the loop, and so does an error. -/
private theorem sendAllLoop_returns (memory : List UInt8) (schedule : List SendResult)
    (bytes numBytes : Nat) (h : numBytes ≤ schedule.countP SendResult.accepts ∨
      ∃ e, e ≠ .wouldBlock ∧ SendResult.fail e ∈ schedule) :
    (sendAllLoop memory schedule bytes numBytes).2 = some 0 ∨
      (sendAllLoop memory schedule bytes numBytes).2 = some (-1) := by
  induction schedule generalizing bytes numBytes with
  | nil =>
    cases numBytes with
    | zero => simp [sendAllLoop]
    | succ numBytes => simp at h
  | cons result schedule ih =>
    cases numBytes with
    | zero => simp [sendAllLoop]
    | succ numBytes =>
      cases result with
      | accept n =>
        simp only [sendAllLoop]
        apply ih
        -- The accepted bytes are at least one, so as many calls are still enough.
        rw [List.countP_cons_of_pos rfl] at h
        rcases h with hcount | ⟨e, hne, hmem⟩
        · exact .inl (by omega)
        · exact .inr ⟨e, hne, by simpa using hmem⟩
      | fail e =>
        cases e with
        -- `EAGAIN` only makes the loop call `send` again.
        | wouldBlock =>
          simp only [sendAllLoop]
          apply ih
          rw [List.countP_cons_of_neg (by simp [SendResult.accepts])] at h
          rcases h with hcount | ⟨e, hne, hmem⟩
          · exact .inl hcount
          · exact .inr ⟨e, hne, by simpa [hne] using hmem⟩
        | _ => simp [sendAllLoop]

/-- The pieces are cut from the window by the amounts that the calls accept. The loop returns 0
    exactly if these are enough, and -1 exactly if they are not and an error comes. -/
theorem sendAllLoop_accepted (memory : List UInt8) (schedule : List SendResult)
    (bytes numBytes : Nat) :
    ((sendAllLoop memory schedule bytes numBytes).2 = some 0 ↔ numBytes ≤ (accepted schedule).sum) ∧
      ((sendAllLoop memory schedule bytes numBytes).2 = some (-1) ↔
        (accepted schedule).sum < numBytes ∧ schedule.any SendResult.isError = true) ∧
      ∀ k, (sendAllLoop memory schedule bytes numBytes).1[k]? =
        if ((accepted schedule).take k).sum < numBytes then
          (accepted schedule)[k]?.map fun n =>
            (((memory.drop bytes).take numBytes).drop ((accepted schedule).take k).sum).take n
        else none := by
  induction schedule generalizing bytes numBytes with
  | nil =>
    cases numBytes with
    | zero => simp [sendAllLoop]
    | succ numBytes => simp [sendAllLoop]
  | cons result schedule ih =>
    cases numBytes with
    | zero => simp [sendAllLoop]
    | succ numBytes =>
      cases result with
      | accept n =>
        obtain ⟨hzero, hfailed, hpieces⟩ := ih (bytes + min (max 1 n) (numBytes + 1))
          (numBytes + 1 - min (max 1 n) (numBytes + 1))
        rw [accepted_accept, List.sum_cons, List.any_cons]
        simp only [sendAllLoop, SendResult.isError, Bool.false_or, hzero, hfailed]
        refine ⟨by omega, and_congr_left fun _ => by omega, fun k => ?_⟩
        cases k with
        | zero => simp [List.take_take]
        | succ k =>
          rw [List.getElem?_cons_succ, List.getElem?_cons_succ, hpieces, List.take_succ_cons,
            List.sum_cons]
          -- The window that is left begins behind the first piece.
          have hwindow : ∀ i, ((memory.drop bytes).take (numBytes + 1)).drop (max 1 n + i) =
              ((memory.drop (bytes + max 1 n)).take (numBytes + 1 - max 1 n)).drop i := by
            intro i
            rw [← List.drop_drop, List.drop_take, List.drop_drop]
          split <;> split
          · have hmin : min (max 1 n) (numBytes + 1) = max 1 n := by omega
            rw [hmin, hwindow]
          · omega
          · omega
          · rfl
      | fail e =>
        cases e with
        | wouldBlock =>
          simp only [sendAllLoop, accepted_wouldBlock, List.any_cons, SendResult.isError]
          exact ih bytes (numBytes + 1)
        | _ => simp [sendAllLoop, SendResult.isError, accepted_error]

/-- The loop of the model over the bytes that remain is this loop, as far as its results go. -/
theorem sendAll_of_loop (memory : List UInt8) (schedule : List SendResult) (bytes numBytes : Nat)
    (hend : bytes + numBytes ≤ memory.length) {result : Int}
    (h : (sendAllLoop memory schedule bytes numBytes).2 = some result) :
    (sendAll schedule ((memory.drop bytes).take numBytes)).1 =
        (sendAllLoop memory schedule bytes numBytes).1.flatten ∧
      ((sendAll schedule ((memory.drop bytes).take numBytes)).2 = none ↔ result = 0) := by
  induction schedule generalizing bytes numBytes with
  | nil =>
    cases numBytes with
    | zero =>
      simp only [sendAllLoop, Option.some.injEq] at h
      simp [sendAll, sendAllLoop, h]
    | succ numBytes => simp [sendAllLoop] at h
  | cons r schedule ih =>
    cases numBytes with
    | zero =>
      simp only [sendAllLoop, Option.some.injEq] at h
      simp [sendAll, sendAllLoop, h]
    | succ numBytes =>
      -- There are bytes left, so both loops call `send`.
      obtain ⟨b, window, hwindow⟩ : ∃ b window,
          (memory.drop bytes).take (numBytes + 1) = b :: window := by
        apply List.exists_cons_of_length_pos
        rw [List.length_take, List.length_drop]
        omega
      cases r with
      | accept n =>
        have htake : ((memory.drop bytes).take (numBytes + 1)).take (max 1 n) =
            (memory.drop bytes).take (min (max 1 n) (numBytes + 1)) := by
          rw [List.take_take]
        have hdrop : ((memory.drop bytes).take (numBytes + 1)).drop (max 1 n) =
            (memory.drop (bytes + min (max 1 n) (numBytes + 1))).take
              (numBytes + 1 - min (max 1 n) (numBytes + 1)) := by
          rw [List.drop_take]
          rcases Nat.le_total (max 1 n) (numBytes + 1) with hle | hle
          · rw [Nat.min_eq_left hle, List.drop_drop]
          · rw [Nat.min_eq_right hle, Nat.sub_self, Nat.sub_eq_zero_of_le hle, List.take_zero,
              List.take_zero]
        simp only [sendAllLoop] at h ⊢
        have hrest := ih (bytes + min (max 1 n) (numBytes + 1))
          (numBytes + 1 - min (max 1 n) (numBytes + 1)) (by omega) h
        rw [hwindow] at htake hdrop ⊢
        rw [sendAll, htake, hdrop, List.flatten_cons, hrest.1]
        · exact ⟨rfl, hrest.2⟩
        · exact List.cons_ne_nil b window
      | fail e =>
        cases e with
        | wouldBlock =>
          simp only [sendAllLoop] at h ⊢
          have hrest := ih bytes (numBytes + 1) hend h
          rw [hwindow] at hrest ⊢
          exact hrest
        | _ =>
          simp only [sendAllLoop, Option.some.injEq] at h
          rw [hwindow]
          simp [sendAll, sendAllLoop, ← h]

/-! ## The functions that send -/

namespace State

/-- What `msg_send` sends is the header that `set_header` writes in front of the payload. -/
theorem sendFrame_eq (s : State) (c : ConnId) (data : DataInMemory) :
    s.sendFrame c data.payload =
      (data.setHeader (if (s.conn c).replyId ≠ 0 then .reply else .oneWay)
        (s.conn c).replyId).header ++
        (data.setHeader (if (s.conn c).replyId ≠ 0 then .reply else .oneWay)
          (s.conn c).replyId).payload := by
  rw [DataInMemory.setHeader_header, DataInMemory.setHeader_payload, ← data.length_payload]
  rfl

/-- On a tcp conn `send_data` runs this loop, and fails if it does. -/
theorem sendData_of_loop {s : State} {c : ConnId} {k : Socket} {data : DataInMemory} {w : SendIn}
    {result : Int} (htcp : (s.conn c).protocolType = .tcp)
    (hopen : s.sockets (s.conn c).socket = some k)
    (h : (sendAllOf data w.schedule).2 = some result) :
    (s.sendData c (data.header ++ data.payload) w).1 = s.log (.sent c (s.conn c).socket
        (sendAllOf data w.schedule).1.flatten (decide (result = 0))) ∧
      ((s.sendData c (data.header ++ data.payload) w).2 = none ↔ result = 0) := by
  have hend := data.end_le
  have hheader := data.header_le
  have hloop := sendAll_of_loop data.memory w.schedule (data.bytes - headerLen)
    (data.numBytes + headerLen) (by omega) h
  rw [data.window_eq] at hloop
  have hcomplete : (sendAll w.schedule (data.header ++ data.payload)).2.isNone =
      decide (result = 0) := by
    rw [Bool.eq_iff_iff, Option.isNone_iff_eq_none, hloop.2, decide_eq_true_iff]
  unfold sendData
  dsimp only
  rw [hopen]
  dsimp only
  rw [if_pos htcp, hloop.1, hcomplete, Option.map_eq_none_iff, hloop.2]
  exact ⟨rfl, Iff.rfl⟩

end State

/-! ## Main results -/

/-- `send_all` returns 0 exactly if all bytes were accepted, and the pieces are then the header and
    the payload; if it returns -1 they are a proper part from the front. It returns if an error
    comes or enough is accepted.

    What each call of `send` accepts decides the rest: 0 is returned exactly if the calls before the
    first error accept enough, and -1 exactly if they do not and an error comes. The pieces are cut
    from the frame by what the calls accept, one behind the other, until nothing is left. -/
theorem send_all_exact (data : DataInMemory) (schedule : List SendResult) :
    let r := sendAllOf data schedule
    let frame := data.header ++ data.payload
    let amounts := accepted schedule
    (r.2 = some 0 ↔ r.1.flatten.length = headerLen + data.numBytes) ∧
    (r.2 = some 0 → r.1.flatten = frame) ∧
    (r.2 = some (-1) → r.1.flatten <+: frame ∧ r.1.flatten ≠ frame) ∧
    (headerLen + data.numBytes ≤ schedule.countP SendResult.accepts ∨
        (∃ e, e ≠ .wouldBlock ∧ SendResult.fail e ∈ schedule) →
      r.2 = some 0 ∨ r.2 = some (-1)) ∧
    (r.2 = some 0 ↔ headerLen + data.numBytes ≤ amounts.sum) ∧
    (r.2 = some (-1) ↔ amounts.sum < headerLen + data.numBytes ∧
      ∃ e, e ≠ .wouldBlock ∧ SendResult.fail e ∈ schedule) ∧
    ∀ k, r.1[k]? = if (amounts.take k).sum < headerLen + data.numBytes then
        amounts[k]?.map fun n => (frame.drop (amounts.take k).sum).take n
      else none := by
  have hheader := data.header_le
  have hend := data.end_le
  have hlen : (data.header ++ data.payload).length = headerLen + data.numBytes := by
    rw [List.length_append, data.length_header, data.length_payload]
  -- What goes out is the front of the window of memory, whose bytes are the frame.
  obtain ⟨hfront, hall⟩ := sendAllLoop_window data.memory schedule (data.bytes - headerLen)
    (data.numBytes + headerLen) (by omega)
  -- The schedule decides the result, and where each piece begins and ends.
  obtain ⟨hzero, hfailed, hpieces⟩ := sendAllLoop_accepted data.memory schedule
    (data.bytes - headerLen) (data.numBytes + headerLen)
  rw [data.window_eq] at hfront hpieces
  dsimp only
  unfold sendAllOf
  refine ⟨?_, ?_, ?_, ?_, ?_, ?_, ?_⟩
  · rw [hall, Nat.add_comm]
  · intro hreturns
    apply hfront.eq_of_length
    rw [hlen, hall.mp hreturns, Nat.add_comm]
  · intro hreturns
    refine ⟨hfront, ?_⟩
    intro heq
    -- Had all of the frame gone out, the result would be 0.
    have hwhole := hall.mpr (by rw [heq, hlen, Nat.add_comm])
    rw [hreturns] at hwhole
    exact absurd (Option.some.inj hwhole) (by decide)
  · intro hends
    apply sendAllLoop_returns
    rwa [Nat.add_comm]
  · rw [hzero, Nat.add_comm]
  · rw [hfailed, any_isError_iff, Nat.add_comm]
  · rw [Nat.add_comm headerLen]
    exact hpieces

end Msgbox
