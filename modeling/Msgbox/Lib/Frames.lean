import Mathlib.Data.List.Induction

/-!
# Frames in a stream

A frame is a header of fixed length and a body whose length depends on the header. The decoder
takes one symbol of the stream at a time, so what it finds depends on the stream and not on the
pieces in which it arrives. The symbol `none` means that the frame in progress is given up.

Nothing here depends on what the symbols are.

## Key results

- `feed_part`, `feed_whole`: a piece that leaves the frame in progress incomplete, and one that
  completes it
- `decode_frames`: the decoder finds the frames that the stream was made of
- `whole_of_mem`, `frames_append`: what it finds are whole frames, and more of the stream only adds
  to them
- `flatten_decode`: nothing of the stream is lost
-/

namespace Frames

variable {β : Type}

/-- The frame in progress, and the frames that were complete before it. -/
structure Decoder (β : Type) where
  pending : List β := []
  frames : List (List β) := []

section Feed

variable (n : Nat) (size : List β → Nat)

/-- A whole frame. -/
def Whole (bs : List β) : Prop := bs.length = n + size (bs.take n)

/-- One symbol. -/
def feed (d : Decoder β) : Option β → Decoder β
  | none => { d with pending := [] }
  | some b =>
    if n + size ((d.pending ++ [b]).take n) ≤ (d.pending ++ [b]).length then
      { pending := [], frames := d.frames ++ [d.pending ++ [b]] }
    else { d with pending := d.pending ++ [b] }

/-- All symbols of a stream. -/
def decode (stream : List (Option β)) : Decoder β := stream.foldl (feed n size) {}

end Feed

variable {n : Nat} {size : List β → Nat} {d : Decoder β} {bs : List β}

@[simp] theorem decode_nil : decode n size [] = {} := rfl

/-- Decoding more is going on from where the decoder stands. -/
theorem decode_append (stream piece : List (Option β)) :
    decode n size (stream ++ piece) = piece.foldl (feed n size) (decode n size stream) :=
  List.foldl_append

/-- A frame that is given up leaves nothing. -/
theorem decode_none (stream : List (Option β)) :
    decode n size (stream ++ [none]) = { decode n size stream with pending := [] } := by
  rw [decode_append]
  rfl

/-- A beginning of an incomplete frame is incomplete. -/
theorem lt_of_append {b : β} (h : (bs ++ [b]).length < n + size ((bs ++ [b]).take n)) :
    bs.length < n + size (bs.take n) := by
  rw [List.length_append, List.length_singleton] at h
  by_cases hn : n ≤ bs.length
  · rw [List.take_append_of_le_length hn] at h
    omega
  · omega

/-- A piece with which the frame in progress is still incomplete. -/
theorem feed_part (h : (d.pending ++ bs).length < n + size ((d.pending ++ bs).take n)) :
    (bs.map some).foldl (feed n size) d = { d with pending := d.pending ++ bs } := by
  induction bs using List.reverseRecOn with
  | nil => simp
  | append_singleton bs b ih =>
    rw [← List.append_assoc] at h
    rw [List.map_append, List.foldl_append, ih (lt_of_append h)]
    show feed n size _ (some b) = _
    rw [feed, if_neg (Nat.not_le.mpr h), List.append_assoc]

/-- A piece that completes the frame in progress. -/
theorem feed_whole (hne : bs ≠ []) (h : Whole n size (d.pending ++ bs)) :
    (bs.map some).foldl (feed n size) d =
      { pending := [], frames := d.frames ++ [d.pending ++ bs] } := by
  obtain ⟨init, b, rfl⟩ := (List.eq_nil_or_concat bs).resolve_left hne
  rw [List.concat_eq_append] at hne h ⊢
  rw [Whole, ← List.append_assoc] at h
  have hpart : (d.pending ++ init).length < n + size ((d.pending ++ init).take n) := by
    rw [List.length_append, List.length_singleton] at h
    by_cases hn : n ≤ (d.pending ++ init).length
    · rw [List.take_append_of_le_length hn] at h
      omega
    · omega
  rw [List.map_append, List.foldl_append, feed_part hpart]
  show feed n size _ (some b) = _
  rw [feed, if_pos (Nat.le_of_eq h.symm), List.append_assoc]

/-- A stream of whole frames. -/
theorem feed_frames (hn : 0 < n) {frames : List (List β)} (h : ∀ f ∈ frames, Whole n size f)
    (hd : d.pending = []) :
    (frames.flatMap fun f => f.map some).foldl (feed n size) d =
      { pending := [], frames := d.frames ++ frames } := by
  induction frames generalizing d with
  | nil => simp [← hd]
  | cons f frames ih =>
    have hf := h f List.mem_cons_self
    have hne : f ≠ [] := by
      rintro rfl
      have hlen : 0 = n + size ([].take n) := hf
      omega
    rw [List.flatMap_cons, List.foldl_append, feed_whole hne (by rwa [hd]),
      ih (fun g hg => h g (List.mem_cons_of_mem _ hg)) rfl, hd]
    simp

/-- The decoder finds the frames that the stream was made of. -/
theorem decode_frames (hn : 0 < n) {frames : List (List β)} (h : ∀ f ∈ frames, Whole n size f) :
    decode n size (frames.flatMap fun f => f.map some) = { pending := [], frames := frames } :=
  feed_frames hn h rfl

/-- A part from the front of one more frame is not found yet. -/
theorem decode_frames_cut (hn : 0 < n) {frames : List (List β)} (h : ∀ f ∈ frames, Whole n size f)
    {cut f : List β} (hf : Whole n size f) (hcut : cut <+: f) (hne : cut ≠ f) :
    (decode n size ((frames.flatMap fun f => f.map some) ++ cut.map some)).frames = frames := by
  have hless : cut.length < f.length :=
    Nat.lt_of_le_of_ne hcut.length_le fun heq => hne (hcut.eq_of_length heq)
  have hpart : cut.length < n + size (cut.take n) := by
    by_cases hlen : n ≤ cut.length
    · -- The part has all that the size is read from.
      obtain ⟨rest, rfl⟩ := hcut
      have hwhole := hf
      rw [Whole, List.take_append_of_le_length hlen] at hwhole
      omega
    · omega
  rw [decode_append, decode_frames hn h, feed_part (by exact hpart)]

/-! ## What is found -/

/-- More of the stream adds to the frames. -/
theorem feed_frames_prefix (piece : List (Option β)) (d : Decoder β) :
    d.frames <+: (piece.foldl (feed n size) d).frames := by
  induction piece generalizing d with
  | nil => exact List.prefix_rfl
  | cons b piece ih =>
    have hfirst : d.frames <+: (feed n size d b).frames := by
      cases b with
      | none => exact List.prefix_rfl
      | some b =>
        rw [feed]
        split
        · exact List.prefix_append _ _
        · exact List.prefix_rfl
    exact hfirst.trans (ih _)

/-- Frames that were found stay. -/
theorem frames_append (stream piece : List (Option β)) :
    (decode n size stream).frames <+: (decode n size (stream ++ piece)).frames := by
  rw [decode_append]
  exact feed_frames_prefix piece _

/-- The frame in progress is incomplete, and the others are whole. -/
def Found (n : Nat) (size : List β → Nat) (d : Decoder β) : Prop :=
  d.pending.length < n + size (d.pending.take n) ∧ ∀ f ∈ d.frames, Whole n size f

/-- Every byte keeps the invariant of the decoder. -/
theorem found_feed (hn : 0 < n) (h : Found n size d) (b : Option β) :
    Found n size (feed n size d b) := by
  have hempty : ([] : List β).length < n + size (([] : List β).take n) := by
    rw [List.length_nil]
    omega
  cases b with
  | none => exact ⟨hempty, h.2⟩
  | some b =>
    rw [feed]
    split
    · rename_i hle
      refine ⟨hempty, fun f hf => ?_⟩
      rcases List.mem_append.mp hf with hold | hnew
      · exact h.2 f hold
      · rw [List.mem_singleton.mp hnew]
        -- One symbol before, the frame was incomplete.
        have hbefore := h.1
        rw [List.length_append, List.length_singleton] at hle
        rw [Whole, List.length_append, List.length_singleton]
        by_cases hlen : n ≤ d.pending.length
        · rw [List.take_append_of_le_length hlen] at hle ⊢
          omega
        · omega
    · rename_i hlt
      exact ⟨Nat.not_le.mp hlt, h.2⟩

/-- So every stream leaves it in a state of this kind. -/
theorem found_decode (hn : 0 < n) (stream : List (Option β)) :
    Found n size (decode n size stream) := by
  induction stream using List.reverseRecOn with
  | nil =>
    refine ⟨?_, fun f hf => absurd hf List.not_mem_nil⟩
    show 0 < n + _
    omega
  | append_singleton stream b ih =>
    rw [decode_append]
    exact found_feed hn ih b

/-- The frames and what is left of the stream are the whole stream. -/
theorem flatten_decode (bs : List β) :
    (decode n size (bs.map some)).frames.flatten ++ (decode n size (bs.map some)).pending = bs := by
  induction bs using List.reverseRecOn with
  | nil => rfl
  | append_singleton bs b ih =>
    rw [List.map_append, decode_append]
    show (feed n size _ (some b)).frames.flatten ++ (feed n size _ (some b)).pending = _
    rw [feed]
    split
    · simp only [List.flatten_append, List.flatten_singleton, List.append_nil]
      rw [← List.append_assoc, ih]
    · rw [← List.append_assoc, ih]

/-- Every frame found is whole. -/
theorem whole_of_mem (hn : 0 < n) {stream : List (Option β)} {f : List β}
    (hf : f ∈ (decode n size stream).frames) : Whole n size f :=
  (found_decode hn stream).2 f hf

end Frames
