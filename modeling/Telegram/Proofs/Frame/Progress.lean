import Mathlib.Data.List.Basic
import Telegram.Frame.Decoder

/-!
# Progress of the decoder

What one call of `Layout.next` does to the buffer, over a layout that `Layout.check` accepts:

* **progress**: every answer but `needMore` leaves a shorter buffer, and no answer a longer one;
* **state**: a decoder that skips an oversized frame still has bytes of it to skip, which is what
  `State.Sound` asks.

Both are `Layout.next_advances`, and the header search has a law of its own: it can be interrupted
anywhere (`Header.seek_append`). Errors are about the frame at hand: it is corrupted or oversized
(`Layout.next_concernsFrame`).

The four ways in which `Layout.judge` can end all drop bytes of a frame that is at least as long as the
end of its length field, and an accepted layout has a length field of at least one byte.
-/

namespace Telegram.Frame

/-! ## Accepted layouts

Acceptance is two conditions, and everything below that needs a bound on the length field uses one of
them. -/

/-- A supported length field has at least one byte. -/
theorem pos_of_isFieldWidth {width : Nat} (hwidth : isFieldWidth width = true) : 0 < width := by
  rcases Nat.eq_zero_or_pos width with rfl | hpos
  · cases hwidth
  · exact hpos

/-- **An accepted layout** has a length field of a supported width that ends inside the longest frame. -/
theorem Layout.check_eq_ok_iff {layout : Layout} :
    layout.check = .ok () ↔
      isFieldWidth layout.width.toNat = true ∧ layout.fieldEnd ≤ layout.max := by
  simp only [Layout.check, Layout.fieldEnd]
  constructor
  · intro h
    split at h
    · cases h
    split at h
    · cases h
    rename_i hsupported
    split at h
    · cases h
    split at h
    · cases h
    simp only [Bool.not_eq_true', Bool.not_eq_false] at hsupported
    exact ⟨hsupported, by omega⟩
  · rintro ⟨hsupported, hle⟩
    have hpos := pos_of_isFieldWidth hsupported
    rw [if_neg (by omega), if_neg (by simp [hsupported]), if_neg (by omega), if_neg (by omega)]

/-- The length field of an accepted layout ends after the first byte. -/
theorem Layout.fieldEnd_pos {layout : Layout} (hcheck : layout.check = .ok ()) :
    0 < layout.fieldEnd := by
  obtain ⟨hwidth, -⟩ := Layout.check_eq_ok_iff.1 hcheck
  have hpos := pos_of_isFieldWidth hwidth
  rw [Layout.fieldEnd]
  omega

/-- As many bytes as a length field has are read, whatever they are. -/
theorem readLength_of_length {width : Nat} (hwidth : isFieldWidth width = true) (order : ByteOrder)
    {bytes : Bytes} (hlength : bytes.length = width) :
    readLength order width bytes = .ok (signed64 (order.decode bytes)) := by
  have hsplit : bytes.split? width = some (bytes, []) :=
    (Bytes.split?_eq_some_iff _ _ _ _).2 ⟨by simp, hlength⟩
  simp [readLength, hwidth, ByteOrder.split?, hsplit]

/-- The length field is all there once the buffer reaches its end. -/
theorem Layout.length_field {layout : Layout} {buffer : Bytes} (hlong : layout.fieldEnd ≤ buffer.length) :
    (layout.field buffer).length = layout.width.toNat := by
  simp only [Layout.field, List.length_drop, List.length_take]
  rw [Nat.min_eq_left hlong, Layout.fieldEnd]
  omega

/-- **The length field can be read** once the buffer reaches its end. -/
theorem Layout.readLength_field {layout : Layout} (hcheck : layout.check = .ok ()) {buffer : Bytes}
    (hlong : layout.fieldEnd ≤ buffer.length) :
    ∃ raw, readLength layout.order layout.width.toNat (layout.field buffer) = .ok raw := by
  obtain ⟨hwidth, -⟩ := Layout.check_eq_ok_iff.1 hcheck
  exact ⟨_, readLength_of_length hwidth layout.order (length_field hlong)⟩

/-! ## The header

A search drops bytes from the front until a header stands there or there is no room for one. It keeps
nothing else in mind, which is why it can stop and go on when more bytes have arrived. -/

namespace Header

/-- Skipping forward to the header only drops bytes from the front. -/
theorem seek_suffix (header : Header) (buffer : Bytes) : header.seek buffer <:+ buffer := by
  induction buffer with
  | nil => exact List.suffix_refl []
  | cons b rest ih =>
    rw [seek]
    split
    · exact List.suffix_refl _
    · exact ih.trans (List.suffix_cons b rest)

theorem length_seek_le (header : Header) (buffer : Bytes) :
    (header.seek buffer).length ≤ buffer.length :=
  (header.seek_suffix buffer).length_le

/-- Where a header stands, nothing is skipped. -/
theorem seek_of_isAt {header : Header} {buffer : Bytes} (hat : header.isAt buffer = true) :
    header.seek buffer = buffer := by
  cases buffer with
  | nil => rfl
  | cons b rest => rw [seek, hat, Bool.true_or, if_pos rfl]

/-- A header stays where it is when bytes are appended. -/
theorem isAt_append {header : Header} {buffer : Bytes} (hat : header.isAt buffer = true)
    (more : Bytes) : header.isAt (buffer ++ more) = true := by
  rw [isAt, List.isPrefixOf_iff_prefix] at hat ⊢
  exact hat.trans (List.prefix_append buffer more)

/-- Appended bytes complete no header in front of bytes that already had room for one. -/
theorem isAt_of_isAt_append {header : Header} {buffer more : Bytes}
    (hroom : header.width ≤ buffer.length) (hat : header.isAt (buffer ++ more) = true) :
    header.isAt buffer = true := by
  rw [isAt, List.isPrefixOf_iff_prefix] at hat ⊢
  exact List.prefix_of_prefix_length_le hat (List.prefix_append buffer more) hroom

/-- **The search can be interrupted**: searching what a search left, with bytes appended, finds what
searching all the bytes at once finds. -/
theorem seek_append (header : Header) (buffer more : Bytes) :
    header.seek (buffer ++ more) = header.seek (header.seek buffer ++ more) := by
  induction buffer with
  | nil => rfl
  | cons b rest ih =>
    by_cases hstay : header.isAt (b :: rest) || Bytes.isShorter (b :: rest) header.width
    · rw [seek, if_pos hstay]
    · have hpass : header.seek (b :: rest) = header.seek rest := by rw [seek, if_neg hstay]
      rw [hpass, ← ih, List.cons_append, seek, if_neg]
      simp only [Bool.or_eq_true, Bytes.isShorter_iff, not_or, Nat.not_lt] at hstay ⊢
      obtain ⟨hat, hroom⟩ := hstay
      refine ⟨fun h => hat (isAt_of_isAt_append hroom h), ?_⟩
      simp only [List.length_cons, List.length_append] at hroom ⊢
      omega

end Header

/-! ## One call

Every part of a call drops bytes, or it asks for more bytes and drops none. The lemmas follow the parts
from the inside out: the frame is skipped or taken, its length is judged, the length field is cut out, the
header is searched for. -/

/-- A decoder that skips an oversized frame has bytes of it left to skip. At most all of its bytes are
left. The state is forgotten with the last of them, so 0 is never stored. -/
def State.Sound : State → Prop
  | .framing => True
  | .skipping length left => 0 < left ∧ left ≤ length

/-- What holds of every answer to a buffer. The last part is what loops end by: an answer that does not
ask for more has used up some of the bytes. -/
structure Step.Advances (step : Step) (buffer : Bytes) : Prop where
  sound : step.state.Sound
  le : step.buffer.length ≤ buffer.length
  lt : step.outcome ≠ .needMore → step.buffer.length < buffer.length

/-- An answer to bytes from further on in the buffer is an answer to the buffer. -/
theorem Step.Advances.mono {step : Step} {buffer longer : Bytes} (hstep : step.Advances buffer)
    (hle : buffer.length ≤ longer.length) : step.Advances longer :=
  ⟨hstep.sound, Nat.le_trans hstep.le hle, fun h => Nat.lt_of_lt_of_le (hstep.lt h) hle⟩

/-- Waiting for more bytes advances nothing and loses nothing. -/
theorem Step.Advances.wait (buffer : Bytes) :
    (⟨.needMore, .framing, buffer⟩ : Step).Advances buffer :=
  ⟨trivial, Nat.le_refl _, fun h => absurd rfl h⟩

/-- Dropping some of the buffered bytes advances, whatever is answered. -/
theorem Step.Advances.drop (outcome : Outcome) {count : Nat} {buffer : Bytes} (hpos : 0 < count)
    (hle : count ≤ buffer.length) :
    (⟨outcome, .framing, buffer.drop count⟩ : Step).Advances buffer := by
  have hlt : (buffer.drop count).length < buffer.length := by
    rw [List.length_drop]
    omega
  exact ⟨trivial, Nat.le_of_lt hlt, fun _ => hlt⟩

namespace Layout

variable {layout : Layout}

/-! The tests for a short buffer, as inequalities between lengths. -/

/-- An oversized frame that is all there is dropped at once. Else what is there is dropped, and the rest
is left to skip. -/
theorem skip_eq (length : Nat) (buffer : Bytes) :
    layout.skip length buffer =
      if buffer.length < length then
        let state := State.skipping length (length - buffer.length)
        if layout.failFast then ⟨.error (.tooLong length layout.max true), state, []⟩
        else ⟨.needMore, state, []⟩
      else ⟨.error (.tooLong length layout.max false), .framing, buffer.drop length⟩ := by
  simp only [skip, Bytes.isShorter_iff]

/-- A frame that is all there is taken, unless more bytes are to be stripped than it has. -/
theorem take_eq (length : Nat) (buffer : Bytes) :
    layout.take length buffer =
      if buffer.length < length then ⟨.needMore, .framing, buffer⟩
      else if length < layout.strip.toNat then
        ⟨.error (.corrupted (.shorterThanStrip length layout.strip.toNat)), .framing,
          buffer.drop length⟩
      else ⟨.frame ((buffer.take length).drop layout.strip.toNat), .framing, buffer.drop length⟩ := by
  simp only [take, Bytes.isShorter_iff]

theorem cut_of_le {buffer : Bytes} (hlong : layout.fieldEnd ≤ buffer.length) :
    layout.cut buffer =
      match readLength layout.order layout.width.toNat (layout.field buffer) with
      | .error e => ⟨.error e, .framing, buffer⟩
      | .ok raw => layout.judge raw buffer := by
  have hshort : ¬ buffer.isShorter layout.fieldEnd = true := by
    rw [Bytes.isShorter_iff]
    omega
  unfold cut
  exact if_neg hshort

/-- Where the length field is buffered, the frame is judged by it. -/
theorem exists_cut_eq (hcheck : layout.check = .ok ()) {buffer : Bytes}
    (hlong : layout.fieldEnd ≤ buffer.length) :
    ∃ raw, readLength layout.order layout.width.toNat (layout.field buffer) = .ok raw ∧
      layout.cut buffer = layout.judge raw buffer := by
  obtain ⟨raw, hraw⟩ := readLength_field hcheck hlong
  exact ⟨raw, hraw, by rw [cut_of_le hlong, hraw]⟩

/-- Nothing is judged before the length field has arrived. -/
theorem cut_of_lt {buffer : Bytes} (hshort : buffer.length < layout.fieldEnd) :
    layout.cut buffer = ⟨.needMore, .framing, buffer⟩ := by
  rw [cut, if_pos ((Bytes.isShorter_iff _ _).2 hshort)]

/-- A call that skips goes on to the next frame only if the oversized one was reported before. -/
theorem next_skipping (layout : Layout) (length left : Nat) (buffer : Bytes) :
    layout.next (.skipping length left) buffer =
      if buffer.length < left then ⟨.needMore, .skipping length (left - buffer.length), []⟩
      else if layout.failFast then layout.scan (buffer.drop left)
      else ⟨.error (.tooLong length layout.max false), .framing, buffer.drop left⟩ := by
  simp only [next, Bytes.isShorter_iff]

theorem skip_advances {length : Nat} {buffer : Bytes} (hpos : 0 < length)
    (hbuffer : 0 < buffer.length) : (layout.skip length buffer).Advances buffer := by
  rw [skip_eq]
  split
  · have hsound : (State.skipping length (length - buffer.length)).Sound :=
      ⟨by omega, Nat.sub_le _ _⟩
    split
    · exact ⟨hsound, Nat.zero_le _, fun _ => hbuffer⟩
    · exact ⟨hsound, Nat.zero_le _, fun h => absurd rfl h⟩
  · exact .drop _ hpos (by omega)

theorem take_advances {length : Nat} {buffer : Bytes} (hpos : 0 < length) :
    (layout.take length buffer).Advances buffer := by
  rw [take_eq]
  split
  · exact .wait buffer
  · split
    · exact .drop _ hpos (by omega)
    · exact .drop _ hpos (by omega)

/-- Each of the four verdicts drops a frame, or the part of it that names its length. -/
theorem judge_advances (hcheck : layout.check = .ok ()) (raw : Int) {buffer : Bytes}
    (hlong : layout.fieldEnd ≤ buffer.length) : (layout.judge raw buffer).Advances buffer := by
  have hpos := fieldEnd_pos hcheck
  simp only [judge]
  split
  · exact .drop _ hpos hlong
  split
  · exact .drop _ hpos hlong
  rename_i hend
  split
  · have hlimit : 0 < countLimit := by decide
    exact skip_advances (by omega) (by omega)
  · exact take_advances (by omega)

theorem cut_advances (hcheck : layout.check = .ok ()) (buffer : Bytes) :
    (layout.cut buffer).Advances buffer := by
  by_cases hshort : buffer.length < layout.fieldEnd
  · rw [cut_of_lt hshort]
    exact .wait buffer
  · obtain ⟨raw, -, hcut⟩ := exists_cut_eq hcheck (Nat.le_of_not_lt hshort)
    rw [hcut]
    exact judge_advances hcheck raw (Nat.le_of_not_lt hshort)

theorem scan_advances (hcheck : layout.check = .ok ()) (buffer : Bytes) :
    (layout.scan buffer).Advances buffer := by
  have hle := layout.header.length_seek_le buffer
  simp only [scan]
  split
  · exact (cut_advances hcheck _).mono hle
  · exact (Step.Advances.wait _).mono hle

/-- **Progress**: one call keeps the state sound, never lengthens the buffer, and shortens it unless it
asks for more bytes. -/
theorem next_advances (hcheck : layout.check = .ok ()) {state : State} (hsound : state.Sound)
    (buffer : Bytes) : (layout.next state buffer).Advances buffer := by
  cases state with
  | framing => exact scan_advances hcheck buffer
  | skipping length left =>
    obtain ⟨hpos, hle⟩ := hsound
    rw [next_skipping]
    split
    · exact ⟨⟨by omega, by omega⟩, Nat.zero_le _, fun h => absurd rfl h⟩
    · split
      · exact (scan_advances hcheck _).mono (by simp)
      · exact .drop _ hpos (by omega)

end Layout

/-! ## Errors of a call

The other errors of a decoder are about its configuration, or about its source. Neither comes from a call:
an accepted layout has a supported width, and a call never asks a source. -/

/-- The frame at hand is corrupted or oversized. -/
def Error.concernsFrame : Error → Bool
  | .corrupted _ | .tooLong .. => true
  | _ => false

/-- An error in the step is about the frame at hand. -/
def Step.ConcernsFrame (step : Step) : Prop :=
  ∀ e, step.outcome = .error e → e.concernsFrame = true

theorem Step.concernsFrame_of_needMore (state : State) (buffer : Bytes) :
    Step.ConcernsFrame ⟨.needMore, state, buffer⟩ :=
  nofun

theorem Step.concernsFrame_error {e : Error} (he : e.concernsFrame = true) (state : State)
    (buffer : Bytes) : Step.ConcernsFrame ⟨.error e, state, buffer⟩ := by
  intro e' heq
  obtain rfl := Outcome.error.inj heq
  exact he

namespace Layout

variable {layout : Layout}

theorem skip_concernsFrame (length : Nat) (buffer : Bytes) :
    (layout.skip length buffer).ConcernsFrame := by
  rw [skip_eq]
  split
  · simp only
    split
    · exact Step.concernsFrame_error rfl _ _
    · exact Step.concernsFrame_of_needMore _ _
  · exact Step.concernsFrame_error rfl _ _

theorem take_concernsFrame (length : Nat) (buffer : Bytes) :
    (layout.take length buffer).ConcernsFrame := by
  rw [take_eq]
  split
  · exact Step.concernsFrame_of_needMore _ _
  · split
    · exact Step.concernsFrame_error rfl _ _
    · exact nofun

theorem judge_concernsFrame (raw : Int) (buffer : Bytes) :
    (layout.judge raw buffer).ConcernsFrame := by
  simp only [judge]
  split
  · exact Step.concernsFrame_error rfl _ _
  · split
    · exact Step.concernsFrame_error rfl _ _
    · split
      · exact skip_concernsFrame _ _
      · exact take_concernsFrame _ _

theorem scan_concernsFrame (hcheck : layout.check = .ok ()) (buffer : Bytes) :
    (layout.scan buffer).ConcernsFrame := by
  simp only [scan]
  split
  · by_cases hshort : (layout.header.seek buffer).length < layout.fieldEnd
    · rw [cut_of_lt hshort]
      exact Step.concernsFrame_of_needMore _ _
    · obtain ⟨raw, -, hcut⟩ := exists_cut_eq hcheck (Nat.le_of_not_lt hshort)
      rw [hcut]
      exact judge_concernsFrame raw _
  · exact Step.concernsFrame_of_needMore _ _

/-- **Errors are about frames**: over an accepted layout a call finds no fault but that the frame at hand
is corrupted or oversized. -/
theorem next_concernsFrame (hcheck : layout.check = .ok ()) (state : State) (buffer : Bytes) :
    (layout.next state buffer).ConcernsFrame := by
  cases state with
  | framing => exact scan_concernsFrame hcheck buffer
  | skipping length left =>
    rw [next_skipping]
    split
    · exact Step.concernsFrame_of_needMore _ _
    · split
      · exact scan_concernsFrame hcheck _
      · exact Step.concernsFrame_error rfl _ _

end Layout

end Telegram.Frame
