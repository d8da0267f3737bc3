import Telegram.Proofs.ByteOrder
import Telegram.Proofs.Frame.Machine
import Telegram.Proofs.Frame.Retry

/-!
# The decoder never faults

A call in machine words (`Machine.next`) has an answer, and it is the answer of `Layout.next`. The proof
goes through the call from the inside out, one equation for each of its parts, and needs three kinds of
facts that are established elsewhere:

* what `Layout.check` admits: the length field ends within the longest frame, so its end fits a word;
* the order in which a length is judged: it is converted to a word only after it was found to be neither
  smaller than the end of the length field nor greater than the longest frame;
* what is remembered of an oversized frame: no more is left of it than its length (`State.Sound`), and its
  length fits a word (`State.Fits`).

`Layout.next_vetted` has the last of these, and the errors that a call can answer. `Machine.next_eq` is
one call, `Machine.Reachable.exists_state` any number of them, and `Machine.next_faultless` both together.
-/

namespace Telegram.Frame

/-! ## Errors and states

A call can answer very few errors, and a state can hold a length that came from a length field. Both are
followed through the parts of a call together, as the length that is kept is the one that was judged. -/

/-- The errors of a call: the frame at hand contradicts the layout, or is longer than it allows. Other
errors, of a source or of its end, come from what is built around the decoder. -/
inductive Layout.Verdict (layout : Layout) : Error → Prop where
  | negativeLength (raw : Int) : Verdict layout (.corrupted (.negativeLength raw))
  | endsBeforeBody (length fieldEnd : Int) : Verdict layout (.corrupted (.endsBeforeBody length fieldEnd))
  | shorterThanStrip (length strip : Nat) : Verdict layout (.corrupted (.shorterThanStrip length strip))
  | tooLong (length : Nat) (skipping : Bool) : Verdict layout (.tooLong length layout.max skipping)

/-- The length of the frame that is being skipped fits a word. It does although the length field may name
a longer frame, as the longest length that fits is stored in its place. -/
def State.Fits : State → Prop
  | .framing => True
  | .skipping length _ => length ≤ countLimit

theorem State.fits_framing : State.framing.Fits :=
  trivial

/-- What one call may come to. Errors come with a verdict, and every state that is left with a length that
fits. -/
inductive Step.Vetted (layout : Layout) : Step → Prop where
  | needMore {state : State} (hfits : state.Fits) (buffer : Bytes) : Vetted layout ⟨.needMore, state, buffer⟩
  | frame (bytes buffer : Bytes) : Vetted layout ⟨.frame bytes, .framing, buffer⟩
  | error {e : Error} (he : layout.Verdict e) {state : State} (hfits : state.Fits) (buffer : Bytes) :
      Vetted layout ⟨.error e, state, buffer⟩

theorem Step.Vetted.fits {layout : Layout} {step : Step} (h : step.Vetted layout) : step.state.Fits := by
  cases h with
  | needMore hfits _ => exact hfits
  | frame _ _ => trivial
  | error _ hfits _ => exact hfits

theorem Step.Vetted.verdict {layout : Layout} {step : Step} (h : step.Vetted layout) (e : Error)
    (he : step.outcome = .error e) : layout.Verdict e := by
  cases h with
  | needMore _ _ => cases he
  | frame _ _ => cases he
  | error hverdict _ _ =>
    cases he
    exact hverdict

namespace Layout

variable {layout : Layout}

/-- A frame that is skipped has a length that fits, if the length it was judged by does. -/
theorem skip_vetted {length : Nat} (hlength : length ≤ countLimit) (buffer : Bytes) :
    (layout.skip length buffer).Vetted layout := by
  rw [skip_eq]
  split
  · have hfits : (State.skipping length (length - buffer.length)).Fits := hlength
    simp only
    split
    · exact .error (.tooLong _ _) hfits _
    · exact .needMore hfits _
  · exact .error (.tooLong _ _) State.fits_framing _

theorem take_vetted (length : Nat) (buffer : Bytes) : (layout.take length buffer).Vetted layout := by
  rw [take_eq]
  split
  · exact .needMore State.fits_framing _
  · split
    · exact .error (.shorterThanStrip _ _) State.fits_framing _
    · exact .frame _ _

/-- **The four verdicts.** The length of an oversized frame is cut off at the longest that fits before it
is kept. -/
theorem judge_vetted (raw : Int) (buffer : Bytes) : (layout.judge raw buffer).Vetted layout := by
  simp only [judge]
  split
  · exact .error (.negativeLength _) State.fits_framing _
  · split
    · exact .error (.endsBeforeBody _ _) State.fits_framing _
    · split
      · exact skip_vetted (Nat.min_le_right _ _) buffer
      · exact take_vetted _ buffer

theorem scan_vetted (hcheck : layout.check = .ok ()) (buffer : Bytes) :
    (layout.scan buffer).Vetted layout := by
  simp only [scan]
  split
  · by_cases hshort : (layout.header.seek buffer).length < layout.fieldEnd
    · rw [cut_of_lt hshort]
      exact .needMore State.fits_framing _
    · obtain ⟨raw, -, hcut⟩ := exists_cut_eq hcheck (Nat.le_of_not_lt hshort)
      rw [hcut]
      exact judge_vetted raw _
  · exact .needMore State.fits_framing _

/-- **Errors of a call** are about the frame at hand, and a length that is kept fits a word. -/
theorem next_vetted (hcheck : layout.check = .ok ()) {state : State} (hfits : state.Fits) (buffer : Bytes) :
    (layout.next state buffer).Vetted layout := by
  cases state with
  | framing => exact scan_vetted hcheck buffer
  | skipping length left =>
    rw [next_skipping]
    split
    · have hleft : (State.skipping length (left - buffer.length)).Fits := hfits
      exact .needMore hleft _
    · split
      · exact scan_vetted hcheck _
      · exact .error (.tooLong _ _) State.fits_framing _

end Layout

/-! ## Words for states

A state holds natural numbers or nothing, and a memory always holds a flag and three numbers. `Memory.of`
is the one memory that stands for a state, so that equality of memories is all that has to be shown. -/

/-- What is stored where `Layout.next` has a state. -/
def Memory.of (layout : Layout) : State → Memory
  | .framing => { fieldEnd := .ofNat layout.fieldEnd }
  | .skipping length left =>
    { fieldEnd := .ofNat layout.fieldEnd, skipping := true, length := .ofNat length, left := .ofNat left }

/-- The answer as a machine gives it. -/
def Step.reply (layout : Layout) (step : Step) : Reply :=
  ⟨step.outcome, .of layout step.state, step.buffer⟩

namespace Machine

variable {layout : Layout} {buffer : Bytes}

/-! ## Operations

Each operation has an answer where its condition holds, and these equations name the condition. They are
stated with `toNat`, so that what follows is arithmetic of natural numbers. -/

@[simp] theorem ok_bind {α β : Type} (a : α) (f : α → Except Fault β) : (Except.ok a >>= f) = f a := rfl

/-- A natural number below 2^64 is a word. -/
theorem word_eq {n : Nat} (hn : n < 2 ^ 64) : word n = .ok (.ofNat n) := by
  rw [word, if_pos (by omega), Int.toNat_natCast]

/-- Sums are formed in 128 bits. -/
theorem wide_eq {n : Int} (hlow : -2 ^ 127 ≤ n) (hhigh : n < 2 ^ 127) : wide n = .ok n := by
  rw [wide, if_pos ⟨hlow, hhigh⟩]

theorem toNat_ofNat {n : Nat} (hn : n < 2 ^ 64) : (UInt64.ofNat n).toNat = n :=
  UInt64.toNat_ofNat_of_lt' hn

theorem ofNat_ne_zero {n : Nat} (hpos : 0 < n) (hn : n < 2 ^ 64) : UInt64.ofNat n ≠ 0 := by
  intro hzero
  have hvalue := toNat_ofNat hn
  rw [hzero] at hvalue
  exact Nat.ne_of_lt hpos hvalue

theorem add_eq {a b : UInt64} (hsum : a.toNat + b.toNat < 2 ^ 64) :
    add a b = .ok (.ofNat (a.toNat + b.toNat)) := by
  rw [add, ← Int.natCast_add, word_eq hsum]

/-- A difference needs the order of its arguments, which is always the order of a test that was passed. -/
theorem sub_eq {a b : UInt64} (hle : b.toNat ≤ a.toNat) : sub a b = .ok (.ofNat (a.toNat - b.toNat)) := by
  have hlt := a.toNat_lt
  rw [sub, ← Int.ofNat_sub hle, word_eq (by omega)]

/-- Bytes are dropped that are there. -/
theorem advance_eq {count : UInt64} (hle : count.toNat ≤ buffer.length) :
    advance buffer count = .ok (buffer.drop count.toNat) :=
  if_pos hle

theorem splitTo_eq {count : UInt64} (hle : count.toNat ≤ buffer.length) :
    splitTo buffer count = .ok (buffer.take count.toNat, buffer.drop count.toNat) :=
  if_pos hle

/-- A slice begins before it ends, and ends in the buffer. -/
theorem slice_eq {start stop : UInt64} (horder : start.toNat ≤ stop.toNat)
    (hle : stop.toNat ≤ buffer.length) :
    slice buffer start stop = .ok ((buffer.take stop.toNat).drop start.toNat) :=
  if_pos ⟨UInt64.le_iff_toNat_le.2 horder, hle⟩

/-- A buffer that fits into memory has no more bytes than a word can count. -/
theorem count_eq (hbuffer : buffer.length < 2 ^ 63) :
    ∃ buffered, count buffer = .ok buffered ∧ buffered.toNat = buffer.length :=
  ⟨_, word_eq (by omega), toNat_ofNat (by omega)⟩

/-! ## One call

The parts of a call are those of `Layout.next`, in the same order. At each of them the condition of every
operation is at hand: from the test that was just passed, from what was checked of the layout, or from the
length of the buffer. -/

/-- **A frame is taken** without a fault: the two tests for its length bound every cut. -/
theorem take_eq (hbuffer : buffer.length < 2 ^ 63) (length : UInt64) :
    take layout (.of layout .framing) length buffer =
      .ok ((layout.take length.toNat buffer).reply layout) := by
  obtain ⟨buffered, hcount, hbuffered⟩ := count_eq hbuffer
  simp only [take, hcount, ok_bind, Layout.take_eq, UInt64.lt_iff_toNat_lt, hbuffered]
  split
  · rfl
  rename_i hlong
  have hle : length.toNat ≤ buffer.length := Nat.le_of_not_lt hlong
  split
  · rw [advance_eq hle]
    rfl
  · rename_i hshort
    -- the bytes to strip lie inside the frame, and the frame inside the buffer
    have hinside : layout.strip.toNat ≤ length.toNat := Nat.le_of_not_lt hshort
    have hrest : (UInt64.ofNat (length.toNat - layout.strip.toNat)).toNat =
        length.toNat - layout.strip.toNat :=
      toNat_ofNat (Nat.lt_of_le_of_lt (Nat.sub_le _ _) length.toNat_lt)
    rw [advance_eq (hinside.trans hle), ok_bind, sub_eq hinside, ok_bind, splitTo_eq (by simp; omega), hrest,
      ok_bind, List.drop_drop, Nat.add_sub_cancel' hinside, ← List.drop_take]
    rfl

/-- **An oversized frame is skipped** without a fault. What is left of it is a difference only where it is
one. -/
theorem exceed_eq (hbuffer : buffer.length < 2 ^ 63) (length : UInt64) :
    exceed layout (.of layout .framing) length buffer =
      .ok ((layout.skip length.toNat buffer).reply layout) := by
  obtain ⟨buffered, hcount, hbuffered⟩ := count_eq hbuffer
  simp only [exceed, hcount, ok_bind, Layout.skip_eq, UInt64.le_iff_toNat_le, hbuffered]
  by_cases hshort : buffer.length < length.toNat
  · -- something is left to skip, so nothing is forgotten yet
    have hleft : UInt64.ofNat (length.toNat - buffer.length) ≠ 0 := ofNat_ne_zero (by omega)
      (Nat.lt_of_le_of_lt (Nat.sub_le _ _) length.toNat_lt)
    rw [if_neg (Nat.not_le.2 hshort), if_pos hshort, sub_eq (by omega), ok_bind, hbuffered]
    cases hfast : layout.failFast <;>
      simp [settle, hleft, hfast, Step.reply, Memory.of]
  · have hle : length.toNat ≤ buffer.length := Nat.le_of_not_lt hshort
    rw [if_pos hle, if_neg hshort, advance_eq hle]
    simp [settle, Step.reply, Memory.of]

/-- The end of the length field of an accepted layout fits a word. -/
theorem fieldEnd_lt (hcheck : layout.check = .ok ()) : layout.fieldEnd < 2 ^ 64 := by
  obtain ⟨-, hle⟩ := Layout.check_eq_ok_iff.1 hcheck
  exact Nat.lt_of_le_of_lt hle layout.maxLength.toNat_lt

theorem toNat_fieldEnd (hcheck : layout.check = .ok ()) :
    (Memory.of layout .framing).fieldEnd.toNat = layout.fieldEnd :=
  toNat_ofNat (fieldEnd_lt hcheck)

/-- **A length is judged** without a fault. It is converted to a word where it is known to be between the
end of the length field and the longest frame, and to a length that is reported where it is known to be
positive. -/
theorem judge_eq (hcheck : layout.check = .ok ()) (hbuffer : buffer.length < 2 ^ 63)
    (hlong : layout.fieldEnd ≤ buffer.length) (raw : Int64) :
    judge layout (.of layout .framing) raw buffer =
      .ok ((layout.judge raw.toInt buffer).reply layout) := by
  have hfieldEnd := toNat_fieldEnd hcheck
  have hbound := fieldEnd_lt hcheck
  have hadvance : advance buffer (Memory.of layout .framing).fieldEnd = .ok (buffer.drop layout.fieldEnd) := by
    rw [advance_eq (by rw [hfieldEnd]; exact hlong), hfieldEnd]
  -- two summands of 64 bits and a count leave most of the 128 bits unused
  have hraw := raw.toInt_lt
  have hraw' := raw.le_toInt
  have hadjustment := layout.adjustment.toInt_lt
  have hadjustment' := layout.adjustment.le_toInt
  have hadjusted : wide (raw.toInt + layout.adjustment.toInt) = .ok (raw.toInt + layout.adjustment.toInt) :=
    wide_eq (by omega) (by omega)
  have hlength : wide (raw.toInt + layout.adjustment.toInt + layout.fieldEnd) =
      .ok (raw.toInt + layout.adjustment.toInt + layout.fieldEnd) :=
    wide_eq (by omega) (by omega)
  simp only [judge, Layout.judge, hadjusted, hfieldEnd, hlength, hadvance, ok_bind, Int64.lt_iff_toInt_lt,
    Int64.toInt_zero]
  split
  · rfl
  rename_i hnegative
  split
  · rfl
  rename_i hend
  by_cases hmax : (layout.max : Int) < raw.toInt + layout.adjustment.toInt + layout.fieldEnd
  · -- the length that is reported fits a word, or is taken to be the longest that does
    rw [if_pos hmax, if_pos hmax, exceed_eq hbuffer]
    congr 3
    split
    · rw [toNat_ofNat (by omega), Nat.min_eq_left (by simp only [countLimit, UInt64.size]; omega)]
    · rw [toNat_ofNat (by decide), Nat.min_eq_right (by simp only [countLimit, UInt64.size]; omega)]
  · have hmaxLength : layout.max < 2 ^ 64 := layout.maxLength.toNat_lt
    have hfits : (raw.toInt + layout.adjustment.toInt + layout.fieldEnd).toNat < 2 ^ 64 := by omega
    have hword := word_eq hfits
    rw [Int.toNat_of_nonneg (by omega)] at hword
    rw [if_neg hmax, if_neg hmax, hword, ok_bind, take_eq hbuffer, toNat_ofNat hfits]

/-- The number in a length field, with its highest bit as the sign. -/
theorem readLength_eq {width : UInt64} (hwidth : isFieldWidth width.toNat = true) (order : ByteOrder)
    {field : Bytes} (hfield : field.length = width.toNat) :
    readLength order width field =
      .ok (.ok (UInt64.ofNat (order.decode field)).toInt64) := by
  have height : width.toNat ≤ 8 := by
    simp only [isFieldWidth, Bool.or_eq_true, beq_iff_eq] at hwidth
    omega
  have hsmall : field.length < 2 ^ 63 := by omega
  obtain ⟨available, hcount, havailable⟩ := count_eq hsmall
  have hvalue : order.decode field < 2 ^ 64 := calc
    order.decode field < 256 ^ field.length := order.decode_lt field
    _ ≤ 256 ^ 8 := Nat.pow_le_pow_right (by decide) (by omega)
  have hshort : ¬ available < width := by
    rw [UInt64.lt_iff_toNat_lt]
    omega
  rw [readLength, if_pos hwidth, hcount, ok_bind, if_neg hshort, getUint, splitTo_eq (by omega), ok_bind,
    ← hfield, List.take_length]
  simp only [word_eq hvalue, ok_bind]

/-- **The length field is cut out** without a fault, as the buffer reaches its end. -/
theorem cut_eq (hcheck : layout.check = .ok ()) (hbuffer : buffer.length < 2 ^ 63) :
    cut layout (.of layout .framing) buffer = .ok ((layout.cut buffer).reply layout) := by
  obtain ⟨hwidth, -⟩ := Layout.check_eq_ok_iff.1 hcheck
  obtain ⟨buffered, hcount, hbuffered⟩ := count_eq hbuffer
  have hfieldEnd := toNat_fieldEnd hcheck
  simp only [cut, hcount, ok_bind, UInt64.lt_iff_toNat_lt, hbuffered, hfieldEnd]
  by_cases hshort : buffer.length < layout.fieldEnd
  · rw [if_pos hshort, Layout.cut_of_lt hshort]
    rfl
  · have hlong := Nat.le_of_not_lt hshort
    have hslice : slice buffer layout.offset (Memory.of layout .framing).fieldEnd =
        .ok (layout.field buffer) := by
      rw [slice_eq (by rw [hfieldEnd]; exact Nat.le_add_right _ _) (by rw [hfieldEnd]; exact hlong), hfieldEnd]
      rfl
    have hfield := Layout.length_field hlong
    rw [if_neg hshort, hslice, ok_bind, readLength_eq hwidth _ hfield, ok_bind, Layout.cut_of_le hlong,
      readLength_of_length hwidth _ hfield]
    exact judge_eq hcheck hbuffer hlong _

/-! ### The header

The machine looks for the header in windows of its width, one byte further each time, and counts how many
it has passed. `Header.seek` goes down the buffer and knows no counter. They are tied together by what is
left behind the bytes that were passed. -/

/-- In a window of its own width the header is all there is. -/
theorem isAt_of_length {header : Header} {window : Bytes} (hwindow : window.length = header.width) :
    header.isAt window = (window == header.bytes) := by
  rw [Bool.eq_iff_iff, Header.isAt, List.isPrefixOf_iff_prefix, beq_iff_eq]
  constructor
  · exact fun hstarts => (hstarts.eq_of_length hwindow.symm).symm
  · rintro rfl
    exact List.prefix_refl _

theorem isHeader_eq {header : Header} {window : Bytes} (hwindow : window.length = header.width) :
    isHeader header window = .ok (header.isAt window) := by
  rw [isAt_of_length hwindow]
  cases header with
  | none =>
    obtain rfl := List.length_eq_zero_iff.1 hwindow
    rfl
  | one byte =>
    obtain ⟨b, rfl⟩ := List.length_eq_one_iff.1 hwindow
    simp [isHeader, Header.bytes]
  | two value =>
    obtain ⟨first, second, rfl⟩ := List.length_eq_two.1 (show window.length = 2 from hwindow)
    have hcount : count [first, second] = .ok 2 := word_eq (n := 2) (by decide)
    have hslice : slice [first, second] 0 2 = .ok [first, second] :=
      slice_eq (by decide) (Nat.le_refl 2)
    rw [isHeader, hcount, ok_bind, if_neg (by decide), hslice]
    rfl

/-- The header stands in front of the bytes if it stands in the window of its width. -/
theorem isAt_take (header : Header) (buffer : Bytes) :
    header.isAt (buffer.take header.width) = header.isAt buffer := by
  rw [Bool.eq_iff_iff, Header.isAt, Header.isAt, List.isPrefixOf_iff_prefix, List.isPrefixOf_iff_prefix]
  exact List.prefix_take_iff.trans (and_iff_left (Nat.le_refl _))

/-- There is no header in fewer bytes than it has, and none to look for. -/
theorem seek_of_lt {header : Header} {rest : Bytes} (hshort : rest.length < header.width) :
    header.seek rest = rest ∧ header.isAt rest = false := by
  constructor
  · cases rest with
    | nil => rfl
    | cons b rest =>
      rw [Header.seek, if_pos]
      rw [Bool.or_eq_true, Bytes.isShorter_iff]
      exact .inr hshort
  · rw [Header.isAt, Bool.eq_false_iff, Ne, List.isPrefixOf_iff_prefix]
    exact fun hstarts => Nat.not_le_of_lt hshort hstarts.length_le

/-- Where there is room for the header and it does not stand, the search goes on behind the next byte. -/
theorem seek_drop_one {header : Header} {rest : Bytes} (hwidth : 0 < header.width)
    (hroom : header.width ≤ rest.length) (hat : header.isAt rest = false) :
    header.seek rest = header.seek (rest.drop 1) := by
  cases rest with
  | nil => exact absurd (Nat.lt_of_lt_of_le hwidth hroom) (Nat.lt_irrefl 0)
  | cons b rest =>
    rw [Header.seek, if_neg, List.drop_one, List.tail_cons]
    rw [hat, Bool.false_or, Bytes.isShorter_iff]
    exact Nat.not_lt_of_le hroom

/-- **The search finds what `Header.seek` finds**, and counts the bytes in front of it. -/
theorem seek_eq {header : Header} (hwidth : 0 < header.width) (hbuffer : buffer.length < 2 ^ 63)
    {fuel : Nat} {skipped : UInt64} (hskipped : skipped.toNat ≤ buffer.length)
    (hfuel : buffer.length - skipped.toNat < fuel) :
    ∃ count, seek header buffer fuel skipped =
        .ok (header.isAt (header.seek (buffer.drop skipped.toNat)), count) ∧
      count.toNat ≤ buffer.length ∧
      buffer.drop count.toNat = header.seek (buffer.drop skipped.toNat) := by
  have hsmall : header.width ≤ 2 := by cases header <;> simp [Header.width, Header.bytes]
  obtain ⟨buffered, hcount, hbuffered⟩ := count_eq hbuffer
  induction fuel generalizing skipped with
  | zero => exact absurd hfuel (Nat.not_lt_zero _)
  | succ fuel ih =>
    have hlength : (buffer.drop skipped.toNat).length = buffer.length - skipped.toNat := List.length_drop
    simp only [seek, word_eq (show header.width < 2 ^ 64 by omega), hcount, ok_bind,
      sub_eq (show skipped.toNat ≤ buffered.toNat by omega), UInt64.lt_iff_toNat_lt, hbuffered,
      toNat_ofNat (show header.width < 2 ^ 64 by omega),
      toNat_ofNat (show buffer.length - skipped.toNat < 2 ^ 64 by omega)]
    -- there is room for a window behind the bytes that were passed, or the search is over
    by_cases hshort : buffer.length - skipped.toNat < header.width
    · obtain ⟨hseek, hat⟩ := seek_of_lt (hlength ▸ hshort)
      rw [if_pos hshort, hseek, hat]
      exact ⟨skipped, rfl, hskipped, rfl⟩
    · have hroom : header.width ≤ (buffer.drop skipped.toNat).length := hlength ▸ Nat.le_of_not_lt hshort
      have hwindow : ((buffer.drop skipped.toNat).take header.width).length = header.width := by
        rw [List.length_take, Nat.min_eq_left hroom]
      have hwidth' : (UInt64.ofNat header.width).toNat = header.width := toNat_ofNat (by omega)
      have hstop : (UInt64.ofNat (skipped.toNat + header.width)).toNat = skipped.toNat + header.width :=
        toNat_ofNat (by omega)
      have hone : (UInt64.ofNat (skipped.toNat + 1)).toNat = skipped.toNat + 1 := toNat_ofNat (by omega)
      rw [if_neg hshort, add_eq (by omega), ok_bind, hwidth', slice_eq (by omega) (by omega), ok_bind, hstop,
        List.drop_take, Nat.add_sub_cancel_left, isHeader_eq hwindow, ok_bind, isAt_take]
      cases hat : header.isAt (buffer.drop skipped.toNat) with
      -- found: the counter is the number of bytes in front of the header
      | true =>
        rw [Header.seek_of_isAt hat, hat, if_pos rfl]
        exact ⟨skipped, rfl, hskipped, rfl⟩
      -- not here: one byte further, by the induction hypothesis
      | false =>
        have hnext : (UInt64.ofNat (skipped.toNat + 1)).toNat ≤ buffer.length := by omega
        obtain ⟨count, hseek, hle, hdrop⟩ := ih hnext (by omega)
        rw [hone, ← List.drop_drop, ← seek_drop_one hwidth hroom hat] at hseek hdrop
        rw [if_neg Bool.false_ne_true, add_eq (show skipped.toNat + (1 : UInt64).toNat < 2 ^ 64 by simp; omega),
          ok_bind]
        exact ⟨count, hseek, hle, hdrop⟩

/-- **A call that is not skipping** goes without a fault. Without a header there is nothing to search
for. -/
theorem scan_eq (hcheck : layout.check = .ok ()) (hbuffer : buffer.length < 2 ^ 63) :
    scan layout (.of layout .framing) buffer = .ok ((layout.scan buffer).reply layout) := by
  by_cases hnone : layout.header = .none
  · have hat : layout.header.isAt buffer = true := by rw [hnone]; rfl
    rw [scan, if_pos hnone, cut_eq hcheck hbuffer, Layout.scan, Header.seek_of_isAt hat, if_pos hat]
  · have hwidth : 0 < layout.header.width := by
      cases hheader : layout.header with
      | none => exact absurd hheader hnone
      | one byte => exact Nat.one_pos
      | two value => exact Nat.two_pos
    have hzero : (0 : UInt64).toNat ≤ buffer.length := Nat.zero_le _
    have hfuel : buffer.length - (0 : UInt64).toNat < buffer.length + 1 := by simp
    obtain ⟨count, hseek, hle, hdrop⟩ := seek_eq hwidth hbuffer hzero hfuel
    have hfound : (layout.header.seek buffer).length < 2 ^ 63 :=
      Nat.lt_of_le_of_lt (layout.header.length_seek_le buffer) hbuffer
    rw [UInt64.toNat_zero, List.drop_zero] at hseek hdrop
    rw [scan, if_neg hnone, hseek, ok_bind]
    simp only [advance_eq hle, hdrop, ok_bind, cut_eq hcheck hfound, Layout.scan]
    split <;> rfl

/-! ## What is stored

A decoder is made and called, and what it stores between calls is what calls have left there. That these
numbers stand for a state is shown once for the start and once for a call, and the rest is induction. -/

theorem toNat_min (a b : UInt64) : (min a b).toNat = min a.toNat b.toNat := by
  show (if a ≤ b then a else b).toNat = _
  split
  · rename_i hle
    rw [Nat.min_eq_left (UInt64.le_iff_toNat_le.1 hle)]
  · rename_i hlt
    rw [UInt64.le_iff_toNat_le] at hlt
    rw [Nat.min_eq_right (Nat.le_of_not_le hlt)]

/-- **One call in words is one call**, from every state whose numbers fit. -/
theorem next_eq (hcheck : layout.check = .ok ()) (hbuffer : buffer.length < 2 ^ 63) {state : State}
    (hsound : state.Sound) (hfits : state.Fits) :
    next layout (.of layout state) buffer = .ok ((layout.next state buffer).reply layout) := by
  cases state with
  | framing =>
    rw [next, if_neg (by simp [Memory.of])]
    exact scan_eq hcheck hbuffer
  | skipping length left =>
    obtain ⟨hpos, hle⟩ := hsound
    have hlength : length < 2 ^ 64 := Nat.lt_succ_of_le hfits
    have hleft : (UInt64.ofNat left).toNat = left := toNat_ofNat (by omega)
    obtain ⟨buffered, hcount, hbuffered⟩ := count_eq hbuffer
    have hhere : (min (UInt64.ofNat left) buffered).toNat = min left buffer.length := by
      rw [toNat_min, hleft, hbuffered]
    simp only [next, Memory.of, if_true, hcount, ok_bind,
      advance_eq (show (min (UInt64.ofNat left) buffered).toNat ≤ buffer.length by omega),
      sub_eq (show (min (UInt64.ofNat left) buffered).toNat ≤ (UInt64.ofNat left).toNat by omega),
      hhere, hleft, Layout.next_skipping]
    -- the frame that is skipped ends behind the buffer or in it
    by_cases hshort : buffer.length < left
    · have hmore : UInt64.ofNat (left - buffer.length) ≠ 0 := ofNat_ne_zero (by omega) (by omega)
      rw [if_pos hshort, Nat.min_eq_right (Nat.le_of_lt hshort)]
      simp [settle, hmore, Step.reply, Memory.of]
    · rw [if_neg hshort, Nat.min_eq_left (Nat.le_of_not_lt hshort), Nat.sub_self]
      cases hfast : layout.failFast with
      | true =>
        have hrest : (buffer.drop left).length < 2 ^ 63 := by
          rw [List.length_drop]
          omega
        have hscan := scan_eq hcheck hrest
        simpa [settle, hfast, Memory.of] using hscan
      | false =>
        simp [settle, hfast, Step.reply, Memory.of, toNat_ofNat hlength]

/-- What a decoder has stored after some calls, on buffers that fit into memory. A buffer has less than `2
^ 63` bytes on any machine; nothing else is asked of it, and it need not go with what is stored. -/
inductive Reachable (layout : Layout) : Memory → Prop where
  | start {memory : Memory} (h : start layout = .ok memory) : Reachable layout memory
  | next {memory : Memory} (h : Reachable layout memory) {buffer : Bytes}
      (hbuffer : buffer.length < 2 ^ 63) {reply : Reply} (hnext : next layout memory buffer = .ok reply) :
      Reachable layout reply.memory

theorem start_eq (hcheck : layout.check = .ok ()) : start layout = .ok (.of layout .framing) := by
  rw [start, add_eq (fieldEnd_lt hcheck)]
  rfl

/-- What is stored stands for a state that calls lead to, and its numbers fit. -/
theorem Reachable.exists_state (hcheck : layout.check = .ok ()) {memory : Memory}
    (h : Reachable layout memory) :
    ∃ state, layout.Reachable state ∧ state.Fits ∧ memory = .of layout state := by
  induction h with
  | start h =>
    rw [start_eq hcheck] at h
    cases h
    exact ⟨.framing, .fresh, trivial, rfl⟩
  | @next _ _ buffer hbuffer _ hnext ih =>
    -- one step: the memory stands for a state, and so the reply stands for a step of it
    obtain ⟨state, hreachable, hfits, rfl⟩ := ih
    rw [next_eq hcheck hbuffer (hreachable.sound hcheck) hfits] at hnext
    cases hnext
    exact ⟨_, hreachable.next buffer, (Layout.next_vetted hcheck hfits buffer).fits, rfl⟩

/-- **No call faults.** Over an accepted layout, whatever its numbers, a decoder can be made, and from
everything it can have stored, and on every buffer of less than 2^63 bytes, a call has an answer: no
position lies beyond the buffer, no number beyond its type, and the search for a header ends. The answer
is that of `Layout.next`, and an error in it is about the frame at hand. -/
theorem next_faultless (hcheck : layout.check = .ok ()) :
    (∃ memory, start layout = .ok memory) ∧
    ∀ memory, Reachable layout memory → ∀ buffer : Bytes, buffer.length < 2 ^ 63 →
      ∃ state reply, layout.Reachable state ∧ memory = .of layout state ∧
        next layout memory buffer = .ok reply ∧ reply = (layout.next state buffer).reply layout ∧
        ∀ e, reply.outcome = .error e → layout.Verdict e := by
  refine ⟨⟨_, start_eq hcheck⟩, ?_⟩
  intro memory hmemory buffer hbuffer
  obtain ⟨state, hreachable, hfits, rfl⟩ := hmemory.exists_state hcheck
  refine ⟨state, _, hreachable, rfl, next_eq hcheck hbuffer (hreachable.sound hcheck) hfits, rfl, ?_⟩
  exact (Layout.next_vetted hcheck hfits buffer).verdict

/-- The largest numbers that there are, in the layout and in the length field: the length of the frame
fits no word, so the largest one is reported, and the frame is skipped by it. -/
theorem next_faultless_of_largest :
    let layout : Layout :=
      { maxLength := .ofNat countLimit
        width := 8
        adjustment := Int64.maxValue
        strip := .ofNat countLimit }
    let buffer : Bytes := [0x7F, 0xFF, 0xFF, 0xFF, 0xFF, 0xFF, 0xFF, 0xFF]
    let skipping := Memory.of layout (.skipping countLimit (countLimit - 8))
    layout.check = .ok () ∧ Reachable layout (.of layout .framing) ∧
      next layout (.of layout .framing) buffer =
        .ok ⟨.error (.tooLong countLimit countLimit true), skipping, []⟩ ∧
      layout.Verdict (.tooLong countLimit countLimit true) ∧
      ∃ reply, next layout skipping [0, 1] = .ok reply ∧ reply.memory.left.toNat = countLimit - 10 := by
  intro layout buffer skipping
  have hcheck : layout.check = .ok () := by rfl
  have hstart : Reachable layout (.of layout .framing) := .start (start_eq hcheck)
  have hfirst : next layout (.of layout .framing) buffer =
      .ok ⟨.error (.tooLong countLimit countLimit true), skipping, []⟩ := by decide +kernel
  obtain ⟨-, hcalls⟩ := next_faultless hcheck
  obtain ⟨-, reply, -, -, hreply, -, hverdict⟩ := hcalls _ hstart buffer (by decide)
  obtain ⟨-, second, -, -, hsecond, -⟩ := hcalls _ (hstart.next (by decide) hfirst) [0, 1] (by decide)
  rw [hfirst] at hreply
  cases hreply
  refine ⟨hcheck, hstart, hfirst, hverdict _ rfl, second, hsecond, ?_⟩
  have hleft : (next layout skipping [0, 1]).map (fun reply => reply.memory.left.toNat) =
      .ok (countLimit - 10) := by
    decide +kernel
  rw [hsecond] at hleft
  exact Except.ok.inj hleft

end Machine

end Telegram.Frame
