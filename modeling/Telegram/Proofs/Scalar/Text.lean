import Telegram.Proofs.Text.Boundary
import Telegram.Proofs.Text.Hex
import Telegram.Scalar.Text

/-!
# Texts that survive the wire

A text field has a fixed number of bytes, so what is too long is cut and what is too short is padded, and
reading takes padding off both ends. `Text.Fits` is what a text needs for none of this to lose anything:

* for the padded kinds, it takes no more bytes than the field has, has no padding at its own ends, and is
  padded with something that counts as padding;
* as hexadecimal digits, it has two lower-case digits for every byte of the field.

What trimming leaves of a text is told by `Text.Stripped`, which padding at the end does not change. So a
text that was padded shows without padding at its ends (`Text.Stripped.shown_pad`), and `Text.read_write`
is the round trip.
-/

namespace Telegram.Text

open Codec

/-- A text that padding can be added to and taken off again. The reader takes padding off both ends
without knowing how much was added. So the text may neither begin nor end with what looks like padding. -/
structure Padded (format : FieldFormat) (text : List Char) : Prop where
  length_le : (utf8 text).length ≤ format.length
  head : ∀ c ∈ text.head?, isPadding c = false
  last : ∀ c ∈ text.getLast?, isPadding c = false
  /-- Where something is added, it is padding. -/
  fill : (utf8 text).length < format.length → format.fill ≤ 0x20

/-- A text that the field holds without loss. -/
def Fits (format : FieldFormat) (text : String) : Prop :=
  format.length ≠ 0 ∧
    match format.text with
    | .bcd => text.toList.length = 2 * format.length ∧ ∀ c ∈ text.toList, Hex.isLowerDigit c = true
    | .utf8 => Padded format text.toList
    | .ascii => isAscii text.toList = true ∧ Padded format text.toList

/-! ## Padding

A blank and every character below it count as padding when a text is read. Trimming is not undone by
padding: what a text had at its own ends is gone. -/

theorem isPadding_fill {fill : UInt8} (h : fill ≤ 0x20) : isPadding (Char.ofNat fill.toNat) = true := by
  have hle : (Char.ofNat fill.toNat).toNat ≤ 0x20 := by
    rw [toNat_ofNat_toNat]
    exact UInt8.le_iff_toNat_le.1 h
  exact decide_eq_true (Char.le_def.2 (UInt32.le_iff_toNat_le.2 hle))

/-- Dropping padding from the front stops where there is none. -/
theorem dropWhile_isPadding {text : List Char} (h : ∀ c ∈ text.head?, isPadding c = false) :
    text.dropWhile isPadding = text := by
  cases text with
  | nil => rfl
  | cons c rest => rw [List.dropWhile_cons, h c rfl]; rfl

theorem head?_dropWhile_isPadding (text : List Char) :
    ∀ c ∈ (text.dropWhile isPadding).head?, isPadding c = false := by
  intro c hc
  have hnot := List.head?_dropWhile_not isPadding text
  rwa [Option.mem_def.1 hc] at hnot

/-- `core` is what is left of a text when padding is taken off both ends. Padding inside the text stays
where it is. -/
structure Stripped (text core : List Char) : Prop where
  parts : ∃ lead trail, text = lead ++ core ++ trail ∧ (∀ c ∈ lead, isPadding c = true) ∧
    ∀ c ∈ trail, isPadding c = true
  head : ∀ c ∈ core.head?, isPadding c = false
  last : ∀ c ∈ core.getLast?, isPadding c = false

/-- **Trimming takes padding off both ends**, and nothing else. -/
theorem Stripped.trim_eq {text core : List Char} (h : Stripped text core) : trim text = core := by
  obtain ⟨lead, trail, rfl, hlead, htrail⟩ := h.parts
  rw [trim, List.append_assoc, List.dropWhile_append_of_pos hlead]
  cases core with
  | nil =>
    have hall : (trail ++ []).dropWhile isPadding = [].dropWhile isPadding := List.dropWhile_append_of_pos htrail
    rw [List.append_nil] at hall
    rw [List.nil_append, hall]
    rfl
  | cons c rest =>
    have hfront : (c :: rest ++ trail).dropWhile isPadding = c :: rest ++ trail := dropWhile_isPadding h.head
    rw [hfront, trimEnd, List.reverse_append, List.dropWhile_append_of_pos (by simpa using htrail),
      dropWhile_isPadding (by rw [List.head?_reverse]; exact h.last), List.reverse_reverse]

theorem exists_trimEnd_append (text : List Char) :
    ∃ trail, text = trimEnd text ++ trail ∧ ∀ c ∈ trail, isPadding c = true := by
  refine ⟨(text.reverse.takeWhile isPadding).reverse, ?_, fun c hc => ?_⟩
  · rw [trimEnd, ← List.reverse_append, List.takeWhile_append_dropWhile, List.reverse_reverse]
  · exact List.all_eq_true.1 List.all_takeWhile c (List.mem_reverse.1 hc)

theorem stripped_trim (text : List Char) : Stripped text (trim text) := by
  obtain ⟨trail, hmiddle, htrail⟩ := exists_trimEnd_append (text.dropWhile isPadding)
  have hlead := List.all_eq_true.1 (List.all_takeWhile (p := isPadding) (l := text))
  refine ⟨⟨text.takeWhile isPadding, trail, ?parts, hlead, htrail⟩, ?head, ?last⟩
  case parts => rw [trim, List.append_assoc, ← hmiddle, List.takeWhile_append_dropWhile]
  case head =>
    intro c hc
    apply head?_dropWhile_isPadding text c
    rw [hmiddle, List.head?_append]
    rw [trim, Option.mem_def] at hc
    rw [hc]
    rfl
  case last =>
    rw [trim, trimEnd, List.getLast?_reverse]
    exact head?_dropWhile_isPadding _

/-- Padding that is added is taken off again. -/
theorem Stripped.append_replicate {text core : List Char} (h : Stripped text core) {fill : Char} {count : Nat}
    (hfill : 0 < count → isPadding fill = true) : Stripped (text ++ List.replicate count fill) core := by
  obtain ⟨lead, trail, rfl, hlead, htrail⟩ := h.parts
  refine ⟨⟨lead, trail ++ List.replicate count fill, by simp only [List.append_assoc], hlead, ?_⟩, h.head, h.last⟩
  intro c hc
  rcases List.mem_append.1 hc with hc | hc
  · exact htrail c hc
  · rw [List.mem_replicate] at hc
    rw [hc.2]
    exact hfill (Nat.pos_of_ne_zero hc.1)

/-! ## What is stored

Padding is added to bytes and taken off characters. The two meet because the byte that pads is below 0x80,
and so is a character by itself. -/

theorem toNat_lt_of_isAscii {text : List Char} (h : isAscii text = true) : ∀ c ∈ text, c.toNat < 0x80 := by
  simpa [isAscii] using h

/-- Seven-bit characters are read back. -/
theorem ofAscii_utf8 {text : List Char} (h : ∀ c ∈ text, c.toNat < 0x80) : ofAscii (utf8 text) = text := by
  rw [utf8_of_lt h, ofAscii, List.map_map]
  calc text.map _ = text.map id := List.map_congr_left fun c hc => ?_
    _ = text := List.map_id text
  have hlt := h c hc
  have hbyte : (UInt8.ofNat c.toNat).toNat = c.toNat := Utf8State.toNat_ofNat_of_lt (by omega)
  have hsmall : UInt8.ofNat c.toNat < 0x80 := by
    rw [UInt8.lt_iff_toNat_lt, hbyte]
    exact hlt
  simp only [Function.comp_apply, if_pos hsmall, hbyte, Char.ofNat_toNat, id]

/-- What pads a text is itself the encoding of characters. -/
theorem pad_utf8 {fill : UInt8} {count : Nat} (hfill : 0 < count → fill ≤ 0x20) (text : List Char) :
    (utf8 text).pad count fill = utf8 (text ++ List.replicate count (Char.ofNat fill.toNat)) := by
  rw [Bytes.pad, utf8_append]
  congr 1
  cases count with
  | zero => rfl
  | succ count =>
    have hle := UInt8.le_iff_toNat_le.1 (hfill (Nat.succ_pos count))
    exact (utf8_replicate (UInt8.lt_iff_toNat_lt.2 (Nat.lt_of_le_of_lt hle (by decide))) _).symm

/-- **A text that was padded shows without padding at its ends**, be it the field's or its own. -/
theorem Stripped.shown_pad {kind : TextKind} {text core : List Char} (h : Stripped text core)
    (hkind : kind ≠ .bcd) (hascii : kind = .ascii → isAscii text = true) {fill : UInt8} {count : Nat}
    (hfill : 0 < count → fill ≤ 0x20) : shown kind ((utf8 text).pad count fill) = String.ofList core := by
  have htrim := (h.append_replicate fun hcount => isPadding_fill (hfill hcount)).trim_eq
  rw [pad_utf8 hfill]
  cases kind with
  | bcd => exact absurd rfl hkind
  | utf8 =>
    have hwhole := fromUtf8Lossy_utf8_append (text ++ List.replicate count (Char.ofNat fill.toNat)) []
    rw [List.append_nil, show fromUtf8Lossy [] = [] from rfl, List.append_nil] at hwhole
    rw [shown, hwhole, htrim]
  | ascii =>
    have hwhole : ∀ c ∈ text ++ List.replicate count (Char.ofNat fill.toNat), c.toNat < 0x80 := by
      intro c hc
      rcases List.mem_append.1 hc with hc | hc
      · exact toNat_lt_of_isAscii (hascii rfl) c hc
      · rw [List.mem_replicate] at hc
        rw [hc.2, toNat_ofNat_toNat]
        have hle := UInt8.le_iff_toNat_le.1 (hfill (Nat.pos_of_ne_zero hc.1))
        exact Nat.lt_of_le_of_lt hle (by decide)
    rw [shown, ofAscii_utf8 hwhole, htrim]

/-- A text that has no padding at its ends shows as it is. -/
theorem Padded.shown_eq {format : FieldFormat} {text : List Char} (h : Padded format text) {kind : TextKind}
    (hkind : kind ≠ .bcd) (hascii : kind = .ascii → isAscii text = true) :
    shown kind ((utf8 text).pad (format.length - (utf8 text).length) format.fill) = String.ofList text := by
  have hstripped : Stripped text text :=
    ⟨⟨[], [], (List.append_nil _).symm, List.forall_mem_nil _, List.forall_mem_nil _⟩, h.head, h.last⟩
  exact hstripped.shown_pad hkind hascii fun hcount => h.fill (by omega)

/-! ## The round trip

The kinds of texts differ in what is stored and in what is shown, and have the rest in common. -/

/-- A field with a length takes as many bytes and leaves what follows; one without takes the rest of the
buffer. -/
theorem read_append {format : FieldFormat} {bytes rest : Bytes}
    (hsized : format.length ≠ 0 → bytes.length = format.length) (hrest : format.length = 0 → rest = []) :
    read format (bytes ++ rest) = .found (.text (shown format.text bytes)) rest := by
  by_cases hlength : format.length = 0
  · rw [read, if_pos hlength, hrest hlength, List.append_nil]
  · have hsplit := (Bytes.split?_eq_some_iff _ format.length bytes rest).2 ⟨rfl, hsized hlength⟩
    simp only [read, if_neg hlength, hsplit]

/-- What is stored of a text that fits, filled up to the length of the field, shows the text. -/
theorem Fits.exists_stored {format : FieldFormat} {text : String} (h : Fits format text) :
    ∃ bytes, stored format.text text (some format.length) = .ok bytes ∧ bytes.length ≤ format.length ∧
      shown format.text (bytes.pad (format.length - bytes.length) format.fill) = text := by
  obtain ⟨-, hkind⟩ := h
  cases hformat : format.text with
  | bcd =>
    simp only [hformat] at hkind
    obtain ⟨bytes, hlength, hdigits⟩ := Hex.exists_eq_digits format.length _ hkind.1 hkind.2
    have htext : text = Hex.encode bytes := by
      rw [Hex.encode, ← hdigits, String.ofList_toList]
    refine ⟨bytes, ?_, Nat.le_of_eq hlength, ?_⟩
    · simp only [stored, hdigits, Hex.decode_digits, Option.elim_some, ← hlength, List.take_length]
    · -- the digits take up all of the field, so there is nothing to fill
      rw [hlength, Nat.sub_self]
      simp only [shown, Bytes.pad, List.replicate_zero, List.append_nil]
      exact htext.symm
  | utf8 =>
    simp only [hformat] at hkind
    refine ⟨utf8 text.toList, ?_, hkind.length_le, ?_⟩
    · simp only [stored, Option.elim_some, cutBetween_of_length_le hkind.length_le]
    · have hascii : TextKind.utf8 = .ascii → isAscii text.toList = true := by
        intro heq
        cases heq
      rw [hkind.shown_eq (by decide) hascii, String.ofList_toList]
  | ascii =>
    simp only [hformat] at hkind
    obtain ⟨hascii, hpadded⟩ := hkind
    refine ⟨utf8 text.toList, ?_, hpadded.length_le, ?_⟩
    · simp only [stored, if_pos hascii, Option.elim_some, List.take_of_length_le hpadded.length_le]
    · have hascii' : TextKind.ascii = .ascii → isAscii text.toList = true := fun _ => hascii
      rw [hpadded.shown_eq (by decide) hascii', String.ofList_toList]

/-- **A text that fits is read back**: it is written in as many bytes as the field has, and whatever
follows them stays unread. -/
theorem read_write {format : FieldFormat} {text : String} (h : Fits format text) :
    ∃ bytes, bytes ≠ [] ∧ write format (some text) = .done bytes ∧
      ∀ rest, read format (bytes ++ rest) = .found (.text text) rest := by
  obtain ⟨bytes, hstored, hle, hshown⟩ := h.exists_stored
  have hlength : (bytes.pad (format.length - bytes.length) format.fill).length = format.length := by
    rw [Bytes.length_pad]
    omega
  refine ⟨bytes.pad (format.length - bytes.length) format.fill, ?nonempty, ?write, ?read⟩
  case nonempty =>
    intro hnil
    rw [hnil] at hlength
    exact h.1 hlength.symm
  case write =>
    simp only [write, if_neg h.1, hstored]
  case read =>
    intro rest
    rw [read_append (fun _ => hlength) (fun hzero => absurd hzero h.1), hshown]

end Telegram.Text
