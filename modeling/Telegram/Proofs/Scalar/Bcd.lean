import Telegram.Proofs.Scalar.Text

/-!
# Digits in bytes

A text field of the third kind shows each of its bytes as two hexadecimal digits. No byte is lost by that,
so whatever stands on the wire is written again as it was read. A text is written if it consists of digits
in pairs, of either case; of any other text, nothing is.

What comes back has lower-case digits and fills the field: `fieldDigits` are the digits of the text, as
far as there is room, and behind them those of the byte that pads it. They are the digits of `fieldBytes`,
which is what is written.
-/

namespace Telegram.Text

open Codec

variable {format : FieldFormat}

/-- What is written of some bytes: all of them without a length, else as many as the field has room for,
and the padding. -/
def fieldBytes (format : FieldFormat) (bytes : Bytes) : Bytes :=
  if format.length = 0 then bytes
  else bytes.take format.length ++ List.replicate (format.length - bytes.length) format.fill

/-- The digits that a field with a length shows after a text was written to it. -/
def fieldDigits (format : FieldFormat) (text : List Char) : List Char :=
  (text.map Char.toLower).take (2 * format.length) ++
    (List.replicate (format.length - text.length / 2) (Hex.digits format.fill)).flatten

theorem fieldBytes_of_length {bytes : Bytes} (h : format.length ≠ 0 → bytes.length = format.length) :
    fieldBytes format bytes = bytes := by
  rw [fieldBytes]
  split
  · rfl
  · rename_i hsized
    rw [h hsized, Nat.sub_self, List.take_of_length_le (Nat.le_of_eq (h hsized)), List.replicate_zero, List.append_nil]

theorem length_fieldBytes (hsized : format.length ≠ 0) (bytes : Bytes) :
    (fieldBytes format bytes).length = format.length := by
  rw [fieldBytes, if_neg hsized, List.length_append, List.length_take, List.length_replicate]
  omega

/-- **The field shows the digits of the text and of the padding.** -/
theorem encode_fieldBytes (hsized : format.length ≠ 0) {text : List Char} {bytes : Bytes}
    (h : bytes.flatMap Hex.digits = text.map Char.toLower) :
    Hex.encode (fieldBytes format bytes) = String.ofList (fieldDigits format text) := by
  have hlength : bytes.length = text.length / 2 := by
    have hdigits := congrArg List.length h
    rw [Hex.length_digits, List.length_map] at hdigits
    omega
  rw [Hex.encode, fieldBytes, if_neg hsized, List.flatMap_append, Hex.flatMap_digits_take, h, hlength, fieldDigits,
    List.flatMap_def, List.map_replicate]

theorem length_fieldDigits {text : List Char} (h : Hex.IsPaired text) :
    (fieldDigits format text).length = 2 * format.length := by
  have hpair : (Hex.digits format.fill).length = 2 := rfl
  have heven := h.1
  rw [fieldDigits, List.length_append, List.length_take, List.length_map, List.length_flatten, List.map_replicate,
    List.sum_replicate_nat, hpair]
  omega

/-- A text that spells bytes is written as those that the field has room for. -/
theorem write_of_decode (hkind : format.text = .bcd) {text : String} {bytes : Bytes}
    (h : Hex.decode text.toList = .ok bytes) : write format (some text) = .done (fieldBytes format bytes) := by
  by_cases hlength : format.length = 0
  · simp only [write, stored, hkind, h, hlength, if_true, Option.elim_none, fieldBytes, Nat.zero_sub, Bytes.pad,
      List.replicate_zero, List.append_nil]
  · simp only [write, stored, hkind, h, if_neg hlength, Option.elim_some, fieldBytes, Bytes.pad, List.length_take]
    congr 3
    omega

theorem write_of_decode_error (hkind : format.text = .bcd) {text : String} {fault : Hex.Fault}
    (h : Hex.decode text.toList = .error fault) :
    write format (some text) = .failed (.invalidBcd text fault) := by
  simp only [write, stored, hkind, h]

/-- **A text is refused if it is not made of pairs of digits.** -/
theorem refused_iff (hkind : format.text = .bcd) (text : String) :
    ((write format (some text)).bytes = [] ∧
        ∃ fault, (write format (some text)).result = .error (.invalidBcd text fault)) ↔
      ¬ Hex.IsPaired text.toList := by
  constructor
  · rintro ⟨-, fault, hrefused⟩ hpaired
    obtain ⟨bytes, hbytes, -⟩ := Hex.decode_of_isPaired hpaired
    rw [write_of_decode hkind hbytes] at hrefused
    cases hrefused
  · intro hpaired
    cases hdecode : Hex.decode text.toList with
    | ok bytes => exact absurd (Hex.isPaired_of_decode hdecode) hpaired
    | error fault =>
      rw [write_of_decode_error hkind hdecode]
      exact ⟨rfl, fault, rfl⟩

/-- **Bytes come back from digits, and digits from bytes.** Whatever stands in a field is written again as
it was read, and a text of pairs of digits is read as the field shows it. Any other text is refused, and
nothing is written of it. -/
theorem bcd_comes_back (hkind : format.text = .bcd) :
    (∀ bytes rest : Bytes, (format.length ≠ 0 → bytes.length = format.length) → (format.length = 0 → rest = []) →
      ∃ text, read format (bytes ++ rest) = .found (.text text) rest ∧ write format (some text) = .done bytes) ∧
    ∀ text : String,
      (((write format (some text)).bytes = [] ∧
          ∃ fault, (write format (some text)).result = .error (.invalidBcd text fault)) ↔
        ¬ Hex.IsPaired text.toList) ∧
      (Hex.IsPaired text.toList → ∃ bytes, write format (some text) = .done bytes ∧
        (format.length ≠ 0 → (fieldDigits format text.toList).length = 2 * format.length ∧
          ∀ rest, read format (bytes ++ rest) =
            .found (.text (String.ofList (fieldDigits format text.toList))) rest)) := by
  refine ⟨fun bytes rest hsized hrest => ?bytes, fun text => ⟨refused_iff hkind text, fun hpaired => ?text⟩⟩
  case bytes =>
    refine ⟨Hex.encode bytes, ?_, ?_⟩
    · have hread := read_append hsized hrest
      rwa [hkind] at hread
    · have hdecode : Hex.decode (Hex.encode bytes).toList = .ok bytes := by
        rw [Hex.encode, String.toList_ofList, Hex.decode_digits]
      rw [write_of_decode hkind hdecode, fieldBytes_of_length hsized]
  case text =>
    obtain ⟨bytes, hdecode, hdigits⟩ := Hex.decode_of_isPaired hpaired
    refine ⟨fieldBytes format bytes, write_of_decode hkind hdecode, fun hsized => ⟨length_fieldDigits hpaired, ?_⟩⟩
    intro rest
    have hread : read format (fieldBytes format bytes ++ rest) = _ :=
      read_append (fun _ => length_fieldBytes hsized bytes) (absurd · hsized)
    rwa [hkind, shown, encode_fieldBytes hsized hdigits] at hread

/-- Three bytes with digits of either case, too few of them, and an odd one. -/
theorem bcd_comes_back_three :
    let format : FieldFormat := { text := .bcd, length := 3, fill := 0xFF }
    (∃ text, read format ([0x12, 0x34, 0x5A] ++ [7]) = .found (.text text) [7] ∧
      write format (some text) = .done [0x12, 0x34, 0x5A]) ∧
    ((write format (some "a1b")).bytes = [] ∧
      ∃ fault, (write format (some "a1b")).result = .error (.invalidBcd "a1b" fault)) ∧
    ∃ bytes, write format (some "A1b2") = .done bytes ∧
      ∀ rest, read format (bytes ++ rest) = .found (.text "a1b2ff") rest := by
  obtain ⟨hbytes, htext⟩ := @bcd_comes_back { text := .bcd, length := 3, fill := 0xFF } rfl
  refine ⟨hbytes [0x12, 0x34, 0x5A] [7] (fun _ => rfl) nofun, ?refused, ?shown⟩
  case refused => exact (htext "a1b").1.2 fun hpaired => absurd hpaired.1 (by decide)
  case shown =>
    have hdigits : "A1b2".toList.all Hex.isDigit = true := rfl
    obtain ⟨bytes, hwrite, hshown⟩ := (htext "A1b2").2 ⟨rfl, List.all_eq_true.1 hdigits⟩
    exact ⟨bytes, hwrite, (hshown (by decide)).2⟩

end Telegram.Text
