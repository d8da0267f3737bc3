import Mathlib.Data.List.TakeWhile
import Mathlib.Data.Option.Basic
import Telegram.Proofs.Scalar.Number
import Telegram.Proofs.Text.Numeral

/-!
# Decimal literals

A literal is a sign, digits, and a point with more digits behind it. Each of them can be left out, as long
as there is a digit somewhere. The digits on both sides of the point spell the mantissa together, and
those behind it are counted by the scale.

* `Literal` is this grammar as data, so that whatever has the form of a literal is the text of one.
* `parse_reads_literals`: a text is read if and only if it is the text of a literal that is in range, and
  as the decimal that the literal denotes.
* `parse_toText`: a decimal is written as one of its literals (`exists_literal_toText`), so it is read
  back.
-/

namespace Telegram.Decimal

open Codec
open Text (Sign digitChars numberOf valueOf signed?)

/-- The parts of a literal. -/
structure Literal where
  sign : Sign
  /-- The digits in front of the point. -/
  whole : List (Fin 10)
  /-- The digits behind the point, if there is a point. -/
  fraction : Option (List (Fin 10))

namespace Literal

/-- The literal as it is written. -/
def text (l : Literal) : List Char :=
  l.sign.chars ++ digitChars l.whole ++ l.fraction.elim [] fun digits => '.' :: digitChars digits

def fractionDigits (l : Literal) : List (Fin 10) :=
  l.fraction.getD []

/-- The digits on both sides of the point. -/
def digits (l : Literal) : List (Fin 10) :=
  l.whole ++ l.fractionDigits

/-- The whole number that all digits spell. -/
def mantissa (l : Literal) : Int :=
  l.sign.apply (numberOf l.digits)

/-- How many digits stand behind the point. -/
def scale (l : Literal) : Nat :=
  l.fractionDigits.length

/-- There is a digit, there are not too many behind the point, and the number has 64 bits. Digits in front
of the point may be missing, or those behind it, but not both. Leading zeros do no harm. -/
structure InRange (l : Literal) : Prop where
  digits_ne_nil : l.digits ≠ []
  scale_le : l.scale ≤ 18
  mantissa_ge : -2 ^ 63 ≤ l.mantissa
  mantissa_lt : l.mantissa < 2 ^ 63

/-- The decimal that a literal stands for. -/
structure Denotes (l : Literal) (x : Decimal) : Prop where
  digits_ne_nil : l.digits ≠ []
  mantissa_eq : l.mantissa = x.mantissa.toInt
  scale_eq : l.scale = x.scale

end Literal

/-- **Literals in range are those that denote a decimal.** -/
theorem Literal.inRange_iff {l : Literal} : l.InRange ↔ ∃ x, l.Denotes x := by
  constructor
  · rintro ⟨hdigits, hscale, hlow, hhigh⟩
    exact ⟨⟨Int64.ofInt l.mantissa, l.scale, hscale⟩, hdigits, (Int64.toInt_ofInt_of_le hlow hhigh).symm, rfl⟩
  · rintro ⟨x, hdigits, hmantissa, hscale⟩
    exact ⟨hdigits, hscale ▸ x.scale_le, hmantissa ▸ x.mantissa.le_toInt, hmantissa ▸ x.mantissa.toInt_lt⟩

/-! ## The point

The text is split at its first point. A sign and digits hold none, so for a literal this is the point that
was meant, and a second one behind it is no digit and is refused there. -/

theorem splitPoint_append {front : List Char} (h : '.' ∉ front) (rest : List Char) :
    splitPoint (front ++ '.' :: rest) = (front, rest) := by
  have hfront : ∀ c ∈ front, (c != '.') = true := fun c hc => bne_iff_ne.2 fun heq => h (heq ▸ hc)
  rw [splitPoint, List.takeWhile_append_of_pos hfront, List.dropWhile_append_of_pos hfront]
  simp

theorem splitPoint_of_not_mem {text : List Char} (h : '.' ∉ text) : splitPoint text = (text, []) := by
  have htext : ∀ c ∈ text, (c != '.') = true := fun c hc => bne_iff_ne.2 fun heq => h (heq ▸ hc)
  rw [splitPoint, List.takeWhile_eq_self_iff.2 htext, List.dropWhile_eq_nil_iff.2 htext]
  rfl

theorem point_not_mem_numeral (sign : Sign) (digits : List (Fin 10)) : '.' ∉ sign.chars ++ digitChars digits := by
  have hdigit : ∀ digit : Fin 10, '.' ≠ Nat.digitChar digit := by decide
  rw [List.mem_append, not_or]
  refine ⟨?_, fun hmem => ?_⟩
  · cases sign <;> decide
  · obtain ⟨digit, -, heq⟩ := List.mem_map.1 hmem
    exact hdigit digit heq.symm

theorem Literal.splitPoint_text (l : Literal) :
    splitPoint l.text = (l.sign.chars ++ digitChars l.whole, digitChars l.fractionDigits) := by
  have hfront := point_not_mem_numeral l.sign l.whole
  obtain ⟨sign, whole, fraction⟩ := l
  cases fraction with
  | none => exact (congrArg splitPoint (List.append_nil _)).trans (splitPoint_of_not_mem hfront)
  | some digits => exact splitPoint_append hfront _

/-- A text is that of a literal if a numeral stands in front of the point and digits behind it. -/
theorem exists_text_eq {text : List Char} {sign : Sign} {whole fraction : List (Fin 10)}
    (h : splitPoint text = (sign.chars ++ digitChars whole, digitChars fraction)) :
    ∃ l : Literal, l.text = text ∧ l.sign = sign ∧ l.whole = whole ∧ l.fractionDigits = fraction := by
  by_cases hpoint : '.' ∈ text
  · obtain ⟨front, rest, rfl, hfront⟩ := List.eq_append_cons_of_mem hpoint
    rw [splitPoint_append hfront, Prod.mk.injEq] at h
    obtain ⟨rfl, rfl⟩ := h
    exact ⟨⟨sign, whole, some fraction⟩, rfl, rfl, rfl, rfl⟩
  · rw [splitPoint_of_not_mem hpoint, Prod.mk.injEq] at h
    obtain ⟨rfl, hnil⟩ := h
    obtain rfl := Text.digitChars_eq_nil_iff.1 hnil.symm
    exact ⟨⟨sign, whole, none⟩, List.append_nil _, rfl, rfl, rfl⟩

/-! ## Reading

The parser joins the digits on both sides of the point and reads them as one number. For the parts of a
literal to be found again, the joined digits have to be taken apart, which the number of digits behind the
point allows. -/

/-- Digits at the end of a numeral are among its digits, and the sign stays in front. -/
theorem exists_of_append_eq {front : List Char} {sign : Sign} {fraction digits : List (Fin 10)}
    (h : front ++ digitChars fraction = sign.chars ++ digitChars digits) :
    ∃ whole, front = sign.chars ++ digitChars whole ∧ digits = whole ++ fraction := by
  have hrest : ∃ more, front = sign.chars ++ more ∧ digitChars digits = more ++ digitChars fraction := by
    rcases List.append_eq_append_iff.1 h with ⟨more, hsign, hdigits⟩ | hrest
    · -- what would be left of the sign are digits
      have hnil : more = [] := by
        refine List.eq_nil_iff_forall_not_mem.2 fun c hc => ?_
        have hdigit : c.isDigit = true :=
          List.all_eq_true.1 (Text.all_isDigit_digitChars fraction) c (hdigits ▸ List.mem_append_left _ hc)
        have hmem : c ∈ sign.chars := hsign ▸ List.mem_append_right _ hc
        exact sign.not_isDigit_of_mem hmem hdigit
      subst hnil
      exact ⟨[], by rw [hsign, List.append_nil, List.append_nil], hdigits.symm⟩
    · exact hrest
  obtain ⟨more, rfl, hdigits⟩ := hrest
  obtain ⟨whole, second, rfl, rfl, hsecond⟩ := Text.digitChars_eq_append_iff.1 hdigits
  obtain rfl := Text.digitChars_inj.1 hsecond
  exact ⟨whole, rfl, rfl⟩

theorem ofText?_eq_some_iff_parts {text : String} {x : Decimal} :
    ofText? text = some x ↔
      (splitPoint text.toList).2.all Char.isDigit = true ∧
        signed? ((splitPoint text.toList).1 ++ (splitPoint text.toList).2) = some x.mantissa.toInt ∧
          (splitPoint text.toList).2.length = x.scale := by
  simp only [ofText?, Option.bind_eq_bind, Option.bind_eq_some_iff, Option.guard_eq_some', ofParts?_eq_some_iff]
  constructor
  · rintro ⟨-, hdigits, mantissa, hmantissa, rfl, hscale⟩
    exact ⟨hdigits, hmantissa, hscale⟩
  · rintro ⟨hdigits, hmantissa, hscale⟩
    exact ⟨(), hdigits, _, hmantissa, rfl, hscale⟩

/-- **What is read are the texts of literals**, each as the decimal that it denotes. -/
theorem ofText?_eq_some_iff {text : String} {x : Decimal} :
    ofText? text = some x ↔ ∃ l : Literal, l.text = text.toList ∧ l.Denotes x := by
  rw [ofText?_eq_some_iff_parts]
  constructor
  · rintro ⟨hdigits, hmantissa, hscale⟩
    obtain ⟨fraction, hfraction⟩ := Text.exists_eq_digitChars hdigits
    obtain ⟨sign, digits, hnonempty, htext, hvalue⟩ := Text.signed?_eq_some_iff.1 hmantissa
    rw [hfraction] at htext hscale
    obtain ⟨whole, hwhole, rfl⟩ := exists_of_append_eq htext
    obtain ⟨l, hl, rfl, rfl, rfl⟩ := exists_text_eq (Prod.ext hwhole hfraction)
    exact ⟨l, hl, hnonempty, hvalue.symm, (Text.length_digitChars _).symm.trans hscale⟩
  · rintro ⟨l, htext, hnonempty, hmantissa, hscale⟩
    rw [← htext, l.splitPoint_text]
    refine ⟨Text.all_isDigit_digitChars _, ?_, (Text.length_digitChars _).trans hscale⟩
    rw [List.append_assoc, ← Text.digitChars_append, Text.signed?_eq_some_iff]
    exact ⟨l.sign, l.digits, hnonempty, rfl, hmantissa.symm⟩

theorem parse_eq_ok_iff {text : String} {x : Decimal} :
    parse text = .ok x ↔ ∃ l : Literal, l.text = text.toList ∧ l.Denotes x := by
  rw [← ofText?_eq_some_iff, parse]
  cases ofText? text <;> simp

/-- **The literals in range are read, and nothing else.** What is not read is quoted by the error. -/
theorem parse_reads_literals (text : String) :
    ((∃ x, parse text = .ok x) ↔ ∃ l : Literal, l.text = text.toList ∧ l.InRange) ∧
      (∀ x, parse text = .ok x ↔ ∃ l : Literal, l.text = text.toList ∧ l.InRange ∧
        x.mantissa.toInt = l.mantissa ∧ x.scale = l.scale) ∧
      (parse text = .error (.invalidSchema (.notADecimal text)) ↔
        ¬ ∃ l : Literal, l.text = text.toList ∧ l.InRange) ∧
      (Error.invalidSchema (.notADecimal text)).message =
        "invalid schema: invalid decimal literal: " ++ Text.quote text := by
  have hreads : (∃ x, parse text = .ok x) ↔ ∃ l : Literal, l.text = text.toList ∧ l.InRange := by
    simp only [parse_eq_ok_iff, Literal.inRange_iff]
    exact ⟨fun ⟨x, l, htext, hl⟩ => ⟨l, htext, x, hl⟩, fun ⟨l, htext, x, hl⟩ => ⟨x, l, htext, hl⟩⟩
  refine ⟨hreads, fun x => ?value, ?error, (String.append_assoc ..).symm⟩
  case value =>
    rw [parse_eq_ok_iff]
    constructor
    · rintro ⟨l, htext, hl⟩
      exact ⟨l, htext, Literal.inRange_iff.2 ⟨x, hl⟩, hl.mantissa_eq.symm, hl.scale_eq.symm⟩
    · rintro ⟨l, htext, hrange, hmantissa, hscale⟩
      exact ⟨l, htext, hrange.digits_ne_nil, hmantissa.symm, hscale.symm⟩
  case error =>
    rw [← hreads, parse]
    cases ofText? text <;> simp

example : parse "-.50" = .ok ⟨-50, 2, by decide⟩ := by
  decide

/-! ## Writing

A mantissa may have fewer digits than the scale. It is padded with zeros in front, until there is at least
one digit before the point. -/

theorem length_zeroPadded (width : Nat) (digits : List Char) :
    (zeroPadded width digits).length = max width digits.length := by
  rw [zeroPadded, List.length_append, List.length_replicate]
  omega

/-- The digits of a mantissa, padded as they are written. -/
theorem exists_zeroPadded_eq (width n : Nat) : ∃ digits : List (Fin 10),
    zeroPadded width (Nat.toDigits 10 n) = digitChars digits ∧ width ≤ digits.length ∧ numberOf digits = n := by
  have hdigit : ∀ c ∈ zeroPadded width (Nat.toDigits 10 n), c.isDigit = true := by
    intro c hc
    rcases List.mem_append.1 hc with hzero | hmem
    · rw [List.eq_of_mem_replicate hzero]
      rfl
    · exact Nat.isDigit_of_mem_toDigits (by decide) (by decide) hmem
  obtain ⟨digits, hdigits⟩ := Text.exists_eq_digitChars (List.all_eq_true.2 hdigit)
  refine ⟨digits, hdigits, ?_, ?_⟩
  · rw [← Text.length_digitChars, ← hdigits, length_zeroPadded]
    exact Nat.le_max_left _ _
  · rw [← Text.valueOf_digitChars, ← hdigits, zeroPadded, Text.valueOf_zeros_append, Text.valueOf_toDigits]

/-- The literal that a decimal is written as, given the digits of its mantissa. -/
def Literal.written (x : Decimal) (digits : List (Fin 10)) : Literal where
  sign := if x.mantissa < 0 then .minus else .absent
  whole := digits.take (digits.length - x.scale)
  fraction := if x.scale = 0 then none else some (digits.drop (digits.length - x.scale))

theorem Literal.fractionDigits_written (x : Decimal) (digits : List (Fin 10)) :
    (written x digits).fractionDigits = digits.drop (digits.length - x.scale) := by
  by_cases hscale : x.scale = 0
  · rw [fractionDigits, written, if_pos hscale, hscale, Nat.sub_zero, List.drop_length]
    rfl
  · rw [fractionDigits, written, if_neg hscale]
    rfl

theorem Literal.digits_written (x : Decimal) (digits : List (Fin 10)) : (written x digits).digits = digits := by
  rw [Literal.digits, fractionDigits_written]
  exact List.take_append_drop _ digits

/-- **A decimal is written as one of its literals.** -/
theorem exists_literal_toText (x : Decimal) : ∃ l : Literal, l.text = x.toText.toList ∧ l.Denotes x := by
  obtain ⟨digits, hdigits, hlength, hnumber⟩ := exists_zeroPadded_eq (x.scale + 1) x.mantissa.toInt.natAbs
  have hall := Literal.digits_written x digits
  refine ⟨.written x digits, ?text, ?nonempty, ?mantissa, ?scale⟩
  case text =>
    simp only [toText, hdigits, Text.length_digitChars, String.toList_ofList, Literal.text, Literal.written]
    congr 1
    · rw [digitChars, List.map_take]
      split <;> rfl
    · rw [digitChars, ← List.map_drop]
      split <;> rfl
  case nonempty =>
    rw [hall]
    exact List.ne_nil_of_length_pos (Nat.lt_of_lt_of_le (Nat.succ_pos _) hlength)
  case mantissa =>
    have hnegative : x.mantissa < 0 ↔ x.mantissa.toInt < 0 := Int64.lt_iff_toInt_lt
    rw [Literal.mantissa, hall, hnumber]
    simp only [Literal.written, hnegative]
    split <;> simp only [Sign.apply] <;> omega
  case scale =>
    rw [Literal.scale, Literal.fractionDigits_written, List.length_drop]
    omega

/-- **What is written is read back**, to the same mantissa and the same scale. -/
theorem parse_toText (x : Decimal) : parse x.toText = .ok x :=
  parse_eq_ok_iff.2 (exists_literal_toText x)

end Telegram.Decimal
