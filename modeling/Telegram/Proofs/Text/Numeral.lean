import Mathlib.Data.List.Induction
import Mathlib.Data.Nat.Digits.Defs
import Telegram.Text.Numeral

/-!
# Digits and the numbers they stand for

A run of ASCII digits is a list of numbers below 10, each written as its character (`digitChars`). The
number it stands for is told by the powers of 10 (`numberOf`), and the reader of numerals finds just that:

* `ofDigits?_eq_some_iff`: what is read without a sign is a run of digits that is not empty.
* `signed?_eq_some_iff`: one sign may stand in front of it.
-/

namespace Telegram.Text

/-- Digits as they are written. -/
def digitChars (digits : List (Fin 10)) : List Char :=
  digits.map fun digit : Fin 10 => Nat.digitChar digit

/-- The number that digits stand for, the most significant one first. -/
def numberOf (digits : List (Fin 10)) : Nat :=
  Nat.ofDigits 10 (digits.reverse.map Fin.val)

/-- What may stand in front of a number. -/
inductive Sign where
  | absent
  | plus
  | minus
  deriving DecidableEq, Repr

namespace Sign

def chars : Sign → List Char
  | absent => []
  | plus => ['+']
  | minus => ['-']

/-- The number with its sign. -/
def apply : Sign → Nat → Int
  | minus, n => -(n : Int)
  | absent, n | plus, n => n

end Sign

/-! ## Digits

The reader goes through characters from the left and multiplies by 10. The number is defined from the
digits, by their places, so that nothing in it refers to the reader. -/

/-- A digit is read as what it was written for. -/
theorem digitValue_digitChar : ∀ digit : Fin 10, digitValue (Nat.digitChar digit) = digit := by
  decide

theorem isDigit_digitChar : ∀ digit : Fin 10, (Nat.digitChar digit).isDigit = true := by
  decide

theorem digitChar_ne_sign : ∀ digit : Fin 10, Nat.digitChar digit ≠ '-' ∧ Nat.digitChar digit ≠ '+' := by
  decide

/-- A sign can not be taken for a digit, so it is told from the first character whether there is one. -/
theorem Sign.not_isDigit_of_mem {sign : Sign} {c : Char} (h : c ∈ sign.chars) : ¬ c.isDigit = true := by
  cases sign with
  | absent => cases h
  | plus | minus =>
    obtain rfl := List.mem_singleton.1 h
    decide

/-- The digits are the ten characters from zero to nine, and none of other scripts. -/
theorem exists_eq_digitChar {c : Char} (h : c.isDigit = true) : ∃ digit : Fin 10, c = Nat.digitChar digit := by
  have hchar : ∀ digit : Fin 10, Nat.digitChar digit = Char.ofNat (digit + '0'.toNat) := by decide
  obtain ⟨hlow, hhigh⟩ := Char.isDigit_iff_toNat.1 h
  have hzero : '0'.toNat = 48 := rfl
  have hnine : '9'.toNat = 57 := rfl
  refine ⟨⟨c.toNat - '0'.toNat, by omega⟩, ?_⟩
  rw [hchar, Nat.sub_add_cancel hlow, Char.ofNat_toNat]

theorem digitChars_append (front rest : List (Fin 10)) :
    digitChars (front ++ rest) = digitChars front ++ digitChars rest :=
  List.map_append

/-- Digits can be read off what is written. -/
theorem digitChars_inj {first second : List (Fin 10)} : digitChars first = digitChars second ↔ first = second := by
  have hchar : ∀ first second : Fin 10, Nat.digitChar first = Nat.digitChar second → first = second := by decide
  exact List.map_inj_right hchar

theorem digitChars_eq_nil_iff {digits : List (Fin 10)} : digitChars digits = [] ↔ digits = [] :=
  List.map_eq_nil_iff

theorem length_digitChars (digits : List (Fin 10)) : (digitChars digits).length = digits.length :=
  List.length_map _

theorem all_isDigit_digitChars (digits : List (Fin 10)) : (digitChars digits).all Char.isDigit = true := by
  rw [digitChars, List.all_map]
  exact List.all_eq_true.2 fun digit _ => isDigit_digitChar digit

/-- A cut through the text is a cut through the digits. -/
theorem digitChars_eq_append_iff {digits : List (Fin 10)} {front rest : List Char} :
    digitChars digits = front ++ rest ↔
      ∃ first second, digits = first ++ second ∧ digitChars first = front ∧ digitChars second = rest :=
  List.map_eq_append_iff

/-- **Every run of digits is written by some list of numbers below 10.** -/
theorem exists_eq_digitChars {text : List Char} (h : text.all Char.isDigit = true) :
    ∃ digits, text = digitChars digits := by
  induction text with
  | nil => exact ⟨[], rfl⟩
  | cons c rest ih =>
    rw [List.all_cons, Bool.and_eq_true] at h
    obtain ⟨digit, rfl⟩ := exists_eq_digitChar h.1
    obtain ⟨digits, rfl⟩ := ih h.2
    exact ⟨digit :: digits, rfl⟩

theorem valueOf_append_singleton (text : List Char) (c : Char) :
    valueOf (text ++ [c]) = valueOf text * 10 + digitValue c := by
  rw [valueOf, List.foldl_append]
  rfl

/-- **The powers of 10 are what the reader counts.** -/
theorem valueOf_digitChars (digits : List (Fin 10)) : valueOf (digitChars digits) = numberOf digits := by
  induction digits using List.reverseRecOn with
  | nil => rfl
  | append_singleton front digit ih =>
    rw [digitChars_append, numberOf, List.reverse_concat, List.map_cons, Nat.ofDigits_cons]
    calc valueOf (digitChars front ++ [Nat.digitChar digit])
        = valueOf (digitChars front) * 10 + digitValue (Nat.digitChar digit) := valueOf_append_singleton _ _
      _ = numberOf front * 10 + digit := by rw [ih, digitValue_digitChar]
      _ = digit + 10 * numberOf front := by omega

/-- Zeros in front change nothing. -/
theorem valueOf_zeros_append (count : Nat) (text : List Char) :
    valueOf (List.replicate count '0' ++ text) = valueOf text := by
  have hzeros : valueOf (List.replicate count '0') = 0 := by
    induction count with
    | zero => rfl
    | succ count ih => rw [List.replicate_succ', valueOf_append_singleton, ih]; rfl
  rw [valueOf, List.foldl_append]
  exact congrArg (fun start => text.foldl (fun value c => value * 10 + digitValue c) start) hzeros

theorem valueOf_toDigits (n : Nat) : valueOf (Nat.toDigits 10 n) = n := by
  have hfold : valueOf (Nat.toDigits 10 n) = Nat.ofDigitChars 10 (Nat.toDigits 10 n) 0 := by
    simp only [valueOf, Nat.ofDigitChars, digitValue, Nat.mul_comm]
  rw [hfold, Nat.ofDigitChars_toDigits (by decide) (by decide)]

/-! ## Numerals

A numeral has at most one sign. A second one is no digit, so the text is refused. -/

theorem ofDigits?_eq_some_iff {text : List Char} {n : Nat} :
    ofDigits? text = some n ↔ ∃ digits, digits ≠ [] ∧ text = digitChars digits ∧ n = numberOf digits := by
  rw [ofDigits?, Option.ite_none_right_eq_some, Bool.and_eq_true, Option.some.injEq]
  constructor
  · rintro ⟨⟨hnonempty, hdigits⟩, rfl⟩
    obtain ⟨digits, rfl⟩ := exists_eq_digitChars hdigits
    refine ⟨digits, ?_, rfl, valueOf_digitChars digits⟩
    rintro rfl
    cases hnonempty
  · rintro ⟨digits, hnonempty, rfl, rfl⟩
    refine ⟨⟨?_, all_isDigit_digitChars digits⟩, valueOf_digitChars digits⟩
    rw [Bool.not_eq_true', List.isEmpty_eq_false_iff]
    exact mt digitChars_eq_nil_iff.1 hnonempty

theorem signed?_minus (digits : List Char) :
    signed? ('-' :: digits) = (ofDigits? digits).map fun n : Nat => -(n : Int) := by
  cases hread : ofDigits? digits <;> simp [signed?, hread]

theorem signed?_plus (digits : List Char) :
    signed? ('+' :: digits) = (ofDigits? digits).map fun n : Nat => (n : Int) := by
  cases hread : ofDigits? digits <;> simp [signed?, hread]

theorem signed?_of_no_sign {text : List Char} (hminus : ∀ rest, text ≠ '-' :: rest)
    (hplus : ∀ rest, text ≠ '+' :: rest) : signed? text = (ofDigits? text).map fun n : Nat => (n : Int) := by
  rw [signed?.eq_3 text hminus hplus]
  cases hread : ofDigits? text <;> simp

/-- What is left when the sign is taken off is read as digits. -/
theorem exists_signed?_eq (text : List Char) :
    ∃ (sign : Sign) (rest : List Char),
      text = sign.chars ++ rest ∧ signed? text = (ofDigits? rest).map sign.apply := by
  by_cases hminus : ∃ rest, text = '-' :: rest
  · obtain ⟨rest, rfl⟩ := hminus
    exact ⟨.minus, rest, rfl, signed?_minus rest⟩
  by_cases hplus : ∃ rest, text = '+' :: rest
  · obtain ⟨rest, rfl⟩ := hplus
    exact ⟨.plus, rest, rfl, signed?_plus rest⟩
  exact ⟨.absent, text, rfl, signed?_of_no_sign (not_exists.1 hminus) (not_exists.1 hplus)⟩

theorem signed?_digitChars (sign : Sign) {digits : List (Fin 10)} (h : digits ≠ []) :
    signed? (sign.chars ++ digitChars digits) = (ofDigits? (digitChars digits)).map sign.apply := by
  cases sign with
  | absent =>
    -- the first digit is no sign
    obtain ⟨digit, rest, rfl⟩ := List.exists_cons_of_ne_nil h
    obtain ⟨hminus, hplus⟩ := digitChar_ne_sign digit
    refine signed?_of_no_sign (fun rest heq => ?_) fun rest heq => ?_
    · exact hminus (List.cons.inj heq).1
    · exact hplus (List.cons.inj heq).1
  | plus => exact signed?_plus _
  | minus => exact signed?_minus _

/-- **A number is read from a sign and digits**, of which there must be one. -/
theorem signed?_eq_some_iff {text : List Char} {n : Int} :
    signed? text = some n ↔ ∃ (sign : Sign) (digits : List (Fin 10)),
      digits ≠ [] ∧ text = sign.chars ++ digitChars digits ∧ n = sign.apply (numberOf digits) := by
  constructor
  · intro h
    obtain ⟨sign, rest, rfl, hread⟩ := exists_signed?_eq text
    rw [hread, Option.map_eq_some_iff] at h
    obtain ⟨m, hm, rfl⟩ := h
    obtain ⟨digits, hnonempty, rfl, rfl⟩ := ofDigits?_eq_some_iff.1 hm
    exact ⟨sign, digits, hnonempty, rfl, rfl⟩
  · rintro ⟨sign, digits, hnonempty, rfl, rfl⟩
    rw [signed?_digitChars sign hnonempty, ofDigits?_eq_some_iff.2 ⟨digits, hnonempty, rfl, rfl⟩]
    rfl

end Telegram.Text
