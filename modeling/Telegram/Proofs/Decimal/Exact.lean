import Mathlib.Data.Rat.Floor
import Mathlib.Tactic.FieldSimp
import Mathlib.Tactic.Linarith
import Telegram.Proofs.Decimal.Int128
import Telegram.Proofs.Scalar.Rule

/-!
# Decimal arithmetic is exact

A decimal stands for a rational number (`toRat`), and the arithmetic is that of rational numbers, up to
one rounding at the end.

* `Nearest` says what it is to round: no whole number is nearer, and of two that are equally near it is
  the one further from 0. There is just one such number (`Nearest.unique`), and `roundQuotient` finds it
  (`nearest_roundQuotient`).
* `cutOff` says what it is to cut the fraction off, and truncating division does that (`cutOff_div`).
* `arithmetic_exact` is all of it, also for numbers of 128 bits.
-/

namespace Telegram.Decimal

/-- The number that a decimal stands for. -/
def toRat (x : Decimal) : ℚ :=
  x.mantissa.toInt / 10 ^ x.scale

/-- `n` is the whole number nearest to `q`, a half being rounded away from 0. The first part leaves two
numbers to choose from where `q` lies halfway between them, and the second one chooses. -/
structure Nearest (q : ℚ) (n : ℤ) : Prop where
  le : ∀ m : ℤ, |q - n| ≤ |q - m|
  away : ∀ m : ℤ, |q - m| = |q - n| → |m| ≤ |n|

/-- The number with its fraction cut off. -/
def cutOff (q : ℚ) : ℤ :=
  if q < 0 then ⌈q⌉ else ⌊q⌋

/-! ## Rounding

A quotient is rounded in whole numbers: the remainder of the truncated division is doubled and compared
with the divisor. That this finds the nearest number is said with rational numbers and shown with whole
ones. -/

/-- **There is one nearest number.** -/
theorem Nearest.unique {q : ℚ} {n m : ℤ} (hn : Nearest q n) (hm : Nearest q m) : n = m := by
  have heq : |q - n| = |q - m| := le_antisymm (hn.le m) (hm.le n)
  have habs : |n| = |m| := le_antisymm (hm.away n heq) (hn.away m heq.symm)
  rcases abs_eq_abs.1 habs with heq' | rfl
  · exact heq'
  -- two opposite numbers are equally near to 0 only, to which they are not nearest unless they are 0
  rw [Int.cast_neg] at heq
  rcases abs_eq_abs.1 heq with hsame | hopposite
  · have hzero : (m : ℚ) = 0 := by linarith
    rw [Int.cast_eq_zero.1 hzero, neg_zero]
  · have hq : q = 0 := by linarith
    have hle := hm.le 0
    rw [hq, Int.cast_zero, sub_zero, abs_zero, zero_sub, abs_neg] at hle
    rw [Int.cast_eq_zero.1 (abs_nonpos_iff.1 hle), neg_zero]

theorem nearest_zero : Nearest 0 0 := by
  refine ⟨fun m => ?_, fun m heq => ?_⟩
  · rw [Int.cast_zero, sub_zero, abs_zero]
    exact abs_nonneg _
  · rw [Int.cast_zero, sub_zero, abs_zero, abs_eq_zero, zero_sub, neg_eq_zero, Int.cast_eq_zero] at heq
    rw [heq]

/-- How far a quotient is from a whole number. -/
theorem abs_div_sub (a : ℤ) {b : ℤ} (hb : b ≠ 0) (m : ℤ) :
    |(a / b : ℚ) - m| = ((a - m * b).natAbs : ℚ) / b.natAbs := by
  have hb' : (b : ℚ) ≠ 0 := Int.cast_ne_zero.2 hb
  have hdiff : (a / b : ℚ) - m = ((a - m * b : ℤ) : ℚ) / b := by
    push_cast
    field_simp
  rw [hdiff, abs_div, Nat.cast_natAbs, Nat.cast_natAbs, Int.cast_abs, Int.cast_abs]

/-- Different multiples of a number are at least the number apart. -/
theorem multiples_apart (m n b : ℤ) : m = n ∨ b.natAbs ≤ (m * b - n * b).natAbs := by
  rcases eq_or_ne m n with heq | hne
  · exact .inl heq
  · rw [← Int.sub_mul, Int.natAbs_mul]
    exact .inr (Nat.le_mul_of_pos_left _ (Int.natAbs_pos.2 (sub_ne_zero.2 hne)))

/-- `n` is nearest to a quotient if its multiple is no more than half the divisor away from the dividend,
and further from 0 than the dividend where it is just half. -/
theorem nearest_div {a b n : ℤ} (hb : b ≠ 0) (hnear : 2 * (a - n * b).natAbs ≤ b.natAbs)
    (htie : 2 * (a - n * b).natAbs = b.natAbs → a.natAbs < (n * b).natAbs) : Nearest (a / b) n := by
  have hpos : 0 < b.natAbs := Int.natAbs_pos.2 hb
  have hpos' : (0 : ℚ) < b.natAbs := Nat.cast_pos.2 hpos
  refine ⟨fun m => ?le, fun m heq => ?away⟩
  case le =>
    rw [abs_div_sub a hb, abs_div_sub a hb, div_le_div_iff_of_pos_right hpos', Nat.cast_le]
    rcases multiples_apart m n b with rfl | hapart
    · exact le_rfl
    · omega
  case away =>
    rw [abs_div_sub a hb, abs_div_sub a hb, div_left_inj' hpos'.ne', Nat.cast_inj] at heq
    rcases multiples_apart m n b with rfl | hapart
    · exact le_rfl
    have hfar : n * b = 0 ∨ b.natAbs ≤ (n * b).natAbs := by
      rcases multiples_apart n 0 b with rfl | hzero
      · exact .inl (Int.zero_mul b)
      · rw [Int.zero_mul, Int.sub_zero] at hzero
        exact .inr hzero
    have hle : m.natAbs * b.natAbs ≤ n.natAbs * b.natAbs := by
      rw [← Int.natAbs_mul, ← Int.natAbs_mul]
      omega
    rw [← Int.natCast_natAbs, ← Int.natCast_natAbs, Nat.cast_le]
    exact Nat.le_of_mul_le_mul_right hle hpos

/-- **Rounding a quotient finds the nearest number.** -/
theorem nearest_roundQuotient (a : ℤ) {b : ℤ} (hb : b ≠ 0) : Nearest (a / b) (roundQuotient a b) := by
  have hsplit := Int.tdiv_mul_add_tmod a b
  have hbetween := tdiv_mul_between a b
  have hrest : (a.tmod b).natAbs < b.natAbs := by
    rw [Int.natAbs_tmod]
    exact Nat.mod_lt _ (Int.natAbs_pos.2 hb)
  rw [roundQuotient]
  split
  · exact nearest_div hb (by omega) (by omega)
  -- half or more is left, and the signs tell on which side of the truncated quotient it lies
  split
  · rename_i hsign
    rw [eq_iff_iff] at hsign
    have hmul : (a.tdiv b + 1) * b = a.tdiv b * b + b := by ring
    apply nearest_div hb <;> rw [hmul] <;> omega
  · rename_i hsign
    rw [eq_iff_iff] at hsign
    have hmul : (a.tdiv b - 1) * b = a.tdiv b * b - b := by ring
    apply nearest_div hb <;> rw [hmul] <;> omega

/-! ## Cutting off

Truncating division goes towards 0, which is what it means to leave a fraction off. -/

/-- **Truncating division cuts the fraction off.** -/
theorem cutOff_div (a : ℤ) {b : ℕ} (hb : 0 < b) : cutOff (a / b) = a.tdiv b := by
  have hneg : (a / b : ℚ) < 0 ↔ a < 0 := by
    rw [div_lt_iff₀ (Nat.cast_pos.2 hb), zero_mul, Int.cast_lt_zero]
  simp only [cutOff, hneg]
  split
  · rw [Rat.ceil_intCast_div_natCast, ← Int.tdiv_eq_ediv_of_nonneg (by omega), Int.neg_tdiv, neg_neg]
  · rw [Rat.floor_intCast_div_natCast, Int.tdiv_eq_ediv_of_nonneg (by omega)]

theorem toInt_clampInt64 (n : ℤ) : (clampInt64 n).toInt = max (-2 ^ 63) (min n (2 ^ 63 - 1)) := by
  have hlow : Int64.minValue.toInt = -2 ^ 63 := rfl
  have hhigh : Int64.maxValue.toInt = 2 ^ 63 - 1 := rfl
  rw [clampInt64, hlow, hhigh]
  exact Int64.toInt_ofInt_of_le (by omega) (by omega)

/-! ## Decimals

A decimal is its mantissa over a power of ten. Products and quotients of decimals are brought to the form
of one fraction with whole parts, and that is what is rounded or cut off. -/

/-- The quotient as one fraction, whose parts are whole numbers. -/
theorem toRat_div_mul (x : Decimal) (divisor : Int64) (scale : ℕ) :
    x.toRat / divisor.toInt * 10 ^ scale =
      ((x.mantissa.toInt * 10 ^ scale : ℤ) : ℚ) / ((divisor.toInt * 10 ^ x.scale : ℤ) : ℚ) := by
  rw [toRat]
  push_cast
  rw [div_div, div_mul_eq_mul_div, mul_comm (10 ^ x.scale : ℚ)]

theorem toRat_mul (x : Decimal) (factor : Int64) :
    x.toRat * factor.toInt = ((x.mantissa.toInt * factor.toInt : ℤ) : ℚ) / ((10 ^ x.scale : ℕ) : ℚ) := by
  rw [toRat]
  push_cast
  rw [div_mul_eq_mul_div]

/-- **What a quotient is rounded to** is the whole number nearest to it. By a divisor of 0 the rational
quotient is 0, and is not calculated. -/
theorem exists_nearest_quotient (x : Decimal) (divisor : Int64) (scale : ℕ) :
    ∃ rounded, Nearest (x.toRat / divisor.toInt * 10 ^ scale) rounded ∧
      (divisor ≠ 0 → roundQuotient (x.mantissa.toInt * 10 ^ scale) (divisor.toInt * 10 ^ x.scale) = rounded) := by
  by_cases hzero : divisor = 0
  · have hdivisor : divisor.toInt = 0 := congrArg Int64.toInt hzero
    refine ⟨0, ?_, absurd hzero⟩
    rw [hdivisor, Int.cast_zero, div_zero, zero_mul]
    exact nearest_zero
  · have hdivisor : divisor.toInt ≠ (0 : Int64).toInt := mt Int64.toInt_inj.1 hzero
    refine ⟨_, ?_, fun _ => rfl⟩
    rw [toRat_div_mul]
    exact nearest_roundQuotient _ (Int.mul_ne_zero hdivisor (Int.pow_ne_zero (by decide)))

/-- **The arithmetic of decimals is exact.** The quotient is rounded to the given scale, and there is none
only by a divisor of 0, to a scale beyond 18, or with a mantissa beyond 64 bits. The product is cut off
and kept within 64 bits. Numbers of 128 bits are enough for both. -/
theorem arithmetic_exact (x : Decimal) (divisor factor : Int64) (scale : ℕ) :
    (∃ rounded : ℤ, (∀ n, Nearest (x.toRat / divisor.toInt * 10 ^ scale) n ↔ n = rounded) ∧
      (x.divRound divisor scale = none ↔ divisor = 0 ∨ 18 < scale ∨ rounded < -2 ^ 63 ∨ 2 ^ 63 ≤ rounded) ∧
      ∀ y, x.divRound divisor scale = some y ↔
        divisor ≠ 0 ∧ y.scale = scale ∧ y.mantissa.toInt = rounded) ∧
    (x.mulTrunc factor).toInt = max (-2 ^ 63) (min (cutOff (x.toRat * factor.toInt)) (2 ^ 63 - 1)) ∧
    x.divRound128 divisor scale = .ok (x.divRound divisor scale) ∧
    x.mulTrunc128 factor = .ok (x.mulTrunc factor) := by
  refine ⟨?quotient, ?product, divRound128_eq x divisor scale, mulTrunc128_eq x factor⟩
  case quotient =>
    obtain ⟨rounded, hnearest, hrounded⟩ := exists_nearest_quotient x divisor scale
    refine ⟨rounded, fun n => ⟨fun hn => hn.unique hnearest, fun hn => hn ▸ hnearest⟩, ?none, fun y => ?some⟩
    case none =>
      rw [divRound_eq]
      split
      · simp only [*, true_or]
      · rename_i hzero
        rw [hrounded hzero, ofParts?_eq_none_iff, or_iff_right hzero]
        rfl
    case some =>
      rw [divRound_eq, Option.ite_none_left_eq_some]
      refine and_congr_right fun hzero => ?_
      rw [hrounded hzero, ofParts?_eq_some_iff, and_comm, eq_comm, eq_comm (a := rounded)]
  case product =>
    rw [mulTrunc, toInt_clampInt64, toRat_mul, cutOff_div _ (Nat.pow_pos (by decide)), pow_ten]
    norm_cast

example : (ofInt (-5)).divRound 2 0 = some (ofInt (-3)) := by
  decide

end Telegram.Decimal
