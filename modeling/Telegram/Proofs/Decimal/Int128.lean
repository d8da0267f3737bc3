import Mathlib.Algebra.Group.Int.Defs
import Mathlib.Algebra.Group.Nat.Defs
import Telegram.Decimal.Basic

/-!
# Decimal arithmetic in 128 bits

`divRound` and `mulTrunc` calculate with whole numbers of any size, and only their results have to fit. A
machine does it in 128 bits. Here are the two calculations with such numbers, operation by operation: one
whose result does not fit ends in a `Fault`, and so does a division by 0.

* `Int128` is a number of 128 bits, and `Int128.ofInt` is the only way to the result of an operation.
* `divRound128` and `mulTrunc128` are the calculations.
* `divRound128_eq` and `mulTrunc128_eq`: they never fault, and their answers are the exact ones.

A mantissa is at most 2 to the 63rd in absolute value and a power of ten at most 10 to the 18th, so that
their product leaves room for the one doubling that there is.
-/

namespace Telegram

/-- A signed number of 128 bits. It carries its bounds along, so what is computed with it is known to
fit. -/
structure Int128 where
  toInt : Int
  le_toInt : -2 ^ 127 ≤ toInt
  toInt_lt : toInt < 2 ^ 127

namespace Int128

/-- Why an operation has no result. -/
inductive Fault where
  /-- The result needs more than 128 bits. -/
  | overflow
  | zeroDivisor
  deriving DecidableEq, Repr

/-- The number, if it has no more than 128 bits. -/
def ofInt (n : Int) : Except Fault Int128 :=
  if h : -2 ^ 127 ≤ n ∧ n < 2 ^ 127 then .ok ⟨n, h.1, h.2⟩ else .error .overflow

/-- A number of 64 bits. -/
def ofInt64 (n : Int64) : Int128 :=
  have hlow := n.le_toInt
  have hhigh := n.toInt_lt
  ⟨n.toInt, by omega, by omega⟩

def add (a b : Int128) : Except Fault Int128 :=
  ofInt (a.toInt + b.toInt)

def mul (a b : Int128) : Except Fault Int128 :=
  ofInt (a.toInt * b.toInt)

def div (a b : Int128) : Except Fault Int128 :=
  if b.toInt = 0 then .error .zeroDivisor else ofInt (a.toInt.tdiv b.toInt)

/-- The remainder, where there is a quotient. -/
def rem (a b : Int128) : Except Fault Int128 := do
  let _ ← a.div b
  ofInt (a.toInt.tmod b.toInt)

def abs (a : Int128) : Except Fault Int128 :=
  ofInt a.toInt.natAbs

/-- Multiplies by the base once for each unit of the exponent. -/
def pow (base : Int128) : Nat → Except Fault Int128
  | 0 => ofInt 1
  | exponent + 1 => do
    let power ← pow base exponent
    power.mul base

end Int128

namespace Decimal

/-! ## The calculations

They are those of the decimals, with every operation named. The tests and their order are the same, so
that an answer that there is none is reached at the same place. -/

def pow10 (exponent : Nat) : Except Int128.Fault Int128 :=
  (Int128.ofInt64 10).pow exponent

/-- The whole number nearest to a quotient, in 128 bits. -/
def roundQuotient128 (numerator denominator : Int128) : Except Int128.Fault Int128 := do
  let quotient ← numerator.div denominator
  let remainder ← numerator.rem denominator
  let size ← remainder.abs
  let doubled ← size.mul (.ofInt64 2)
  let whole ← denominator.abs
  if doubled.toInt < whole.toInt then .ok quotient
  else if (numerator.toInt < 0) = (denominator.toInt < 0) then quotient.add (.ofInt64 1)
  else quotient.add (.ofInt64 (-1))

/-- The quotient rounded to `scale` digits after the point, in 128 bits. -/
def divRound128 (x : Decimal) (divisor : Int64) (scale : Nat) : Except Int128.Fault (Option Decimal) := do
  if divisor = 0 ∨ maxScale < scale then .ok none
  else
    let numerator ← (Int128.ofInt64 x.mantissa).mul (← pow10 scale)
    let denominator ← (Int128.ofInt64 divisor).mul (← pow10 x.scale)
    let rounded ← roundQuotient128 numerator denominator
    .ok (ofParts? rounded.toInt scale)

/-- The product with its fraction cut off, in 128 bits. -/
def mulTrunc128 (x : Decimal) (factor : Int64) : Except Int128.Fault Int64 := do
  let product ← (Int128.ofInt64 x.mantissa).mul (.ofInt64 factor)
  let quotient ← product.div (← pow10 x.scale)
  .ok (clampInt64 quotient.toInt)

end Decimal

/-! ## Operations that have a result

For each operation there is a bound under which it has a result, and the result is the exact one. The
bounds are on absolute values, as a sign takes no room. -/

namespace Int128

variable {a b : Int128}

theorem ok_bind {α β : Type} (value : α) (next : α → Except Fault β) : (Except.ok value >>= next) = next value :=
  rfl

/-- A number has room if it does with its sign left out. -/
theorem exists_ofInt {n : Int} (h : n.natAbs < 2 ^ 127) : ∃ w, ofInt n = .ok w ∧ w.toInt = n :=
  ⟨⟨n, by omega, by omega⟩, dif_pos (by omega), rfl⟩

theorem exists_mul (h : a.toInt.natAbs * b.toInt.natAbs < 2 ^ 127) :
    ∃ w, a.mul b = .ok w ∧ w.toInt = a.toInt * b.toInt :=
  exists_ofInt (by rwa [Int.natAbs_mul])

theorem exists_div (ha : a.toInt.natAbs < 2 ^ 127) (hb : b.toInt ≠ 0) :
    ∃ w, a.div b = .ok w ∧ w.toInt = a.toInt.tdiv b.toInt := by
  rw [div, if_neg hb]
  apply exists_ofInt
  rw [Int.natAbs_tdiv]
  exact Nat.lt_of_le_of_lt (Nat.div_le_self _ _) ha

theorem exists_rem (ha : a.toInt.natAbs < 2 ^ 127) (hb : b.toInt ≠ 0) :
    ∃ w, a.rem b = .ok w ∧ w.toInt = a.toInt.tmod b.toInt := by
  obtain ⟨quotient, hquotient, -⟩ := exists_div ha hb
  rw [rem, hquotient]
  apply exists_ofInt
  rw [Int.natAbs_tmod]
  exact Nat.lt_of_le_of_lt (Nat.mod_le _ _) ha

theorem exists_abs (h : a.toInt.natAbs < 2 ^ 127) : ∃ w, a.abs = .ok w ∧ w.toInt = a.toInt.natAbs :=
  exists_ofInt (by rwa [Int.natAbs_natCast])

end Int128

namespace Decimal

theorem natAbs_toInt_le (n : Int64) : n.toInt.natAbs ≤ 2 ^ 63 := by
  have hlow := n.le_toInt
  have hhigh := n.toInt_lt
  omega

theorem pow_ten_le {k : Nat} (h : k ≤ maxScale) : 10 ^ k ≤ 10 ^ 18 :=
  Nat.pow_le_pow_right (by decide) h

/-- **Up to the largest scale, powers of ten have room.** -/
theorem exists_pow10 {k : Nat} (h : k ≤ maxScale) : ∃ w, pow10 k = .ok w ∧ w.toInt = 10 ^ k := by
  induction k with
  | zero => exact ⟨_, rfl, rfl⟩
  | succ k ih =>
    obtain ⟨power, hpower, hvalue⟩ := ih (by omega)
    have hten : (Int128.ofInt64 10).toInt = 10 := rfl
    have hle := pow_ten_le h
    have hroom : power.toInt.natAbs * (Int128.ofInt64 10).toInt.natAbs < 2 ^ 127 := by
      rw [hvalue, hten, Int.natAbs_pow]
      rw [Nat.pow_succ] at hle
      exact Nat.lt_of_le_of_lt hle (by decide)
    obtain ⟨product, hproduct, hvalue'⟩ := Int128.exists_mul hroom
    refine ⟨product, ?_, ?_⟩
    · rw [pow10, Int128.pow, ← pow10, hpower]
      exact hproduct
    · rw [hvalue', hvalue, hten, Int.pow_succ]

/-- A number of 64 bits times a power of ten has room to be doubled. -/
theorem exists_mul_pow10 (n : Int64) {k : Nat} (h : k ≤ maxScale) :
    ∃ power w, pow10 k = .ok power ∧ (Int128.ofInt64 n).mul power = .ok w ∧ w.toInt = n.toInt * 10 ^ k ∧
      w.toInt.natAbs < 2 ^ 126 := by
  obtain ⟨power, hpower, hvalue⟩ := exists_pow10 h
  have hroom : n.toInt.natAbs * power.toInt.natAbs < 2 ^ 126 := by
    rw [hvalue, Int.natAbs_pow]
    calc n.toInt.natAbs * 10 ^ k ≤ 2 ^ 63 * 10 ^ 18 := Nat.mul_le_mul (natAbs_toInt_le n) (pow_ten_le h)
      _ < 2 ^ 126 := by decide
  obtain ⟨product, hproduct, hvalue'⟩ := Int128.exists_mul (a := .ofInt64 n) (Nat.lt_trans hroom (by decide))
  refine ⟨power, product, hpower, hproduct, ?_, ?_⟩
  · rw [hvalue', hvalue]
    rfl
  · rw [hvalue', Int.natAbs_mul]
    exact hroom

/-- **Rounding a quotient never faults** if the dividend leaves room for one more bit. -/
theorem exists_roundQuotient128 {numerator denominator : Int128} (hn : numerator.toInt.natAbs < 2 ^ 126)
    (hd : denominator.toInt.natAbs < 2 ^ 126) (hnonzero : denominator.toInt ≠ 0) :
    ∃ w, roundQuotient128 numerator denominator = .ok w ∧
      w.toInt = roundQuotient numerator.toInt denominator.toInt := by
  obtain ⟨quotient, hquotient, hq⟩ := Int128.exists_div (a := numerator) (by omega) hnonzero
  obtain ⟨remainder, hremainder, hr⟩ := Int128.exists_rem (a := numerator) (by omega) hnonzero
  have hqsmall : quotient.toInt.natAbs < 2 ^ 126 := by
    rw [hq, Int.natAbs_tdiv]
    exact Nat.lt_of_le_of_lt (Nat.div_le_self _ _) hn
  have hrsmall : remainder.toInt.natAbs < 2 ^ 126 := by
    rw [hr, Int.natAbs_tmod]
    exact Nat.lt_of_le_of_lt (Nat.mod_le _ _) hn
  obtain ⟨size, hsize, hs⟩ := Int128.exists_abs (a := remainder) (by omega)
  have htwo : (Int128.ofInt64 2).toInt = 2 := rfl
  have hdroom : size.toInt.natAbs * (Int128.ofInt64 2).toInt.natAbs < 2 ^ 127 := by
    have habs : (2 : Int).natAbs = 2 := rfl
    rw [htwo, habs]
    omega
  obtain ⟨doubled, hdoubled, hdouble⟩ := Int128.exists_mul hdroom
  obtain ⟨whole, hwhole, hw⟩ := Int128.exists_abs (a := denominator) (by omega)
  have hcompare : doubled.toInt < whole.toInt ↔ remainder.toInt.natAbs * 2 < denominator.toInt.natAbs := by
    rw [hdouble, hs, hw, htwo]
    omega
  rw [roundQuotient128, hquotient, Int128.ok_bind, hremainder, Int128.ok_bind, hsize, Int128.ok_bind, hdoubled,
    Int128.ok_bind, hwhole, Int128.ok_bind]
  simp only [hcompare, roundQuotient, ← hr, ← hq]
  have hone : (Int128.ofInt64 1).toInt = 1 := rfl
  have hminus : (Int128.ofInt64 (-1)).toInt = -1 := rfl
  split
  · exact ⟨quotient, rfl, rfl⟩
  split
  · rw [Int128.add, hone]
    exact Int128.exists_ofInt (by omega)
  · rw [Int128.add, hminus]
    exact Int128.exists_ofInt (by omega)

/-- **Dividing never faults**, and the answer is the exact one. -/
theorem divRound128_eq (x : Decimal) (divisor : Int64) (scale : Nat) :
    x.divRound128 divisor scale = .ok (x.divRound divisor scale) := by
  by_cases hzero : divisor = 0
  · rw [divRound128, if_pos (.inl hzero), divRound, if_pos hzero]
  by_cases hscale : maxScale < scale
  · rw [divRound128, if_pos (.inr hscale), divRound, if_neg hzero]
    simp only [if_pos hscale]
  obtain ⟨tens, numerator, htens, hnumerator, hn, hnsmall⟩ := exists_mul_pow10 x.mantissa (Nat.le_of_not_lt hscale)
  obtain ⟨units, denominator, hunits, hdenominator, hd, hdsmall⟩ := exists_mul_pow10 divisor x.scale_le
  have hnonzero : denominator.toInt ≠ 0 := by
    rw [hd]
    have hdivisor : divisor.toInt ≠ (0 : Int64).toInt := mt Int64.toInt_inj.1 hzero
    exact Int.mul_ne_zero hdivisor (Int.pow_ne_zero (by decide))
  obtain ⟨rounded, hrounded, hr⟩ := exists_roundQuotient128 hnsmall hdsmall hnonzero
  simp only [divRound128, if_neg (not_or.2 ⟨hzero, hscale⟩), htens, hnumerator, hunits, hdenominator, hrounded,
    Int128.ok_bind, divRound, if_neg hzero, if_neg hscale, hr, hn, hd]
  rfl

/-- **Multiplying never faults**, and the answer is the exact one. -/
theorem mulTrunc128_eq (x : Decimal) (factor : Int64) : x.mulTrunc128 factor = .ok (x.mulTrunc factor) := by
  have hroom : x.mantissa.toInt.natAbs * factor.toInt.natAbs < 2 ^ 127 :=
    calc x.mantissa.toInt.natAbs * factor.toInt.natAbs ≤ 2 ^ 63 * 2 ^ 63 :=
          Nat.mul_le_mul (natAbs_toInt_le _) (natAbs_toInt_le _)
      _ < 2 ^ 127 := by decide
  obtain ⟨product, hproduct, hp⟩ := Int128.exists_mul (a := .ofInt64 x.mantissa) (b := .ofInt64 factor) hroom
  obtain ⟨units, hunits, hu⟩ := exists_pow10 x.scale_le
  have hpsmall : product.toInt.natAbs < 2 ^ 127 := by
    rw [hp, Int.natAbs_mul]
    exact hroom
  have hnonzero : units.toInt ≠ 0 := by
    rw [hu]
    exact Int.pow_ne_zero (by decide)
  obtain ⟨quotient, hquotient, hq⟩ := Int128.exists_div hpsmall hnonzero
  simp only [mulTrunc128, hproduct, hunits, hquotient, Int128.ok_bind, hq, hp, hu]
  rfl

end Decimal

end Telegram
