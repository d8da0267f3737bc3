/-!
# Decimals

A decimal is a signed 64-bit mantissa and a scale: `mantissa * 10 ^ -scale`. The scale counts the
digits after the point and is at most 18. Two decimals are equal when both parts are, so 1.0 and 1.00
differ.

Arithmetic is exact up to one rounding at its end:

* `divRound` divides and rounds to a given scale, a half away from zero;
* `mulTrunc` multiplies by a whole number and cuts the fraction off, keeping within 64 bits.
-/

namespace Telegram

/-- The largest scale: 10 to the 18th still fits into 64 bits. -/
def maxScale : Nat :=
  18

/-- `mantissa * 10 ^ -scale`. -/
structure Decimal where
  mantissa : Int64
  scale : Nat
  scale_le : scale ≤ maxScale
  deriving DecidableEq

/-- The number is one of the signed 64-bit integers. -/
def fitsInt64 (n : Int) : Bool :=
  Int64.minValue.toInt ≤ n && n ≤ Int64.maxValue.toInt

/-- The signed 64-bit integer closest to `n`. -/
def clampInt64 (n : Int) : Int64 :=
  Int64.ofInt (max Int64.minValue.toInt (min n Int64.maxValue.toInt))

/-- The whole number nearest to `numerator / denominator`, a half away from zero. -/
def roundQuotient (numerator denominator : Int) : Int :=
  let quotient := numerator.tdiv denominator
  let remainder := numerator.tmod denominator
  if remainder.natAbs * 2 < denominator.natAbs then quotient
  else if (numerator < 0) = (denominator < 0) then quotient + 1
  else quotient - 1

namespace Decimal

/-- A whole number. -/
def ofInt (n : Int64) : Decimal :=
  ⟨n, 0, Nat.zero_le _⟩

def zero : Decimal :=
  ofInt 0

/-- The decimal with the given parts, if the scale is not too large. -/
def mk? (mantissa : Int64) (scale : Nat) : Option Decimal :=
  if h : scale ≤ maxScale then some ⟨mantissa, scale, h⟩ else none

/-- The decimal with the given parts, if both are in range. -/
def ofParts? (mantissa : Int) (scale : Nat) : Option Decimal :=
  if fitsInt64 mantissa then mk? (Int64.ofInt mantissa) scale else none

/-- The quotient rounded to `scale` digits after the point, a half away from zero. There is none when
the divisor is 0, the scale is too large or the mantissa does not fit. -/
def divRound (x : Decimal) (divisor : Int64) (scale : Nat) : Option Decimal :=
  if divisor = 0 then none
  else
    let numerator := x.mantissa.toInt * Int.pow 10 scale
    let denominator := divisor.toInt * Int.pow 10 x.scale
    if maxScale < scale then none else ofParts? (roundQuotient numerator denominator) scale

/-- The product with its fraction cut off, or the nearest 64-bit integer. -/
def mulTrunc (x : Decimal) (factor : Int64) : Int64 :=
  clampInt64 ((x.mantissa.toInt * factor.toInt).tdiv (Int.pow 10 x.scale))

/-- The number with its fraction cut off. -/
def trunc (x : Decimal) : Int64 :=
  x.mulTrunc 1

/-- The digits after the point that a divisor stands for: one for 10 and so on up to six for a
million, and none for any other divisor. -/
def scaleOfDivisor (divisor : Int64) : Nat :=
  if divisor = 10 then 1
  else if divisor = 100 then 2
  else if divisor = 1000 then 3
  else if divisor = 10000 then 4
  else if divisor = 100000 then 5
  else if divisor = 1000000 then 6
  else 0

end Decimal

end Telegram
