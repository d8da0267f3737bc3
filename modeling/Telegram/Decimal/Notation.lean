import Telegram.Decimal.Basic
import Telegram.Text.Numeral

/-!
# Decimals as text

`toText` writes the sign, at least one digit before the point, and exactly `scale` digits after it;
there is no point when the scale is 0. `ofText?` reads that back, and allows a plus sign, leading
zeros, and one of the two runs of digits to be empty.
-/

namespace Telegram.Decimal

/-- The digits with zeros in front to make them at least `width` long. -/
def zeroPadded (width : Nat) (digits : List Char) : List Char :=
  List.replicate (width - digits.length) '0' ++ digits

/-- The decimal in positional notation. -/
def toText (x : Decimal) : String :=
  let sign := if x.mantissa < 0 then ['-'] else []
  let digits := zeroPadded (x.scale + 1) (Nat.toDigits 10 x.mantissa.toInt.natAbs)
  let point := digits.length - x.scale
  let fraction := if x.scale = 0 then [] else '.' :: digits.drop point
  String.ofList (sign ++ digits.take point ++ fraction)

/-- What stands before the first point, and what follows it. -/
def splitPoint (text : List Char) : List Char × List Char :=
  (text.takeWhile (· != '.'), (text.dropWhile (· != '.')).drop 1)

/-- Reads a decimal in positional notation. The mantissa is the number that all digits together
spell. -/
def ofText? (text : String) : Option Decimal := do
  let (whole, fraction) := splitPoint text.toList
  guard (fraction.all Char.isDigit)
  let mantissa ← Text.signed? (whole ++ fraction)
  ofParts? mantissa fraction.length

end Telegram.Decimal
