/-!
# Decimal numerals

Whole numbers as text: ASCII digits, with an optional sign in front. There is no limit on the size of
the number; who reads one checks its range.

* `ofDigits?` reads a non-empty run of digits.
* `signed?` also takes one `+` or `-` in front, and `unsigned?` one `+`.
-/

namespace Telegram.Text

/-- The value of an ASCII digit. -/
def digitValue (c : Char) : Nat :=
  c.toNat - '0'.toNat

/-- The number that a run of digits spells, most significant first. -/
def valueOf (digits : List Char) : Nat :=
  digits.foldl (fun value c => value * 10 + digitValue c) 0

/-- Reads a number that consists of one or more digits and nothing else. -/
def ofDigits? (text : List Char) : Option Nat :=
  if !text.isEmpty && text.all Char.isDigit then some (valueOf text) else none

/-- Reads a number with an optional sign. -/
def signed? : List Char → Option Int
  | '-' :: digits => (ofDigits? digits).map fun n => -(n : Int)
  | '+' :: digits => (ofDigits? digits).map fun n => (n : Int)
  | digits => (ofDigits? digits).map fun n => (n : Int)

/-- Reads a number with an optional plus sign. -/
def unsigned? : List Char → Option Nat
  | '+' :: digits => ofDigits? digits
  | digits => ofDigits? digits

end Telegram.Text
