import Telegram.Bytes
import Telegram.Text.Blank
import Telegram.Text.Quoted
import Telegram.Text.Utf8

/-!
# Hexadecimal text

Each byte is two digits, the high one first. Writing uses lower-case digits; reading takes either
case, and nothing but digits.

* `encode` and `spaced` print bytes, the second with a space between them.
* `decode` reads plain digits, and says what is wrong with anything else.
* `decodeLoose` is for text typed by hand: blanks are ignored, and one leading `0x` or `0X`.
-/

namespace Telegram.Hex

/-- The digit of a value below 16. -/
def digit (value : UInt8) : Char :=
  if value < 10 then Char.ofNat (value.toNat + '0'.toNat)
  else Char.ofNat (value.toNat - 10 + 'a'.toNat)

/-- The two digits of a byte. -/
def digits (byte : UInt8) : List Char :=
  [digit (byte >>> 4), digit (byte &&& 0xF)]

/-- The bytes as one run of digits. -/
def encode (bytes : Bytes) : String :=
  String.ofList (bytes.flatMap digits)

/-- The bytes as pairs of digits with a space between them. -/
def spaced (bytes : Bytes) : String :=
  String.ofList ([' '].intercalate (bytes.map digits))

/-- The value of a digit of either case. -/
def value? (c : UInt8) : Option UInt8 :=
  if '0'.toUInt8 ≤ c ∧ c ≤ '9'.toUInt8 then some (c - '0'.toUInt8)
  else if 'a'.toUInt8 ≤ c ∧ c ≤ 'f'.toUInt8 then some (c - 'a'.toUInt8 + 10)
  else if 'A'.toUInt8 ≤ c ∧ c ≤ 'F'.toUInt8 then some (c - 'A'.toUInt8 + 10)
  else none

/-- Why a text is not hexadecimal. -/
inductive Fault where
  /-- The digits do not pair up. -/
  | oddLength
  /-- The byte at this position of the text is not a digit. -/
  | notADigit (byte : UInt8) (position : Nat)
  deriving DecidableEq, Repr

/-- The wording of a fault. A byte is shown as the character of that number. -/
def Fault.message : Fault → String
  | .oddLength => "Odd number of digits"
  | .notADigit byte position =>
    let shown := Text.quoteChar (Char.ofNat byte.toNat)
    s!"Invalid character {shown} at position {position}"

/-- The value of the digit at `position`. -/
def valueAt (position : Nat) (c : UInt8) : Except Fault UInt8 :=
  (value? c).elim (.error (.notADigit c position)) .ok

/-- Reads pairs of digits, the first of which stands at `position`. -/
def decodePairs (position : Nat) : Bytes → Except Fault Bytes
  | high :: low :: rest => do
    let h ← valueAt position high
    let l ← valueAt (position + 1) low
    let bytes ← decodePairs (position + 2) rest
    return ((h <<< 4) ||| l) :: bytes
  | [_] => .error .oddLength
  | [] => .ok []

/-- Reads digits. That they pair up is checked before any of them is looked at. -/
def decode (text : List Char) : Except Fault Bytes :=
  let bytes := Text.utf8 text
  if bytes.length % 2 = 1 then .error .oddLength else decodePairs 0 bytes

/-- The text without one leading `0x` or `0X`. -/
def dropPrefix : List Char → List Char
  | '0' :: 'x' :: rest => rest
  | '0' :: 'X' :: rest => rest
  | text => text

/-- Reads digits among blanks, after an optional `0x`. -/
def decodeLoose (text : String) : Except Fault Bytes :=
  decode (dropPrefix (Text.removeBlanks text.toList))

end Telegram.Hex
