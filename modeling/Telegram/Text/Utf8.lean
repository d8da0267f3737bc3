import Telegram.Bytes

/-!
# UTF-8

Text travels as UTF-8.

* `utf8` is the encoding, and `cutBetween` cuts it between two characters. The place is found from behind: a
  byte that goes on with a character is no place to cut.
* `units` reads bytes back. What is not well-formed is cut into the longest pieces that could still
  have begun a character, and each such piece stands for one missing character.
* `fromUtf8Lossy` shows a missing character as U+FFFD, and `fromUtf8?` refuses it.
-/

namespace Telegram.Text

/-- The UTF-8 encoding of a text. -/
def utf8 (text : List Char) : Bytes :=
  text.flatMap String.utf8EncodeChar

/-- The byte goes on with a character that an earlier byte began. -/
def continues (byte : UInt8) : Bool :=
  byte &&& 0xC0 == 0x80

/-- The last place up to `stop` where no character is cut in half. A byte that goes on with a character moves the
place back by one. -/
def boundary (bytes : Bytes) : Nat → Nat
  | 0 => 0
  | stop + 1 => if bytes[stop + 1]?.any continues then boundary bytes stop else stop + 1

/-- The leading bytes that there is room for, without a character cut in half. -/
def cutBetween (bytes : Bytes) (room : Nat) : Bytes :=
  bytes.take (boundary bytes (min room bytes.length))

/-- Where a reader of UTF-8 stands between two bytes. -/
inductive Utf8State where
  /-- Between characters. -/
  | between
  /-- Inside a character whose bits so far are `bits`: the next byte lies between `low` and `high`,
  and `more` bytes come after it. -/
  | inside (bits more : Nat) (low high : UInt8)

/-- A character, or a piece of input that is none. -/
abbrev Unit? := Option Char

/-- Takes the first byte of a character. -/
def Utf8State.start (byte : UInt8) : List Unit? × Utf8State :=
  let bits := byte.toNat
  if byte < 0x80 then ([some (Char.ofNat bits)], .between)
  else if byte < 0xC2 then ([none], .between)
  else if byte < 0xE0 then ([], .inside (bits % 32) 0 0x80 0xBF)
  else if byte = 0xE0 then ([], .inside (bits % 16) 1 0xA0 0xBF)
  else if byte = 0xED then ([], .inside (bits % 16) 1 0x80 0x9F)
  else if byte < 0xF0 then ([], .inside (bits % 16) 1 0x80 0xBF)
  else if byte = 0xF0 then ([], .inside (bits % 8) 2 0x90 0xBF)
  else if byte < 0xF4 then ([], .inside (bits % 8) 2 0x80 0xBF)
  else if byte = 0xF4 then ([], .inside (bits % 8) 2 0x80 0x8F)
  else ([none], .between)

/-- Takes one byte. A byte that cannot continue the character begun gives that character up and
starts the next one. -/
def Utf8State.step (byte : UInt8) : Utf8State → List Unit? × Utf8State
  | .between => start byte
  | .inside bits more low high =>
    if low ≤ byte ∧ byte ≤ high then
      let bits := bits * 64 + byte.toNat % 64
      match more with
      | 0 => ([some (Char.ofNat bits)], .between)
      | more + 1 => ([], .inside bits more 0x80 0xBF)
    else
      let (units, state) := start byte
      (none :: units, state)

/-- Reads the bytes from a given state on. -/
def unitsFrom : Utf8State → Bytes → List Unit?
  | .between, [] => []
  | .inside .., [] => [none]
  | state, byte :: rest =>
    let (units, state) := state.step byte
    units ++ unitsFrom state rest

/-- The characters that the bytes spell, and a `none` for each piece that spells none. -/
def units (bytes : Bytes) : List Unit? :=
  unitsFrom .between bytes

/-- U+FFFD, which stands where a character is missing. -/
def replacement : Char := '\uFFFD'

/-- The text that the bytes spell, with U+FFFD for each piece that is not UTF-8. -/
def fromUtf8Lossy (bytes : Bytes) : List Char :=
  (units bytes).map fun unit => unit.getD replacement

/-- The text that the bytes spell, if all of them are UTF-8. -/
def fromUtf8? (bytes : Bytes) : Option (List Char) :=
  (units bytes).mapM id

end Telegram.Text
