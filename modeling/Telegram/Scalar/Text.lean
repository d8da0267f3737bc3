import Telegram.Codec.Transfer

/-!
# Text on the wire

A text field of length 0 takes the rest of the buffer; any other takes exactly as many bytes as its
length says. Text of the kinds UTF-8 and ASCII is padded, so reading takes characters up to the space
off both ends. The third kind shows the bytes as hexadecimal digits.

Writing cuts what is too long (never inside a character) and pads what is too short.
-/

namespace Telegram.Text

open Codec

/-- A character that may be padding: a space or one of the controls before it. -/
def isPadding (c : Char) : Bool :=
  c ≤ ' '

/-- The text without padding at its end. -/
def trimEnd (text : List Char) : List Char :=
  (text.reverse.dropWhile isPadding).reverse

/-- The text without padding at either end. -/
def trim (text : List Char) : List Char :=
  trimEnd (text.dropWhile isPadding)

/-- The characters of seven-bit bytes. Any other byte shows as U+FFFD. -/
def ofAscii (bytes : Bytes) : List Char :=
  bytes.map fun byte => if byte < 0x80 then Char.ofNat byte.toNat else replacement

/-- The text that the bytes of a field stand for. -/
def shown (kind : TextKind) (bytes : Bytes) : String :=
  match kind with
  | .bcd => Hex.encode bytes
  | .utf8 => String.ofList (trim (fromUtf8Lossy bytes))
  | .ascii => String.ofList (trim (ofAscii bytes))

/-- Reads a text. -/
def read (format : FieldFormat) (source : Bytes) : Reading :=
  if format.length = 0 then .found (.text (shown format.text source)) []
  else match source.split? format.length with
    | none => .absent source
    | some (bytes, rest) => .found (.text (shown format.text bytes)) rest

/-- Every character is one of the first 128. -/
def isAscii (text : List Char) : Bool :=
  text.all fun c => c.toNat < 0x80

/-- The bytes of a text that a field has room for; `none` is room for all of them. -/
def stored (kind : TextKind) (text : String) (room : Option Nat) : Except Error Bytes :=
  let cut (bytes : Bytes) := room.elim bytes bytes.take
  match kind with
  | .bcd =>
    match Hex.decode text.toList with
    | .ok bytes => .ok (cut bytes)
    | .error fault => .error (.invalidBcd text fault)
  | .utf8 => .ok (room.elim (utf8 text.toList) (cutBetween (utf8 text.toList)))
  | .ascii => if isAscii text.toList then .ok (cut (utf8 text.toList)) else .error (.notAscii text)

/-- Writes a text. An absent one is padding alone. -/
def write (format : FieldFormat) (text : Option String) : Writing :=
  match text with
  | none => .done (Bytes.pad [] format.length format.fill)
  | some text =>
    let room := if format.length = 0 then none else some format.length
    match stored format.text text room with
    | .error e => .failed e
    | .ok bytes => .done (bytes.pad (format.length - bytes.length) format.fill)

end Telegram.Text
