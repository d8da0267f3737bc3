import Telegram.ByteOrder
import Telegram.Frame.Error

/-!
# The layout of a frame

A frame starts with an optional fixed header and carries, at a fixed offset, a length field. The
number in the field, plus a constant adjustment, counts the bytes that follow the field:

```
| header | ...        | length field | length + adjustment bytes |
|<----- offset ------>|<-- width --->|
```

* `Layout` holds these numbers. Counts are 64 bits wide and the adjustment is signed, so a layout is
  what a 64-bit machine can be configured with.
* `Layout.check` refuses a layout whose length field cannot lie inside the longest frame.
* `readLength` reads a length field on its own.
-/

namespace Telegram.Frame

/-- The fixed bytes at the start of every frame. -/
inductive Header where
  /-- Frames start anywhere. -/
  | none
  | one (byte : UInt8)
  /-- Two bytes, the high one first. -/
  | two (word : UInt16)
  deriving DecidableEq, Repr

namespace Header

/-- The header as it stands on the wire. -/
def bytes : Header → Bytes
  | .none => []
  | .one byte => [byte]
  | .two word => ByteOrder.big.encode 2 word.toNat

/-- How many bytes the header has. -/
def width (header : Header) : Nat :=
  header.bytes.length

/-- The header's bytes read as one number, if it has any. -/
def value? : Header → Option Nat
  | .none => Option.none
  | .one byte => some byte.toNat
  | .two word => some word.toNat

/-- The header with the given value and width. -/
def ofParts (value : UInt16) : Nat → Except Error Header
  | 0 => .ok .none
  | 1 =>
    if value ≤ 0xFF then .ok (.one value.toUInt8)
    else .error (.invalidLayout (.headerValueTooLarge value.toNat))
  | 2 => .ok (.two value)
  | width => .error (.invalidLayout (.headerWidth width))

/-- The header stands at the front of the buffer. -/
def isAt (header : Header) (buffer : Bytes) : Bool :=
  header.bytes.isPrefixOf buffer

/-- Skips forward to the header. Where it does not occur, the bytes that could still be the start of
one are kept: one less than the header has. -/
def seek (header : Header) : Bytes → Bytes
  | [] => []
  | b :: rest =>
    if header.isAt (b :: rest) || Bytes.isShorter (b :: rest) header.width then b :: rest
    else seek header rest

end Header

/-- Where the length of a frame stands and what it means. -/
structure Layout where
  /-- Byte order of the length field. -/
  order : ByteOrder := .big
  /-- The longest frame, header and length field included. -/
  maxLength : UInt64 := 65536
  /-- Bytes before the length field, the header included. -/
  offset : UInt64 := 0
  /-- Bytes of the length field. -/
  width : UInt64 := 2
  /-- What is added to the field's number to count the bytes after the field. -/
  adjustment : Int64 := 0
  /-- Bytes removed from the front of every frame that is handed on. -/
  strip : UInt64 := 0
  /-- An oversized frame is reported when it is detected, not when its last byte has gone by. -/
  failFast : Bool := true
  header : Header := .none
  deriving DecidableEq

namespace Layout

/-- Bytes up to the end of the length field. -/
def fieldEnd (layout : Layout) : Nat :=
  layout.offset.toNat + layout.width.toNat

/-- The longest frame, as a number. -/
def max (layout : Layout) : Nat :=
  layout.maxLength.toNat

end Layout

/-- The widths a length field can have. -/
def isFieldWidth (width : Nat) : Bool :=
  width == 1 || width == 2 || width == 3 || width == 4 || width == 8

/-- Accepts a layout whose length field lies inside the longest frame. -/
def Layout.check (layout : Layout) : Except Error Unit :=
  let max := layout.max
  let width := layout.width.toNat
  let offset := layout.offset.toNat
  if max = 0 then .error (.invalidLayout .zeroMax)
  else if !isFieldWidth width then .error (.unsupportedWidth width)
  else if max < width then .error (.invalidLayout (.widthExceedsMax width max))
  else if max - width < offset then .error (.invalidLayout (.offsetExceedsMax offset width max))
  else .ok ()

/-- The signed 64-bit number whose two's complement is `n`. Only a field of eight bytes reaches the
negative half. -/
def signed64 (n : Nat) : Int :=
  (BitVec.ofNat 64 n).toInt

/-- Reads a length field of `width` bytes at the front of a buffer. -/
def readLength (order : ByteOrder) (width : Nat) (bytes : Bytes) : Except Error Int :=
  if !isFieldWidth width then .error (.unsupportedWidth width)
  else match order.split? width bytes with
    | none => .error (.corrupted (.truncatedField width bytes.length))
    | some (n, _) => .ok (signed64 n)

end Telegram.Frame
