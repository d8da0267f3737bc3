import Telegram.Bytes

/-!
# The CRC of serial field buses

A 16-bit cyclic redundancy check with the reflected polynomial `0xA001`, started from `0xFFFF`.

* `shiftOut` is the bit-by-bit definition: one bit leaves the register, and the polynomial is
  subtracted when it was set.
* `table` holds what eight such shifts do to each value of the low byte, and `crc16` absorbs a whole
  byte with one look-up.
* `crc16Bitwise` absorbs a byte by eight shifts. It is the definition that the table abbreviates.
-/

namespace Telegram.Checksum

/-- The generator polynomial, least significant bit first. -/
def polynomial : UInt16 := 0xA001

/-- Shifts one bit out of the register. -/
def shiftOut (register : UInt16) : UInt16 :=
  if register &&& 1 = 0 then register >>> 1 else (register >>> 1) ^^^ polynomial

/-- Shifts `n` bits out of the register. -/
def shiftOutMany : Nat → UInt16 → UInt16
  | 0, register => register
  | n + 1, register => shiftOutMany n (shiftOut register)

/-- What eight shifts make of each byte. -/
def table : Vector UInt16 256 :=
  Vector.ofFn fun i => shiftOutMany 8 (UInt16.ofNat i.val)

/-- Absorbs one byte with one look-up. -/
def absorb (register : UInt16) (byte : UInt8) : UInt16 :=
  let index := register.toUInt8 ^^^ byte
  (register >>> 8) ^^^ table.get ⟨index.toNat, index.toNat_lt⟩

/-- The checksum of the bytes; it is sent with its low byte first. -/
def crc16 (bytes : Bytes) : UInt16 :=
  bytes.foldl absorb 0xFFFF

/-- Absorbs one byte bit by bit. -/
def absorbBitwise (register : UInt16) (byte : UInt8) : UInt16 :=
  shiftOutMany 8 (register ^^^ byte.toUInt16)

/-- The same checksum, computed bit by bit. -/
def crc16Bitwise (bytes : Bytes) : UInt16 :=
  bytes.foldl absorbBitwise 0xFFFF

end Telegram.Checksum
