import Telegram.ByteOrder

/-!
# Byte sums and word sums

The simple checksums of metering protocols.

* `sum` and `xor` fold the bytes.
* `signedSum?` adds the bytes as signed numbers in a 32-bit register and negates the total when it has
  grown past a byte. The additions are checked: where the register can not hold the next sum the
  program stops there, and there is no checksum.
* `words` folds whole four-byte words and leaves a partial last word alone (`unread`).
-/

namespace Telegram.Checksum

/-- The low byte of the sum of all bytes. -/
def sum (bytes : Bytes) : UInt8 :=
  bytes.foldl (· + ·) 0

/-- The exclusive or of all bytes. -/
def xor (bytes : Bytes) : UInt8 :=
  bytes.foldl (· ^^^ ·) 0

/-- A 32-bit register after the addition of a byte that is taken as a signed number. There is none if the
sum is beyond what the register holds. -/
def addSigned? (register : Int32) (byte : UInt8) : Option Int32 :=
  let total := register.toInt + byte.toInt8.toInt
  if -0x80000000 ≤ total ∧ total ≤ 0x7FFFFFFF then some (Int32.ofInt total) else none

/-- The sum of all bytes, each taken as a signed number. The program stops at the first addition whose sum
the register can not hold. -/
def signedTotal? (bytes : Bytes) : Option Int32 :=
  bytes.foldlM addSigned? 0

/-- The low byte of the signed sum, negated first when the sum exceeds `0xFF`. -/
def signedSum? (bytes : Bytes) : Option UInt8 :=
  (signedTotal? bytes).map fun total => (if total > 0xFF then -total else total).toUInt32.toUInt8

/-- Folds the complete four-byte words of a buffer into `accumulator`. -/
def foldWords (order : ByteOrder) (accumulator : UInt32) : Bytes → UInt32
  | a :: b :: c :: d :: rest =>
    foldWords order (accumulator ^^^ UInt32.ofNat (order.decode [a, b, c, d])) rest
  | _ => accumulator

/-- The exclusive or of all complete words, started from all ones. -/
def words (order : ByteOrder) (bytes : Bytes) : UInt32 :=
  foldWords order 0xFFFFFFFF bytes

/-- The bytes of a partial last word, which `words` does not look at. -/
def unread : Bytes → Bytes
  | _ :: _ :: _ :: _ :: rest => unread rest
  | rest => rest

end Telegram.Checksum
