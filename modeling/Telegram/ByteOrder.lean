import Telegram.Bytes

/-!
# Byte order

An unsigned number occupies a fixed number of bytes, most or least significant byte first.

* `littleEndian` and `ofLittleEndian` are the two directions for the little-endian order, inverse to
  each other up to the bytes that do not fit (`littleEndian_ofLittleEndian`).
* `ByteOrder.encode` and `ByteOrder.decode` add the order: big-endian is the reverse of
  little-endian.
* `ByteOrder.split?` reads a number off the front of a buffer.
-/

namespace Telegram

/-- The `width` low bytes of `n`, least significant first. What does not fit is dropped. -/
def littleEndian : Nat → Nat → Bytes
  | 0, _ => []
  | width + 1, n => UInt8.ofNat n :: littleEndian width (n / 256)

/-- The number whose bytes, least significant first, are given. -/
def ofLittleEndian : Bytes → Nat
  | [] => 0
  | b :: rest => b.toNat + 256 * ofLittleEndian rest

@[simp] theorem length_littleEndian (width n : Nat) : (littleEndian width n).length = width := by
  induction width generalizing n with
  | zero => rfl
  | succ width ih => simp [littleEndian, ih]

/-- Writing what was read gives the bytes back. -/
theorem littleEndian_ofLittleEndian (bytes : Bytes) :
    littleEndian bytes.length (ofLittleEndian bytes) = bytes := by
  induction bytes with
  | nil => rfl
  | cons b rest ih =>
    have hb : b.toNat < 256 := b.toNat_lt
    rw [List.length_cons, littleEndian, ofLittleEndian]
    congr 1
    · apply UInt8.toNat_inj.1
      rw [UInt8.toNat_ofNat']
      omega
    · rw [Nat.add_mul_div_left _ _ (by decide), Nat.div_eq_of_lt hb, Nat.zero_add, ih]

/-- Which byte of a number comes first. -/
inductive ByteOrder where
  /-- Most significant byte first. -/
  | big
  /-- Least significant byte first. -/
  | little
  deriving DecidableEq, Repr

namespace ByteOrder

/-- The `width` low bytes of `n` in this order. -/
def encode (order : ByteOrder) (width n : Nat) : Bytes :=
  match order with
  | .big => (littleEndian width n).reverse
  | .little => littleEndian width n

/-- The unsigned number that the bytes spell in this order. -/
def decode (order : ByteOrder) (bytes : Bytes) : Nat :=
  match order with
  | .big => ofLittleEndian bytes.reverse
  | .little => ofLittleEndian bytes

/-- Reads a number of `width` bytes off the front of a buffer, if the buffer holds that many. -/
def split? (order : ByteOrder) (width : Nat) (bytes : Bytes) : Option (Nat × Bytes) :=
  (bytes.split? width).map fun (front, rest) => (order.decode front, rest)

@[simp] theorem length_encode (order : ByteOrder) (width n : Nat) :
    (order.encode width n).length = width := by
  cases order <;> simp [encode]

theorem encode_decode (order : ByteOrder) (bytes : Bytes) :
    order.encode bytes.length (order.decode bytes) = bytes := by
  cases order
  · have h := littleEndian_ofLittleEndian bytes.reverse
    rw [List.length_reverse] at h
    simp [encode, decode, h]
  · exact littleEndian_ofLittleEndian bytes

end ByteOrder

end Telegram
