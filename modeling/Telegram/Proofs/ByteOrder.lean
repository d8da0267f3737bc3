import Mathlib.Algebra.GroupWithZero.Nat
import Telegram.ByteOrder

/-!
# Numbers in bytes

As many bytes as a field has hold a number below a power of 256.

* `ByteOrder.decode_encode`: what is read back is the number less the bytes that did not fit.
* `ByteOrder.decode_lt`: what is read is never too large for the bytes it is read from.
* `ByteOrder.decode_append`: a number in two parts, where the byte order says which part is the high one.
* `ByteOrder.split?_encode_append` does the same at the front of a buffer.
* `ByteOrder.decode_zipWith_xor`: bytes that are combined by exclusive or spell the combined number.
* `ByteOrder.getElem?_encode`: which byte of the number stands where, in each order.
* `ByteOrder.numbers_come_back`: writing and reading words of 64 bits are inverse, in both directions.
-/

namespace Telegram

/-- Reading back what was written gives the number less the bytes that did not fit. -/
theorem ofLittleEndian_littleEndian (width n : Nat) :
    ofLittleEndian (littleEndian width n) = n % 256 ^ width := by
  induction width generalizing n with
  | zero => simp [littleEndian, ofLittleEndian, Nat.mod_one]
  | succ width ih =>
    have low : (UInt8.ofNat n).toNat = n % 256 := UInt8.toNat_ofNat'
    rw [littleEndian, ofLittleEndian, ih, low, Nat.pow_succ', Nat.mod_mul]

theorem ofLittleEndian_lt (bytes : Bytes) : ofLittleEndian bytes < 256 ^ bytes.length := by
  induction bytes with
  | nil => exact Nat.one_pos
  | cons b rest ih =>
    calc b.toNat + 256 * ofLittleEndian rest
      _ < 256 + 256 * ofLittleEndian rest := Nat.add_lt_add_right b.toNat_lt _
      _ = 256 * (ofLittleEndian rest + 1) := by omega
      _ ≤ 256 * 256 ^ rest.length := Nat.mul_le_mul_left _ ih
      _ = 256 ^ (rest.length + 1) := Nat.pow_succ'.symm

theorem ofLittleEndian_append (front rest : Bytes) :
    ofLittleEndian (front ++ rest) = ofLittleEndian front + 256 ^ front.length * ofLittleEndian rest := by
  induction front with
  | nil => simp [ofLittleEndian]
  | cons b front ih =>
    rw [List.cons_append, ofLittleEndian, ih, ofLittleEndian, List.length_cons, Nat.pow_succ', Nat.mul_add,
      Nat.add_assoc, Nat.mul_assoc]

theorem testBit_ofLittleEndian_cons (b : UInt8) (rest : Bytes) (i : Nat) :
    (ofLittleEndian (b :: rest)).testBit i =
      if i < 8 then b.toNat.testBit i else (ofLittleEndian rest).testBit (i - 8) := by
  rw [ofLittleEndian, Nat.add_comm]
  exact Nat.testBit_two_pow_mul_add _ b.toNat_lt i

theorem ofLittleEndian_zipWith_xor {first second : Bytes} (h : first.length = second.length) :
    ofLittleEndian (List.zipWith (· ^^^ ·) first second) = ofLittleEndian first ^^^ ofLittleEndian second := by
  induction first generalizing second with
  | nil => simp [List.length_eq_zero_iff.1 h.symm, ofLittleEndian]
  | cons b first ih =>
    cases second with
    | nil => cases h
    | cons c second =>
      apply Nat.eq_of_testBit_eq
      intro i
      rw [List.zipWith_cons_cons, Nat.testBit_xor, testBit_ofLittleEndian_cons, testBit_ofLittleEndian_cons,
        testBit_ofLittleEndian_cons, ih (Nat.succ.inj h), UInt8.toNat_xor, Nat.testBit_xor, Nat.testBit_xor]
      split <;> rfl

theorem getElem?_littleEndian {width i : Nat} (h : i < width) (n : Nat) :
    (littleEndian width n)[i]? = some (UInt8.ofNat (n / 256 ^ i)) := by
  induction width generalizing i n with
  | zero => exact absurd h (Nat.not_lt_zero i)
  | succ width ih =>
    rw [littleEndian]
    cases i with
    | zero => simp
    | succ i =>
      rw [List.getElem?_cons_succ, ih (Nat.lt_of_succ_lt_succ h), Nat.div_div_eq_div_mul, ← Nat.pow_succ']

/-- Bytes are taken off the front exactly when there are enough of them. -/
theorem Bytes.split?_eq (bytes : Bytes) (n : Nat) :
    bytes.split? n = if n ≤ bytes.length then some (bytes.take n, bytes.drop n) else none := by
  have hshort := bytes.isShorter_iff n
  by_cases hle : n ≤ bytes.length
  · rw [Bytes.split?, if_neg fun h => Nat.not_lt.2 hle (hshort.1 h), if_pos hle]
  · rw [Bytes.split?, if_pos (hshort.2 (Nat.not_le.1 hle)), if_neg hle]

namespace ByteOrder

theorem split?_eq (order : ByteOrder) (width : Nat) (bytes : Bytes) :
    order.split? width bytes =
      if width ≤ bytes.length then some (order.decode (bytes.take width), bytes.drop width) else none := by
  rw [split?, Bytes.split?_eq]
  split <;> rfl

theorem decode_encode (order : ByteOrder) (width n : Nat) :
    order.decode (order.encode width n) = n % 256 ^ width := by
  cases order <;> simp [encode, decode, ofLittleEndian_littleEndian]

theorem decode_lt (order : ByteOrder) (bytes : Bytes) : order.decode bytes < 256 ^ bytes.length := by
  cases order with
  | big => simpa [decode] using ofLittleEndian_lt bytes.reverse
  | little => exact ofLittleEndian_lt bytes

/-- **A number in two parts**: the part that comes first is the high one in the big-endian order, and the
low one in the little-endian order. -/
theorem decode_append (order : ByteOrder) (front rest : Bytes) :
    order.decode (front ++ rest) =
      match order with
      | .big => order.decode front * 256 ^ rest.length + order.decode rest
      | .little => order.decode front + 256 ^ front.length * order.decode rest := by
  cases order with
  | big =>
    simp only [decode]
    rw [List.reverse_append, ofLittleEndian_append, List.length_reverse, Nat.add_comm, Nat.mul_comm]
  | little => exact ofLittleEndian_append front rest

/-- **A number is read back from its bytes**, and what follows them stays unread. -/
theorem split?_encode_append (order : ByteOrder) (width n : Nat) (rest : Bytes) :
    order.split? width (order.encode width n ++ rest) = some (n % 256 ^ width, rest) := by
  have hsplit := (Bytes.split?_eq_some_iff _ width _ rest).2 ⟨rfl, order.length_encode width n⟩
  simp only [split?, hsplit, Option.map_some, order.decode_encode]

/-- Only the low part of a number is written. -/
theorem encode_mod (order : ByteOrder) (width n : Nat) :
    order.encode width (n % 256 ^ width) = order.encode width n := by
  have hencode := order.encode_decode (order.encode width n)
  rwa [order.length_encode, order.decode_encode] at hencode

theorem encode_ne_nil (order : ByteOrder) {width : Nat} (h : 0 < width) (n : Nat) :
    order.encode width n ≠ [] := by
  intro hnil
  have hlength := order.length_encode width n
  rw [hnil] at hlength
  exact Nat.ne_of_lt h hlength

theorem decode_zipWith_xor (order : ByteOrder) {first second : Bytes} (h : first.length = second.length) :
    order.decode (List.zipWith (· ^^^ ·) first second) = order.decode first ^^^ order.decode second := by
  cases order with
  | big =>
    rw [decode, List.reverse_zipWith h]
    exact ofLittleEndian_zipWith_xor (by rw [List.length_reverse, List.length_reverse, h])
  | little => exact ofLittleEndian_zipWith_xor h

/-! ## Words of 64 bits

A number of up to eight bytes is a word, and the least significant byte of a word is the remainder by 256.
Where that byte stands is all that the two orders differ in. -/

/-- How many of the `width` bytes of a number are less significant than byte `i`. -/
def place (order : ByteOrder) (width i : Nat) : Nat :=
  match order with
  | .big => width - 1 - i
  | .little => i

/-- **The bytes of a number, one by one.** -/
theorem getElem?_encode (order : ByteOrder) {width i : Nat} (h : i < width) (n : Nat) :
    (order.encode width n)[i]? = some (UInt8.ofNat (n / 256 ^ order.place width i)) := by
  cases order with
  | big =>
    rw [encode, List.getElem?_reverse (by rwa [length_littleEndian]), length_littleEndian]
    exact getElem?_littleEndian (by omega) n
  | little => exact getElem?_littleEndian h n

theorem toUInt8_shiftRight (value : UInt64) {k : Nat} (h : k < 8) :
    (value >>> UInt64.ofNat (8 * k)).toUInt8 = UInt8.ofNat (value.toNat / 256 ^ k) := by
  have hshift : (UInt64.ofNat (8 * k)).toNat % 64 = 8 * k := by
    rw [UInt64.toNat_ofNat']
    omega
  have hpow : 256 ^ k = 2 ^ (8 * k) := by rw [Nat.pow_mul]
  rw [← UInt8.toNat_inj, UInt8.toNat_ofNat', UInt64.toNat_toUInt8, UInt64.toNat_shiftRight, hshift,
    Nat.shiftRight_eq_div_pow, hpow]

/-- Up to eight bytes spell a word of 64 bits. -/
theorem exists_toNat_eq_decode (order : ByteOrder) {bytes : Bytes} (h : bytes.length ≤ 8) :
    ∃ value : UInt64, value.toNat = order.decode bytes := by
  have hfits : order.decode bytes < 2 ^ 64 :=
    calc order.decode bytes
      _ < 256 ^ bytes.length := order.decode_lt bytes
      _ ≤ 256 ^ 8 := Nat.pow_le_pow_right (by decide) h
  exact ⟨UInt64.ofNat (order.decode bytes), UInt64.toNat_ofNat_of_lt' hfits⟩

/-- **Writing and reading are inverse**, for every width up to eight bytes. A word that is written behind
some bytes is read back without the bits that did not fit, and what follows stays unread; bytes that are
read as a word are written as they were. In the big-endian order they stand in reverse, each byte the more
significant the earlier it stands. -/
theorem numbers_come_back (order : ByteOrder) {width : Nat} (h : width ≤ 8) :
    (∀ (value : UInt64) (front rest : Bytes),
      order.split? width ((front ++ order.encode width value.toNat ++ rest).drop front.length) =
        some (value.toNat % 2 ^ (8 * width), rest)) ∧
    (∀ bytes rest : Bytes, bytes.length = width → ∃ value : UInt64,
      order.split? width (bytes ++ rest) = some (value.toNat, rest) ∧ order.encode width value.toNat = bytes) ∧
    ∀ value : UInt64,
      big.encode width value.toNat = (little.encode width value.toNat).reverse ∧
      (order.encode width value.toNat).length = width ∧
      ∀ i < width, (order.encode width value.toNat)[i]? =
        some (value >>> UInt64.ofNat (8 * order.place width i)).toUInt8 := by
  refine ⟨fun value front rest => ?written, fun bytes rest hlength => ?read, fun value =>
    ⟨rfl, order.length_encode width _, fun i hi => ?byte⟩⟩
  case written => rw [List.append_assoc, List.drop_left, split?_encode_append, Nat.pow_mul]
  case read =>
    obtain ⟨value, hvalue⟩ := order.exists_toNat_eq_decode (Nat.le_trans (Nat.le_of_eq hlength) h)
    have hsplit := (Bytes.split?_eq_some_iff _ width bytes rest).2 ⟨rfl, hlength⟩
    refine ⟨value, ?_, ?_⟩
    · rw [hvalue, split?, hsplit, Option.map_some]
    · rw [hvalue, ← hlength, order.encode_decode]
  case byte =>
    have hplace : order.place width i < 8 := by cases order <;> rw [place] <;> omega
    rw [order.getElem?_encode hi, toUInt8_shiftRight value hplace]

/-- Three bytes of a word of eight, between other bytes. -/
theorem numbers_come_back_of_three_bytes :
    3 ≤ 8 ∧
      big.split? 3 (([0xEE] ++ big.encode 3 (0x0123456789ABCDEF : UInt64).toNat ++ [0x55]).drop 1) =
        some (0xABCDEF, [0x55]) ∧
      (∃ value : UInt64, little.split? 3 ([1, 2, 3] ++ [4]) = some (value.toNat, [4]) ∧
        little.encode 3 value.toNat = [1, 2, 3]) ∧
      (big.encode 3 (0x0123456789ABCDEF : UInt64).toNat)[0]? = some 0xAB := by
  have hwidth : 3 ≤ 8 := by decide
  exact ⟨hwidth, (numbers_come_back .big hwidth).1 0x0123456789ABCDEF [0xEE] [0x55],
    (numbers_come_back .little hwidth).2.1 [1, 2, 3] [4] rfl,
    ((numbers_come_back .big hwidth).2.2 0x0123456789ABCDEF).2.2 0 (by decide)⟩

end ByteOrder

end Telegram
