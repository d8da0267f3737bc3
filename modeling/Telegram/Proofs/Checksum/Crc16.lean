import Mathlib.Data.List.Basic
import Mathlib.Data.Nat.Bitwise
import Telegram.Checksum.Crc16

/-!
# The CRC register, bit by bit

One bit leaves the register with each shift, and takes the polynomial with it if it was set. Written out
for a single bit (`testBit_shiftOut`) this is all that the algebra of the checksum needs:

* shifting out is linear (`shiftOut_xor`) and loses nothing (`shiftOut_injective`), as the highest bit of
  the polynomial tells afterwards whether it was subtracted;
* the table is right (`absorb_eq_absorbBitwise`): eight shifts of a register are those of its low byte,
  and the rest of it moved down;
* a byte is absorbed like its bits one by one, the lowest first (`foldl_absorbBit_byteBits`), so that a
  message is the list of its `bits`.

Up to sixteen bits can be put into the register at once (`foldl_absorbBit_eq`), and then shifted out. What
is injective in the register is then injective in these bits, and this is why no burst of sixteen bits
goes unnoticed (`crc16_detects_bursts`), and why only one pair of bytes clears the register
(`foldl_absorb_eq_zero_iff`), the one that the receiver's check asks for (`crc16_checks_exactly`).
-/

namespace Telegram.Checksum

/-! ## One shift

The register is shifted towards its low end. The bit that leaves decides whether the polynomial is added,
and adding is exclusive or, so that each new bit is an exclusive or of old ones. -/

theorem eq_of_testBit_eq {first second : UInt16}
    (h : ∀ i, first.toNat.testBit i = second.toNat.testBit i) : first = second :=
  UInt16.toNat_inj.1 (Nat.eq_of_testBit_eq h)

theorem testBit_of_le (register : UInt16) {i : ℕ} (h : 16 ≤ i) : register.toNat.testBit i = false :=
  Nat.testBit_lt_two_pow (Nat.lt_of_lt_of_le register.toNat_lt (Nat.pow_le_pow_right (by decide) h))

/-- The test for the bit that leaves. -/
theorem and_one_eq_zero_iff (register : UInt16) : register &&& 1 = 0 ↔ register.toNat.testBit 0 = false := by
  rw [← UInt16.toNat_inj, UInt16.toNat_and, Nat.testBit_zero]
  have hone : (1 : UInt16).toNat = 1 := rfl
  have hzero : (0 : UInt16).toNat = 0 := rfl
  rw [hone, hzero, Nat.and_one_is_mod, decide_eq_false_iff_not]
  omega

/-- **One shift, bit by bit.** -/
theorem testBit_shiftOut (register : UInt16) (i : ℕ) :
    (shiftOut register).toNat.testBit i =
      (register.toNat.testBit (i + 1) ^^ (register.toNat.testBit 0 && polynomial.toNat.testBit i)) := by
  have hshift : (register >>> 1).toNat.testBit i = register.toNat.testBit (i + 1) := by
    rw [UInt16.toNat_shiftRight, Nat.testBit_shiftRight, Nat.add_comm]
    rfl
  rw [shiftOut]
  split
  · rename_i hclear
    rw [hshift, (and_one_eq_zero_iff register).1 hclear, Bool.false_and, Bool.xor_false]
  · rename_i hset
    rw [and_one_eq_zero_iff, Bool.not_eq_false] at hset
    rw [UInt16.toNat_xor, Nat.testBit_xor, hshift, hset, Bool.true_and]

/-- **Shifting out is linear.** -/
theorem shiftOut_xor (first second : UInt16) :
    shiftOut (first ^^^ second) = shiftOut first ^^^ shiftOut second := by
  apply eq_of_testBit_eq
  intro i
  simp only [testBit_shiftOut, UInt16.toNat_xor, Nat.testBit_xor, Bool.and_xor_distrib_right, Bool.xor_assoc,
    Bool.xor_left_comm]

/-- **Shifting out loses nothing**: the highest bit afterwards is the one that has left. -/
theorem shiftOut_injective : Function.Injective shiftOut := by
  intro first second h
  have hbits (i : ℕ) := congrArg (·.toNat.testBit i) h
  simp only [testBit_shiftOut] at hbits
  have hlow : first.toNat.testBit 0 = second.toNat.testBit 0 := by
    have htop : polynomial.toNat.testBit 15 = true := by decide
    have hhigh := hbits 15
    rwa [testBit_of_le first (by decide), testBit_of_le second (by decide), htop, Bool.false_xor, Bool.false_xor,
      Bool.and_true, Bool.and_true] at hhigh
  apply eq_of_testBit_eq
  intro i
  cases i with
  | zero => exact hlow
  | succ i =>
    have hnext := hbits i
    rwa [hlow, Bool.xor_left_inj] at hnext

/-! ## Many shifts

What is linear and injective once is so any number of times. As long as only clear bits leave, no
polynomial is added and shifting out is shifting. -/

theorem shiftOutMany_xor (n : ℕ) (first second : UInt16) :
    shiftOutMany n (first ^^^ second) = shiftOutMany n first ^^^ shiftOutMany n second := by
  induction n generalizing first second with
  | zero => rfl
  | succ n ih => rw [shiftOutMany, shiftOut_xor, ih, ← shiftOutMany, ← shiftOutMany]

theorem shiftOutMany_injective (n : ℕ) : Function.Injective (shiftOutMany n) := by
  induction n with
  | zero => exact fun _ _ h => h
  | succ n ih => exact ih.comp shiftOut_injective

/-- Bits that are clear leave without a trace. -/
theorem toNat_shiftOutMany_of_clear {n : ℕ} {register : UInt16}
    (hclear : ∀ i < n, register.toNat.testBit i = false) :
    (shiftOutMany n register).toNat = register.toNat >>> n := by
  induction n generalizing register with
  | zero => rfl
  | succ n ih =>
    have hshift (i : ℕ) : (shiftOut register).toNat.testBit i = register.toNat.testBit (i + 1) := by
      rw [testBit_shiftOut, hclear 0 (Nat.succ_pos n), Bool.false_and, Bool.xor_false]
    rw [shiftOutMany, ih fun i hi => (hshift i).trans (hclear (i + 1) (Nat.succ_lt_succ hi))]
    apply Nat.eq_of_testBit_eq
    intro i
    rw [Nat.testBit_shiftRight, Nat.testBit_shiftRight, hshift, Nat.add_right_comm]

/-! ## The table

The register is the sum of its low byte and of what is above it. Eight shifts take the first through the
table and move the second down, and by linearity the results are added. -/

theorem testBit_toUInt16 (byte : UInt8) {i : ℕ} (h : 8 ≤ i) : byte.toUInt16.toNat.testBit i = false :=
  Nat.testBit_lt_two_pow (Nat.lt_of_lt_of_le byte.toNat_lt (Nat.pow_le_pow_right (by decide) h))

theorem get_table (byte : UInt8) : table.get ⟨byte.toNat, byte.toNat_lt⟩ = shiftOutMany 8 byte.toUInt16 := by
  have hlt : byte.toNat < 256 := byte.toNat_lt
  have hget : table.get ⟨byte.toNat, hlt⟩ = table[byte.toNat] := rfl
  rw [hget, table, Vector.getElem_ofFn]
  exact congrArg (shiftOutMany 8) (UInt16.ofNat_uInt8ToNat byte)

/-- **The table is right**: a byte is absorbed with one look-up as it is bit by bit. -/
theorem absorb_eq_absorbBitwise (register : UInt16) (byte : UInt8) :
    absorb register byte = absorbBitwise register byte := by
  let low := register.toUInt8
  -- the register without its low byte, and that byte with the new one
  have hparts : register ^^^ byte.toUInt16 = (register ^^^ low.toUInt16) ^^^ (low ^^^ byte).toUInt16 := by
    rw [UInt8.toUInt16_xor, UInt16.xor_assoc, ← UInt16.xor_assoc low.toUInt16, UInt16.xor_self, UInt16.zero_xor]
  have hclear : ∀ i < 8, (register ^^^ low.toUInt16).toNat.testBit i = false := by
    intro i hi
    have hlow : low.toUInt16.toNat = register.toNat % 2 ^ 8 := rfl
    rw [UInt16.toNat_xor, Nat.testBit_xor, hlow, Nat.testBit_mod_two_pow, decide_eq_true hi, Bool.true_and,
      Bool.xor_self]
  have hhigh : shiftOutMany 8 (register ^^^ low.toUInt16) = register >>> 8 := by
    rw [← UInt16.toNat_inj, toNat_shiftOutMany_of_clear hclear, UInt16.toNat_shiftRight]
    apply Nat.eq_of_testBit_eq
    intro i
    rw [UInt16.toNat_xor, Nat.shiftRight_xor_distrib, Nat.testBit_xor, Nat.testBit_shiftRight low.toUInt16.toNat,
      testBit_toUInt16 low (Nat.le_add_right 8 i), Bool.xor_false]
    rfl
  rw [absorbBitwise, hparts, shiftOutMany_xor, hhigh, ← get_table]
  rfl

/-! ## Bit by bit

A message is absorbed in bytes. For bursts it has to be looked at in bits, as a burst need not begin with
a byte. -/

/-- Absorbs one bit. -/
def absorbBit (register : UInt16) (bit : Bool) : UInt16 :=
  shiftOut (register ^^^ bit.toUInt16)

/-- The bits of a byte, the lowest first. -/
def byteBits (byte : UInt8) : List Bool :=
  (List.range 8).map byte.toNat.testBit

/-- The bits of the bytes, in the order in which they are absorbed. -/
def bits (bytes : Bytes) : List Bool :=
  bytes.flatMap byteBits

/-- The register that holds the bits, the first one at its low end. -/
def word : List Bool → UInt16
  | [] => 0
  | bit :: rest => bit.toUInt16 ^^^ word rest <<< 1

theorem testBit_moved (register : UInt16) (i : ℕ) :
    (register <<< 1).toNat.testBit i = (decide (i < 16) && (decide (1 ≤ i) && register.toNat.testBit (i - 1))) := by
  rw [UInt16.toNat_shiftLeft, Nat.testBit_mod_two_pow]
  exact congrArg _ (Nat.testBit_shiftLeft _)

theorem testBit_word (bits : List Bool) {i : ℕ} (h : i < 16) : (word bits).toNat.testBit i = bits.getD i false := by
  induction bits generalizing i with
  | nil => simp [word]
  | cons bit rest ih =>
    rw [word, UInt16.toNat_xor, Nat.testBit_xor, testBit_moved]
    cases i with
    | zero => cases bit <;> rfl
    | succ i =>
      have hbit : bit.toUInt16.toNat.testBit (i + 1) = false := by
        cases bit <;> simp [Bool.toUInt16, Nat.testBit_succ]
      rw [hbit, Bool.false_xor, Nat.add_sub_cancel, ih (by omega)]
      simp [h]

theorem word_injective {first second : List Bool} (hlength : first.length = second.length) (hle : first.length ≤ 16)
    (h : word first = word second) : first = second := by
  apply List.ext_getElem hlength
  intro i hfirst hsecond
  have hbit := testBit_word first (i := i) (by omega)
  rw [h, testBit_word second (by omega), List.getD_eq_getElem _ _ hsecond, List.getD_eq_getElem _ _ hfirst] at hbit
  exact hbit.symm

/-- What was moved up comes down again if its highest bit was clear. -/
theorem shiftOut_moved {register : UInt16} (h : register.toNat.testBit 15 = false) :
    shiftOut (register <<< 1) = register := by
  apply eq_of_testBit_eq
  intro i
  rw [testBit_shiftOut, testBit_moved, testBit_moved]
  rcases Nat.lt_trichotomy i 15 with hlt | rfl | hgt
  · simp [show i + 1 < 16 by omega]
  · simp [h]
  · simp [testBit_of_le register hgt]

/-- **Up to sixteen bits can be put into the register at once.** -/
theorem foldl_absorbBit_eq (register : UInt16) {bits : List Bool} (hle : bits.length ≤ 16) :
    bits.foldl absorbBit register = shiftOutMany bits.length (register ^^^ word bits) := by
  induction bits generalizing register with
  | nil => simp [word, shiftOutMany]
  | cons bit rest ih =>
    rw [List.length_cons] at hle
    have htop : (word rest).toNat.testBit 15 = false := by
      rw [testBit_word rest (by decide), List.getD_eq_default _ _ (by omega)]
    rw [List.foldl_cons, ih _ (by omega), List.length_cons, shiftOutMany, word, ← UInt16.xor_assoc, shiftOut_xor,
      shiftOut_moved htop, absorbBit]

theorem length_byteBits (byte : UInt8) : (byteBits byte).length = 8 := by
  rw [byteBits, List.length_map, List.length_range]

theorem word_byteBits (byte : UInt8) : word (byteBits byte) = byte.toUInt16 := by
  apply eq_of_testBit_eq
  intro i
  by_cases hi : i < 16
  · rw [testBit_word _ hi]
    by_cases hlow : i < 8
    · simp [byteBits, hlow]
    · rw [List.getD_eq_default _ _ (by rw [length_byteBits]; omega), testBit_toUInt16 byte (by omega)]
  · rw [testBit_of_le _ (by omega), testBit_of_le _ (by omega)]

/-- **A byte is absorbed like its bits.** -/
theorem foldl_absorbBit_byteBits (register : UInt16) (byte : UInt8) :
    (byteBits byte).foldl absorbBit register = absorb register byte := by
  rw [foldl_absorbBit_eq register (by rw [length_byteBits]; decide), length_byteBits, word_byteBits,
    absorb_eq_absorbBitwise, absorbBitwise]

theorem foldl_absorb_eq_foldl_bits (register : UInt16) (bytes : Bytes) :
    bytes.foldl absorb register = (bits bytes).foldl absorbBit register := by
  rw [bits, List.foldl_flatMap]
  simp only [foldl_absorbBit_byteBits]

/-- **The checksum of a message is that of its bits.** -/
theorem crc16_eq_foldl_bits (bytes : Bytes) : crc16 bytes = (bits bytes).foldl absorbBit 0xFFFF :=
  foldl_absorb_eq_foldl_bits 0xFFFF bytes

/-! ## Bursts

Outside a burst of sixteen bits the messages agree. The bits before it bring both registers to the same
value; those in it fill the register, and so leave different values; and those behind it keep them
different. -/

/-- Bit number `i` of the bytes, counted from the lowest bit of the first byte. -/
def bitAt? (bytes : Bytes) (i : ℕ) : Option Bool :=
  bytes[i / 8]?.map fun byte => byte.toNat.testBit (i % 8)

/-- All bits in which the messages differ lie among `width` consecutive ones. Messages that are equal
differ in none, and so within any width. -/
def DifferWithin (width : ℕ) (first second : Bytes) : Prop :=
  ∃ start, ∀ i, bitAt? first i ≠ bitAt? second i → start ≤ i ∧ i < start + width

theorem length_bits (bytes : Bytes) : (bits bytes).length = 8 * bytes.length := by
  induction bytes with
  | nil => rfl
  | cons byte rest ih =>
    rw [bits, List.flatMap_cons, List.length_append, length_byteBits, ← bits, ih, List.length_cons]
    omega

/-- The bits are numbered through all bytes. -/
theorem getElem?_bits (bytes : Bytes) (i : ℕ) : (bits bytes)[i]? = bitAt? bytes i := by
  induction bytes generalizing i with
  | nil => rfl
  | cons byte rest ih =>
    rw [bits, List.flatMap_cons, ← bits, bitAt?]
    by_cases hi : i < 8
    · rw [List.getElem?_append_left (by rwa [length_byteBits]), Nat.div_eq_of_lt hi, Nat.mod_eq_of_lt hi]
      simp [byteBits, hi]
    · obtain ⟨j, rfl⟩ := Nat.exists_eq_add_of_le (Nat.le_of_not_lt hi)
      rw [List.getElem?_append_right (by rw [length_byteBits]; omega), length_byteBits, Nat.add_sub_cancel_left, ih,
        bitAt?, Nat.add_div_left j (by decide), Nat.add_mod_left]
      rfl

theorem bitAt?_of_le {bytes : Bytes} {i : ℕ} (h : 8 * bytes.length ≤ i) : bitAt? bytes i = none := by
  rw [← getElem?_bits, List.getElem?_eq_none_iff, length_bits]
  exact h

theorem byteBits_injective : Function.Injective byteBits := by
  intro first second h
  apply UInt8.toNat_inj.1
  rw [← UInt8.toNat_toUInt16 first, ← UInt8.toNat_toUInt16 second, ← word_byteBits, ← word_byteBits, h]

theorem eq_of_bits_eq {first second : Bytes} (hlength : first.length = second.length) (h : bits first = bits second) :
    first = second := by
  induction first generalizing second with
  | nil => exact (List.length_eq_zero_iff.1 hlength.symm).symm
  | cons byte rest ih =>
    cases second with
    | nil => cases hlength
    | cons byte' rest' =>
      rw [bits, bits, List.flatMap_cons, List.flatMap_cons] at h
      obtain ⟨hbyte, hrest⟩ := List.append_inj h (by rw [length_byteBits, length_byteBits])
      rw [byteBits_injective hbyte, ih (Nat.succ.inj hlength) hrest]

/-! What is absorbed before and after a burst is the same, and keeps registers apart that differ. -/

theorem foldl_absorbBit_injective (bits : List Bool) :
    Function.Injective fun register => bits.foldl absorbBit register := by
  induction bits with
  | nil => exact fun _ _ h => h
  | cons bit rest ih => exact ih.comp fun _ _ h => (UInt16.xor_left_inj _).1 (shiftOut_injective h)

/-- Sixteen bits that are absorbed tell themselves by what they leave in the register. -/
theorem eq_of_foldl_absorbBit_eq {first second : List Bool} (hlength : first.length = second.length)
    (hle : first.length ≤ 16) {register : UInt16}
    (h : first.foldl absorbBit register = second.foldl absorbBit register) : first = second := by
  rw [foldl_absorbBit_eq _ hle, foldl_absorbBit_eq _ (hlength ▸ hle), hlength] at h
  exact word_injective hlength hle ((UInt16.xor_right_inj _).1 (shiftOutMany_injective _ h))

/-- **A window of sixteen bits tells itself**, wherever it lies. -/
theorem eq_of_foldl_absorbBit_window {first second : List Bool} (hlength : first.length = second.length) {start : ℕ}
    (hwindow : ∀ i, first[i]? ≠ second[i]? → start ≤ i ∧ i < start + 16) {register : UInt16}
    (h : first.foldl absorbBit register = second.foldl absorbBit register) : first = second := by
  have hsplit (bits : List Bool) : bits = bits.take start ++ ((bits.drop start).take 16 ++ bits.drop (start + 16)) := by
    rw [← List.drop_drop, List.take_append_drop, List.take_append_drop]
  have hfront : first.take start = second.take start := by
    apply List.ext_getElem?
    intro i
    rw [List.getElem?_take, List.getElem?_take]
    split
    · by_contra hne
      have hinside := hwindow i hne
      omega
    · rfl
  have hback : first.drop (start + 16) = second.drop (start + 16) := by
    apply List.ext_getElem?
    intro i
    rw [List.getElem?_drop, List.getElem?_drop]
    by_contra hne
    have hinside := hwindow _ hne
    omega
  have hmiddle : (first.drop start).take 16 = (second.drop start).take 16 := by
    rw [hsplit first, hsplit second, hfront, hback] at h
    simp only [List.foldl_append] at h
    refine eq_of_foldl_absorbBit_eq ?_ (List.length_take_le _ _) (foldl_absorbBit_injective _ h)
    rw [List.length_take, List.length_take, List.length_drop, List.length_drop, hlength]
  rw [hsplit first, hsplit second, hfront, hmiddle, hback]

/-- **No burst of up to sixteen bits goes unnoticed**: two messages of one length that differ, and differ
only within sixteen consecutive bits, have different checksums. -/
theorem crc16_detects_bursts {first second : Bytes} (hlength : first.length = second.length) (hne : first ≠ second)
    (hburst : DifferWithin 16 first second) : crc16 first ≠ crc16 second := by
  obtain ⟨start, hwindow⟩ := hburst
  intro hsame
  rw [crc16_eq_foldl_bits, crc16_eq_foldl_bits] at hsame
  have hbits : (bits first).length = (bits second).length := by rw [length_bits, length_bits, hlength]
  have hdiffer : ∀ i, (bits first)[i]? ≠ (bits second)[i]? → start ≤ i ∧ i < start + 16 := by
    intro i hi
    rw [getElem?_bits, getElem?_bits] at hi
    exact hwindow i hi
  exact hne (eq_of_bits_eq hlength (eq_of_foldl_absorbBit_window hbits hdiffer hsame))

/-- A burst over three bytes: the last two bits of one, a whole byte and the first six bits of another. -/
theorem crc16_detects_bursts_across_bytes : crc16 [1, 2, 3, 4, 5] ≠ crc16 [1, 0xC2, 0xFC, 0x3B, 5] := by
  refine crc16_detects_bursts rfl (by decide) ⟨14, fun i hi => ?_⟩
  by_cases hlt : i < 40
  · have hinside :
        ∀ j < 40, bitAt? [1, 2, 3, 4, 5] j ≠ bitAt? [1, 0xC2, 0xFC, 0x3B, 5] j → 14 ≤ j ∧ j < 14 + 16 := by
      decide +kernel
    exact hinside i hlt hi
  · rw [bitAt?_of_le (Nat.le_of_not_lt hlt), bitAt?_of_le (Nat.le_of_not_lt hlt)] at hi
    exact absurd rfl hi

/-! ## The receiver's check

The two bytes of a checksum are sixteen bits, and sixteen bits that are put into a register clear it only
if they are the register itself. -/

/-- **The table is right for whole messages.** -/
theorem crc16_eq_crc16Bitwise (bytes : Bytes) : crc16 bytes = crc16Bitwise bytes := by
  rw [crc16, crc16Bitwise, funext₂ absorb_eq_absorbBitwise]

/-- Two bytes fill the register, the first one its low half. -/
theorem toNat_word_bits (low high : UInt8) : (word (bits [low, high])).toNat = 2 ^ 8 * high.toNat + low.toNat := by
  apply Nat.eq_of_testBit_eq
  intro i
  rw [Nat.testBit_two_pow_mul_add _ low.toNat_lt]
  by_cases hi : i < 16
  · rw [testBit_word _ hi, List.getD_eq_getElem?_getD, getElem?_bits, bitAt?]
    by_cases hlow : i < 8
    · rw [if_pos hlow, Nat.div_eq_of_lt hlow, Nat.mod_eq_of_lt hlow]
      rfl
    · obtain ⟨j, rfl⟩ := Nat.exists_eq_add_of_le (Nat.le_of_not_lt hlow)
      have hj : j < 8 := by omega
      rw [if_neg hlow, Nat.add_div_left j (by decide), Nat.div_eq_of_lt hj, Nat.add_mod_left, Nat.mod_eq_of_lt hj,
        Nat.add_sub_cancel_left]
      rfl
  · rw [testBit_of_le _ (by omega), if_neg (by omega)]
    exact (testBit_toUInt16 high (by omega)).symm

theorem eq_word_bits_iff (register : UInt16) (low high : UInt8) :
    register = word (bits [low, high]) ↔ low = register.toUInt8 ∧ high = (register >>> 8).toUInt8 := by
  have hlow : register.toUInt8.toNat = register.toNat % 256 := rfl
  have hhigh : (register >>> 8).toUInt8.toNat = register.toNat / 256 % 256 := by
    rw [UInt16.toNat_toUInt8, UInt16.toNat_shiftRight, Nat.shiftRight_eq_div_pow]
    rfl
  have hlt := register.toNat_lt
  have hl := low.toNat_lt
  have hh := high.toNat_lt
  rw [← UInt16.toNat_inj, ← UInt8.toNat_inj, ← UInt8.toNat_inj, toNat_word_bits, hlow, hhigh]
  omega

theorem shiftOutMany_zero (n : ℕ) : shiftOutMany n 0 = 0 := by
  induction n with
  | zero => rfl
  | succ n ih => exact ih

/-- **Two bytes clear the register exactly if they are what it holds**, its low half first. -/
theorem foldl_absorb_eq_zero_iff (register : UInt16) (low high : UInt8) :
    [low, high].foldl absorb register = 0 ↔ low = register.toUInt8 ∧ high = (register >>> 8).toUInt8 := by
  have hlength : (bits [low, high]).length = 16 := length_bits _
  rw [foldl_absorb_eq_foldl_bits, foldl_absorbBit_eq register hlength.le, ← shiftOutMany_zero (bits [low, high]).length,
    (shiftOutMany_injective _).eq_iff, UInt16.xor_eq_zero_iff, eq_word_bits_iff]

/-- **The checksum is the bitwise one, and the check of the receiver is exact**: the table gives what the
definition gives bit by bit, and a message with two more bytes has the checksum 0 exactly if these are the
low and the high byte of its own. -/
theorem crc16_checks_exactly (message : Bytes) :
    crc16 message = crc16Bitwise message ∧ crc16 message = (bits message).foldl absorbBit 0xFFFF ∧
      ∀ low high : UInt8, crc16 (message ++ [low, high]) = 0 ↔
        low = (crc16 message).toUInt8 ∧ high = (crc16 message >>> 8).toUInt8 := by
  refine ⟨crc16_eq_crc16Bitwise message, crc16_eq_foldl_bits message, fun low high => ?_⟩
  rw [crc16, List.foldl_append, ← crc16]
  exact foldl_absorb_eq_zero_iff (crc16 message) low high

example : crc16 [0x01, 0x03, 0x00, 0x00, 0x00, 0x01, 0x84, 0x0A] = 0 := by
  decide +kernel

end Telegram.Checksum
