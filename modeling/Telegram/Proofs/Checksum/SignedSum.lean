import Mathlib.Algebra.Group.Int.Defs
import Mathlib.Algebra.Group.Nat.Defs
import Telegram.Checksum.Sums

/-!
# The sum of signed bytes

The checksum adds up bytes in a register of 32 bits, while a buffer may have any length. What it is meant
to be is said of the exact sum, which is an integer (`exactTotal`): the low byte of that, negated if it
exceeds `0xFF` (`IsLowByte`).

The additions are checked, and a sum that the register can not hold ends the program. Since a sum may
leave the range of the register and come back to it, the condition is not on the sum of the whole buffer
but on that of every beginning (`FitsThroughout`).

* `signedTotal?_eq_some_iff` and `signedSum?_eq_some_iff`: under this condition, and only then, there is a
  sum and a checksum. The sum is the exact one, and so the checksum is the byte that is meant.
* A byte moves the sum by 128 at most, so that 2 to the 24th bytes are harmless (`fits_of_length_le`). One
  more is not: `sunken` is such a buffer for every greater length.
-/

namespace Telegram.Checksum

/-- The sum of the bytes as signed numbers, which may be any integer. -/
def exactTotal : Bytes → Int
  | [] => 0
  | byte :: rest => byte.toInt8.toInt + exactTotal rest

/-- The byte is the low one of the total, which is negated if it exceeds `0xFF`. -/
def IsLowByte (total : Int) (byte : UInt8) : Prop :=
  (byte.toNat : Int) = (if 255 < total then -total else total) % 256

instance (total : Int) (byte : UInt8) : Decidable (IsLowByte total byte) :=
  inferInstanceAs (Decidable (_ = _))

/-- The total fits in the register. -/
def Fits (total : Int) : Prop :=
  -2 ^ 31 ≤ total ∧ total < 2 ^ 31

instance (total : Int) : Decidable (Fits total) :=
  inferInstanceAs (Decidable (_ ∧ _))

/-- The sum of every beginning of the buffer fits, so that no addition on the way to its end overflows. It
is not enough that the sum of the whole buffer fits: later bytes may bring it back when it has already
overflowed. -/
def FitsThroughout (bytes : Bytes) : Prop :=
  ∀ first, first <+: bytes → Fits (exactTotal first)

variable {bytes : Bytes}

@[simp] theorem exactTotal_nil : exactTotal [] = 0 :=
  rfl

@[simp] theorem exactTotal_cons (byte : UInt8) (bytes : Bytes) :
    exactTotal (byte :: bytes) = byte.toInt8.toInt + exactTotal bytes :=
  rfl

@[simp] theorem exactTotal_append (first second : Bytes) :
    exactTotal (first ++ second) = exactTotal first + exactTotal second := by
  induction first with
  | nil => rw [List.nil_append, exactTotal_nil, Int.zero_add]
  | cons byte rest ih => rw [List.cons_append, exactTotal_cons, ih, exactTotal_cons, Int.add_assoc]

@[simp] theorem exactTotal_replicate (count : Nat) (byte : UInt8) :
    exactTotal (List.replicate count byte) = count * byte.toInt8.toInt := by
  induction count with
  | zero => exact (Int.zero_mul _).symm
  | succ count ih =>
    rw [List.replicate_succ, exactTotal_cons, ih, Int.natCast_add_one, Int.add_mul, Int.one_mul, Int.add_comm]

/-! ## The register

The loop is followed from a register that holds some sum to begin with. As long as that sum and every
later one fit, the register is `Int32.ofInt` of the exact sum; the first that does not fit ends the loop,
whatever comes after it. -/

theorem fits_zero : Fits 0 := by
  decide

theorem toInt_ofInt_of_fits {total : Int} (h : Fits total) : (Int32.ofInt total).toInt = total :=
  Int32.toInt_ofInt_of_le h.1 h.2

theorem addSigned?_ofInt {total : Int} (h : Fits total) (byte : UInt8) :
    addSigned? (Int32.ofInt total) byte =
      if Fits (total + byte.toInt8.toInt) then some (Int32.ofInt (total + byte.toInt8.toInt)) else none := by
  have hrange : -0x80000000 ≤ total + byte.toInt8.toInt ∧ total + byte.toInt8.toInt ≤ 0x7FFFFFFF ↔
      Fits (total + byte.toInt8.toInt) := by
    rw [Fits]
    omega
  simp only [addSigned?, toInt_ofInt_of_fits h, hrange]

theorem foldlM_addSigned?_of_fits {total : Int} (h : ∀ first, first <+: bytes → Fits (total + exactTotal first)) :
    bytes.foldlM addSigned? (Int32.ofInt total) = some (Int32.ofInt (total + exactTotal bytes)) := by
  induction bytes generalizing total with
  | nil =>
    rw [exactTotal_nil, Int.add_zero]
    rfl
  | cons byte rest ih =>
    have htotal : Fits total := by simpa using h [] List.nil_prefix
    have hlonger : ∀ first, first <+: rest → Fits (total + byte.toInt8.toInt + exactTotal first) := by
      intro first hfirst
      rw [Int.add_assoc]
      exact h (byte :: first) ((List.prefix_cons_inj byte).2 hfirst)
    have hbyte : Fits (total + byte.toInt8.toInt) := by simpa using hlonger [] List.nil_prefix
    rw [List.foldlM_cons, addSigned?_ofInt htotal, if_pos hbyte, exactTotal_cons, ← Int.add_assoc]
    exact ih hlonger

/-- A sum that does not fit stops the loop. -/
theorem foldlM_addSigned?_eq_none {total : Int} {first : Bytes} (htotal : Fits total) (hfirst : first <+: bytes)
    (h : ¬Fits (total + exactTotal first)) : bytes.foldlM addSigned? (Int32.ofInt total) = none := by
  induction bytes generalizing total first with
  | nil =>
    rw [List.prefix_nil.1 hfirst, exactTotal_nil, Int.add_zero] at h
    exact absurd htotal h
  | cons byte rest ih =>
    obtain rfl | ⟨tail, rfl, htail⟩ := List.prefix_cons_iff.1 hfirst
    · rw [exactTotal_nil, Int.add_zero] at h
      exact absurd htotal h
    rw [exactTotal_cons, ← Int.add_assoc] at h
    rw [List.foldlM_cons, addSigned?_ofInt htotal]
    -- the sum that does not fit is this one or a later one
    by_cases hbyte : Fits (total + byte.toInt8.toInt)
    · rw [if_pos hbyte]
      exact ih hbyte htail h
    · rw [if_neg hbyte]
      rfl

theorem signedTotal?_of_fitsThroughout (h : FitsThroughout bytes) :
    signedTotal? bytes = some (Int32.ofInt (exactTotal bytes)) := by
  have hloop := @foldlM_addSigned?_of_fits bytes 0
  simp only [Int.zero_add] at hloop
  exact hloop h

theorem signedTotal?_eq_none {first : Bytes} (hfirst : first <+: bytes) (h : ¬Fits (exactTotal first)) :
    signedTotal? bytes = none := by
  refine foldlM_addSigned?_eq_none fits_zero hfirst ?_
  rwa [Int.zero_add]

theorem signedTotal?_eq_none_iff (bytes : Bytes) :
    signedTotal? bytes = none ↔ ∃ first, first <+: bytes ∧ ¬Fits (exactTotal first) := by
  constructor
  · intro hnone
    refine Classical.byContradiction fun hleft => ?_
    have hfits : FitsThroughout bytes := fun first hfirst =>
      Decidable.byContradiction fun hbeyond => hleft ⟨first, hfirst, hbeyond⟩
    rw [signedTotal?_of_fitsThroughout hfits] at hnone
    cases hnone
  · rintro ⟨first, hfirst, hbeyond⟩
    exact signedTotal?_eq_none hfirst hbeyond

theorem fitsThroughout_of_signedTotal? {register : Int32} (h : signedTotal? bytes = some register) :
    FitsThroughout bytes := by
  intro first hfirst
  refine Decidable.byContradiction fun hbeyond => ?_
  rw [signedTotal?_eq_none hfirst hbeyond] at h
  cases h

/-- **The register never holds anything but the exact sum**, and it comes to the end of the buffer exactly
if every sum on the way fits. -/
theorem signedTotal?_eq_some_iff (bytes : Bytes) (register : Int32) :
    signedTotal? bytes = some register ↔ FitsThroughout bytes ∧ register.toInt = exactTotal bytes := by
  constructor
  · intro hregister
    have hfits := fitsThroughout_of_signedTotal? hregister
    rw [signedTotal?_of_fitsThroughout hfits] at hregister
    obtain rfl := Option.some.inj hregister
    exact ⟨hfits, toInt_ofInt_of_fits (hfits bytes (List.prefix_refl bytes))⟩
  · rintro ⟨hfits, htotal⟩
    rw [signedTotal?_of_fitsThroughout hfits, ← htotal, Int32.ofInt_toInt]

/-! ## The low byte

A register that holds the exact sum still has to be turned into a byte. A sum above `0xFF` is negated
first, and whether it is above shows in the register because nothing has wrapped around. -/

theorem toNat_lowByte (total : Int) : ((Int32.ofInt total).toUInt32.toUInt8.toNat : Int) = total % 256 := by
  have hbits : (Int32.ofInt total).toUInt32.toUInt8.toNat = (BitVec.ofInt 32 total).toNat % 256 := rfl
  rw [hbits, BitVec.toNat_ofInt]
  omega

/-- A register that holds the sum shows on which side of `0xFF` it is. -/
theorem isLowByte_of_fits {total : Int} (h : Fits total) :
    IsLowByte total (if Int32.ofInt total > 0xFF then -Int32.ofInt total else Int32.ofInt total).toUInt32.toUInt8 := by
  have hlimit : Int32.ofInt total > 0xFF ↔ 255 < total := by
    rw [gt_iff_lt, Int32.lt_iff_toInt_lt, toInt_ofInt_of_fits h]
    rfl
  rw [IsLowByte]
  by_cases hlarge : 255 < total
  · rw [if_pos (hlimit.2 hlarge), if_pos hlarge, ← Int32.ofInt_neg, toNat_lowByte]
  · rw [if_neg (mt hlimit.1 hlarge), if_neg hlarge, toNat_lowByte]

theorem IsLowByte.unique {total : Int} {first second : UInt8} (hfirst : IsLowByte total first)
    (hsecond : IsLowByte total second) : first = second :=
  UInt8.toNat_inj.1 (Int.ofNat.inj (hfirst.trans hsecond.symm))

/-- **Which checksum there is**: the byte that is meant, if every sum on the way fits. -/
theorem signedSum?_eq_some_iff (bytes : Bytes) (answer : UInt8) :
    signedSum? bytes = some answer ↔ FitsThroughout bytes ∧ IsLowByte (exactTotal bytes) answer := by
  rw [signedSum?, Option.map_eq_some_iff]
  constructor
  · rintro ⟨register, hregister, rfl⟩
    have hfits := fitsThroughout_of_signedTotal? hregister
    rw [signedTotal?_of_fitsThroughout hfits] at hregister
    obtain rfl := Option.some.inj hregister
    exact ⟨hfits, isLowByte_of_fits (hfits bytes (List.prefix_refl bytes))⟩
  · rintro ⟨hfits, hmeant⟩
    refine ⟨_, signedTotal?_of_fitsThroughout hfits, ?_⟩
    exact (isLowByte_of_fits (hfits bytes (List.prefix_refl bytes))).unique hmeant

theorem signedSum?_eq_none_iff (bytes : Bytes) :
    signedSum? bytes = none ↔ ∃ first, first <+: bytes ∧ ¬Fits (exactTotal first) := by
  rw [signedSum?, Option.map_eq_none_iff, signedTotal?_eq_none_iff]

/-! ## Lengths

The bound on the length is what a caller can check. It is sharp: the buffer that goes beyond it is made of
as many of the least bytes as bring the register to its lower end, and one more step down. -/

theorem exactTotal_bounds (bytes : Bytes) :
    -128 * (bytes.length : Int) ≤ exactTotal bytes ∧ exactTotal bytes ≤ 127 * (bytes.length : Int) := by
  induction bytes with
  | nil => exact ⟨Int.le_refl 0, Int.le_refl 0⟩
  | cons byte rest ih =>
    have hlow := byte.toInt8.le_toInt
    have hhigh := byte.toInt8.toInt_lt
    rw [exactTotal_cons, List.length_cons]
    omega

/-- Sums of so many bytes fit. -/
theorem fits_of_length_le (h : bytes.length ≤ 2 ^ 24) : Fits (exactTotal bytes) := by
  obtain ⟨hlow, hhigh⟩ := exactTotal_bounds bytes
  constructor <;> omega

/-- The least numbers until the register is at its lower end, then a -1 and zeros. -/
def sunken (zeros : Nat) : Bytes :=
  List.replicate (2 ^ 24) 0x80 ++ 0xFF :: List.replicate zeros 0

theorem length_sunken (zeros : Nat) : (sunken zeros).length = 2 ^ 24 + 1 + zeros := by
  rw [sunken, List.length_append, List.length_replicate, List.length_cons, List.length_replicate]
  omega

theorem exactTotal_sunken (zeros : Nat) : exactTotal (sunken zeros) = -2 ^ 31 - 1 := by
  have hleast : (0x80 : UInt8).toInt8.toInt = -128 := rfl
  have hone : (0xFF : UInt8).toInt8.toInt = -1 := rfl
  have hzero : (0 : UInt8).toInt8.toInt = 0 := rfl
  rw [sunken, exactTotal_append, exactTotal_replicate, exactTotal_cons, exactTotal_replicate, hleast, hone, hzero]
  omega

theorem not_fits_sunken (zeros : Nat) : ¬Fits (exactTotal (sunken zeros)) := by
  rw [exactTotal_sunken]
  decide

theorem signedSum?_sunken (zeros : Nat) : signedSum? (sunken zeros) = none :=
  (signedSum?_eq_none_iff _).2 ⟨sunken zeros, List.prefix_refl _, not_fits_sunken zeros⟩

theorem exists_sunken {length : Nat} (h : 2 ^ 24 < length) : ∃ zeros, (sunken zeros).length = length :=
  ⟨length - (2 ^ 24 + 1), by rw [length_sunken]; omega⟩

theorem fitsThroughout_of_length_le (h : bytes.length ≤ 2 ^ 24) : FitsThroughout bytes :=
  fun _ hfirst => fits_of_length_le (Nat.le_trans hfirst.length_le h)

/-- **The checksum of signed bytes, for buffers of every length.** The register holds the exact sum
wherever it holds one, and the checksum is the byte that is meant wherever there is one. Both are there
exactly if every sum on the way fits; the first that does not fit ends the program. No buffer of up to 2
to the 24th bytes has such a sum, and of every greater length there is one that has. -/
theorem signedSum_at_every_length (bytes : Bytes) :
    (∀ register, signedTotal? bytes = some register ↔
        FitsThroughout bytes ∧ register.toInt = exactTotal bytes) ∧
      (∀ answer, signedSum? bytes = some answer ↔ FitsThroughout bytes ∧ IsLowByte (exactTotal bytes) answer) ∧
      (signedSum? bytes = none ↔ ∃ first, first <+: bytes ∧ ¬Fits (exactTotal first)) ∧
      (bytes.length ≤ 2 ^ 24 → ∃ answer, signedSum? bytes = some answer) ∧
      (2 ^ 24 < bytes.length → ∃ other : Bytes, other.length = bytes.length ∧ signedSum? other = none) := by
  refine ⟨signedTotal?_eq_some_iff bytes, signedSum?_eq_some_iff bytes, signedSum?_eq_none_iff bytes,
    fun hshort => ?short, fun hlong => ?long⟩
  case short =>
    have hfits := fitsThroughout_of_length_le hshort
    have hmeant := isLowByte_of_fits (hfits bytes (List.prefix_refl bytes))
    exact ⟨_, (signedSum?_eq_some_iff bytes _).2 ⟨hfits, hmeant⟩⟩
  case long =>
    obtain ⟨zeros, hlength⟩ := exists_sunken hlong
    exact ⟨sunken zeros, hlength, signedSum?_sunken zeros⟩

/-- Three times 127 is more than a byte, and is negated. -/
theorem signedSum_at_three_bytes :
    (∃ answer, signedSum? [0x7F, 0x7F, 0x7F] = some answer) ∧ signedSum? [0x7F, 0x7F, 0x7F] = some 0x83 ∧
      FitsThroughout [0x7F, 0x7F, 0x7F] ∧ IsLowByte (exactTotal [0x7F, 0x7F, 0x7F]) 0x83 := by
  obtain ⟨-, hanswer, -, hshort, -⟩ := signedSum_at_every_length [0x7F, 0x7F, 0x7F]
  have hvalue : signedSum? [0x7F, 0x7F, 0x7F] = some 0x83 := rfl
  exact ⟨hshort (by decide), hvalue, (hanswer 0x83).1 hvalue⟩

/-- 2 to the 24th times -128, and once -1: the byte that is meant is `0xFF`, and the last addition ends
the program. -/
theorem signedSum_of_sunken :
    let bytes : Bytes := List.replicate (2 ^ 24) 0x80 ++ [0xFF]
    exactTotal bytes = -2 ^ 31 - 1 ∧ IsLowByte (exactTotal bytes) 0xFF ∧ ¬FitsThroughout bytes ∧
      signedTotal? bytes = none ∧ signedSum? bytes = none := by
  intro bytes
  have htotal : exactTotal bytes = -2 ^ 31 - 1 := exactTotal_sunken 0
  have hbeyond : ¬Fits (exactTotal bytes) := not_fits_sunken 0
  refine ⟨htotal, ?_, fun hfits => hbeyond (hfits bytes (List.prefix_refl bytes)),
    signedTotal?_eq_none (List.prefix_refl bytes) hbeyond, signedSum?_sunken 0⟩
  rw [htotal]
  decide

end Telegram.Checksum
