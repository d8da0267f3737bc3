import Mathlib.Tactic.IntervalCases
import Telegram.Proofs.ByteOrder
import Telegram.Scalar.Basic

/-!
# Numbers that survive the wire

A number is stored in a few bytes without a sign, after the rule of its field has been applied in reverse.
`IntType.Fits` and `Decimal.Fits` are what a number needs for nothing to be lost on the way: what is
stored has to fit into those bytes, and the rule has to be one that can be undone exactly.

`IntType.read_write` and `Decimal.read_write` are the round trips.
-/

namespace Telegram

open Codec

/-! ## Integers

Three moduli are at work: that of the type, in which the rule calculates, that of the bytes in the field,
and that of the eight bytes which everything is extended to in between. A number survives if reducing what
is stored for it by the smaller of the first two changes nothing. -/

/-- The rules that are undone exactly in arithmetic that wraps around. -/
def OffsetRule.isShift : OffsetRule → Bool
  | .none | .add | .subtract => true
  | .multiply | .divide => false

/-- What wraps around in one direction wraps back in the other. -/
theorem OffsetRule.apply_inverse {rule : OffsetRule} (h : rule.isShift = true) (signed : Bool)
    {width : Nat} (x offset : BitVec width) :
    rule.apply signed (rule.inverse.apply signed x offset) offset = x := by
  cases rule with
  | none => rfl
  | add => exact BitVec.sub_add_cancel x offset
  | subtract => exact BitVec.add_sub_cancel x offset
  | multiply | divide => cases h

namespace IntType

/-- The bit pattern that is stored for a number. -/
def rawOf (type : IntType) (format : FieldFormat) (bits : BitVec type.bits) : BitVec type.bits :=
  (type.ruleIn format).inverse.apply type.isSigned bits (type.offsetIn format)

/-- A number that the field holds without loss: its length is supported, its rule only shifts, and what
is stored, taken without a sign, has room. -/
def Fits (type : IntType) (format : FieldFormat) (bits : BitVec type.bits) : Prop :=
  ∃ width, type.storedBytes? format = some width ∧ (type.ruleIn format).isShift = true ∧
    (type.rawOf format bits).toNat < 256 ^ width

/-- No type has more bits than what is stored in between. -/
theorem bits_le (type : IntType) : type.bits ≤ 64 := by
  cases type <;> decide

theorem storedBytes?_pos {type : IntType} {format : FieldFormat} {width : Nat}
    (h : type.storedBytes? format = some width) : 0 < width := by
  have hbytes : 0 < type.bytes := by cases type <;> decide
  unfold storedBytes? at h
  split at h
  · exact Option.some.inj h ▸ Nat.one_pos
  split at h
  · split at h
    · exact Option.some.inj h ▸ Nat.succ_pos 7
    · cases h
  split at h
  · exact Option.some.inj h ▸ hbytes
  split at h
  · obtain rfl := Option.some.inj h
    omega
  · cases h

/-- Extending a number to eight bytes keeps its low bits. -/
theorem toStored_mod (type : IntType) (format : FieldFormat) (bits : BitVec type.bits) :
    type.toStored format bits % 2 ^ type.bits = (type.rawOf format bits).toNat := by
  have hextend : ∀ x : BitVec type.bits, (x.signExtend 64).toNat % 2 ^ type.bits = x.toNat := by
    intro x
    have hle := type.bits_le
    rw [← BitVec.toNat_setWidth]
    congr 1
    ext i hi
    have hi' : i < 64 := Nat.lt_of_lt_of_le hi hle
    simp [BitVec.getElem_signExtend, hi, hi']
  simp only [toStored]
  split
  · exact hextend _
  · exact Nat.mod_eq_of_lt (type.rawOf format bits).isLt

theorem pow_256 (width : Nat) : 256 ^ width = 2 ^ (8 * width) := by
  rw [Nat.pow_mul]

/-- Of what is stored, the field's bytes and the type's bits keep the low part. -/
theorem ofNat_stored_mod (type : IntType) (format : FieldFormat) (bits : BitVec type.bits) (width : Nat) :
    BitVec.ofNat type.bits (type.toStored format bits % 256 ^ width) =
      BitVec.ofNat type.bits ((type.rawOf format bits).toNat % 256 ^ width) := by
  apply BitVec.eq_of_toNat_eq
  rw [pow_256, BitVec.toNat_ofNat, BitVec.toNat_ofNat, ← type.toStored_mod format bits]
  -- the bytes of the field hold the type, or the type holds them
  rcases Nat.le_total type.bits (8 * width) with hwide | hnarrow
  · rw [Nat.mod_mod_of_dvd _ (Nat.pow_dvd_pow 2 hwide), Nat.mod_mod_of_dvd _ (Nat.pow_dvd_pow 2 hwide),
      Nat.mod_mod]
  · rw [Nat.mod_mod_of_dvd _ (Nat.pow_dvd_pow 2 hnarrow)]

/-- **What is stored in too few bytes is still all there**, if it has room. -/
theorem ofNat_stored {type : IntType} {format : FieldFormat} {bits : BitVec type.bits} {width : Nat}
    (hroom : (type.rawOf format bits).toNat < 256 ^ width) :
    BitVec.ofNat type.bits (type.toStored format bits % 256 ^ width) = type.rawOf format bits := by
  rw [ofNat_stored_mod, Nat.mod_eq_of_lt hroom, BitVec.ofNat_toNat, BitVec.setWidth_eq]

/-- **A number that fits is read back**, and whatever follows it stays unread. -/
theorem read_write {type : IntType} {format : FieldFormat} {bits : BitVec type.bits}
    (h : type.Fits format bits) :
    ∃ bytes, bytes ≠ [] ∧ type.write format (some bits) = .done bytes ∧
      ∀ rest, type.read format (bytes ++ rest) = .found (.int type bits) rest := by
  obtain ⟨width, hwidth, hrule, hroom⟩ := h
  refine ⟨format.order.encode width (type.toStored format bits), ?nonempty, ?write, ?read⟩
  case nonempty => exact format.order.encode_ne_nil (storedBytes?_pos hwidth) _
  case write => simp only [write, hwidth, Option.map_some, Option.getD_some]
  case read =>
    intro rest
    simp only [read, hwidth, ByteOrder.split?_encode_append]
    rw [ofStored, ofNat_stored hroom, rawOf, OffsetRule.apply_inverse hrule]

end IntType

/-! ## Decimals

A decimal is stored as an integer, and its point comes from the divisor of the rule. So what survives is
not the number alone but the number with its scale, and a scale that reading would not give is lost. -/

namespace Decimal

/-- A decimal that the field holds without loss. Its length is supported, the mantissa is no less than 0
and has room, and its scale is the one that reading gives: none without a divisor, and one digit for each
zero of a divisor from ten to a million. -/
def Fits (format : FieldFormat) (x : Decimal) : Prop :=
  ∃ width, storedBytes? format = some width ∧ 0 ≤ x.mantissa.toInt ∧
    x.mantissa.toInt < 256 ^ width ∧
      ((format.rule ≠ .divide ∧ x.scale = 0) ∨
        (format.rule = .divide ∧ ∃ k, 1 ≤ k ∧ k ≤ 6 ∧ format.offset.toInt = 10 ^ k ∧ x.scale = k))

theorem storedBytes?_pos {format : FieldFormat} {width : Nat} (h : storedBytes? format = some width) :
    0 < width ∧ width ≤ 4 := by
  unfold storedBytes? at h
  split at h
  · obtain rfl := Option.some.inj h
    decide
  split at h
  · obtain rfl := Option.some.inj h
    omega
  · cases h

theorem fitsInt64_iff {n : Int} : fitsInt64 n = true ↔ -2 ^ 63 ≤ n ∧ n < 2 ^ 63 := by
  have hlow : Int64.minValue.toInt = -2 ^ 63 := rfl
  have hhigh : Int64.maxValue.toInt = 2 ^ 63 - 1 := rfl
  simp only [fitsInt64, hlow, hhigh, Bool.and_eq_true, decide_eq_true_eq]
  omega

/-- A decimal has the parts it was made of. -/
theorem ofParts?_eq_some_iff {mantissa : Int} {scale : Nat} {x : Decimal} :
    ofParts? mantissa scale = some x ↔ mantissa = x.mantissa.toInt ∧ scale = x.scale := by
  rw [ofParts?, Option.ite_none_right_eq_some, mk?, Option.dite_none_right_eq_some]
  constructor
  · rintro ⟨hfits, hscale, heq⟩
    obtain rfl := Option.some.inj heq
    rw [fitsInt64_iff] at hfits
    exact ⟨(Int64.toInt_ofInt_of_le hfits.1 hfits.2).symm, rfl⟩
  · rintro ⟨rfl, rfl⟩
    have hlow := x.mantissa.le_toInt
    have hhigh := x.mantissa.toInt_lt
    exact ⟨fitsInt64_iff.2 ⟨hlow, hhigh⟩, x.scale_le, by rw [Int64.ofInt_toInt]⟩

/-- There are two reasons not to be a decimal: too many digits behind the point, or a mantissa out of its
range. -/
theorem ofParts?_eq_none_iff {mantissa : Int} {scale : Nat} :
    ofParts? mantissa scale = none ↔ maxScale < scale ∨ mantissa < -2 ^ 63 ∨ 2 ^ 63 ≤ mantissa := by
  rw [ofParts?]
  split
  · rename_i hfits
    rw [fitsInt64_iff] at hfits
    rw [mk?]
    split <;> simp only [reduceCtorEq, true_iff, false_iff] <;> omega
  · rename_i hfits
    rw [fitsInt64_iff] at hfits
    simp only [true_iff]
    omega

/-- A number of 64 bits is not clamped. -/
theorem clampInt64_toInt (n : Int64) : clampInt64 n.toInt = n := by
  have hlow := n.minValue_le_toInt
  have hhigh := n.toInt_le
  rw [clampInt64, Int.min_eq_left hhigh, Int.max_eq_right hlow, Int64.ofInt_toInt]

/-- A whole multiple of the divisor is divided without rounding. -/
theorem roundQuotient_mul (m : Int) {d : Int} (h : d ≠ 0) : roundQuotient (m * d) d = m := by
  have hquotient : (m * d).tdiv d = m := Int.mul_tdiv_cancel m h
  have hremainder : (m * d).tmod d = 0 := Int.mul_tmod_left m d
  simp only [roundQuotient, hquotient, hremainder]
  rw [if_pos (by omega)]

theorem toNat_toUInt64 {n : Int64} (h : 0 ≤ n.toInt) : n.toUInt64.toNat = n.toInt.toNat := by
  have hbits : n.toUInt64.toNat = n.toBitVec.toNat := rfl
  have hint : n.toInt = n.toBitVec.toInt := rfl
  rw [hint] at h ⊢
  rw [hbits]
  have hlt := n.toBitVec.isLt
  rw [BitVec.toInt_eq_toNat_cond] at h ⊢
  split at h
  · rw [if_pos ‹_›, Int.toNat_natCast]
  · omega

/-- A power of ten is recognised by its value. -/
theorem scaleOfDivisor_eq {offset : Int64} {k : Nat} (hlow : 1 ≤ k) (hhigh : k ≤ 6)
    (hoffset : offset.toInt = 10 ^ k) : scaleOfDivisor offset = k := by
  have heq : offset = Int64.ofInt (10 ^ k) := by rw [← hoffset, Int64.ofInt_toInt]
  subst heq
  interval_cases k <;> decide

theorem pow_ten (k : Nat) : Int.pow 10 k = 10 ^ k :=
  rfl

/-- A decimal is stored as its mantissa. -/
theorem Fits.toStored_eq {format : FieldFormat} {x : Decimal} (h : Fits format x) :
    toStored format x = x.mantissa := by
  obtain ⟨-, -, -, -, ⟨hrule, hscale⟩ | ⟨hrule, k, -, -, hoffset, hscale⟩⟩ := h
  · have hone : (1 : Int64).toInt = 1 := rfl
    rw [toStored, if_neg hrule, trunc, mulTrunc, hscale, hone, Int.mul_one, pow_ten, Int.pow_zero,
      Int.tdiv_one, clampInt64_toInt]
  · rw [toStored, if_pos hrule, mulTrunc, hscale, hoffset, pow_ten,
      Int.mul_tdiv_cancel _ (Int.pow_ne_zero (by decide)), clampInt64_toInt]

/-- A scale that is too large and a mantissa that does not fit are told when the parts are put
together. -/
theorem divRound_eq (x : Decimal) (divisor : Int64) (scale : Nat) :
    x.divRound divisor scale =
      if divisor = 0 then none
      else ofParts? (roundQuotient (x.mantissa.toInt * 10 ^ scale) (divisor.toInt * 10 ^ x.scale)) scale := by
  simp only [divRound, pow_ten]
  split
  · rfl
  split
  · rename_i hscale
    exact (ofParts?_eq_none_iff.2 (.inl hscale)).symm
  · rfl

/-- **The quotient of a multiple is exact**: dividing by a power of ten moves the point. -/
theorem divRound_ofInt {m offset : Int64} {k : Nat} (hoffset : offset.toInt = 10 ^ k)
    (hscale : k ≤ maxScale) :
    (ofInt m).divRound offset k = some ⟨m, k, hscale⟩ := by
  have hpos : (0 : Int) < 10 ^ k := Int.pow_pos (by decide)
  have hnonzero : offset ≠ 0 := by
    rintro rfl
    have hzero : (0 : Int64).toInt = 0 := rfl
    omega
  have hquotient : roundQuotient ((ofInt m).mantissa.toInt * 10 ^ k)
      (offset.toInt * 10 ^ (ofInt m).scale) = m.toInt := by
    have hscale : (ofInt m).scale = 0 := rfl
    rw [hoffset, hscale, Int.pow_zero, Int.mul_one]
    exact roundQuotient_mul m.toInt (Int.ne_of_gt hpos)
  rw [divRound_eq, if_neg hnonzero, hquotient, ofParts?_eq_some_iff]
  exact ⟨rfl, rfl⟩

/-- What was stored for a decimal gives it back. -/
theorem Fits.ofStored_eq {format : FieldFormat} {x : Decimal} (h : Fits format x) :
    ofStored format x.mantissa.toInt.toNat = .ok x := by
  obtain ⟨-, -, hnonneg, -, hscale⟩ := h
  have hback : Int64.ofNat x.mantissa.toInt.toNat = x.mantissa := by
    rw [← Int64.ofInt_eq_ofNat, Int.toNat_of_nonneg hnonneg, Int64.ofInt_toInt]
  simp only [ofStored, hback]
  rcases hscale with ⟨hrule, hscale⟩ | ⟨hrule, k, hlow, hhigh, hoffset, rfl⟩
  · rw [if_neg hrule]
    obtain ⟨mantissa, scale, hle⟩ := x
    cases hscale
    rfl
  · rw [if_pos hrule, scaleOfDivisor_eq hlow hhigh hoffset, divRound_ofInt hoffset x.scale_le]

/-- **A decimal that fits is read back**, and whatever follows it stays unread. -/
theorem read_write {format : FieldFormat} {x : Decimal} (h : Fits format x) :
    ∃ bytes, bytes ≠ [] ∧ write format (some x) = .done bytes ∧
      ∀ rest, read format (bytes ++ rest) = .found (.decimal x) rest := by
  have hstored := h.toStored_eq
  have hback := h.ofStored_eq
  obtain ⟨width, hwidth, hnonneg, hroom, -⟩ := h
  have hnat : x.mantissa.toUInt64.toNat % 256 ^ width = x.mantissa.toInt.toNat := by
    rw [toNat_toUInt64 hnonneg]
    apply Nat.mod_eq_of_lt
    have hcast : ((256 ^ width : Nat) : Int) = 256 ^ width := by push_cast; rfl
    omega
  refine ⟨format.order.encode width x.mantissa.toUInt64.toNat, ?nonempty, ?write, ?read⟩
  case nonempty => exact format.order.encode_ne_nil (storedBytes?_pos hwidth).1 _
  case write => simp only [write, hwidth, Option.map_some, Option.getD_some, hstored]
  case read =>
    intro rest
    simp only [read, hwidth, ByteOrder.split?_encode_append, hnat, hback]

/-! ## Quotients of stored numbers

Reading divides, and a quotient may be too large for a mantissa. It never is for a number of four bytes,
which is all that a decimal field can hold. -/

/-- Rounding adds one at most. -/
theorem natAbs_roundQuotient_le (numerator denominator : Int) :
    (roundQuotient numerator denominator).natAbs ≤ numerator.natAbs + 1 := by
  have hquotient : (numerator.tdiv denominator).natAbs ≤ numerator.natAbs := by
    rw [Int.natAbs_tdiv]
    exact Nat.div_le_self _ _
  simp only [roundQuotient]
  split
  · omega
  · split <;> omega

/-- No divisor asks for more than six digits. -/
theorem scaleOfDivisor_le (divisor : Int64) : scaleOfDivisor divisor ≤ 6 := by
  unfold scaleOfDivisor
  repeat' split
  all_goals omega

/-- **Every number of four bytes has a quotient** by a divisor other than 0: with six more digits it is
still far from 64 bits. -/
theorem exists_divRound {offset : Int64} (hoffset : offset ≠ 0) {stored : Nat} (h : stored < 256 ^ 4) :
    ∃ x, (ofInt (Int64.ofNat stored)).divRound offset (scaleOfDivisor offset) = some x := by
  have hscale : scaleOfDivisor offset ≤ 6 := scaleOfDivisor_le offset
  have hstored : (ofInt (Int64.ofNat stored)).mantissa.toInt = stored := by
    rw [ofInt, ← Int64.ofInt_eq_ofNat]
    refine Int64.toInt_ofInt_of_le ?_ ?_ <;> omega
  have hsmall := natAbs_roundQuotient_le ((stored : Int) * 10 ^ scaleOfDivisor offset)
    (offset.toInt * 10 ^ (ofInt (Int64.ofNat stored)).scale)
  have hnumerator : ((stored : Int) * 10 ^ scaleOfDivisor offset).natAbs = stored * 10 ^ scaleOfDivisor offset := by
    rw [Int.natAbs_mul, Int.natAbs_natCast, Int.natAbs_pow]
    rfl
  -- four stored bytes, six decimals and the one that rounding adds are far below `2 ^ 63`
  have hpow : (10 : Nat) ^ scaleOfDivisor offset ≤ 10 ^ 6 := Nat.pow_le_pow_right (by decide) hscale
  have hmul : stored * 10 ^ scaleOfDivisor offset ≤ 256 ^ 4 * 10 ^ 6 := Nat.mul_le_mul h.le hpow
  rw [divRound_eq, if_neg hoffset, hstored]
  refine Option.ne_none_iff_exists'.1 fun hnone => ?_
  have hmax : maxScale = 18 := rfl
  rw [ofParts?_eq_none_iff] at hnone
  omega

/-- A stored number has a value in every format that can be applied. -/
theorem exists_ofStored {format : FieldFormat} (hformat : format.rule = .divide → format.offset ≠ 0)
    {stored : Nat} (h : stored < 256 ^ 4) : ∃ x, ofStored format stored = .ok x := by
  simp only [ofStored]
  split
  · rename_i hrule
    obtain ⟨x, hx⟩ := exists_divRound (hformat hrule) h
    exact ⟨x, by rw [hx]⟩
  · exact ⟨_, rfl⟩

end Decimal

end Telegram
