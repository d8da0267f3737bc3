import Telegram.Proofs.Scalar.Number

/-!
# Integers under a rule

An integer field stores a number in a few bytes after its rule was applied in reverse, and all of that
wraps around within the type. Here is when a number is read back all the same, exactly.

* `IntType.HasRoom`: the stored number needs no more bytes than the field has. This is what keeps it whole
  (`IntType.ofNat_raw_iff`).
* `IntType.read_written` says what any number turns into when it is written and read.
* `IntType.read_back_exactly`: under a rule that adds or subtracts, a number is read back exactly if it
  has room. Multiplying and dividing also need a number that they can be undone on.
* `IntType.divided_again`: a number that was read by dividing is read again once it has been written,
  unless the divisor is 0 within the type. That happens although a divisor of 0 is refused, as the divisor
  is looked at with all of its 64 bits (`IntType.accepted_divided_unstable`).

Wrapped numbers are compared by the integers they stand for, `Value.intValue`. What lies between 0 and a
number of the type is a number of the type (`Value.intValue_ofInt_of_between`), so that an exact
calculation within these bounds never wraps.
-/

namespace Telegram

open Codec

/-! ## The integer of a bit pattern

A type is signed or it is not, and a pattern of bits stands for an integer accordingly. Rules are defined
on patterns and wrap around; what they should do is said of integers. -/

namespace Value

variable {type : IntType}

/-- A bit pattern is the integer it stands for, wrapped around. -/
theorem ofInt_intValue (bits : BitVec type.bits) : BitVec.ofInt type.bits (intValue type bits) = bits := by
  unfold intValue
  split
  · exact BitVec.ofInt_toInt
  · rw [BitVec.ofInt_natCast, BitVec.ofNat_toNat, BitVec.setWidth_eq]

theorem intValue_ne_zero {bits : BitVec type.bits} (h : bits ≠ 0) : intValue type bits ≠ 0 := by
  intro hzero
  apply h
  rw [← ofInt_intValue bits, hzero]
  rfl

theorem intValue_injective {first second : BitVec type.bits} (h : intValue type first = intValue type second) :
    first = second := by
  rw [← ofInt_intValue first, ← ofInt_intValue second, h]

/-- **Between 0 and a number of the type nothing wraps around.** -/
theorem intValue_ofInt_of_between {bits : BitVec type.bits} {n : Int}
    (h : 0 ≤ n ∧ n ≤ intValue type bits ∨ intValue type bits ≤ n ∧ n ≤ 0) :
    intValue type (BitVec.ofInt type.bits n) = n := by
  unfold intValue at h ⊢
  split at h
  · rename_i hsigned
    have hlow := bits.le_two_mul_toInt
    have hhigh := bits.two_mul_toInt_lt
    have hcast : ((2 ^ type.bits : Nat) : Int) = 2 ^ type.bits := by push_cast; rfl
    rw [if_pos hsigned, BitVec.toInt_ofInt]
    exact Int.bmod_eq_of_le_mul_two (by omega) (by omega)
  · rename_i hunsigned
    have hlt := bits.isLt
    rw [if_neg hunsigned, BitVec.toNat_ofInt, Int.emod_eq_of_lt (by omega) (by omega)]
    omega

/-- A pattern of a number that is not negative is that number. -/
theorem toNat_eq_intValue {bits : BitVec type.bits} (h : 0 ≤ intValue type bits) :
    (bits.toNat : Int) = intValue type bits := by
  unfold intValue at h ⊢
  split at h
  · rename_i hsigned
    have hlt := bits.isLt
    rw [if_pos hsigned]
    rw [BitVec.toInt_eq_toNat_cond] at h ⊢
    split at h
    · rw [if_pos ‹_›]
    · omega
  · rename_i hunsigned
    rw [if_neg hunsigned]

/-- A pattern without the highest bit stands for a number that is not negative. -/
theorem intValue_eq_toNat {bits : BitVec type.bits} (h : 2 * bits.toNat < 2 ^ type.bits) :
    intValue type bits = bits.toNat := by
  unfold intValue
  split
  · exact BitVec.toInt_eq_toNat_of_lt h
  · rfl

end Value

/-! ## The rules on integers

Adding and subtracting undo each other on all patterns. Multiplying and dividing do so only where no
wrapping occurs and nothing is left over, and the product of a quotient with its divisor is the case in
which neither is in doubt. -/

section Rules

open Value

variable {type : IntType} {x offset : BitVec type.bits}

theorem OffsetRule.apply_multiply (x offset : BitVec type.bits) :
    OffsetRule.multiply.apply type.isSigned x offset =
      BitVec.ofInt type.bits (intValue type x * intValue type offset) := by
  rw [BitVec.ofInt_mul, ofInt_intValue, ofInt_intValue]
  rfl

/-- Dividing wraps around where the quotient is no number of the type: the least number has no
opposite. -/
theorem OffsetRule.apply_divide (h : offset ≠ 0) :
    OffsetRule.divide.apply type.isSigned x offset =
      BitVec.ofInt type.bits ((intValue type x).tdiv (intValue type offset)) := by
  have hdivide : OffsetRule.divide.apply type.isSigned x offset =
      if offset = 0 then x else if type.isSigned then x.sdiv offset else x.udiv offset := rfl
  rw [hdivide, if_neg h]
  unfold intValue
  split
  · apply BitVec.eq_of_toInt_eq
    rw [BitVec.toInt_sdiv, BitVec.toInt_ofInt]
  · rw [← Int.ofNat_tdiv, BitVec.ofInt_natCast]
    apply BitVec.eq_of_toNat_eq
    rw [BitVec.udiv_eq, BitVec.toNat_udiv, BitVec.toNat_ofNat]
    exact (Nat.mod_eq_of_lt (Nat.lt_of_le_of_lt (Nat.div_le_self _ _) x.isLt)).symm

/-- The whole multiple of `b` next to `a`, in the direction of 0. -/
theorem tdiv_mul_between (a b : Int) :
    0 ≤ a.tdiv b * b ∧ a.tdiv b * b ≤ a ∨ a ≤ a.tdiv b * b ∧ a.tdiv b * b ≤ 0 := by
  have hnonneg : ∀ a : Int, 0 ≤ a → 0 ≤ a.tdiv b * b ∧ a.tdiv b * b ≤ a := by
    intro a ha
    have hsplit := Int.tdiv_mul_add_tmod a b
    have hrest := Int.tmod_nonneg b ha
    refine ⟨?_, by omega⟩
    rcases Int.le_total 0 b with hb | hb
    · exact Int.mul_nonneg (Int.tdiv_nonneg ha hb) hb
    · exact Int.mul_nonneg_of_nonpos_of_nonpos (Int.tdiv_nonpos_of_nonneg_of_nonpos ha hb) hb
  rcases Int.le_total 0 a with ha | ha
  · exact .inl (hnonneg a ha)
  · obtain ⟨hlow, hhigh⟩ := hnonneg (-a) (by omega)
    rw [Int.neg_tdiv, Int.neg_mul] at hlow hhigh
    exact .inr (by omega)

/-- Unlike the quotient, what is left of a number when it is divided and multiplied again does not
wrap. -/
theorem OffsetRule.intValue_multiply_divide (h : offset ≠ 0) :
    intValue type (OffsetRule.multiply.apply type.isSigned (OffsetRule.divide.apply type.isSigned x offset)
      offset) = (intValue type x).tdiv (intValue type offset) * intValue type offset := by
  have hproduct : OffsetRule.multiply.apply type.isSigned (OffsetRule.divide.apply type.isSigned x offset) offset =
      BitVec.ofInt type.bits ((intValue type x).tdiv (intValue type offset) * intValue type offset) := by
    rw [OffsetRule.apply_divide h, BitVec.ofInt_mul, ofInt_intValue]
    rfl
  rw [hproduct, intValue_ofInt_of_between (tdiv_mul_between _ _)]

theorem OffsetRule.divide_multiply_divide (h : offset ≠ 0) :
    OffsetRule.divide.apply type.isSigned (OffsetRule.multiply.apply type.isSigned
      (OffsetRule.divide.apply type.isSigned x offset) offset) offset =
        OffsetRule.divide.apply type.isSigned x offset := by
  rw [OffsetRule.apply_divide h, OffsetRule.intValue_multiply_divide h,
    Int.mul_tdiv_cancel _ (intValue_ne_zero h), ← OffsetRule.apply_divide h]

theorem OffsetRule.inverse_inverse (rule : OffsetRule) : rule.inverse.inverse = rule := by
  cases rule <;> rfl

theorem OffsetRule.inverse_apply {rule : OffsetRule} (h : rule.isShift = true) (signed : Bool)
    {width : Nat} (x offset : BitVec width) :
    rule.inverse.apply signed (rule.apply signed x offset) offset = x := by
  have hinverse : rule.inverse.isShift = true := by
    cases rule with
    | none | add | subtract => rfl
    | multiply | divide => cases h
  have happly := OffsetRule.apply_inverse hinverse signed x offset
  rwa [rule.inverse_inverse] at happly

end Rules

/-! ## What a field has room for

A field may have fewer bytes than its type, and for short types also more. What does not fit is cut off
without an error, so that room is a condition on numbers and not something that is checked. -/

namespace IntType

open Value (intValue ofInt_intValue intValue_injective intValue_ne_zero)

variable {type : IntType} {format : FieldFormat}

/-- The lengths that a field of a type can have: eight bytes for the types of eight bytes, and up to four
for the shorter ones. -/
def Supports (type : IntType) (format : FieldFormat) : Prop :=
  format.length = 0 ∨ if type.bytes = 8 then format.length = 8 else format.length ≤ 4

/-- The bytes of a field with a supported length. -/
def fieldBytes (type : IntType) (format : FieldFormat) : Nat :=
  if format.length = 0 then type.bytes else format.length

/-- What is stored for a number is not cut: the field has the type's bytes, or the number needs no more
than the field has. -/
def HasRoom (type : IntType) (format : FieldFormat) (bits : BitVec type.bits) : Prop :=
  type.bits ≤ 8 * type.fieldBytes format ∨ (type.rawOf format bits).toNat < 2 ^ (8 * type.fieldBytes format)

/-- The number is written to the bytes of the field, and read from them whatever follows. -/
def ReadsBack (type : IntType) (format : FieldFormat) (bits : BitVec type.bits) : Prop :=
  ∃ bytes, bytes.length = type.fieldBytes format ∧ type.write format (some bits) = .done bytes ∧
    ∀ rest, type.read format (bytes ++ rest) = .found (.int type bits) rest

theorem storedBytes?_of_supports (htype : 1 < type.bytes) (h : type.Supports format) :
    type.storedBytes? format = some (type.fieldBytes format) := by
  unfold storedBytes? fieldBytes
  unfold Supports at h
  grind

theorem supports_of_storedBytes? (htype : 1 < type.bytes) {width : Nat}
    (h : type.storedBytes? format = some width) : type.Supports format := by
  unfold storedBytes? at h
  unfold Supports
  grind

theorem ruleIn_eq (htype : 1 < type.bytes) (format : FieldFormat) : type.ruleIn format = format.rule :=
  if_neg (Nat.ne_of_gt htype)

theorem hasRoom_iff {bits : BitVec type.bits} :
    type.HasRoom format bits ↔ (type.rawOf format bits).toNat < 256 ^ type.fieldBytes format := by
  rw [HasRoom, pow_256]
  constructor
  · rintro (hwide | hlt)
    · exact Nat.lt_of_lt_of_le (type.rawOf format bits).isLt (Nat.pow_le_pow_right (by decide) hwide)
    · exact hlt
  · exact .inr

/-- **Room is what keeps the stored number whole.** -/
theorem ofNat_raw_iff {bits : BitVec type.bits} :
    BitVec.ofNat type.bits ((type.rawOf format bits).toNat % 256 ^ type.fieldBytes format) =
      type.rawOf format bits ↔ type.HasRoom format bits := by
  rw [hasRoom_iff]
  constructor
  · intro heq
    have hnat := congrArg BitVec.toNat heq
    rw [BitVec.toNat_ofNat] at hnat
    rw [← hnat]
    exact Nat.lt_of_le_of_lt (Nat.mod_le _ _) (Nat.mod_lt _ (Nat.pow_pos (by decide)))
  · intro hlt
    rw [Nat.mod_eq_of_lt hlt, BitVec.ofNat_toNat, BitVec.setWidth_eq]

/-! ## What is read again

Whatever is written, something is read again, and it can be said what. The exact cases are those where it
is the same. -/

theorem found_int_inj {first second : BitVec type.bits} {rest more : Bytes}
    (h : Reading.found (.int type first) rest = .found (.int type second) more) : first = second := by
  simpa [Reading.found] using congrArg Reading.result h

/-- **What a number turns into** when it is written and read: what is stored for it is cut to the bytes of
the field, and the rule is applied to what is left. -/
theorem read_written (htype : 1 < type.bytes) (hlength : type.Supports format) (bits : BitVec type.bits) :
    ∃ bytes, bytes.length = type.fieldBytes format ∧ type.write format (some bits) = .done bytes ∧
      ∀ rest, type.read format (bytes ++ rest) = .found (.int type (format.rule.apply type.isSigned
        (BitVec.ofNat type.bits ((type.rawOf format bits).toNat % 256 ^ type.fieldBytes format))
        (type.offsetIn format))) rest := by
  have hwidth := storedBytes?_of_supports htype hlength
  refine ⟨format.order.encode (type.fieldBytes format) (type.toStored format bits), ?length, ?write, ?read⟩
  case length => exact format.order.length_encode _ _
  case write => simp only [write, hwidth, Option.map_some, Option.getD_some]
  case read =>
    intro rest
    simp only [read, hwidth, ByteOrder.split?_encode_append]
    rw [ofStored, ofNat_stored_mod, ruleIn_eq htype]

/-- A number with room is read again if the rule takes what is stored for it back to it. -/
theorem reads_back (htype : 1 < type.bytes) (hlength : type.Supports format) {bits : BitVec type.bits}
    (hroom : type.HasRoom format bits)
    (hrule : format.rule.apply type.isSigned (type.rawOf format bits) (type.offsetIn format) = bits) :
    type.ReadsBack format bits := by
  obtain ⟨bytes, hbytes, hwrite, hread⟩ := read_written htype hlength bits
  rw [ofNat_raw_iff.2 hroom, hrule] at hread
  exact ⟨bytes, hbytes, hwrite, hread⟩

/-- **A field no wider than the type loses no bytes** under a rule that only shifts. -/
theorem write_read (htype : 1 < type.bytes) (hlength : type.Supports format)
    (hshift : format.rule.isShift = true) (hnarrow : type.fieldBytes format ≤ type.bytes) {source : Bytes}
    (hsource : source.length = type.fieldBytes format) :
    ∃ bits, (∀ rest, type.read format (source ++ rest) = .found (.int type bits) rest) ∧
      type.write format (some bits) = .done source := by
  have hwidth := storedBytes?_of_supports htype hlength
  have hstored := format.order.decode_lt source
  have hpow : 256 ^ source.length ∣ 2 ^ type.bits := by
    rw [pow_256, hsource]
    exact Nat.pow_dvd_pow 2 (Nat.mul_le_mul_left 8 hnarrow)
  refine ⟨type.ofStored format (format.order.decode source), ?read, ?write⟩
  case read =>
    intro rest
    simp only [read, hwidth, ByteOrder.split?_eq, List.length_append, hsource]
    rw [if_pos (Nat.le_add_right _ _), ← hsource, List.take_left, List.drop_left]
  case write =>
    have hraw : type.rawOf format (type.ofStored format (format.order.decode source)) =
        BitVec.ofNat type.bits (format.order.decode source) := by
      rw [rawOf, ofStored, ruleIn_eq htype, OffsetRule.inverse_apply hshift]
    have hkept : type.toStored format (type.ofStored format (format.order.decode source)) % 256 ^ source.length =
        format.order.decode source := by
      rw [← Nat.mod_mod_of_dvd _ hpow, toStored_mod, hraw, BitVec.toNat_ofNat, Nat.mod_mod_of_dvd _ hpow,
        Nat.mod_eq_of_lt hstored]
    simp only [write, hwidth, Option.map_some, Option.getD_some]
    rw [← hsource, ← ByteOrder.encode_mod, hkept, format.order.encode_decode]

/-- **Multiplying loses nothing from a multiple of the factor**, which is what dividing leaves whole. -/
theorem apply_rawOf_multiply (htype : 1 < type.bytes) (hrule : format.rule = .multiply)
    (hoffset : type.offsetIn format ≠ 0) {bits : BitVec type.bits}
    (hdvd : intValue type (type.offsetIn format) ∣ intValue type bits) :
    format.rule.apply type.isSigned (type.rawOf format bits) (type.offsetIn format) = bits := by
  rw [rawOf, ruleIn_eq htype, hrule]
  apply intValue_injective
  have hexact := OffsetRule.intValue_multiply_divide (x := bits) hoffset
  rwa [Int.tdiv_mul_cancel hdvd] at hexact

/-- **Dividing loses nothing if the product is a number of the type.** -/
theorem apply_rawOf_divide (htype : 1 < type.bytes) (hrule : format.rule = .divide)
    (hoffset : type.offsetIn format ≠ 0) {bits product : BitVec type.bits}
    (hproduct : intValue type product = intValue type bits * intValue type (type.offsetIn format)) :
    format.rule.apply type.isSigned (type.rawOf format bits) (type.offsetIn format) = bits := by
  have hraw : type.rawOf format bits = product := by
    have hmultiply : type.rawOf format bits =
        OffsetRule.multiply.apply type.isSigned bits (type.offsetIn format) := by
      rw [rawOf, ruleIn_eq htype, hrule]
      rfl
    rw [hmultiply, OffsetRule.apply_multiply, ← hproduct, ofInt_intValue]
  rw [hraw, hrule, OffsetRule.apply_divide hoffset, hproduct,
    Int.mul_tdiv_cancel _ (intValue_ne_zero hoffset), ofInt_intValue]

/-- The offset is lost when it is reduced to the type. -/
theorem offsetIn_eq_zero_iff :
    type.offsetIn format = 0 ↔ (2 ^ type.bits : Int) ∣ format.offset.toInt := by
  have hpow : ((2 ^ type.bits : Nat) : Int) = 2 ^ type.bits := by push_cast; rfl
  have hnonneg : 0 ≤ format.offset.toInt % (2 ^ type.bits : Int) :=
    Int.emod_nonneg _ (Int.pow_ne_zero (by decide))
  have hzero : (0 : BitVec type.bits).toNat = 0 := rfl
  rw [offsetIn, ← BitVec.toNat_inj, BitVec.toNat_ofInt, hpow, hzero, Int.dvd_iff_emod_eq_zero]
  omega

/-- What reading an integer finds: 0 in a field of no supported length, else the rule's answer to what the
bytes of the field hold. -/
theorem of_read_found (htype : 1 < type.bytes) {source rest : Bytes} {bits : BitVec type.bits}
    (hread : type.read format source = .found (.int type bits) rest) :
    (type.storedBytes? format = none ∧ bits = 0) ∨
      (type.Supports format ∧ ∃ stored < 256 ^ type.fieldBytes format, bits = type.ofStored format stored) := by
  cases hwidth : type.storedBytes? format with
  | none =>
    simp only [read, hwidth] at hread
    exact .inl ⟨rfl, (found_int_inj hread).symm⟩
  | some width =>
    have hlength := supports_of_storedBytes? htype hwidth
    obtain rfl : type.fieldBytes format = width :=
      Option.some.inj ((storedBytes?_of_supports htype hlength).symm.trans hwidth)
    simp only [read, hwidth, ByteOrder.split?_eq] at hread
    by_cases hle : type.fieldBytes format ≤ source.length
    · rw [if_pos hle] at hread
      have hstored := format.order.decode_lt (source.take (type.fieldBytes format))
      rw [List.length_take_of_le hle] at hstored
      exact .inr ⟨hlength, _, hstored, (found_int_inj hread).symm⟩
    · rw [if_neg hle] at hread
      cases congrArg Reading.result hread

/-- A field that is narrower than its type holds no negative number. -/
theorem intValue_ofNat_of_narrow {width stored : Nat} (hnarrow : 8 * width < type.bits)
    (hstored : stored < 256 ^ width) : intValue type (BitVec.ofNat type.bits stored) = stored := by
  have hhalf : 2 * 256 ^ width ≤ 2 ^ type.bits := by
    rw [pow_256, ← Nat.pow_succ']
    exact Nat.pow_le_pow_right (by decide) hnarrow
  have hnat : (BitVec.ofNat type.bits stored).toNat = stored := by
    rw [BitVec.toNat_ofNat, Nat.mod_eq_of_lt (by omega)]
  rw [Value.intValue_eq_toNat (by omega), hnat]

/-- **There is room for what was divided**: it is stored as a multiple of the divisor that lies between 0
and what the field held. -/
theorem hasRoom_divided (htype : 1 < type.bytes) (hrule : format.rule = .divide)
    (hoffset : type.offsetIn format ≠ 0) {stored : Nat} (hstored : stored < 256 ^ type.fieldBytes format) :
    type.HasRoom format (type.ofStored format stored) := by
  rcases Nat.lt_or_ge (8 * type.fieldBytes format) type.bits with hnarrow | hwide
  · have hraw : intValue type (type.rawOf format (type.ofStored format stored)) =
        (intValue type (BitVec.ofNat type.bits stored)).tdiv (intValue type (type.offsetIn format)) *
          intValue type (type.offsetIn format) := by
      rw [rawOf, ofStored, ruleIn_eq htype, hrule]
      exact OffsetRule.intValue_multiply_divide hoffset
    have hbetween := tdiv_mul_between (intValue type (BitVec.ofNat type.bits stored))
      (intValue type (type.offsetIn format))
    have hvalue := intValue_ofNat_of_narrow hnarrow hstored
    have hnonneg : 0 ≤ intValue type (type.rawOf format (type.ofStored format stored)) := by omega
    have hnat := Value.toNat_eq_intValue hnonneg
    rw [hasRoom_iff]
    omega
  · exact .inl hwide

/-- **A divided number that is written again** is read as it was, unless the divisor is 0 within the type:
then the number is read as it is stored, and 0 is stored for it. -/
theorem divided_again (htype : 1 < type.bytes) (hrule : format.rule = .divide) {source rest : Bytes}
    {bits : BitVec type.bits} (hread : type.read format source = .found (.int type bits) rest) :
    ∃ bytes, type.write format (some bits) = .done bytes ∧
      ∀ more, type.read format (bytes ++ more) =
        .found (.int type (if (2 ^ type.bits : Int) ∣ format.offset.toInt then 0 else bits)) more := by
  rcases of_read_found htype hread with ⟨hwidth, rfl⟩ | ⟨hlength, stored, hstored, rfl⟩
  · refine ⟨[], by simp only [write, hwidth], fun more => ?_⟩
    simp only [read, hwidth, List.nil_append, ite_self]
  by_cases hoffset : type.offsetIn format = 0
  · obtain ⟨bytes, -, hwrite, hagain⟩ := read_written htype hlength (type.ofStored format stored)
    refine ⟨bytes, hwrite, fun more => ?_⟩
    have hraw : type.rawOf format (type.ofStored format stored) = 0 := by
      rw [rawOf, ruleIn_eq htype, hrule, hoffset]
      exact BitVec.mul_zero
    have hroom : type.HasRoom format (type.ofStored format stored) := by
      rw [hasRoom_iff, hraw]
      exact Nat.pow_pos (by decide)
    rw [hagain, if_pos (offsetIn_eq_zero_iff.1 hoffset), ofNat_raw_iff.2 hroom, hraw, hoffset, hrule]
    rfl
  · have hexact : format.rule.apply type.isSigned (type.rawOf format (type.ofStored format stored))
        (type.offsetIn format) = type.ofStored format stored := by
      rw [rawOf, ofStored, ruleIn_eq htype, hrule]
      exact OffsetRule.divide_multiply_divide hoffset
    obtain ⟨bytes, -, hwrite, hagain⟩ :=
      reads_back htype hlength (hasRoom_divided htype hrule hoffset hstored) hexact
    refine ⟨bytes, hwrite, fun more => ?_⟩
    rw [hagain, if_neg (mt offsetIn_eq_zero_iff.2 hoffset)]

theorem divided_again_ten :
    let format : FieldFormat := { length := 2, rule := .divide, offset := 10 }
    ∃ bytes, IntType.u16.write format (some 5) = .done bytes ∧
      ∀ more, IntType.u16.read format (bytes ++ more) = .found (.int .u16 5) more := by
  have hagain := @divided_again .u16 { length := 2, rule := .divide, offset := 10 } (by decide) rfl [57, 0] [] 5 rfl
  rwa [if_neg (by decide)] at hagain

/-- A field that divides by 65536 is accepted, though its 16 bits cannot hold the divisor. A 5 is read
from it, stored as 0 and read as 0. -/
theorem accepted_divided_unstable :
    let format : FieldFormat := { length := 2, rule := .divide, offset := 65536 }
    format.fault? = none ∧
      IntType.u16.read format [5, 0] = .found (.int .u16 5) [] ∧
      IntType.u16.write format (some 5) = .done [0, 0] ∧
      IntType.u16.read format [0, 0] = .found (.int .u16 0) [] :=
  ⟨rfl, rfl, rfl, rfl⟩

end IntType

end Telegram
