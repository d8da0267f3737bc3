import Telegram.Proofs.ByteOrder
import Telegram.Proofs.Decimal.Exact

/-!
# Decimal fields that divide

A decimal field holds an unsigned number in one to four bytes. Under the rule `divide` it stands for the
number divided by the field's offset, rounded to as many digits as the offset has zeros.

* `Decimal.exists_quotient` says what a stored number is read as, with every divisor but 0.
* `Decimal.read_faithfully`: no more than half the divisor is lost, and nothing at all by a power of ten
  or under another rule.
* `Decimal.roundQuotient_bounded` says how far the multiple of a rounded quotient can lie from what it is
  the quotient of. It is never negative, and at most twice as large.
* `Decimal.quotient_again`: a quotient that is written is read again if its multiple has room in the
  field. If rounding has carried it beyond that, 0 is read instead, as only the low bytes of the multiple
  are stored (`Decimal.accepted_halves_unstable`).
-/

namespace Telegram.Decimal

open Codec

variable {format : FieldFormat} {source : Bytes} {stored : ℕ} {x : Decimal}

/-- The bytes of a field with a supported length, which are four where none is given. -/
def fieldBytes (format : FieldFormat) : ℕ :=
  if format.length = 0 then 4 else format.length

theorem storedBytes?_of_le (hlength : format.length ≤ 4) : storedBytes? format = some (fieldBytes format) := by
  unfold storedBytes? fieldBytes
  grind

/-- A number that a field holds is far below the limits of a mantissa. -/
theorem toInt_ofNat_stored (hstored : stored < 256 ^ 4) : (Int64.ofNat stored).toInt = stored := by
  rw [← Int64.ofInt_eq_ofNat]
  exact Int64.toInt_ofInt_of_le (by omega) (by omega)

/-! ## Rounded quotients

Rounding away from 0 can carry a quotient beyond the number that it came from, though not far: the
multiple of a rounded quotient is within half a divisor of the number, and a number below half a divisor
has the quotient 0. -/

/-- **Rounding moves a number by no more than half the divisor.** -/
theorem roundQuotient_near (a : ℤ) {b : ℤ} (hb : b ≠ 0) :
    2 * (a - roundQuotient a b * b).natAbs ≤ b.natAbs := by
  have hnear := (nearest_roundQuotient a hb).le (round (a / b : ℚ))
  have hhalf := hnear.trans (abs_sub_round _)
  have hpos : (0 : ℚ) < b.natAbs := Nat.cast_pos.2 (Int.natAbs_pos.2 hb)
  rw [abs_div_sub a hb, div_le_div_iff₀ hpos two_pos, one_mul] at hhalf
  rw [mul_comm]
  exact_mod_cast hhalf

/-- Less than half the divisor is rounded to 0. -/
theorem roundQuotient_eq_zero {a b : ℤ} (h : 2 * a.natAbs < b.natAbs) : roundQuotient a b = 0 := by
  have hb : b ≠ 0 := by
    rintro rfl
    exact Nat.not_lt_zero _ h
  have hnear := roundQuotient_near a hb
  rcases multiples_apart (roundQuotient a b) 0 b with hzero | hapart
  · exact hzero
  · rw [Int.zero_mul, Int.sub_zero] at hapart
    omega

/-- **The multiple of a rounded quotient** of a number that is not negative is not negative either, and at
most twice the number. -/
theorem roundQuotient_bounded {a b : ℤ} (ha : 0 ≤ a) (hb : b ≠ 0) :
    0 ≤ roundQuotient a b * b ∧ roundQuotient a b * b ≤ 2 * a := by
  have hnear := roundQuotient_near a hb
  rcases multiples_apart (roundQuotient a b) 0 b with hzero | hapart
  · rw [hzero, Int.zero_mul]
    omega
  · rw [Int.zero_mul, Int.sub_zero] at hapart
    omega

/-! ## Quotients of stored numbers

What a quotient is, and what it is multiplied back to, are said as relations, so that nothing has to be
known of how decimals calculate when they are used. -/

/-- What a stored number is read as by dividing: its quotient, rounded to as many digits as the divisor
has zeros. -/
structure IsQuotient (format : FieldFormat) (stored : ℕ) (x : Decimal) : Prop where
  scale : x.scale = scaleOfDivisor format.offset
  mantissa : x.mantissa.toInt = roundQuotient (stored * 10 ^ x.scale) format.offset.toInt

/-- What becomes of a quotient when it is multiplied by the divisor again. -/
structure IsMultiple (format : FieldFormat) (stored : ℕ) (x : Decimal) (multiple : ℕ) : Prop where
  toRat_mul : x.toRat * format.offset.toInt = multiple
  /-- It is the number to be stored for the quotient. -/
  toStored : (toStored format x).toInt = multiple
  /-- It is divided without rounding. -/
  again : IsQuotient format multiple x
  near : 2 * (multiple - stored : ℤ).natAbs ≤ format.offset.toInt.natAbs
  le : multiple ≤ 2 * stored
  /-- Only where no digits come after the point anything is lost. -/
  exact : x.scale = 0 ∨ multiple = stored

theorem offset_toInt_ne_zero (hoffset : format.offset ≠ 0) : format.offset.toInt ≠ 0 :=
  fun hzero => hoffset (Int64.toInt_inj.1 hzero)

/-- A divisor that stands for digits after the point is a power of ten. -/
theorem scaleOfDivisor_eq_zero_or (divisor : Int64) :
    scaleOfDivisor divisor = 0 ∨ divisor.toInt = 10 ^ scaleOfDivisor divisor := by
  unfold scaleOfDivisor
  split_ifs with h h h h h h
  all_goals first | exact .inr (h ▸ rfl) | exact .inl rfl

/-- **Every stored number has a quotient** by a divisor other than 0, and it is what is read. -/
theorem exists_quotient (hrule : format.rule = .divide) (hoffset : format.offset ≠ 0) (hstored : stored < 256 ^ 4) :
    ∃ x, ofStored format stored = .ok x ∧ IsQuotient format stored x := by
  obtain ⟨x, hx⟩ := exists_divRound hoffset hstored
  refine ⟨x, ?_, ?_⟩
  · simp only [ofStored, if_pos hrule, hx]
  · rw [divRound_eq, if_neg hoffset, ofParts?_eq_some_iff] at hx
    obtain ⟨hmantissa, hscale⟩ := hx
    have hwhole : (ofInt (Int64.ofNat stored)).scale = 0 := rfl
    have hvalue : (ofInt (Int64.ofNat stored)).mantissa.toInt = stored := toInt_ofNat_stored hstored
    rw [hwhole, hvalue, hscale, pow_zero, mul_one] at hmantissa
    exact ⟨hscale.symm, hmantissa.symm⟩

theorem IsQuotient.unique {y : Decimal} (hx : IsQuotient format stored x) (hy : IsQuotient format stored y) :
    x = y := by
  have hscale : x.scale = y.scale := hx.scale.trans hy.scale.symm
  have hmantissa : x.mantissa.toInt = y.mantissa.toInt := by rw [hx.mantissa, hy.mantissa, hscale]
  obtain ⟨mantissa, scale, hle⟩ := x
  obtain ⟨mantissa', scale', hle'⟩ := y
  obtain rfl : scale = scale' := hscale
  obtain rfl : mantissa = mantissa' := Int64.toInt_inj.1 hmantissa
  rfl

theorem ofStored_eq_ok_iff (hrule : format.rule = .divide) (hoffset : format.offset ≠ 0) (hstored : stored < 256 ^ 4) :
    ofStored format stored = .ok x ↔ IsQuotient format stored x := by
  obtain ⟨y, hread, hy⟩ := exists_quotient hrule hoffset hstored
  rw [hread, Except.ok.injEq]
  exact ⟨fun heq => heq ▸ hy, fun hx => hy.unique hx⟩

/-- A product that has room is cut off, and that is all. -/
theorem toInt_mulTrunc {factor : Int64} {n : ℕ} (hroom : n < 2 ^ 63)
    (hn : (x.mantissa.toInt * factor.toInt).tdiv (10 ^ x.scale) = n) : (x.mulTrunc factor).toInt = n := by
  rw [mulTrunc, pow_ten, hn, toInt_clampInt64]
  omega

/-- **A quotient and its multiple.** -/
theorem IsQuotient.exists_multiple (h : IsQuotient format stored x) (hrule : format.rule = .divide)
    (hoffset : format.offset ≠ 0) (hstored : stored < 256 ^ 4) : ∃ multiple, IsMultiple format stored x multiple := by
  have hdivisor := offset_toInt_ne_zero hoffset
  have htoStored : toStored format x = x.mulTrunc format.offset := if_pos hrule
  have hten : (10 : ℤ) ^ x.scale ≠ 0 := pow_ne_zero _ (by decide)
  rcases scaleOfDivisor_eq_zero_or format.offset with hzero | hpower
  case inl =>
    have hscale := h.scale.trans hzero
    have hmantissa := h.mantissa
    rw [hscale, pow_zero, mul_one] at hmantissa
    obtain ⟨hnonneg, hle⟩ := roundQuotient_bounded (Int.natCast_nonneg stored) hdivisor
    have hnear := roundQuotient_near stored hdivisor
    rw [← hmantissa] at hnonneg hle hnear
    obtain ⟨multiple, hmultiple⟩ := Int.eq_ofNat_of_zero_le hnonneg
    refine ⟨multiple, ?_, ?_, ⟨h.scale, ?_⟩, by omega, by omega, .inl hscale⟩
    · rw [toRat_mul, hmultiple, hscale]
      simp
    · rw [htoStored]
      refine toInt_mulTrunc (by omega) ?_
      rw [hscale, pow_zero, Int.tdiv_one, hmultiple]
    · rw [hscale, pow_zero, mul_one, ← hmultiple, roundQuotient_mul _ hdivisor]
  case inr =>
    rw [← h.scale] at hpower
    have hmantissa := h.mantissa
    rw [hpower, roundQuotient_mul _ hten] at hmantissa
    refine ⟨stored, ?_, ?_, h, by omega, by omega, .inr rfl⟩
    · rw [toRat, hmantissa, hpower]
      push_cast
      exact div_mul_cancel₀ _ (pow_ne_zero _ (by norm_num))
    · rw [htoStored]
      refine toInt_mulTrunc (by omega) ?_
      rw [hmantissa, hpower, Int.mul_tdiv_cancel _ hten]

/-- A power of ten up to a million, or 1, loses nothing. -/
theorem IsMultiple.eq_stored {multiple : ℕ} (h : IsMultiple format stored x multiple) {k : ℕ} (hk : k ≤ 6)
    (hoffset : format.offset.toInt = 10 ^ k) : multiple = stored := by
  have hnear := h.near
  rcases Nat.eq_zero_or_pos k with rfl | hpos
  · rw [hoffset, pow_zero] at hnear
    omega
  · have hscale := h.again.scale
    rw [scaleOfDivisor_eq hpos hk hoffset] at hscale
    exact h.exact.resolve_left (by omega)

/-! ## Fields

A field has room for less than four bytes can hold, and its numbers are never negative. So neither
mantissas nor products come near their limits. -/

theorem read_of_ofStored (hlength : format.length ≤ 4) (hsource : source.length = fieldBytes format)
    (hx : ofStored format (format.order.decode source) = .ok x) (rest : Bytes) :
    read format (source ++ rest) = .found (.decimal x) rest := by
  have hsplit : format.order.split? (fieldBytes format) (source ++ rest) =
      some (format.order.decode source, rest) := by
    rw [ByteOrder.split?_eq, ← hsource, List.take_left, List.drop_left, if_pos (by simp)]
  simp only [read, storedBytes?_of_le hlength, hsplit, hx]

theorem write_of_toStored (hlength : format.length ≤ 4) (hx : (toStored format x).toInt = stored) :
    write format (some x) = .done (format.order.encode (fieldBytes format) stored) := by
  have hnonneg : 0 ≤ (toStored format x).toInt := hx ▸ Int.natCast_nonneg stored
  simp only [write, storedBytes?_of_le hlength, Option.map_some, Option.getD_some, toNat_toUInt64 hnonneg, hx,
    Int.toNat_natCast]

/-- A number from which its own bytes are written. -/
theorem write_decode (hlength : format.length ≤ 4) (hsource : source.length = fieldBytes format)
    (hx : (toStored format x).toInt = format.order.decode source) : write format (some x) = .done source := by
  rw [write_of_toStored hlength hx, ← hsource, ByteOrder.encode_decode]

theorem fieldBytes_le (hlength : format.length ≤ 4) : fieldBytes format ≤ 4 := by
  unfold fieldBytes
  split <;> omega

theorem decode_lt_of_length (hlength : format.length ≤ 4) (hsource : source.length = fieldBytes format) :
    format.order.decode source < 256 ^ 4 :=
  Nat.lt_of_lt_of_le (format.order.decode_lt source)
    (Nat.pow_le_pow_right (by decide) (hsource ▸ fieldBytes_le hlength))

/-- **Decimal fields are faithful.** A field of one to four bytes, in either order, is read whatever is
stored in it. Under the rule `divide`, with any divisor but 0, the decimal times the divisor is within
half the divisor of the stored number. If the divisor is 1 or a power of ten up to a million, it is the
exact quotient, and is written to the same bytes again. Under any other rule the decimal is the stored
number itself, and is written to the same bytes again. -/
theorem read_faithfully (hlength : format.length ≤ 4) (hsource : source.length = fieldBytes format) :
    (format.rule = .divide → format.offset ≠ 0 →
      ∃ x, (∀ rest, read format (source ++ rest) = .found (.decimal x) rest) ∧
        |x.toRat * format.offset.toInt - format.order.decode source| ≤ |(format.offset.toInt : ℚ)| / 2 ∧
        ((∃ k ≤ 6, format.offset.toInt = 10 ^ k) →
          x.toRat = format.order.decode source / format.offset.toInt ∧ write format (some x) = .done source)) ∧
    (format.rule ≠ .divide →
      ∃ x, (∀ rest, read format (source ++ rest) = .found (.decimal x) rest) ∧
        x.scale = 0 ∧ x.toRat = format.order.decode source ∧ write format (some x) = .done source) := by
  have hstored := decode_lt_of_length hlength hsource
  refine ⟨?divide, ?other⟩
  case divide =>
    intro hrule hoffset
    obtain ⟨x, hread, hx⟩ := exists_quotient hrule hoffset hstored
    obtain ⟨multiple, hmultiple⟩ := hx.exists_multiple hrule hoffset hstored
    refine ⟨x, read_of_ofStored hlength hsource hread, ?near, ?exact⟩
    case near =>
      have hnear := hmultiple.near
      rw [← Nat.cast_le (α := ℤ)] at hnear
      push_cast at hnear
      rw [hmultiple.toRat_mul, le_div_iff₀ two_pos, mul_comm]
      exact_mod_cast hnear
    case exact =>
      rintro ⟨k, hk, hpower⟩
      obtain rfl := hmultiple.eq_stored hk hpower
      have hdivisor : (format.offset.toInt : ℚ) ≠ 0 := Int.cast_ne_zero.2 (offset_toInt_ne_zero hoffset)
      exact ⟨eq_div_of_mul_eq hdivisor hmultiple.toRat_mul, write_decode hlength hsource hmultiple.toStored⟩
  case other =>
    intro hrule
    have hvalue := toInt_ofNat_stored hstored
    have hread :
        ofStored format (format.order.decode source) = .ok (ofInt (Int64.ofNat (format.order.decode source))) :=
      if_neg hrule
    refine ⟨_, read_of_ofStored hlength hsource hread, rfl, ?value, write_decode hlength hsource ?stored⟩
    case value =>
      rw [toRat, ofInt, hvalue]
      simp
    case stored =>
      have hone : (1 : Int64).toInt = 1 := rfl
      rw [toStored, if_neg hrule, trunc]
      refine toInt_mulTrunc (by omega) ?_
      rw [hone, mul_one, ofInt, pow_zero, Int.tdiv_one, hvalue]

/-- Tenths in two bytes, halves of a negative divisor in one, and a number that is only stored. -/
theorem read_faithfully_samples :
    let tenths : FieldFormat := { order := .big, length := 2, rule := .divide, offset := 10 }
    let halves : FieldFormat := { length := 1, rule := .divide, offset := -2 }
    let plain : FieldFormat := { rule := .add, offset := 5 }
    (∃ x, (∀ rest, read tenths ([9, 1] ++ rest) = .found (.decimal x) rest) ∧ x.toRat = 2305 / 10 ∧
        write tenths (some x) = .done [9, 1]) ∧
      (∃ x, (∀ rest, read halves ([255] ++ rest) = .found (.decimal x) rest) ∧ |x.toRat * (-2 : ℤ) - 255| ≤ 1) ∧
      ∃ x, (∀ rest, read plain ([1, 2, 3, 4] ++ rest) = .found (.decimal x) rest) ∧ x.toRat = 0x04030201 ∧
        write plain (some x) = .done [1, 2, 3, 4] := by
  intro tenths halves plain
  have htwoBytes : ([9, 1] : Bytes).length = fieldBytes tenths := rfl
  have honeByte : ([255] : Bytes).length = fieldBytes halves := rfl
  have hfourBytes : ([1, 2, 3, 4] : Bytes).length = fieldBytes plain := rfl
  obtain ⟨x, hx, -, hexact⟩ := (read_faithfully (by decide) htwoBytes).1 rfl (by decide)
  obtain ⟨y, hy, hnear, -⟩ := (read_faithfully (by decide) honeByte).1 rfl (by decide)
  obtain ⟨z, hz, -, hvalue, hwrite⟩ := (read_faithfully (by decide) hfourBytes).2 nofun
  obtain ⟨hquotient, hback⟩ := hexact ⟨1, by decide, rfl⟩
  have htenths : tenths.order.decode [9, 1] = 2305 := rfl
  have hhalves : halves.order.decode [255] = 255 := rfl
  have hplain : plain.order.decode [1, 2, 3, 4] = 0x04030201 := rfl
  have hten : tenths.offset.toInt = 10 := rfl
  have htwo : halves.offset.toInt = -2 := rfl
  rw [htenths, hten] at hquotient
  rw [hhalves, htwo] at hnear
  rw [hplain] at hvalue
  refine ⟨⟨x, hx, ?_, hback⟩, ⟨y, hy, ?_⟩, z, hz, ?_, hwrite⟩
  · rw [hquotient]
    norm_num
  · refine hnear.trans ?_
    norm_num
  · exact_mod_cast hvalue

/-! ## Quotients that are written again

Writing stores the low bytes of the multiple and does not look at the others. Whether any are lost is a
matter of the last few numbers below the end of the field, where rounding goes up. -/

theorem found_decimal_inj {y : Decimal} {rest more : Bytes}
    (h : Reading.found (.decimal x) rest = .found (.decimal y) more) : x = y := by
  simpa [Reading.found] using congrArg Reading.result h

/-- What reading finds: 0 in a field of no supported length, else the value of what the field holds. -/
theorem of_decimal_found {rest : Bytes} (hread : read format source = .found (.decimal x) rest) :
    (storedBytes? format = none ∧ x = zero) ∨
      (format.length ≤ 4 ∧ ∃ stored < 256 ^ fieldBytes format, ofStored format stored = .ok x) := by
  by_cases hlength : format.length ≤ 4
  · have hwidth := storedBytes?_of_le hlength
    simp only [read, hwidth, ByteOrder.split?_eq] at hread
    by_cases hle : fieldBytes format ≤ source.length
    · have hstored := format.order.decode_lt (source.take (fieldBytes format))
      rw [List.length_take_of_le hle] at hstored
      rw [if_pos hle] at hread
      cases hvalue : ofStored format (format.order.decode (source.take (fieldBytes format))) with
      | ok y =>
        simp only [hvalue] at hread
        exact .inr ⟨hlength, _, hstored, found_decimal_inj hread ▸ hvalue⟩
      | error e =>
        simp only [hvalue] at hread
        cases congrArg Reading.result hread
    · rw [if_neg hle] at hread
      cases congrArg Reading.result hread
  · have hwidth : storedBytes? format = none := by
      rw [storedBytes?, if_neg (by omega), if_neg hlength]
    simp only [read, hwidth] at hread
    exact .inl ⟨hwidth, (found_decimal_inj hread).symm⟩

/-- **What is stored for a quotient** is its multiple, less what does not fit in the field. If all of it
fits, the quotient is read again. If it does not, less than half the divisor is left, and 0 is read. -/
theorem IsMultiple.ofStored_mod {multiple : ℕ} (h : IsMultiple format stored x multiple)
    (hrule : format.rule = .divide) (hoffset : format.offset ≠ 0) {width : ℕ} (hwidth : width ≤ 4)
    (hstored : stored < 256 ^ width) :
    ofStored format (multiple % 256 ^ width) =
      .ok (if x.toRat * format.offset.toInt < 256 ^ width then x else zero) := by
  have hroom : multiple % 256 ^ width < 256 ^ 4 :=
    Nat.lt_of_lt_of_le (Nat.mod_lt _ (Nat.pow_pos (by decide))) (Nat.pow_le_pow_right (by decide) hwidth)
  have hfits : x.toRat * format.offset.toInt < 256 ^ width ↔ multiple < 256 ^ width := by
    rw [h.toRat_mul]
    exact_mod_cast Iff.rfl
  rw [ofStored_eq_ok_iff hrule hoffset hroom]
  simp only [hfits]
  split
  · rename_i hlt
    rw [Nat.mod_eq_of_lt hlt]
    exact h.again
  · rename_i hge
    have hnear := h.near
    have hle := h.le
    have hscale : x.scale = 0 := h.exact.resolve_right (by omega)
    have hrest : multiple % 256 ^ width = multiple - 256 ^ width := by
      rw [Nat.mod_eq_sub_mod (by omega), Nat.mod_eq_of_lt (by omega)]
    have hsmall : 2 * ((multiple - 256 ^ width : ℕ) : ℤ).natAbs < format.offset.toInt.natAbs := by omega
    refine ⟨hscale.symm.trans h.again.scale, ?_⟩
    have hzero : zero.scale = 0 := rfl
    rw [hzero, pow_zero, mul_one, hrest, roundQuotient_eq_zero hsmall]
    rfl

/-- **A quotient that is written again** is read as it was, if its multiple fits in the field. Otherwise
rounding has carried the multiple of the last numbers that the field holds beyond its bytes, and 0 is
read. -/
theorem quotient_again (hrule : format.rule = .divide) (hoffset : format.offset ≠ 0) {rest : Bytes}
    (hread : read format source = .found (.decimal x) rest) :
    ∃ bytes, write format (some x) = .done bytes ∧
      ∀ more, read format (bytes ++ more) = .found
        (.decimal (if x.toRat * format.offset.toInt < 256 ^ fieldBytes format then x else zero)) more := by
  rcases of_decimal_found hread with ⟨hwidth, rfl⟩ | ⟨hlength, stored, hstored, hvalue⟩
  · refine ⟨[], by simp only [write, hwidth], fun more => ?_⟩
    simp only [read, hwidth, List.nil_append, ite_self]
  · have hwidth := fieldBytes_le hlength
    have hfour : stored < 256 ^ 4 := Nat.lt_of_lt_of_le hstored (Nat.pow_le_pow_right (by decide) hwidth)
    have hx := (ofStored_eq_ok_iff hrule hoffset hfour).1 hvalue
    obtain ⟨multiple, hmultiple⟩ := hx.exists_multiple hrule hoffset hfour
    refine ⟨_, write_of_toStored hlength hmultiple.toStored,
      read_of_ofStored hlength (ByteOrder.length_encode _ _ _) ?_⟩
    rw [ByteOrder.decode_encode, hmultiple.ofStored_mod hrule hoffset hwidth hstored]

/-- The 254 of a byte is read as 85 thirds, written as 255 and read as 85. -/
theorem quotient_again_thirds :
    let format : FieldFormat := { length := 1, rule := .divide, offset := 3 }
    (read format [254] = .found (.decimal (ofInt 85)) [] ∧
        (ofInt 85).toRat * format.offset.toInt < 256 ^ fieldBytes format) ∧
      ∃ bytes, write format (some (ofInt 85)) = .done bytes ∧
        ∀ more, read format (bytes ++ more) = .found (.decimal (ofInt 85)) more := by
  have hread : read { length := 1, rule := .divide, offset := 3 } [254] = .found (.decimal (ofInt 85)) [] := rfl
  intro format
  have hfits : (ofInt 85).toRat * format.offset.toInt < 256 ^ fieldBytes format := by
    have hvalue : (ofInt 85).toRat = (85 : ℤ) / 10 ^ 0 := rfl
    have hdivisor : format.offset.toInt = 3 := rfl
    have hwidth : fieldBytes format = 1 := rfl
    rw [hvalue, hdivisor, hwidth]
    norm_num
  have hagain := quotient_again rfl (show (3 : Int64) ≠ 0 by decide) hread
  rw [if_pos hfits] at hagain
  exact ⟨⟨hread, hfits⟩, hagain⟩

/-- A byte that is divided by 2 is accepted, and holds 255, which is read as 128. The 256 that is to be
stored for that does not fit in the byte: 0 is stored, and 0 is read. -/
theorem accepted_halves_unstable :
    let format : FieldFormat := { length := 1, rule := .divide, offset := 2 }
    format.fault? = none ∧
      read format [255] = .found (.decimal (ofInt 128)) [] ∧
      write format (some (ofInt 128)) = .done [0] ∧
      read format [0] = .found (.decimal zero) [] ∧ zero ≠ ofInt 128 :=
  ⟨rfl, rfl, rfl, rfl, by decide⟩

end Telegram.Decimal
