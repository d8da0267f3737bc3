import Mathlib.Data.Nat.Bitwise
import Telegram.BitField

/-!
# One view of a status word

The helpers count in four ways: bits from 1 at the top, groups from 1 at the top, spans from 0 at the top,
and flags from 0 at the bottom. All of them are told here by numbers: `field` is what the bits from
`first` up to `last` spell, and every helper reads a field (`bit_eq`, `toNat_group`, `toNat_span`) or a
place in the number (`flag_iff_bit`). That they agree is then arithmetic of powers of two
(`field_append`).

`Checked` has the helpers once more, operation by operation, where a shift by as many bits as the word
has, a result that does not fit, or a name that is not there is a `Fault`. Their answers are the same and
there are no faults, as each operation stands behind the guard that keeps it inside the word. `one_view`
is all of it.
-/

namespace Telegram.BitField

/-! ## Fields of a number

Shifts and masks are arithmetic of powers of two on the number of a word. To drop what is above is a
remainder and to drop what is below is a quotient, and fields are defined by these. -/

/-- The number that the bits from `first` up to `last` spell, counted from 0 at the most significant
end. -/
def field (word : UInt32) (first last : ℕ) : ℕ :=
  word.toNat / 2 ^ (32 - last) % 2 ^ (last - first)

/-- **Fields that meet are one field.** -/
theorem field_append (word : UInt32) {first middle last : ℕ} (hfirst : first ≤ middle) (hmiddle : middle ≤ last)
    (hlast : last ≤ 32) :
    field word first last = field word first middle * 2 ^ (last - middle) + field word middle last := by
  have hwidth : 2 ^ (last - first) = 2 ^ (last - middle) * 2 ^ (middle - first) := by
    rw [← Nat.pow_add]
    congr 1
    omega
  have hplace : 2 ^ (32 - middle) = 2 ^ (32 - last) * 2 ^ (last - middle) := by
    rw [← Nat.pow_add]
    congr 1
    omega
  rw [field, field, field, hwidth, Nat.mod_mul, Nat.div_div_eq_div_mul, ← hplace, Nat.add_comm, Nat.mul_comm]

/-- A field of one bit. -/
theorem field_one (word : UInt32) {last : ℕ} (h : 1 ≤ last) :
    field word (last - 1) last = (word.toNat.testBit (32 - last)).toNat := by
  rw [field, Nat.sub_sub_self h, Nat.pow_one, Nat.toNat_testBit]

/-! ## Shifts within the word

A shift of a word takes its amount modulo 32, and a shift by 32 would be none. So every equation asks for
an amount below that, and the guards of the helpers have to supply it. -/

variable {word amount : UInt32}

/-- What is shifted out at the top is lost. -/
theorem toNat_shiftLeft (h : amount.toNat < 32) :
    (word <<< amount).toNat = word.toNat * 2 ^ amount.toNat % 2 ^ 32 := by
  rw [UInt32.toNat_shiftLeft, Nat.mod_eq_of_lt h, Nat.shiftLeft_eq]

theorem toNat_shiftRight (h : amount.toNat < 32) : (word >>> amount).toNat = word.toNat / 2 ^ amount.toNat := by
  rw [UInt32.toNat_shiftRight, Nat.mod_eq_of_lt h, Nat.shiftRight_eq_div_pow]

theorem toNat_one_shiftLeft (h : amount.toNat < 32) : ((1 : UInt32) <<< amount).toNat = 2 ^ amount.toNat := by
  have hone : (1 : UInt32).toNat = 1 := rfl
  rw [toNat_shiftLeft h, hone, Nat.one_mul, Nat.mod_eq_of_lt (Nat.pow_lt_pow_right (by decide) h)]

theorem one_le_one_shiftLeft (h : amount.toNat < 32) : 1 ≤ (1 : UInt32) <<< amount := by
  rw [UInt32.le_iff_toNat_le, toNat_one_shiftLeft h]
  exact Nat.one_le_two_pow

/-- The test for one bit. -/
theorem and_one_shiftLeft_ne_zero_iff (h : amount.toNat < 32) :
    word &&& (1 <<< amount) ≠ 0 ↔ word.toNat.testBit amount.toNat = true := by
  have hzero : (0 : UInt32).toNat = 0 := rfl
  rw [ne_eq, ← UInt32.toNat_inj, UInt32.toNat_and, toNat_one_shiftLeft h, hzero, Nat.and_two_pow]
  cases word.toNat.testBit amount.toNat <;> simp

/-- **The mask of a width**, where the whole word is a case of its own: there 1 can not be shifted far
enough. -/
theorem toNat_mask {width : UInt32} (h : width.toNat ≤ 32) : (mask width).toNat = 2 ^ width.toNat - 1 := by
  by_cases hwhole : width = 32
  · rw [mask, if_pos hwhole, hwhole]
    rfl
  · have hlt : width.toNat < 32 := Nat.lt_of_le_of_ne h fun heq => hwhole (UInt32.toNat_inj.1 heq)
    rw [mask, if_neg hwhole, UInt32.toNat_sub_of_le _ _ (one_le_one_shiftLeft hlt), toNat_one_shiftLeft hlt]
    rfl

/-- From the one end to the other. -/
theorem toNat_thirtyTwo_sub (h : amount.toNat ≤ 32) : (32 - amount).toNat = 32 - amount.toNat :=
  UInt32.toNat_sub_of_le 32 amount (UInt32.le_iff_toNat_le.2 h)

/-! ## The views

Each helper is one shift or two. What it reads is said as a field or as a place in the number, and what
the helpers have to do with each other is then left to arithmetic. -/

/-- **One bit**, by its place in the number. -/
theorem bit_eq (word position : UInt32) :
    bit word position =
      (decide (1 ≤ position.toNat ∧ position.toNat ≤ 32) && word.toNat.testBit (32 - position.toNat)) := by
  have hrange : 1 ≤ position ∧ position ≤ 32 ↔ 1 ≤ position.toNat ∧ position.toNat ≤ 32 :=
    and_congr UInt32.le_iff_toNat_le UInt32.le_iff_toNat_le
  by_cases h : 1 ≤ position ∧ position ≤ 32
  · have hinside := hrange.1 h
    have hamount := toNat_thirtyTwo_sub hinside.2
    rw [bit, if_pos h, decide_eq_true hinside, Bool.true_and, Bool.eq_iff_iff, decide_eq_true_iff,
      and_one_shiftLeft_ne_zero_iff (by omega), hamount]
  · rw [bit, if_neg h, decide_eq_false (mt hrange.2 h), Bool.false_and]

/-- **A span is its field**: one shift drops what lies above it and the other one what lies below. -/
theorem toNat_span (word : UInt32) {first last : UInt32} (hfirst : first ≤ last) (hlast : last ≤ 32) :
    (span word first last).toNat = field word first.toNat last.toNat := by
  rw [UInt32.le_iff_toNat_le] at hfirst hlast
  change last.toNat ≤ 32 at hlast
  by_cases hempty : last ≤ first
  · have heq : first.toNat = last.toNat := Nat.le_antisymm hfirst (UInt32.le_iff_toNat_le.1 hempty)
    rw [span, if_pos (Or.inl hempty), field, heq, Nat.sub_self, Nat.pow_zero, Nat.mod_one]
    rfl
  · have hlt : first.toNat < last.toNat := UInt32.lt_iff_toNat_lt.1 (UInt32.not_le.1 hempty)
    have hwidth : (last - first).toNat = last.toNat - first.toNat :=
      UInt32.toNat_sub_of_le _ _ (UInt32.le_iff_toNat_le.2 hfirst)
    have hamount : (32 - (last - first)).toNat = first.toNat + (32 - last.toNat) := by
      rw [toNat_thirtyTwo_sub (by omega), hwidth]
      omega
    -- the word in three parts: above the span, the span, and below it
    have hparts : 2 ^ 32 = 2 ^ first.toNat * (2 ^ (32 - last.toNat) * 2 ^ (last.toNat - first.toNat)) := by
      rw [← Nat.pow_add, ← Nat.pow_add]
      congr 1
      omega
    have hinside : ¬(last ≤ first ∨ 32 < last) :=
      not_or.2 ⟨hempty, UInt32.not_lt.2 (UInt32.le_iff_toNat_le.2 hlast)⟩
    rw [span, if_neg hinside, toNat_shiftRight (by omega), toNat_shiftLeft (by omega), hamount, hparts,
      Nat.mul_comm word.toNat, Nat.mul_mod_mul_left, Nat.pow_add, Nat.mul_div_mul_left _ _ (Nat.two_pow_pos _),
      Nat.mod_mul_right_div_self, field]

theorem toNat_product {position width : UInt32} (h : position.toNat * width.toNat < 2 ^ 32) :
    (position * width).toNat = position.toNat * width.toNat := by
  rw [UInt32.toNat_mul, Nat.mod_eq_of_lt h]

/-- The group lies in the word. The guard of `group` refuses everything else, and it is put in other
words: some number is 0, or the last bit of the group is none of the word. Groups are counted from 1. -/
structure Inside (position width : UInt32) : Prop where
  position_pos : 1 ≤ position.toNat
  width_pos : 1 ≤ width.toNat
  last_le : position.toNat * width.toNat ≤ 32

section Groups

variable {position width : UInt32}

theorem inside_iff : Inside position width ↔ 1 ≤ position ∧ 1 ≤ width ∧ position.toNat * width.toNat ≤ 32 := by
  rw [UInt32.le_iff_toNat_le, UInt32.le_iff_toNat_le]
  exact ⟨fun h => ⟨h.position_pos, h.width_pos, h.last_le⟩, fun h => ⟨h.1, h.2.1, h.2.2⟩⟩

/-- The guard admits the groups that lie in the word. A width above 32 is refused twice. -/
theorem not_inside_iff :
    ¬Inside position width ↔
      width = 0 ∨ 32 < width ∨ position = 0 ∨ 32 < position.toNat * width.toNat := by
  rw [inside_iff, UInt32.le_iff_toNat_le, UInt32.le_iff_toNat_le, UInt32.lt_iff_toNat_lt, ← UInt32.toNat_inj,
    ← UInt32.toNat_inj]
  change ¬(1 ≤ position.toNat ∧ 1 ≤ width.toNat ∧ _) ↔
    (width.toNat = 0 ∨ 32 < width.toNat ∨ position.toNat = 0 ∨ _)
  -- a width above 32 reaches beyond the word already with the first group
  by_cases hzero : position.toNat = 0
  · simp [hzero]
  · have hle : width.toNat ≤ position.toNat * width.toNat := Nat.le_mul_of_pos_left _ (Nat.pos_of_ne_zero hzero)
    omega

namespace Inside

theorem width_le (h : Inside position width) : width.toNat ≤ position.toNat * width.toNat :=
  Nat.le_mul_of_pos_left _ h.position_pos

theorem toNat_last (h : Inside position width) : (position * width).toNat = position.toNat * width.toNat :=
  toNat_product (Nat.lt_of_le_of_lt h.last_le (by decide))

theorem toNat_first (h : Inside position width) :
    ((position - 1) * width).toNat = (position.toNat - 1) * width.toNat := by
  have hle := h.last_le
  have hbelow : (position.toNat - 1) * width.toNat ≤ position.toNat * width.toNat :=
    Nat.mul_le_mul_right _ (Nat.sub_le _ _)
  have hbefore : (position - 1).toNat = position.toNat - 1 :=
    UInt32.toNat_sub_of_le position 1 (UInt32.le_iff_toNat_le.2 h.position_pos)
  rw [toNat_product (by rw [hbefore]; omega), hbefore]

/-- What is shifted out below the group is no whole word. -/
theorem toNat_below (h : Inside position width) :
    (32 - position * width).toNat = 32 - position.toNat * width.toNat ∧ (32 - position * width).toNat < 32 := by
  have hpos := Nat.le_trans h.width_pos h.width_le
  have hbelow := toNat_thirtyTwo_sub (h.toNat_last.le.trans h.last_le)
  rw [h.toNat_last] at hbelow
  exact ⟨hbelow, by omega⟩

end Inside

theorem group_of_inside (word : UInt32) (h : Inside position width) :
    group word position width = (word >>> (32 - position * width)) &&& mask width :=
  if_neg fun hguard => not_inside_iff.2 hguard h

theorem group_of_not_inside (word : UInt32) (h : ¬Inside position width) : group word position width = 0 :=
  if_pos (not_inside_iff.1 h)

/-- **A group is its field.** -/
theorem toNat_group (word : UInt32) (h : Inside position width) :
    (group word position width).toNat =
      field word ((position.toNat - 1) * width.toNat) (position.toNat * width.toNat) := by
  obtain ⟨hbelow, hlt⟩ := h.toNat_below
  rw [group_of_inside word h, UInt32.toNat_and, toNat_shiftRight hlt, toNat_mask (h.width_le.trans h.last_le), hbelow,
    Nat.and_two_pow_sub_one_eq_mod, field, ← Nat.sub_mul, Nat.sub_sub_self h.position_pos, Nat.one_mul]

/-- A group in the word is the span of its bits. -/
theorem span_of_inside (word : UInt32) (h : Inside position width) :
    span word ((position - 1) * width) (position * width) = group word position width := by
  have hfirst : (position - 1) * width ≤ position * width := by
    rw [UInt32.le_iff_toNat_le, h.toNat_first, h.toNat_last]
    exact Nat.mul_le_mul_right _ (Nat.sub_le _ _)
  have hlast : position * width ≤ 32 := by
    rw [UInt32.le_iff_toNat_le, h.toNat_last]
    exact h.last_le
  rw [← UInt32.toNat_inj, toNat_span word hfirst hlast, toNat_group word h, h.toNat_first, h.toNat_last]

end Groups

/-- **A group is a span**, or it is 0 where it does not lie in the word. -/
theorem group_eq_span (word position width : UInt32) :
    group word position width =
      if 1 ≤ position ∧ 1 ≤ width ∧ position.toNat * width.toNat ≤ 32
      then span word ((position - 1) * width) (position * width) else 0 := by
  split
  · rename_i h
    exact (span_of_inside word (inside_iff.2 h)).symm
  · rename_i h
    exact group_of_not_inside word (mt inside_iff.1 h)

/-- **A bit is a group of width 1.** -/
theorem bit_eq_true_iff_group (word position : UInt32) : bit word position = true ↔ group word position 1 = 1 := by
  have hone : (1 : UInt32).toNat = 1 := rfl
  have hproduct : position.toNat * (1 : UInt32).toNat = position.toNat := Nat.mul_one _
  rw [bit_eq]
  by_cases h : 1 ≤ position.toNat ∧ position.toNat ≤ 32
  · have hgroup := toNat_group word ⟨h.1, hone.ge, hproduct.le.trans h.2⟩
    rw [hone, Nat.mul_one, Nat.mul_one, field_one word h.1] at hgroup
    rw [decide_eq_true h, Bool.true_and, ← UInt32.toNat_inj, hgroup, hone, Bool.toNat_eq_one]
  · have hout : ¬Inside position 1 := fun hin => h ⟨hin.position_pos, hproduct.ge.trans hin.last_le⟩
    rw [decide_eq_false h, Bool.false_and, group_of_not_inside word hout]
    decide

/-- **Spans that meet are one span.** -/
theorem span_append (word : UInt32) {first middle last : UInt32} (hfirst : first ≤ middle) (hmiddle : middle ≤ last)
    (hlast : last ≤ 32) :
    (span word first last).toNat =
      (span word first middle).toNat * 2 ^ (last.toNat - middle.toNat) + (span word middle last).toNat := by
  rw [toNat_span word (UInt32.le_trans hfirst hmiddle) hlast, toNat_span word hfirst (UInt32.le_trans hmiddle hlast),
    toNat_span word hmiddle hlast]
  exact field_append word (UInt32.le_iff_toNat_le.1 hfirst) (UInt32.le_iff_toNat_le.1 hmiddle)
    (UInt32.le_iff_toNat_le.1 hlast)

/-! ## Flags

Flags have names, and a name is listed if its bit is set. The names are listed from the highest flag down,
and names without a bit in the word, or beyond the count that was asked for, are left out. -/

theorem toNat_ofNat_of_lt {i : ℕ} (h : i < 32) : (UInt32.ofNat i).toNat = i :=
  UInt32.toNat_ofNat_of_lt' (h.trans (by decide))

/-- Flags count from the other end. -/
theorem flag_iff_bit (word : UInt32) {i : ℕ} (h : i < 32) :
    word &&& (1 <<< UInt32.ofNat i) ≠ 0 ↔ bit word (32 - UInt32.ofNat i) = true := by
  have hi := toNat_ofNat_of_lt h
  have hposition : (32 - UInt32.ofNat i).toNat = 32 - i := by rw [toNat_thirtyTwo_sub (by omega), hi]
  rw [and_one_shiftLeft_ne_zero_iff (by omega), bit_eq, hi, hposition, Nat.sub_sub_self h.le,
    decide_eq_true (by omega), Bool.true_and]

/-- The flags that are set among the low `count` bits, the highest first. -/
def setBits (word : UInt32) (count : ℕ) : List ℕ :=
  (List.range count).reverse.filter fun i => bit word (32 - UInt32.ofNat i)

theorem mem_setBits_iff {word : UInt32} {count i : ℕ} :
    i ∈ setBits word count ↔ i < count ∧ bit word (32 - UInt32.ofNat i) = true := by
  rw [setBits, List.mem_filter, List.mem_reverse, List.mem_range]

/-- The highest flag comes first, and none comes twice. -/
theorem pairwise_setBits (word : UInt32) (count : ℕ) : (setBits word count).Pairwise (· > ·) :=
  (List.pairwise_reverse.2 List.pairwise_lt_range).filter _

/-- **The names that are listed** are those of the set bits, in their order. -/
theorem map_setBits (names : List String) (word : UInt32) (count : ℕ) :
    (setBits word (min count (min names.length 32))).map (names[·]?) = (setFlags names word count).map some := by
  let named := (names.take (min count 32)).zipIdx
  have hindices : named.map Prod.snd = List.range (min count (min names.length 32)) := by
    rw [List.zipIdx_map_snd, List.length_take, ← List.range_eq_range', Nat.min_assoc, Nat.min_comm 32]
  -- every flag that is looked at is a bit of the word and has a name
  have hnamed : ∀ x ∈ named, x.2 < 32 ∧ names[x.2]? = some x.1 := by
    intro x hx
    rw [List.mem_zipIdx_iff_getElem?, List.getElem?_take, Option.ite_none_right_eq_some] at hx
    exact ⟨by omega, hx.2⟩
  have hflags : named.filter (fun x => word &&& (1 <<< UInt32.ofNat x.2) ≠ 0) =
      named.filter fun x => bit word (32 - UInt32.ofNat x.2) := by
    apply List.filter_congr
    intro x hx
    rw [Bool.eq_iff_iff, decide_eq_true_iff]
    exact flag_iff_bit word (hnamed x hx).1
  calc (setBits word (min count (min names.length 32))).map (names[·]?)
    _ = (named.filter fun x => bit word (32 - UInt32.ofNat x.2)).reverse.map fun x => names[x.2]? := by
      rw [setBits, ← hindices, ← List.map_reverse, List.filter_map, List.map_map, List.filter_reverse]
      rfl
    _ = (named.filter fun x => bit word (32 - UInt32.ofNat x.2)).reverse.map fun x => some x.1 := by
      apply List.map_congr_left
      intro x hx
      exact (hnamed x (List.mem_filter.1 (List.mem_reverse.1 hx)).1).2
    _ = (setFlags names word count).map some := by
      rw [← hflags, setFlags, List.map_map]
      rfl

/-! ## Shifts that can fault

The helpers above use operations that wrap around. Here every operation is checked, in the order in which
the helpers have them, and each check is met by the guard in front of it. -/

/-- Why an operation has no result. -/
inductive Fault where
  /-- The result does not fit into the word. -/
  | overflow
  /-- A shift by as many bits as the word has, or by more. -/
  | shift
  /-- There is no name of that number. -/
  | index
  deriving DecidableEq, Repr

namespace Checked

def sub (a b : UInt32) : Except Fault UInt32 :=
  if b ≤ a then .ok (a - b) else .error .overflow

/-- The product, where one that does not fit is not a fault. -/
def product? (a b : UInt32) : Option UInt32 :=
  if a.toNat * b.toNat < 2 ^ 32 then some (a * b) else none

/-- A shift has to leave something of the word. -/
def shiftLeft (word : UInt32) (amount : ℕ) : Except Fault UInt32 :=
  if amount < 32 then .ok (word <<< UInt32.ofNat amount) else .error .shift

def shiftRight (word : UInt32) (amount : ℕ) : Except Fault UInt32 :=
  if amount < 32 then .ok (word >>> UInt32.ofNat amount) else .error .shift

/-- The name of that number, if there is one. -/
def nameAt (names : List String) (i : ℕ) : Except Fault String :=
  match names[i]? with
  | some name => .ok name
  | none => .error .index

def bit (word position : UInt32) : Except Fault Bool := do
  if 1 ≤ position ∧ position ≤ 32 then
    let amount ← sub 32 position
    let flag ← shiftLeft 1 amount.toNat
    .ok (word &&& flag ≠ 0)
  else .ok false

def mask (width : UInt32) : Except Fault UInt32 := do
  if width = 32 then .ok 0xFFFFFFFF
  else
    let flag ← shiftLeft 1 width.toNat
    sub flag 1

def group (word position width : UInt32) : Except Fault UInt32 := do
  if width = 0 ∨ 32 < width ∨ position = 0 then .ok 0
  else
    match product? position width with
    | none => .ok 0
    | some last =>
      if 32 < last then .ok 0
      else
        let low ← mask width
        let amount ← sub 32 last
        let moved ← shiftRight word amount.toNat
        .ok (moved &&& low)

def span (word first last : UInt32) : Except Fault UInt32 := do
  if last ≤ first ∨ 32 < last then .ok 0
  else
    let width ← sub last first
    let moved ← shiftLeft word first.toNat
    let amount ← sub 32 width
    shiftRight moved amount.toNat

def setFlags (names : List String) (word : UInt32) (count : ℕ) : Except Fault (List String) :=
  (List.range (min (min count names.length) 32)).reverse.filterMapM fun i => do
    let flag ← shiftLeft 1 i
    if word &&& flag = 0 then .ok none
    else
      let name ← nameAt names i
      .ok (some name)

theorem ok_bind {α β : Type} (value : α) (next : α → Except Fault β) : (Except.ok value >>= next) = next value :=
  rfl

theorem sub_of_le {a b : UInt32} (h : b.toNat ≤ a.toNat) : sub a b = .ok (a - b) :=
  if_pos (UInt32.le_iff_toNat_le.2 h)

theorem shiftLeft_of_lt {amount : UInt32} (h : amount.toNat < 32) (word : UInt32) :
    shiftLeft word amount.toNat = .ok (word <<< amount) := by
  rw [shiftLeft, if_pos h, UInt32.ofNat_toNat]

theorem shiftRight_of_lt {amount : UInt32} (h : amount.toNat < 32) (word : UInt32) :
    shiftRight word amount.toNat = .ok (word >>> amount) := by
  rw [shiftRight, if_pos h, UInt32.ofNat_toNat]

/-- The guard of `bit` keeps the difference above 0 and the shift below 32. -/
theorem bit_eq_ok (word position : UInt32) : bit word position = .ok (BitField.bit word position) := by
  rw [bit, BitField.bit]
  split
  · rename_i h
    have hpos : 1 ≤ position.toNat := UInt32.le_iff_toNat_le.1 h.1
    have hle : position.toNat ≤ 32 := UInt32.le_iff_toNat_le.1 h.2
    have hamount := toNat_thirtyTwo_sub hle
    rw [sub_of_le hle, ok_bind, shiftLeft_of_lt (by omega), ok_bind]
  · rfl

theorem mask_eq_ok {width : UInt32} (h : width.toNat ≤ 32) : mask width = .ok (BitField.mask width) := by
  rw [mask, BitField.mask]
  split
  · rfl
  · rename_i hne
    have hlt : width.toNat < 32 := Nat.lt_of_le_of_ne h fun heq => hne (UInt32.toNat_inj.1 heq)
    rw [shiftLeft_of_lt hlt, ok_bind, sub_of_le (UInt32.le_iff_toNat_le.1 (one_le_one_shiftLeft hlt))]

/-- **No operation of `group` faults.** What does not lie in the word is refused before the first shift,
even where the product does not fit. -/
theorem group_eq_ok (word position width : UInt32) :
    group word position width = .ok (BitField.group word position width) := by
  by_cases h : Inside position width
  · obtain ⟨-, hlt⟩ := h.toNat_below
    have hlast : (position * width).toNat ≤ 32 := h.toNat_last.le.trans h.last_le
    have hguard := mt not_inside_iff.2 (not_not.2 h)
    have hfit : product? position width = some (position * width) :=
      if_pos (Nat.lt_of_le_of_lt h.last_le (by decide))
    rw [group, if_neg (mt (Or.imp_right (Or.imp_right Or.inl)) hguard), hfit, group_of_inside word h]
    simp only
    rw [if_neg (UInt32.not_lt.2 (UInt32.le_iff_toNat_le.2 hlast)), mask_eq_ok (h.width_le.trans h.last_le), ok_bind,
      sub_of_le hlast, ok_bind, shiftRight_of_lt hlt, ok_bind]
  · rw [group_of_not_inside word h, group]
    split
    · rfl
    · rename_i hguard
      -- only the product is left to be refused, by itself or by its size
      have hlarge : 32 < position.toNat * width.toNat := by
        rcases not_inside_iff.1 h with hwidth | hwide | hposition | hlarge
        · exact absurd (Or.inl hwidth) hguard
        · exact absurd (Or.inr (Or.inl hwide)) hguard
        · exact absurd (Or.inr (Or.inr hposition)) hguard
        · exact hlarge
      rw [product?]
      by_cases hfit : position.toNat * width.toNat < 2 ^ 32
      · have hbeyond : 32 < position * width := UInt32.lt_iff_toNat_lt.2 (toNat_product hfit ▸ hlarge)
        rw [if_pos hfit]
        simp only
        rw [if_pos hbeyond]
      · rw [if_neg hfit]

/-- The guard of `span` orders its ends, and the last of them bounds both shifts. -/
theorem span_eq_ok (word first last : UInt32) : span word first last = .ok (BitField.span word first last) := by
  rw [span, BitField.span]
  split
  · rfl
  · rename_i h
    obtain ⟨hfirst, hlast⟩ := not_or.1 h
    have hlt : first.toNat < last.toNat := UInt32.lt_iff_toNat_lt.1 (UInt32.not_le.1 hfirst)
    have hle : last.toNat ≤ 32 := UInt32.le_iff_toNat_le.1 (UInt32.not_lt.1 hlast)
    have hwidth : (last - first).toNat = last.toNat - first.toNat :=
      UInt32.toNat_sub_of_le _ _ (UInt32.le_iff_toNat_le.2 hlt.le)
    have hwidth' : (last - first).toNat ≤ 32 := by omega
    have hamount := toNat_thirtyTwo_sub hwidth'
    rw [sub_of_le hlt.le, ok_bind, shiftLeft_of_lt (by omega), ok_bind, sub_of_le hwidth', ok_bind,
      shiftRight_of_lt (by omega)]

theorem filterMapM_eq_ok {α β : Type} {f : α → Except Fault (Option β)} {g : α → Option β} {l : List α}
    (h : ∀ x ∈ l, f x = .ok (g x)) : l.filterMapM f = .ok (l.filterMap g) := by
  induction l with
  | nil => rfl
  | cons x l ih =>
    rw [List.filterMapM_cons, h x List.mem_cons_self, ok_bind, ih fun y hy => h y (List.mem_cons_of_mem x hy),
      List.filterMap_cons]
    cases g x <;> rfl

/-- **No flag is shifted out and no name is missed**, as the smaller of the counts bounds what is gone
through. -/
theorem setFlags_eq_ok (names : List String) (word : UInt32) (count : ℕ) :
    setFlags names word count = .ok (BitField.setFlags names word count) := by
  have hlisted : (setBits word (min count (min names.length 32))).filterMap (names[·]?) =
      BitField.setFlags names word count := by
    have hsome := congrArg (List.filterMap id) (map_setBits names word count)
    rwa [List.filterMap_map, List.filterMap_map, Function.id_comp, Function.id_comp, List.filterMap_some] at hsome
  rw [← hlisted, setBits, List.filterMap_filter, setFlags, Nat.min_assoc]
  apply filterMapM_eq_ok
  intro i hi
  have hlt : i < min count (min names.length 32) := List.mem_range.1 (List.mem_reverse.1 hi)
  have hname : nameAt names i = .ok names[i] := by
    rw [nameAt, List.getElem?_eq_getElem]
  have hflag := flag_iff_bit word (show i < 32 by omega)
  have hshift : shiftLeft 1 i = .ok (1 <<< UInt32.ofNat i) := if_pos (by omega)
  rw [hshift, ok_bind]
  by_cases hset : word &&& (1 <<< UInt32.ofNat i) = 0
  · rw [if_pos hset, if_neg (mt hflag.2 (not_not.2 hset))]
  · rw [if_neg hset, if_pos (hflag.1 hset), hname, ok_bind, List.getElem?_eq_getElem]

end Checked

/-! ## One view

The views and the checks are put together here. The numbering from the top is the common one, and each of
the others is told by it. -/

/-- **All helpers see the same word.** A bit is a group of width 1, a group is a span, spans that meet are
one span, and the flags that are named are the bits that are set, the highest first. Bit `position` from
the top is the one that stands in place `32 - position` of the number, and where nothing lies inside the
word nothing is read: no shift goes beyond the word, no operation leaves it, and no name is asked for that
is not there. -/
theorem one_view (word : UInt32) :
    (∀ position, bit word position =
      (decide (1 ≤ position.toNat ∧ position.toNat ≤ 32) && word.toNat.testBit (32 - position.toNat))) ∧
    (∀ position, bit word position = true ↔ group word position 1 = 1) ∧
    (∀ position width, group word position width =
      if 1 ≤ position ∧ 1 ≤ width ∧ position.toNat * width.toNat ≤ 32
      then span word ((position - 1) * width) (position * width) else 0) ∧
    (∀ first middle last, first ≤ middle → middle ≤ last → last ≤ 32 → (span word first last).toNat =
      (span word first middle).toNat * 2 ^ (last.toNat - middle.toNat) + (span word middle last).toNat) ∧
    (∀ names count, ∃ indices : List ℕ, indices.Pairwise (· > ·) ∧
      (∀ i, i ∈ indices ↔ i < min count (min names.length 32) ∧ bit word (32 - UInt32.ofNat i) = true) ∧
      indices.map (names[·]?) = (setFlags names word count).map some) ∧
    (∀ position, Checked.bit word position = .ok (bit word position)) ∧
    (∀ position width, Checked.group word position width = .ok (group word position width)) ∧
    (∀ first last, Checked.span word first last = .ok (span word first last)) ∧
    ∀ names count, Checked.setFlags names word count = .ok (setFlags names word count) := by
  refine ⟨bit_eq word, bit_eq_true_iff_group word, group_eq_span word, fun _ _ _ => span_append word,
    fun names count => ⟨setBits word (min count (min names.length 32)), pairwise_setBits word _,
      fun i => mem_setBits_iff, map_setBits names word count⟩,
    Checked.bit_eq_ok word, Checked.group_eq_ok word, Checked.span_eq_ok word,
    fun names count => Checked.setFlags_eq_ok names word count⟩

/-- The second nibble of a word in two numberings, its upper half in two parts, and two of three flags
that are set. -/
theorem one_view_of_nibbles :
    group 0xA5C30003 2 4 = span 0xA5C30003 4 8 ∧
      (span 0xA5C30003 0 16).toNat = (span 0xA5C30003 0 4).toNat * 2 ^ 12 + (span 0xA5C30003 4 16).toNat ∧
      Checked.setFlags ["low", "high", "lost"] 0xA5C30003 3 = .ok ["high", "low"] := by
  obtain ⟨-, -, hgroup, hspan, -, -, -, -, hflags⟩ := one_view 0xA5C30003
  exact ⟨hgroup 2 4, hspan 0 4 16 (by decide) (by decide) (by decide), hflags _ _⟩

end Telegram.BitField
