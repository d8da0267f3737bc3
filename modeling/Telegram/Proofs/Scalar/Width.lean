import Telegram.Proofs.ByteOrder
import Telegram.Proofs.Text.Boundary
import Telegram.Scalar.Basic

/-!
# How many bytes a scalar takes

The bytes that a scalar takes are told by its type and its format, except for a text without a length,
which takes the rest of the buffer.

* `Scalar.width` is their number, and `Scalar.IsSized` leaves out the texts without a length.
* `Scalar.length_write`: whatever is written, and also in place of an absent value, it is that many bytes.
* `Scalar.read_of_width_le`: from a buffer that holds that many, reading takes them off, whatever they
  are. What comes after them makes no difference (`Scalar.result_read_append`).
* `Scalar.read_of_lt_width`: from a shorter buffer, reading takes nothing.

Numbers whose length is not supported take no byte in either direction.
-/

namespace Telegram

open Codec

namespace Scalar

/-- The bytes that a scalar takes in a format. For a text without a length the number is 0 and means
nothing; `IsSized` excludes it wherever the number is used. -/
def width (scalar : Scalar) (format : FieldFormat) : Nat :=
  match scalar with
  | .int type => (type.storedBytes? format).getD 0
  | .bool => 1
  | .text => format.length
  | .decimal => (Decimal.storedBytes? format).getD 0

/-- The format tells where the scalar ends. -/
def IsSized (scalar : Scalar) (format : FieldFormat) : Prop :=
  scalar = .text → format.length ≠ 0

end Scalar

/-! ## Writing

An absent value is written too, as zeros or as padding, so that the fields behind it stay in their places.
For this the width must not depend on the value. -/

/-- What is stored for a text never needs more room than there is. -/
theorem Text.length_stored_le {kind : TextKind} {text : String} {room : Nat} {bytes : Bytes}
    (h : stored kind text (some room) = .ok bytes) : bytes.length ≤ room := by
  cases kind with
  | bcd =>
    simp only [stored] at h
    split at h
    · cases h
      exact List.length_take_le _ _
    · cases h
  | utf8 =>
    cases h
    exact length_cutBetween_le _ _
  | ascii =>
    simp only [stored] at h
    split at h
    · cases h
      exact List.length_take_le _ _
    · cases h

/-- A text can be refused for its characters, which is an error of another kind. -/
theorem Text.stored_ne_typeMismatch (kind : TextKind) (text : String) (room : Option Nat)
    (expected : TypeExpr) : stored kind text room ≠ .error (.typeMismatch expected) := by
  cases kind with
  | bcd =>
    simp only [stored]
    split <;> simp
  | utf8 => simp [stored]
  | ascii =>
    simp only [stored]
    split <;> simp

/-- A text is cut to its length and padded up to it, and an absent text is all padding. -/
theorem Text.length_write {format : FieldFormat} (hsized : format.length ≠ 0) (text : Option String)
    (h : (write format text).result = .ok ()) : (write format text).bytes.length = format.length := by
  cases text with
  | none =>
    simp only [write, Writing.done, Bytes.length_pad, List.length_nil]
    omega
  | some text =>
    simp only [write, if_neg hsized] at h ⊢
    split at h
    · cases h
    · rename_i bytes hstored
      -- what is stored fits, so that padding fills it up and never adds to it
      have hroom := length_stored_le hstored
      simp only [Writing.done, Bytes.length_pad]
      omega

namespace Scalar

variable {scalar : Scalar} {format : FieldFormat}

/-- **Every scalar is written at its width**, and so is what stands for an absent one. -/
theorem length_write (hsized : scalar.IsSized format) (value : Option Value)
    (h : (scalar.write format value).result = .ok ()) :
    (scalar.write format value).bytes.length = scalar.width format := by
  cases scalar with
  | int type =>
    simp only [write, IntType.write, width]
    split <;> simp [Writing.done, *]
  | bool => rfl
  | text => exact Text.length_write (hsized rfl) _ h
  | decimal =>
    simp only [write, Decimal.write, width]
    split <;> simp [Writing.done, *]

/-- A scalar is never at fault for its type: whoever hands on a value has checked it. -/
theorem write_ne_typeMismatch (value : Option Value) (expected : TypeExpr) :
    (scalar.write format value).result ≠ .error (.typeMismatch expected) := by
  cases scalar with
  | int type =>
    simp only [write, IntType.write]
    split <;> simp [Writing.done]
  | bool => simp [write, writeBool, Writing.done]
  | decimal =>
    simp only [write, Decimal.write]
    split <;> simp [Writing.done]
  | text =>
    simp only [write, Text.write]
    split
    · simp [Writing.done]
    · split
      · rename_i hstored
        intro heq
        rw [Except.error.inj heq] at hstored
        exact Text.stored_ne_typeMismatch _ _ _ _ hstored
      · simp [Writing.done]

/-! ## Reading

Reading looks at the number of bytes first. Where there are enough it never looks beyond the width, and
where there are not it takes none. -/

/-- **Every scalar is read at its width**, from any buffer that holds so many bytes. -/
theorem read_of_width_le (hsized : scalar.IsSized format) {source : Bytes}
    (hle : scalar.width format ≤ source.length) :
    (scalar.read format source).rest = source.drop (scalar.width format) ∧
      (scalar.read format source).result ≠ .ok none := by
  cases scalar with
  | int type =>
    simp only [read, IntType.read, width, ByteOrder.split?_eq] at hle ⊢
    cases hwidth : type.storedBytes? format with
    | none => exact ⟨rfl, by simp [Reading.found]⟩
    | some bytes =>
      simp only [hwidth, Option.getD_some] at hle
      simp only [if_pos hle]
      exact ⟨rfl, by simp [Reading.found]⟩
  | bool =>
    cases source with
    | nil => exact absurd hle (Nat.not_succ_le_zero 0)
    | cons byte rest => exact ⟨rfl, by simp [read, readBool, Reading.found]⟩
  | text =>
    simp only [width] at hle
    simp only [read, Text.read, if_neg (hsized rfl), Bytes.split?_eq, if_pos hle]
    exact ⟨rfl, by simp [Reading.found]⟩
  | decimal =>
    simp only [read, Decimal.read, width, ByteOrder.split?_eq] at hle ⊢
    cases hwidth : Decimal.storedBytes? format with
    | none => exact ⟨rfl, by simp [Reading.found]⟩
    | some bytes =>
      simp only [hwidth, Option.getD_some] at hle
      simp only [if_pos hle]
      split <;> exact ⟨rfl, by simp [Reading.found, Reading.failed]⟩

/-- Bytes behind a scalar make no difference to what is read of it. -/
theorem result_read_append (hsized : scalar.IsSized format) {source : Bytes}
    (hle : scalar.width format ≤ source.length) (more : Bytes) :
    (scalar.read format (source ++ more)).result = (scalar.read format source).result := by
  -- the same branch is taken, as the longer buffer holds enough bytes too
  have hlonger : scalar.width format ≤ (source ++ more).length := by
    rw [List.length_append]
    omega
  cases scalar with
  | int type =>
    simp only [read, IntType.read, width, ByteOrder.split?_eq] at hle hlonger ⊢
    cases hwidth : type.storedBytes? format with
    | none => rfl
    | some bytes =>
      simp only [hwidth, Option.getD_some] at hle hlonger
      simp only [if_pos hle, if_pos hlonger, List.take_append_of_le_length hle]
      rfl
  | bool =>
    cases source with
    | nil => exact absurd hle (Nat.not_succ_le_zero 0)
    | cons byte rest => rfl
  | text =>
    simp only [width] at hle hlonger
    simp only [read, Text.read, if_neg (hsized rfl), Bytes.split?_eq, if_pos hle, if_pos hlonger,
      List.take_append_of_le_length hle]
    rfl
  | decimal =>
    simp only [read, Decimal.read, width, ByteOrder.split?_eq] at hle hlonger ⊢
    cases hwidth : Decimal.storedBytes? format with
    | none => rfl
    | some bytes =>
      simp only [hwidth, Option.getD_some] at hle hlonger
      simp only [if_pos hle, if_pos hlonger, List.take_append_of_le_length hle]
      split <;> rfl

/-- **A scalar is absent from a buffer that is too short for it**, and the buffer stays as it is. -/
theorem read_of_lt_width {source : Bytes} (hlt : source.length < scalar.width format) :
    scalar.read format source = .absent source := by
  cases scalar with
  | int type =>
    simp only [read, IntType.read, width, ByteOrder.split?_eq] at hlt ⊢
    cases hwidth : type.storedBytes? format with
    | none =>
      rw [hwidth] at hlt
      exact absurd hlt (Nat.not_lt_zero _)
    | some bytes =>
      simp only [hwidth, Option.getD_some] at hlt
      simp only [if_neg (Nat.not_le.2 hlt)]
  | bool =>
    obtain rfl := List.length_eq_zero_iff.1 (Nat.lt_one_iff.1 hlt)
    rfl
  | text =>
    simp only [width] at hlt
    rw [read, Text.read, if_neg (Nat.ne_of_gt (Nat.zero_lt_of_lt hlt)), Bytes.split?_eq,
      if_neg (Nat.not_le.2 hlt)]
  | decimal =>
    simp only [read, Decimal.read, width, ByteOrder.split?_eq] at hlt ⊢
    cases hwidth : Decimal.storedBytes? format with
    | none =>
      rw [hwidth] at hlt
      exact absurd hlt (Nat.not_lt_zero _)
    | some bytes =>
      simp only [hwidth, Option.getD_some] at hlt
      simp only [if_neg (Nat.not_le.2 hlt)]

/-- What is read of a scalar is of its type. -/
theorem type_of_read {source : Bytes} {value : Value}
    (h : (scalar.read format source).result = .ok (some value)) : value.type = .scalar scalar := by
  cases scalar with
  | int type =>
    simp only [read, IntType.read] at h
    split at h
    · cases h
      rfl
    · split at h <;> cases h
      rfl
  | bool =>
    cases source <;> cases h
    rfl
  | text =>
    simp only [read, Text.read] at h
    split at h
    · cases h
      rfl
    · split at h <;> cases h
      rfl
  | decimal =>
    simp only [read, Decimal.read] at h
    split at h
    · cases h
      rfl
    · split at h
      · cases h
      · split at h <;> cases h
        rfl

end Scalar

end Telegram
