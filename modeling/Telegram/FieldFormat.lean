import Telegram.ByteOrder

/-!
# How a field is laid out

A field format says how one value stands on the wire, and at which protocol versions it stands there.

* `OffsetRule` is a whole-number transformation between the stored number and the value.
* `TextKind` says how the bytes of a text field are to be read.
* `FieldFormat` collects everything a field can ask for. Its `length` is a number of bytes for scalars
  and a number of elements for sequences; `element` is the format handed to each element of a sequence.
* `FieldFormat.fault?` finds what makes a format impossible to apply.
-/

namespace Telegram

/-- What is done to a stored number to give the value. -/
inductive OffsetRule where
  | none
  | add
  | subtract
  | multiply
  | divide
  deriving DecidableEq, Repr

namespace OffsetRule

/-- The rule that undoes this one. -/
def inverse : OffsetRule → OffsetRule
  | .none => .none
  | .add => .subtract
  | .subtract => .add
  | .multiply => .divide
  | .divide => .multiply

/-- The rule in fixed-width arithmetic, which wraps around. Division is toward zero, and a divisor
of 0 leaves the number as it is. -/
def apply (rule : OffsetRule) (signed : Bool) {width : Nat} (x offset : BitVec width) : BitVec width :=
  match rule with
  | .none => x
  | .add => x + offset
  | .subtract => x - offset
  | .multiply => x * offset
  | .divide => if offset = 0 then x else if signed then x.sdiv offset else x.udiv offset

/-- The rule as messages name it. -/
def name : OffsetRule → String
  | .none => "None"
  | .add => "Add"
  | .subtract => "Subtract"
  | .multiply => "Multiply"
  | .divide => "Divide"

end OffsetRule

/-- How the bytes of a text field are read. -/
inductive TextKind where
  /-- As pairs of hexadecimal digits. -/
  | bcd
  | utf8
  /-- As seven-bit characters. -/
  | ascii
  deriving DecidableEq, Repr

/-- How one value stands on the wire. -/
structure FieldFormat where
  order : ByteOrder := .little
  /-- First version that carries the field. -/
  minVersion : UInt32 := 1
  /-- Last version that carries the field. -/
  maxVersion : UInt32 := 0xFFFFFFFF
  /-- Bytes of a scalar, or elements of a sequence. 0 is the natural width of a number and the rest of
  the buffer for a text. -/
  length : Nat := 0
  /-- The length handed to the elements of a sequence. 0 hands on `length`. -/
  elementLength : Nat := 0
  text : TextKind := .ascii
  /-- What pads a text that is shorter than its field. -/
  fill : UInt8 := 0
  rule : OffsetRule := .none
  offset : Int64 := 0
  deriving DecidableEq

/-- Why a field format can never be applied. -/
inductive FormatFault where
  /-- No version lies between the first and the last. -/
  | versionsReversed (min max : UInt32)
  /-- Multiplying and dividing need an offset other than 0. -/
  | zeroOffset (rule : OffsetRule)
  deriving DecidableEq, Repr

def FormatFault.message : FormatFault → String
  | .versionsReversed min max => s!"min_version ({min}) exceeds max_version ({max})"
  | .zeroOffset rule => rule.name ++ " offset rule needs a non-zero offset"

namespace FieldFormat

/-- The field is on the wire at this version. -/
def appliesAt (format : FieldFormat) (version : UInt32) : Bool :=
  format.minVersion ≤ version && version ≤ format.maxVersion

/-- The format handed to each element of a sequence. -/
def element (format : FieldFormat) : FieldFormat :=
  if 0 < format.elementLength then { format with length := format.elementLength } else format

/-- What makes the format impossible to apply. -/
def fault? (format : FieldFormat) : Option FormatFault :=
  if format.maxVersion < format.minVersion then
    some (.versionsReversed format.minVersion format.maxVersion)
  else if (format.rule = .multiply ∨ format.rule = .divide) ∧ format.offset = 0 then
    some (.zeroOffset format.rule)
  else none

end FieldFormat

end Telegram
