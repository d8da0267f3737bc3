import Telegram.Codec.Transfer

/-!
# Integers on the wire

An integer field stores the low bytes of a number, to which the field's rule has been applied in
reverse. Reading takes the stored bytes as an unsigned number, cuts it to the type's width, and applies
the rule; all of it wraps around within that width.

A one-byte integer knows neither length nor rule. The two-byte and four-byte types may be stored in one
to four bytes, the eight-byte types in eight only. A field that asks for another length reads as 0
without using a byte, and writes nothing.
-/

namespace Telegram.IntType

open Codec

/-- The bytes that a field of this type takes, if its length is supported. -/
def storedBytes? (type : IntType) (format : FieldFormat) : Option Nat :=
  if type.bytes = 1 then some 1
  else if type.bytes = 8 then if format.length = 0 ∨ format.length = 8 then some 8 else none
  else if format.length = 0 then some type.bytes
  else if format.length ≤ 4 then some format.length
  else none

/-- The rule that applies to the type. -/
def ruleIn (type : IntType) (format : FieldFormat) : OffsetRule :=
  if type.bytes = 1 then .none else format.rule

/-- The field's offset in the arithmetic of the type. -/
def offsetIn (type : IntType) (format : FieldFormat) : BitVec type.bits :=
  BitVec.ofInt type.bits format.offset.toInt

/-- The value of a stored number. -/
def ofStored (type : IntType) (format : FieldFormat) (stored : Nat) : BitVec type.bits :=
  (type.ruleIn format).apply type.isSigned (BitVec.ofNat type.bits stored) (type.offsetIn format)

/-- The number to be stored for a value, extended to eight bytes. -/
def toStored (type : IntType) (format : FieldFormat) (bits : BitVec type.bits) : Nat :=
  let stored := (type.ruleIn format).inverse.apply type.isSigned bits (type.offsetIn format)
  if type.isSigned then (stored.signExtend 64).toNat else stored.toNat

/-- Reads a number of the type. -/
def read (type : IntType) (format : FieldFormat) (source : Bytes) : Reading :=
  match type.storedBytes? format with
  | none => .found (.int type 0) source
  | some width =>
    match format.order.split? width source with
    | none => .absent source
    | some (stored, rest) => .found (.int type (type.ofStored format stored)) rest

/-- Writes a number of the type. An absent one is stored as 0. -/
def write (type : IntType) (format : FieldFormat) (bits : Option (BitVec type.bits)) : Writing :=
  match type.storedBytes? format with
  | none => .done []
  | some width => .done (format.order.encode width ((bits.map (type.toStored format)).getD 0))

end Telegram.IntType
