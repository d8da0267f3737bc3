import Telegram.Codec.Transfer
import Telegram.Decimal.Notation

/-!
# Decimals on the wire

A decimal field stores an unsigned number of one to four bytes. Under the rule `divide` the value is the
stored number divided by the field's offset, with as many digits after the point as the offset has
zeros; writing multiplies and cuts the fraction off. Any other rule is ignored.

`Decimal.parse` reads a literal and names what is wrong with it.
-/

namespace Telegram.Decimal

open Codec

/-- Reads a decimal in positional notation. -/
def parse (text : String) : Except Error Decimal :=
  (ofText? text).elim (.error (.invalidSchema (.notADecimal text))) .ok

/-- The bytes that a field takes, if its length is supported. -/
def storedBytes? (format : FieldFormat) : Option Nat :=
  if format.length = 0 then some 4 else if format.length ≤ 4 then some format.length else none

/-- The value of a stored number. -/
def ofStored (format : FieldFormat) (stored : Nat) : Except Error Decimal :=
  let raw := ofInt (Int64.ofNat stored)
  if format.rule = .divide then
    match raw.divRound format.offset (scaleOfDivisor format.offset) with
    | some x => .ok x
    | none => .error (.invalidSchema (.indivisible format.offset.toInt))
  else .ok raw

/-- The number to be stored for a value. -/
def toStored (format : FieldFormat) (x : Decimal) : Int64 :=
  if format.rule = .divide then x.mulTrunc format.offset else x.trunc

/-- Reads a decimal. -/
def read (format : FieldFormat) (source : Bytes) : Reading :=
  match storedBytes? format with
  | none => .found (.decimal zero) source
  | some width =>
    match format.order.split? width source with
    | none => .absent source
    | some (stored, rest) =>
      match ofStored format stored with
      | .ok x => .found (.decimal x) rest
      | .error e => .failed e rest

/-- Writes a decimal. An absent one is stored as 0. -/
def write (format : FieldFormat) (x : Option Decimal) : Writing :=
  match storedBytes? format with
  | none => .done []
  | some width =>
    let stored := (x.map (toStored format)).getD 0
    .done (format.order.encode width stored.toUInt64.toNat)

end Telegram.Decimal
