import Telegram.Scalar.Decimal
import Telegram.Scalar.Integer
import Telegram.Scalar.Text

/-!
# Scalars on the wire

`Scalar.read` and `Scalar.write` choose by type among integers, truth values, text and decimals. A value
of another type writes as an absent one; whoever hands on a value checks its type first.
-/

namespace Telegram

open Codec

/-- Reads a truth value: one byte, 0 for false. -/
def readBool (source : Bytes) : Reading :=
  match source with
  | [] => .absent []
  | byte :: rest => .found (.bool (byte != 0)) rest

/-- Writes a truth value. An absent one is false. -/
def writeBool (value : Option Bool) : Writing :=
  .done [if value.getD false then 1 else 0]

namespace Value

/-- The bits of an integer of the given type. -/
def bits? (type : IntType) : Value → Option (BitVec type.bits)
  | .int t bits => if h : t = type then Option.some (h ▸ bits) else Option.none
  | _ => Option.none

def bool? : Value → Option Bool
  | .bool value => Option.some value
  | _ => Option.none

def text? : Value → Option String
  | .text value => Option.some value
  | _ => Option.none

def decimal? : Value → Option Decimal
  | .decimal value => Option.some value
  | _ => Option.none

end Value

namespace Scalar

/-- Reads a scalar. -/
def read (scalar : Scalar) (format : FieldFormat) (source : Bytes) : Reading :=
  match scalar with
  | .int type => type.read format source
  | .bool => readBool source
  | .text => Text.read format source
  | .decimal => Decimal.read format source

/-- Writes a scalar. -/
def write (scalar : Scalar) (format : FieldFormat) (value : Option Value) : Writing :=
  match scalar with
  | .int type => type.write format (value.bind (Value.bits? type))
  | .bool => writeBool (value.bind Value.bool?)
  | .text => Text.write format (value.bind Value.text?)
  | .decimal => Decimal.write format (value.bind Value.decimal?)

end Scalar

end Telegram
