import Telegram.FieldFormat
import Telegram.Hex
import Telegram.TypeExpr

/-!
# What can go wrong while reading and writing values

One constructor for each cause. The wording is in `Error.message` and the functions it calls, and
nowhere else.
-/

namespace Telegram.Codec

/-- Why a schema, or a rule in it, can not be applied. -/
inductive SchemaFault where
  /-- The fault lies in one field of a record. -/
  | inField (record : TypeExpr) (field : String) (fault : SchemaFault)
  | format (fault : FormatFault)
  /-- A field may not ask for that many elements. -/
  | sequenceTooLong (length max : Nat)
  /-- A text of length 0 takes the rest of the buffer, so it can not be repeated. -/
  | unsizedText
  | notARecord (type : TypeExpr)
  | registeredTwice (type : TypeExpr)
  | notADecimal (literal : String)
  /-- The quotient does not exist or does not fit. -/
  | indivisible (divisor : Int)
  /-- What a caller's own code found. -/
  | reported (text : String)
  deriving DecidableEq, Repr

/-- An error of the codec. -/
inductive Error where
  | invalidSchema (fault : SchemaFault)
  /-- Nothing reads or writes the type at this version. -/
  | noAdapter (type : TypeExpr) (version : UInt32)
  /-- The slot holds no adapter. -/
  | unresolved (slot : Nat)
  /-- A value of another type was met. -/
  | typeMismatch (expected : TypeExpr)
  | invalidBcd (text : String) (fault : Hex.Fault)
  | notAscii (text : String)
  /-- The length contradicts the type. -/
  | unsupportedLength (type : TypeExpr) (length : Nat)
  /-- Records are nested more than `limit` deep. -/
  | tooDeep (limit : Nat)
  deriving DecidableEq, Repr

def SchemaFault.message : SchemaFault → String
  | .inField record field fault => s!"{record.name}.{field}: " ++ fault.message
  | .format fault => fault.message
  | .sequenceTooLong length max =>
    s!"sequence length {length} exceeds max_sequence_len ({max})"
  | .unsizedText => "string elements need a non-zero element length"
  | .notARecord type => s!"{type.name} is not described as a record"
  | .registeredTwice type => s!"record {type.name} registered twice"
  | .notADecimal literal => "invalid decimal literal: " ++ Text.quote literal
  | .indivisible divisor => s!"cannot divide decimal by {divisor}"
  | .reported text => text

/-- The wording of an error. -/
def Error.message : Error → String
  | .invalidSchema fault => "invalid schema: " ++ fault.message
  | .noAdapter type version => s!"no adapter for {type.name} at protocol version {version}"
  | .unresolved slot => s!"adapter slot {slot} is not resolved"
  | .typeMismatch expected => s!"type mismatch: expected {expected.name}"
  | .invalidBcd text fault => "invalid BCD string: " ++ Text.quote text ++ ": " ++ fault.message
  | .notAscii text => "string is not ASCII: " ++ Text.quote text
  | .unsupportedLength type length => s!"unsupported length {length} for {type.name}"
  | .tooDeep limit => s!"record nesting exceeds {limit} levels"

end Telegram.Codec
