import Telegram.Codec.Transfer

/-!
# Programs of callers

A caller may bring adapters of its own, for a type or for a single field, and factories that decide
which adapter serves a type. What such code can do is what these programs can ask for:

* a `ReadProgram` asks for values of other types to be read, and at last hands over its own reading;
* a `WriteProgram` asks for values of other types to be written, and at last hands over the bytes;
* a `BindProgram` asks for other types to be resolved, and at last offers an adapter or none.

What is absent from the requests matters as much: nothing here can see a slot number, the size of the
cache, or which adapter serves a type.
-/

namespace Telegram.Codec

/-- What a caller's adapter is told about the call. -/
structure Call where
  /-- Protocol version of the call. -/
  version : UInt32
  /-- Records entered so far. -/
  depth : Nat
  /-- How the value stands on the wire. -/
  format : FieldFormat

/-- A caller's way of reading. -/
inductive ReadProgram where
  | finish (reading : Reading)
  /-- Reads a value of some type from a buffer and goes on with the reading. -/
  | read (type : TypeExpr) (format : FieldFormat) (source : Bytes) (next : Reading → ReadProgram)

/-- A caller's way of writing. -/
inductive WriteProgram where
  | finish (writing : Writing)
  /-- Writes a value of some type and goes on with the bytes. -/
  | write (type : TypeExpr) (format : FieldFormat) (value : Option Value)
      (next : Writing → WriteProgram)

/-- An adapter of the caller's for values of one type. -/
structure CallerAdapter where
  type : TypeExpr
  read : Call → Bytes → ReadProgram
  write : Call → Option Value → WriteProgram

/-- An adapter that needs no other adapter's slot. -/
inductive Leaf where
  | scalar (scalar : Scalar)
  | caller (adapter : CallerAdapter)

/-- The type of the values that a leaf reads and writes. -/
def Leaf.type : Leaf → TypeExpr
  | .scalar s => .scalar s
  | .caller adapter => adapter.type

/-- Where an adapter came from. -/
inductive Origin where
  /-- A scalar or a container. -/
  | builtin
  /-- Registered by the caller. -/
  | custom
  /-- A record, or a family without an adapter of its own. -/
  | generic
  deriving DecidableEq, Repr

/-- What a factory puts forward. -/
structure Offer where
  origin : Origin
  leaf : Leaf

/-- A factory's way of choosing an adapter. -/
inductive BindProgram where
  | finish (offer : Except Error (Option Offer))
  /-- Has another type resolved first, and goes on whether or not that succeeded. -/
  | resolve (type : TypeExpr) (next : Except Error Unit → BindProgram)

/-- A factory of the caller's: asked for a type at a version, it offers an adapter or none. -/
abbrev Factory := UInt32 → TypeExpr → BindProgram

end Telegram.Codec
