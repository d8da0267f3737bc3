/-!
# Types of wire values

A type is a scalar, a record or a family known by name, or a container of another type.

* `IntType` are the fixed-width integers.
* `Scalar` are the types that come with a way of reading and writing them.
* `Container` are the shapes of sequences. An array has its length in its type; lists and deques take
  theirs from the field they stand in.
* `TypeExpr` puts them together. A *family* is a closed set of alternatives, and a *foreign* type is a
  scalar of the caller's that only the caller can read and write.
-/

namespace Telegram

/-- The integers of a fixed width. -/
inductive IntType where
  | u8 | i8 | u16 | i16 | u32 | i32 | u64 | i64
  deriving DecidableEq, Repr

namespace IntType

/-- Bytes that a number of this type takes. -/
def bytes : IntType → Nat
  | .u8 | .i8 => 1
  | .u16 | .i16 => 2
  | .u32 | .i32 => 4
  | .u64 | .i64 => 8

/-- Bits that a number of this type takes. -/
def bits (t : IntType) : Nat :=
  8 * t.bytes

/-- The type has negative numbers. -/
def isSigned : IntType → Bool
  | .i8 | .i16 | .i32 | .i64 => true
  | .u8 | .u16 | .u32 | .u64 => false

def name : IntType → String
  | .u8 => "u8"
  | .i8 => "i8"
  | .u16 => "u16"
  | .i16 => "i16"
  | .u32 => "u32"
  | .i32 => "i32"
  | .u64 => "u64"
  | .i64 => "i64"

end IntType

/-- The types with a built-in way of reading and writing. -/
inductive Scalar where
  | int (type : IntType)
  | bool
  | text
  | decimal
  deriving DecidableEq, Repr

def Scalar.name : Scalar → String
  | .int type => type.name
  | .bool => "bool"
  | .text => "str"
  | .decimal => "decimal"

/-- The shapes of sequences. -/
inductive Container where
  | list
  | deque
  | array (size : Nat)
  deriving DecidableEq, Repr

namespace Container

def name : Container → String
  | .list => "vec"
  | .deque => "deque"
  | .array size => s!"arr{size}"

/-- The number of elements, where the type fixes it. -/
def size? : Container → Option Nat
  | .array size => some size
  | _ => none

/-- The container can hold that many elements. -/
def accepts (container : Container) (count : Nat) : Bool :=
  container.size?.all (· == count)

end Container

/-- The types of wire values. -/
inductive TypeExpr where
  | scalar (scalar : Scalar)
  | foreign (name : String)
  | record (name : String)
  | family (name : String)
  | optional (element : TypeExpr)
  | sequence (container : Container) (element : TypeExpr)
  deriving DecidableEq, Repr

namespace TypeExpr

/-- The type as messages write it. -/
def name : TypeExpr → String
  | .scalar s => s.name
  | .foreign name | .record name | .family name => name
  | .optional element => "opt<" ++ element.name ++ ">"
  | .sequence container element => container.name ++ "<" ++ element.name ++ ">"

/-- What kind of type it is. -/
def shape : TypeExpr → String
  | .scalar _ | .foreign _ => "scalar"
  | .record _ => "record"
  | .family _ => "polymorphic"
  | .optional _ => "optional"
  | .sequence .. => "sequence"

/-- The type is a family of alternatives. -/
def isFamily : TypeExpr → Bool
  | .family _ => true
  | _ => false

/-- The type of what a container holds. -/
def element? : TypeExpr → Option TypeExpr
  | .optional element | .sequence _ element => some element
  | _ => none

/-- The number of elements, where the type fixes it. -/
def size? : TypeExpr → Option Nat
  | .sequence container _ => container.size?
  | _ => none

/-- A text, bare or behind optionals. -/
def holdsText : TypeExpr → Bool
  | .scalar .text => true
  | .optional element => element.holdsText
  | _ => false

/-- How many types the expression is built from. -/
def weight : TypeExpr → Nat
  | .optional element | .sequence _ element => element.weight + 1
  | _ => 1

end TypeExpr

end Telegram
