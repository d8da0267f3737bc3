import Telegram.Decimal.Basic
import Telegram.TypeExpr

/-!
# Values

A value carries its outermost type (`Value.type`), so an adapter can tell whether it has been handed
one of its own. Integers are bit patterns of their type's width: every pattern is a number of the type,
and arithmetic on patterns wraps around.

A value of a family holds one of its alternatives. An alternative wraps a value of some other type, or
is `Value.bare`: it holds nothing that could be written in its place. `Value.concrete` is the type and
the value that stand for it on the wire.
-/

namespace Telegram

/-- A value of some wire type. -/
inductive Value where
  | int (type : IntType) (bits : BitVec type.bits)
  | bool (value : Bool)
  | text (value : String)
  | decimal (value : Decimal)
  /-- A caller's scalar, by the value it stores. -/
  | foreign (name : String) (content : Value)
  | none (element : TypeExpr)
  | some (element : TypeExpr) (content : Value)
  | sequence (container : Container) (element : TypeExpr) (items : List Value)
  /-- A record by its members, each with its name. -/
  | record (name : String) (members : List (String × Value))
  /-- An alternative of a family, wrapping a value. -/
  | variant (family label : String) (content : Value)
  /-- An alternative of a family that wraps nothing. -/
  | bare (family label : String)

namespace Value

/-- The type of a value. -/
def type : Value → TypeExpr
  | .int type _ => .scalar (.int type)
  | .bool _ => .scalar .bool
  | .text _ => .scalar .text
  | .decimal _ => .scalar .decimal
  | .foreign name _ => .foreign name
  | .none element | .some element _ => .optional element
  | .sequence container element _ => .sequence container element
  | .record name _ => .record name
  | .variant family _ _ | .bare family _ => .family family

/-- The number that a bit pattern stands for. -/
def intValue (type : IntType) (bits : BitVec type.bits) : Int :=
  if type.isSigned then bits.toInt else bits.toNat

/-- What stands for a value of a family on the wire. -/
def concrete : Value → Value
  | .variant _ _ content => content
  | value => value

mutual

/-- How many types and values a value mentions. -/
def weight : Value → Nat
  | .foreign _ content => content.weight + 1
  | .none element => element.weight + 1
  | .some element content => element.weight + content.weight + 1
  | .sequence _ element items => element.weight + weightList items + 1
  | .record _ members => weightMembers members + 1
  | .variant _ _ content => content.weight + 1
  | _ => 1

/-- The weight of the items of a sequence. -/
def weightList : List Value → Nat
  | [] => 0
  | item :: rest => item.weight + weightList rest

/-- The weight of the members of a record. -/
def weightMembers : List (String × Value) → Nat
  | [] => 0
  | (_, value) :: rest => value.weight + weightMembers rest

end

end Value

/-- The value of a member. -/
def member? (members : List (String × Value)) (name : String) : Option Value :=
  members.lookup name

/-- The members with one of them replaced. -/
def setMember (members : List (String × Value)) (name : String) (value : Value) :
    List (String × Value) :=
  members.map fun (key, old) => if key = name then (key, value) else (key, old)

/-- Builds a container from its elements, if it can hold that many. -/
def Container.ofItems? (container : Container) (element : TypeExpr) (items : List Value) :
    Option Value :=
  if container.accepts items.length then some (.sequence container element items) else none

end Telegram
