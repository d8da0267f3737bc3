import Telegram.Codec.Program

/-!
# Record schemas

A schema lists the fields of a record in wire order. Each field is bound to a member of the record;
several fields may share one. `Schema.fault?` is what registration checks:

* every field format can be applied at some version;
* an array field does not ask for another number of elements than its type has;
* no other sequence field asks for more elements than the registry allows;
* no text is repeated without a length.
-/

namespace Telegram

open Codec

/-- One field of a record. -/
structure Field where
  name : String
  /-- The member that the field carries. -/
  member : String
  /-- The type of that member. -/
  type : TypeExpr
  format : FieldFormat
  /-- The adapter used for this field alone, instead of the type's own. -/
  adapter : Option CallerAdapter

/-- The wire layout of a record type. -/
structure Schema where
  type : TypeExpr
  fields : List Field
  /-- The members of an instance before any field is read. -/
  initial : List (String × Value)

namespace Field

/-- What is wrong with the number of elements that a sequence field asks for. -/
def lengthFault? (field : Field) (maxLength : Nat) : Option Error :=
  let length := field.format.length
  match field.type with
  | .sequence container _ =>
    match container.size? with
    | some size =>
      if length ≠ 0 ∧ length ≠ size then some (.unsupportedLength field.type length) else none
    | none =>
      if maxLength < length then some (.invalidSchema (.sequenceTooLong length maxLength)) else none
  | _ => none

/-- The field repeats a text that has no length. -/
def repeatsUnsizedText (field : Field) : Bool :=
  match field.type with
  | .sequence container element =>
    0 < container.size?.getD field.format.length && field.format.element.length == 0 &&
      element.holdsText
  | _ => false

/-- Names the field in a schema fault. -/
def located (record : TypeExpr) (field : Field) : Error → Error
  | .invalidSchema fault => .invalidSchema (.inField record field.name fault)
  | error => error

/-- What keeps the field from being registered. -/
def fault? (record : TypeExpr) (maxLength : Nat) (field : Field) : Option Error :=
  let fault := (field.format.fault?.map fun fault => .invalidSchema (.format fault))
    <|> field.lengthFault? maxLength
    <|> if field.repeatsUnsizedText then some (.invalidSchema .unsizedText) else none
  fault.map (field.located record)

end Field

namespace Schema

/-- The first fault of the fields. -/
def fault? (schema : Schema) (maxLength : Nat) : Option Error :=
  schema.fields.findSome? (Field.fault? schema.type maxLength)

/-- The fields that are on the wire at a version. -/
def fieldsAt (schema : Schema) (version : UInt32) : List Field :=
  schema.fields.filter fun field => field.format.appliesAt version

end Schema

end Telegram
