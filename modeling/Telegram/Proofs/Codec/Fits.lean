import Telegram.Proofs.Codec.History
import Telegram.Proofs.Scalar.Number
import Telegram.Proofs.Scalar.Text

/-!
# Values that survive the wire

Nothing on the wire says what a value is or how long it is, so only some values can be read back. In a
registry of record schemas alone, `Registry.Fits` says which: it goes through the value, with the format
that is handed down to each part of it.

* `Value.FitsScalar` is about scalars. `Scalar.read_write` puts their round trips together.
* An optional has to hold something, as nothing is written in its place when it does not.
* A sequence has as many elements as the reader will look for.
* A record is not nested too deep, holds what its fields carry, and elsewhere what it begins with.

A sequence that takes no bytes reads as absent from an empty buffer. `Registry.Takes` tells from the type
and the format whether any bytes are taken; where none are, an optional may not hold the sequence, and a
record has to begin with it.
-/

namespace Telegram

open Codec

/-! ## Scalars

For each kind of scalar, what is lost is known from its own round trip. Here these conditions are put side
by side, so that records need not know which scalars they carry. -/

/-- A scalar that its field holds without loss. -/
inductive Value.FitsScalar (format : FieldFormat) : Value → Prop where
  | int {type : IntType} {bits : BitVec type.bits} (h : type.Fits format bits) :
      FitsScalar format (.int type bits)
  | bool (value : Bool) : FitsScalar format (.bool value)
  | text {value : String} (h : Text.Fits format value) : FitsScalar format (.text value)
  | decimal {value : Decimal} (h : value.Fits format) : FitsScalar format (.decimal value)

/-- **A scalar that fits is read back**, and whatever follows it stays unread. -/
theorem Scalar.read_write {format : FieldFormat} {value : Value} (h : value.FitsScalar format) :
    ∃ (scalar : Scalar) (bytes : Bytes), value.type = .scalar scalar ∧ value.concrete = value ∧
      bytes ≠ [] ∧ scalar.write format (some value) = .done bytes ∧
        ∀ rest, scalar.read format (bytes ++ rest) = .found value rest := by
  cases h with
  | @int type bits h =>
    obtain ⟨bytes, hnonempty, hwrite, hread⟩ := IntType.read_write h
    refine ⟨.int type, bytes, rfl, rfl, hnonempty, ?_, hread⟩
    simp only [Scalar.write, Option.bind_some, Value.bits?, dite_true]
    exact hwrite
  | bool value =>
    refine ⟨.bool, [if value then 1 else 0], rfl, rfl, nofun, rfl, fun rest => ?_⟩
    cases value <;> rfl
  | @text value h =>
    obtain ⟨bytes, hnonempty, hwrite, hread⟩ := Text.read_write h
    exact ⟨.text, bytes, rfl, rfl, hnonempty, hwrite, hread⟩
  | @decimal value h =>
    obtain ⟨bytes, hnonempty, hwrite, hread⟩ := Decimal.read_write h
    exact ⟨.decimal, bytes, rfl, rfl, hnonempty, hwrite, hread⟩

/-! ## Values

The conditions follow the value, and the format is handed down as the codec hands it down: an element has
the format of its sequence with the length of elements in place of the length. Depth counts the records
around the value. -/

/-- The type is a sequence. -/
def TypeExpr.isSequence : TypeExpr → Bool
  | .sequence .. => true
  | _ => false

namespace Registry

/-- Nothing but record schemas was registered. Then every step of a transfer is known, as callers have put
no program of their own in its way. -/
structure SchemasOnly (registry : Registry) : Prop where
  adapters_eq : registry.adapters = []
  factories_eq : registry.factories = []
  /-- No field has an adapter of its own. -/
  adapter_eq : ∀ schema ∈ registry.schemas, ∀ field ∈ schema.fields, field.adapter = none

/-- Values of the type take at least one byte in the format. What takes no bytes can not be told from what
is missing at the end of a buffer, where an optional would read as absent. -/
inductive Takes (registry : Registry) (version : UInt32) : FieldFormat → TypeExpr → Prop where
  | scalar (format : FieldFormat) (scalar : Scalar) : Takes registry version format (.scalar scalar)
  | optional {format : FieldFormat} {element : TypeExpr} (h : Takes registry version format element) :
      Takes registry version format (.optional element)
  | sequence {format : FieldFormat} {container : Container} {element : TypeExpr}
      (hcount : container.size?.getD format.length ≠ 0)
      (h : Takes registry version format.element element) :
      Takes registry version format (.sequence container element)
  | record {format : FieldFormat} {name : String} {schema : Schema} {field : Field}
      (hschema : registry.schema? (.record name) = some schema) (hfield : field ∈ schema.fieldsAt version)
      (h : Takes registry version field.format field.type) : Takes registry version format (.record name)

/-- The value can be written, `depth` records deep, and be read back. It follows the value, with a
condition for each part in the format that the part is carried in. Members that no field carries have to
be as they are when a value is built. -/
inductive Fits (registry : Registry) (version : UInt32) : Nat → FieldFormat → Value → Prop where
  | scalar {depth : Nat} {format : FieldFormat} {value : Value} (h : value.FitsScalar format) :
      Fits registry version depth format value
  | optional {depth : Nat} {format : FieldFormat} {element : TypeExpr} {content : Value}
      (htype : content.type = element)
      (htakes : element.isSequence = true → registry.Takes version format element)
      (h : Fits registry version depth format content) :
      Fits registry version depth format (.some element content)
  | sequence {depth : Nat} {format : FieldFormat} {container : Container} {element : TypeExpr}
      {items : List Value} (hcount : items.length = container.size?.getD format.length)
      (htype : ∀ item ∈ items, item.type = element)
      (h : ∀ item ∈ items, Fits registry version depth format.element item) :
      Fits registry version depth format (.sequence container element items)
  | record {depth : Nat} {format : FieldFormat} {name : String} {schema : Schema}
      {members : List (String × Value)} (hdepth : depth < registry.limits.maxDepth)
      (hschema : registry.schema? (.record name) = some schema)
      (hnames : members.map Prod.fst = schema.initial.map Prod.fst)
      (hnodup : (members.map Prod.fst).Nodup)
      (hcarried : ∀ field ∈ schema.fieldsAt version, ∃ value,
        member? members field.member = some value ∧ value.type = field.type)
      (h : ∀ field ∈ schema.fieldsAt version, ∀ value, member? members field.member = some value →
        Fits registry version (depth + 1) field.format value)
      (hempty : ∀ field ∈ schema.fieldsAt version, field.type.isSequence = true →
        ¬ registry.Takes version field.format field.type →
          member? schema.initial field.member = member? members field.member)
      (hinitial : ∀ name, (∀ field ∈ schema.fieldsAt version, field.member ≠ name) →
        member? schema.initial name = member? members name) :
      Fits registry version depth format (.record name members)

end Registry

/-! ## Members

The members of a record are a list of names with values. They are looked up by name, but records are
compared as lists, so reading one back also has to give its members in order. -/

section Members

variable {members : List (String × Value)}

theorem setMember_names (name : String) (value : Value) :
    (setMember members name value).map Prod.fst = members.map Prod.fst := by
  rw [setMember, List.map_map]
  refine List.map_congr_left fun entry _ => ?_
  simp only [Function.comp_apply]
  split <;> rfl

theorem member?_setMember_self {name : String} {value : Value} (h : name ∈ members.map Prod.fst) :
    member? (setMember members name value) name = some value := by
  induction members with
  | nil => cases h
  | cons entry rest ih =>
    obtain ⟨key, old⟩ := entry
    by_cases heq : key = name
    · subst heq
      simp [setMember, member?]
    · have hne : (name == key) = false := beq_false_of_ne fun h => heq h.symm
      simp only [setMember, member?, List.map_cons, if_neg heq, List.lookup_cons, hne] at ih ⊢
      exact ih ((List.mem_cons.1 h).resolve_left fun h => heq h.symm)

theorem member?_setMember_of_ne {name other : String} (hne : other ≠ name) (value : Value) :
    member? (setMember members name value) other = member? members other := by
  induction members with
  | nil => rfl
  | cons entry rest ih =>
    obtain ⟨key, old⟩ := entry
    simp only [setMember, member?, List.map_cons] at ih ⊢
    by_cases heq : key = name
    · subst heq
      rw [if_pos rfl, List.lookup_cons, List.lookup_cons, beq_false_of_ne hne]
      exact ih
    · rw [if_neg heq, List.lookup_cons, List.lookup_cons]
      split
      · rfl
      · exact ih

/-- **Records are told apart by their members**: with the same names in the same order, the same member
under every name is the same record. -/
theorem members_ext {others : List (String × Value)} (hnodup : (members.map Prod.fst).Nodup)
    (hnames : others.map Prod.fst = members.map Prod.fst)
    (h : ∀ name, member? others name = member? members name) : others = members := by
  induction members generalizing others with
  | nil => exact List.map_eq_nil_iff.1 hnames
  | cons entry rest ih =>
    obtain ⟨name, value⟩ := entry
    cases others with
    | nil => cases hnames
    | cons entry' rest' =>
      obtain ⟨name', value'⟩ := entry'
      obtain ⟨hname, hnames'⟩ := List.cons.inj hnames
      rw [List.map_cons, List.nodup_cons] at hnodup
      obtain rfl : name' = name := hname
      have hvalue : value' = value := by
        have hself := h name'
        simp only [member?, List.lookup_cons_self] at hself
        exact Option.some.inj hself
      have hrest : rest' = rest := by
        refine ih hnodup.2 hnames' fun other => ?_
        by_cases heq : other = name'
        · subst heq
          have hnone : ∀ list : List (String × Value), list.map Prod.fst = rest.map Prod.fst →
              member? list other = none :=
            fun list hlist => lookup_eq_none_iff_not_mem.2 (hlist ▸ hnodup.1)
          rw [hnone rest' hnames', hnone rest rfl]
        · have hother := h other
          simp only [member?, List.lookup_cons, beq_false_of_ne heq] at hother
          exact hother
      rw [hvalue, hrest]

end Members

end Telegram
