import Telegram.Proofs.Registry.Plan

/-!
# Types that factories leave alone

A factory is asked for every type that callers brought no adapter for, and most factories care for a few
types and pass over the others at once. What such a factory does elsewhere has no bearing on a call that
keeps to types of the second kind: resolving them, and reading and writing their values, goes as if the
factory were not there.

To keep to a set of types is more than to begin in it. A plan leads to the types that it needs, a caller's
adapter to those that its programs ask for, and a value to the types of the alternatives that it holds, as
each of these is written with its own adapter.

* `Value.alternatives` lists the last, and `Value.Within` says that they belong to a set.
* `Codec.ReadProgram.AsksWithin`, `Codec.WriteProgram.AsksWithin` and `Codec.CallerAdapter.AsksWithin` are
  about callers' programs, whatever these are answered. `Plan.Within` is about what a plan leads to.
* `Registry.Spares` is the assumption on a registry: a set of types that factories pass over and plans
  never lead out of. Without factories it holds of all types together (`Registry.spares_all`).
-/

namespace Telegram

open Codec

/-! ## Values

Writing a value begins with its type, and that type leads to the types of its parts as far as they are
declared. What is not declared anywhere is the alternative that a value of a family holds. So this is what
has to be known of a value in addition to its type. -/

namespace Value

mutual

/-- The types of the alternatives that a value holds, at any depth. -/
def alternatives : Value → List TypeExpr
  | .foreign _ content => content.alternatives
  | .some _ content => content.alternatives
  | .sequence _ _ items => alternativesList items
  | .record _ members => alternativesMembers members
  | .variant _ _ content => content.type :: content.alternatives
  | _ => []

/-- The alternatives in the items of a sequence. -/
def alternativesList : List Value → List TypeExpr
  | [] => []
  | item :: rest => item.alternatives ++ alternativesList rest

/-- The alternatives in the members of a record. -/
def alternativesMembers : List (String × Value) → List TypeExpr
  | [] => []
  | (_, value) :: rest => value.alternatives ++ alternativesMembers rest

end

/-- An item brings its alternatives into the sequence. -/
theorem alternatives_subset_list {item : Value} {items : List Value} (hmem : item ∈ items) :
    item.alternatives ⊆ alternativesList items := by
  induction items with
  | nil => cases hmem
  | cons first rest ih =>
    rw [alternativesList]
    rcases List.mem_cons.1 hmem with rfl | hrest
    · exact List.subset_append_left _ _
    · exact List.subset_append_of_subset_right _ (ih hrest)

/-- A member brings its alternatives into the record. -/
theorem alternatives_subset_members {name : String} {value : Value} {members : List (String × Value)}
    (hmem : (name, value) ∈ members) : value.alternatives ⊆ alternativesMembers members := by
  induction members with
  | nil => cases hmem
  | cons first rest ih =>
    obtain ⟨other, stored⟩ := first
    rw [alternativesMembers]
    rcases List.mem_cons.1 hmem with heq | hrest
    · obtain ⟨rfl, rfl⟩ := Prod.mk.inj heq
      exact List.subset_append_left _ _
    · exact List.subset_append_of_subset_right _ (ih hrest)

/-- Every alternative that the value holds is of one of these types. -/
def Within (Spared : TypeExpr → Prop) (value : Value) : Prop :=
  ∀ type ∈ value.alternatives, Spared type

variable {Spared : TypeExpr → Prop}

theorem within_all (value : Value) : value.Within fun _ => True :=
  fun _ _ => trivial

theorem Within.mem_some {value : Value} (h : value.Within Spared) :
    ∀ held ∈ Option.some value, held.Within Spared := by
  rintro held ⟨⟩
  exact h

/-- What stands for a value on the wire is within the set with it. -/
theorem Within.concrete {value : Value} (h : value.Within Spared) : value.concrete.Within Spared := by
  cases value with
  | variant family label content => exact fun type hmem => h type (List.mem_cons_of_mem _ hmem)
  | _ => exact h

/-- What stands for a value on the wire is of the value's own type, or of a type in the set. -/
theorem Within.concrete_type {value : Value} (h : value.Within Spared)
    (hheld : value.concrete.type ≠ value.type) : Spared value.concrete.type := by
  cases value with
  | variant family label content => exact h _ (List.mem_cons_self ..)
  | _ => exact absurd rfl hheld

theorem Within.content {element : TypeExpr} {content : Value}
    (h : (Value.some element content).Within Spared) : content.Within Spared :=
  h

theorem Within.item {container : Container} {element : TypeExpr} {items : List Value}
    (h : (Value.sequence container element items).Within Spared) {item : Value} (hmem : item ∈ items) :
    item.Within Spared :=
  fun type htype => h type (alternatives_subset_list hmem htype)

theorem Within.member {name key : String} {value : Value} {members : List (String × Value)}
    (h : (Value.record name members).Within Spared) (hmem : (key, value) ∈ members) : value.Within Spared :=
  fun type htype => h type (alternatives_subset_members hmem htype)

end Value

/-! ## Programs of callers

A program is a tree: it finishes, or makes a request and goes on by the answer. It stays within a set if
all its requests do, on every branch, as it can not be known here what it will be answered. -/

/-- The program asks for values of these types to be read and of no others, whatever it is answered. -/
def Codec.ReadProgram.AsksWithin (Spared : TypeExpr → Prop) : ReadProgram → Prop
  | .finish _ => True
  | .read type _ _ next => Spared type ∧ ∀ reading, (next reading).AsksWithin Spared

/-- The program asks for values of these types to be written and of no others, and so do the values by
what they hold. -/
def Codec.WriteProgram.AsksWithin (Spared : TypeExpr → Prop) : WriteProgram → Prop
  | .finish _ => True
  | .write type _ value next =>
    Spared type ∧ (∀ held ∈ value, held.Within Spared) ∧ ∀ writing, (next writing).AsksWithin Spared

/-- An adapter that never leads out of a set of types. What it writes of a value is the caller's choice,
so values that hold nothing else are all that it has to answer for. -/
structure Codec.CallerAdapter.AsksWithin (version : UInt32) (Spared : TypeExpr → Prop)
    (adapter : CallerAdapter) : Prop where
  read : ∀ depth format source, (adapter.read ⟨version, depth, format⟩ source).AsksWithin Spared
  write : ∀ depth format value, (∀ held ∈ value, held.Within Spared) →
    (adapter.write ⟨version, depth, format⟩ value).AsksWithin Spared

section Programs

variable {version : UInt32}

theorem asksWithin_all_read (program : ReadProgram) : program.AsksWithin fun _ => True := by
  induction program with
  | finish reading => trivial
  | read type format source next ih => exact ⟨trivial, ih⟩

theorem asksWithin_all_write (program : WriteProgram) : program.AsksWithin fun _ => True := by
  induction program with
  | finish writing => trivial
  | write type format value next ih => exact ⟨trivial, fun held _ => held.within_all, ih⟩

theorem asksWithin_all (adapter : CallerAdapter) : adapter.AsksWithin version fun _ => True :=
  ⟨fun _ _ _ => asksWithin_all_read _, fun _ _ _ _ => asksWithin_all_write _⟩

end Programs

/-! ## Plans

For a plan it is enough to look at its own references. That the types which it refers to stay within the
set as well is a matter of their own plans, and `Registry.Spares` asks it of all of them at once. -/

section Plans

variable {version : UInt32} {Spared : TypeExpr → Prop}

/-- What a field is read and written with stays within the set. -/
def Field.Within (version : UInt32) (Spared : TypeExpr → Prop) (field : Field) : Prop :=
  match field.adapter with
  | some adapter => adapter.AsksWithin version Spared
  | none => Spared field.type

/-- What a plan leads to stays within the set. -/
def Plan.Within (version : UInt32) (Spared : TypeExpr → Prop) : Plan → Prop
  | .leaf (.scalar _) | .family _ => True
  | .leaf (.caller adapter) => adapter.AsksWithin version Spared
  | .optional element | .sequence _ element => Spared element
  | .record _ fields => ∀ field ∈ fields, field.Within version Spared

theorem Field.within_of_type {field : Field} (hadapter : field.adapter = none) (htype : Spared field.type) :
    field.Within version Spared := by
  rw [Field.Within, hadapter]
  exact htype

theorem Field.within_all (field : Field) : field.Within version fun _ => True := by
  unfold Field.Within
  split
  · exact asksWithin_all _
  · trivial

theorem Plan.within_all (plan : Plan) : plan.Within version fun _ => True := by
  cases plan with
  | leaf l =>
    cases l with
    | scalar s => trivial
    | caller adapter => exact asksWithin_all adapter
  | record schema fields => exact fun field _ => field.within_all
  | _ => trivial

/-- The types that a plan needs are among those that it leads to. -/
theorem Plan.Within.needs {plan : Plan} (h : plan.Within version Spared) :
    ∀ need ∈ plan.needs, Spared need := by
  intro need hneed
  cases plan with
  | leaf l | family name => cases hneed
  | optional element | sequence container element => exact List.mem_singleton.1 hneed ▸ h
  | record schema fields =>
    obtain ⟨field, hfield, hneed⟩ := List.mem_flatMap.1 hneed
    have hwithin := h field hfield
    cases hadapter : field.adapter with
    | some adapter =>
      rw [Field.needs, hadapter] at hneed
      cases hneed
    | none =>
      simp only [Field.needs, hadapter, List.mem_singleton] at hneed
      simp only [Field.Within, hadapter] at hwithin
      exact hneed ▸ hwithin

end Plans

/-! ## Registries

Two things make a set of types spared. Factories pass over each type in it, and the set is closed under
plans. By the second, the first holds of everything that a call comes to. -/

namespace Registry

/-- Every factory passes over the type, and asks for no other before it does. -/
def PassesOver (registry : Registry) (version : UInt32) (type : TypeExpr) : Prop :=
  ∀ factory ∈ registry.factories, factory version type = .finish (.ok none)

/-- A set of types in which factories have no hand: they pass over each of its types, and no plan of its
types leads out of it, so a call that begins in it never asks a factory for anything else. -/
structure Spares (registry : Registry) (version : UInt32) (Spared : TypeExpr → Prop) : Prop where
  passesOver : ∀ type, Spared type → registry.PassesOver version type
  within : ∀ type plan, Spared type → registry.plan? version type = some plan → plan.Within version Spared

variable {registry : Registry} {version : UInt32}

theorem passesOver_of_nil (hfactories : registry.factories = []) (type : TypeExpr) :
    registry.PassesOver version type := by
  intro factory hmem
  rw [hfactories] at hmem
  cases hmem

/-- Without factories, all types are spared. -/
theorem spares_all (hfactories : registry.factories = []) : registry.Spares version fun _ => True :=
  ⟨fun type _ => passesOver_of_nil hfactories type, fun _ plan _ _ => plan.within_all⟩

end Registry

end Telegram
