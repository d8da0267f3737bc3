import Mathlib.Data.List.Forall2
import Telegram.Registry.Resolution

/-!
# Plans

Which adapter serves a type can be told from the registry alone, without any slot: a `Plan` is a `Wiring`
with types where the wiring has slots.

* `Registry.plan?` is the plan of a type at a version, if anything can read and write it.
* `Plan.needs` lists the types whose adapters it uses, in the order in which they are asked for.
* `Plan.Wired` says that a wiring carries a plan out, by way of the slots that other types have.
* `Registry.lacking?` follows the needs depth first and finds the first type without a plan. A type met
  again below itself is not entered twice.

Factories have no part in a plan: for the types that they leave alone, and so for all types of a registry
without factories, nothing but the type and the version decides.
-/

namespace Telegram

open Codec

/-! ## Plans of types

An adapter names the adapters it works with by slots, and which slots these are depends on everything that
was resolved before. A plan names them by types. Two tables that were come by differently have the same
plans and different wirings, so whatever is shown of plans holds of all of them at once. -/

/-- How an adapter works, with types in place of slots. It depends on the registry only, where the wiring
of an adapter depends on the table that it was built into as well. So a plan is what two tables can be
compared by. -/
inductive Plan where
  | leaf (leaf : Leaf)
  | optional (element : TypeExpr)
  | sequence (container : Container) (element : TypeExpr)
  | family (name : String)
  | record (schema : Schema) (fields : List Field)

/-- The type whose adapter a field uses, unless it has one of its own. -/
def Field.needs (field : Field) : List TypeExpr :=
  match field.adapter with
  | some _ => []
  | none => [field.type]

namespace Plan

/-- Where the adapter comes from. -/
def origin : Plan → Origin
  | .leaf (.scalar _) | .optional _ | .sequence .. => .builtin
  | .leaf (.caller _) => .custom
  | .family _ | .record .. => .generic

/-- The type of the values that are read and written. -/
def type : Plan → TypeExpr
  | .leaf l => l.type
  | .optional element => .optional element
  | .sequence container element => .sequence container element
  | .family name => .family name
  | .record schema _ => schema.type

/-- The types whose adapters are used. -/
def needs : Plan → List TypeExpr
  | .leaf _ | .family _ => []
  | .optional element | .sequence _ element => [element]
  | .record _ fields => fields.flatMap Field.needs

end Plan

namespace Registry

/-- The plan of a type that callers brought no adapter for. -/
def builtinPlan? (registry : Registry) (version : UInt32) : TypeExpr → Option Plan
  | .scalar s => some (.leaf (.scalar s))
  | .foreign _ => none
  | .optional element => some (.optional element)
  | .sequence container element => some (.sequence container element)
  | .family name => some (.family name)
  | .record name =>
    (registry.schema? (.record name)).map fun schema => .record schema (schema.fieldsAt version)

/-- The plan of a type at a version. A caller's adapter comes before what the library has. -/
def plan? (registry : Registry) (version : UInt32) (type : TypeExpr) : Option Plan :=
  match registry.adapter? type with
  | some adapter => some (.leaf (.caller adapter))
  | none => registry.builtinPlan? version type

theorem plan?_of_adapter? {registry : Registry} {version : UInt32} {type : TypeExpr}
    {adapter : CallerAdapter} (hadapter : registry.adapter? type = some adapter) :
    registry.plan? version type = some (.leaf (.caller adapter)) := by
  simp only [plan?, hadapter]

theorem plan?_of_no_adapter? {registry : Registry} {version : UInt32} {type : TypeExpr}
    (hadapter : registry.adapter? type = none) :
    registry.plan? version type = registry.builtinPlan? version type := by
  simp only [plan?, hadapter]

/-- The adapter of a type is one for that type. -/
theorem type_of_adapter? {registry : Registry} {type : TypeExpr} {adapter : CallerAdapter}
    (hadapter : registry.adapter? type = some adapter) : adapter.type = type := by
  have hfound := List.find?_some hadapter
  exact of_decide_eq_true hfound

/-- **A plan is one for its type.** -/
theorem type_of_plan? {registry : Registry} {version : UInt32} {type : TypeExpr} {plan : Plan}
    (hplan : registry.plan? version type = some plan) : plan.type = type := by
  cases hadapter : registry.adapter? type with
  | some adapter =>
    rw [plan?_of_adapter? hadapter] at hplan
    obtain rfl := Option.some.inj hplan
    exact type_of_adapter? hadapter
  | none =>
    rw [plan?_of_no_adapter? hadapter] at hplan
    cases type with
    | foreign name => cases hplan
    | record name =>
      obtain ⟨schema, hschema, rfl⟩ := Option.map_eq_some_iff.1 hplan
      have hfound := List.find?_some hschema
      exact of_decide_eq_true hfound
    | _ =>
      obtain rfl := Option.some.inj hplan
      rfl

end Registry

/-! ## Wirings that carry a plan out

The relation between the two is said with a function from types to slots and not with a table. It is used
with the slots of a table between calls, and with those of a resolution under way, where some are still
empty. All that it needs of either is which slot a type has, so it stays true when more types are given
slots. -/

/-- A bound field uses its own adapter, or the slot that its type has. The field itself is kept in
the wiring with what it is bound to, as its name and format are needed at each transfer. -/
inductive Field.Bound (slotOf : TypeExpr → Option Nat) : Field → BoundField → Prop where
  | own {field : Field} {adapter : CallerAdapter} (hadapter : field.adapter = some adapter) :
      Bound slotOf field ⟨field, .own adapter⟩
  | slot {field : Field} {slot : Nat} (hadapter : field.adapter = none)
      (hslot : slotOf field.type = some slot) : Bound slotOf field ⟨field, .slot slot⟩

/-- A wiring carries a plan out: it has the slots of the types that the plan needs. Nothing else of the
two may differ, so a wiring is determined by its plan once the slots of types are known. -/
inductive Plan.Wired (slotOf : TypeExpr → Option Nat) : Plan → Wiring → Prop where
  | leaf (leaf : Leaf) : Wired slotOf (.leaf leaf) (.leaf leaf)
  | optional {element : TypeExpr} {slot : Nat} (hslot : slotOf element = some slot) :
      Wired slotOf (.optional element) (.optional element slot)
  | sequence (container : Container) {element : TypeExpr} {slot : Nat}
      (hslot : slotOf element = some slot) :
      Wired slotOf (.sequence container element) (.sequence container element slot)
  | family (name : String) : Wired slotOf (.family name) (.family name)
  | record (schema : Schema) {fields : List Field} {bounds : List BoundField}
      (hfields : List.Forall₂ (Field.Bound slotOf) fields bounds) :
      Wired slotOf (.record schema fields) (.record schema bounds)

section Wired

variable {slotOf slotOf' : TypeExpr → Option Nat}

theorem Field.Bound.mono (hle : ∀ type slot, slotOf type = some slot → slotOf' type = some slot)
    {field : Field} {bound : BoundField} (h : field.Bound slotOf bound) :
    field.Bound slotOf' bound := by
  cases h with
  | own hadapter => exact .own hadapter
  | slot hadapter hslot => exact .slot hadapter (hle _ _ hslot)

/-- **A wiring stays good** when more types have slots. -/
theorem Plan.Wired.mono (hle : ∀ type slot, slotOf type = some slot → slotOf' type = some slot)
    {plan : Plan} {wiring : Wiring} (h : plan.Wired slotOf wiring) : plan.Wired slotOf' wiring := by
  cases h with
  | leaf l => exact .leaf l
  | optional hslot => exact .optional (hle _ _ hslot)
  | sequence container hslot => exact .sequence container (hle _ _ hslot)
  | family name => exact .family name
  | record schema hfields =>
    exact .record schema (hfields.imp fun _ _ hbound => hbound.mono hle)

theorem Plan.Wired.type_eq {plan : Plan} {wiring : Wiring} (h : plan.Wired slotOf wiring) :
    wiring.type = plan.type := by
  cases h <;> rfl

/-- Where a field is bound, the types it needs have slots. -/
theorem Field.Bound.exists_slot {field : Field} {bound : BoundField}
    (h : field.Bound slotOf bound) : ∀ need ∈ field.needs, ∃ slot, slotOf need = some slot := by
  intro need hneed
  cases h with
  | own hadapter =>
    simp only [Field.needs, hadapter, List.not_mem_nil] at hneed
  | slot hadapter hslot =>
    simp only [Field.needs, hadapter, List.mem_singleton] at hneed
    exact ⟨_, hneed ▸ hslot⟩

/-- Where a plan is carried out, the types it needs have slots. -/
theorem Plan.Wired.exists_slot {plan : Plan} {wiring : Wiring} (h : plan.Wired slotOf wiring) :
    ∀ need ∈ plan.needs, ∃ slot, slotOf need = some slot := by
  intro need hneed
  cases h with
  | leaf l => cases hneed
  | optional hslot => exact ⟨_, List.mem_singleton.1 hneed ▸ hslot⟩
  | sequence container hslot => exact ⟨_, List.mem_singleton.1 hneed ▸ hslot⟩
  | family name => cases hneed
  | record schema hfields =>
    simp only [Plan.needs] at hneed
    induction hfields with
    | nil => cases hneed
    | cons hbound _ ih =>
      rw [List.flatMap_cons, List.mem_append] at hneed
      exact hneed.elim (hbound.exists_slot need) ih

end Wired

/-- An adapter is the one that the registry has for a type at a version, with the slots that other types
have at that version. -/
def Registry.Serves (registry : Registry) (slotOf : TypeExpr → Option Nat) (version : UInt32)
    (type : TypeExpr) (adapter : Adapter) : Prop :=
  ∃ plan, registry.plan? version type = some plan ∧ plan.Wired slotOf adapter.wiring ∧
    adapter.origin = plan.origin

theorem Registry.Serves.mono {registry : Registry} {slotOf slotOf' : TypeExpr → Option Nat}
    (hle : ∀ type slot, slotOf type = some slot → slotOf' type = some slot) {version : UInt32}
    {type : TypeExpr} {adapter : Adapter} (h : registry.Serves slotOf version type adapter) :
    registry.Serves slotOf' version type adapter := by
  obtain ⟨plan, hplan, hwired, horigin⟩ := h
  exact ⟨plan, hplan, hwired.mono hle, horigin⟩

/-! ## Types without a plan

A resolution fails at the first type for which nothing can build an adapter. Which type this is can be
told without running it, by following plans in the order in which adapters ask for each other. -/

namespace Registry

/-- The first type without a plan that is met when the needs of `type` are followed depth first, at most
`fuel` deep and not into the types that are being followed already.

The types being followed are those of the resolution that are in flight. A type met below itself is
answered with the slot reserved for it, so nothing can be found missing there that is not found on the way
back up. `fuel` makes the definition structural, and the fuel of a resolution is enough. -/
def lacking? (registry : Registry) (version : UInt32) : Nat → List TypeExpr → TypeExpr → Option TypeExpr
  | 0, _, _ => none
  | fuel + 1, inFlight, type =>
    if type ∈ inFlight then none
    else match registry.plan? version type with
      | none => some type
      | some plan => plan.needs.findSome? (registry.lacking? version fuel (type :: inFlight))

/-- A type that is being followed is not followed again. -/
theorem lacking?_of_mem {registry : Registry} {version : UInt32} {inFlight : List TypeExpr}
    {type : TypeExpr} (hmem : type ∈ inFlight) (fuel : Nat) :
    registry.lacking? version fuel inFlight type = none := by
  cases fuel with
  | zero => rfl
  | succ fuel => rw [lacking?, if_pos hmem]

/-- **Nothing is lacking below a closed set of types**: if each of them has a plan or is being followed,
and needs only types of the set, then no need of theirs ends at a type without a plan. -/
theorem lacking?_eq_none {registry : Registry} {version : UInt32} {inFlight : List TypeExpr}
    (Known : TypeExpr → Prop)
    (hclosed : ∀ type, Known type → type ∉ inFlight →
      ∃ plan, registry.plan? version type = some plan ∧ ∀ need ∈ plan.needs, Known need) :
    ∀ (fuel : Nat) (type : TypeExpr), Known type →
      registry.lacking? version fuel inFlight type = none := by
  -- the search goes on with more types being followed, so the claim is made of every longer list
  suffices hany : ∀ (fuel : Nat) (deeper : List TypeExpr) (type : TypeExpr),
      (∀ other ∈ inFlight, other ∈ deeper) → Known type →
        registry.lacking? version fuel deeper type = none from
    fun fuel type hknown => hany fuel inFlight type (fun _ h => h) hknown
  intro fuel
  induction fuel with
  | zero =>
    intro deeper type _ _
    rfl
  | succ fuel ih =>
    intro deeper type hdeeper hknown
    by_cases hmem : type ∈ deeper
    · exact lacking?_of_mem hmem _
    · obtain ⟨plan, hplan, hneeds⟩ := hclosed type hknown fun h => hmem (hdeeper type h)
      simp only [lacking?, if_neg hmem, hplan, List.findSome?_eq_none_iff]
      intro need hneed
      exact ih _ need (fun other h => List.mem_cons_of_mem _ (hdeeper other h)) (hneeds need hneed)

end Registry

end Telegram
