import Telegram.Proofs.Registry.Reach

/-!
# Registries without the fields of other versions

`Registry.prunedAt` takes out of every schema the fields that are not on the wire at a version. What is
known of types at that version stays the same.

* `Registry.plan?_prunedAt`: plans are the same but for the fields that the schema in them lists.
* `Registry.missing?_prunedAt`: the same type is found missing, if any. The two searches have different
  fuel, so this goes by what they search for, `Registry.FirstLacking`.
-/

namespace Telegram

/-- The schema without the fields that are not on the wire at the version. -/
def Schema.prunedAt (schema : Schema) (version : UInt32) : Schema :=
  { schema with fields := schema.fieldsAt version }

/-- The plan with its schema pruned. -/
def Plan.prunedAt (version : UInt32) : Plan → Plan
  | .record schema fields => .record (schema.prunedAt version) fields
  | plan => plan

/-- The registry without any field that is not on the wire at the version. -/
def Registry.prunedAt (registry : Registry) (version : UInt32) : Registry :=
  { registry with schemas := registry.schemas.map fun schema => schema.prunedAt version }

/-- Pruning takes nothing away that is on the wire. -/
@[simp] theorem Schema.fieldsAt_prunedAt (schema : Schema) (version : UInt32) :
    (schema.prunedAt version).fieldsAt version = schema.fieldsAt version := by
  simp only [Schema.fieldsAt, Schema.prunedAt, List.filter_filter, Bool.and_self]

section Plan

variable (version : UInt32) (plan : Plan)

@[simp] theorem Plan.needs_prunedAt : (plan.prunedAt version).needs = plan.needs := by
  cases plan <;> rfl

@[simp] theorem Plan.type_prunedAt : (plan.prunedAt version).type = plan.type := by
  cases plan <;> rfl

@[simp] theorem Plan.origin_prunedAt : (plan.prunedAt version).origin = plan.origin := by
  cases plan <;> rfl

end Plan

namespace Registry

variable {registry registry' : Registry} {version : UInt32} {above : List TypeExpr}
  {type other missing : TypeExpr}

/-! ## The same plans

A plan holds two things that schemas decide: the fields on the wire, and the schema itself with the
members that a record begins with. The first are the same after pruning, since filtering twice is
filtering once. The second differs in its list of fields, which nothing looks at once the plan is made. -/

theorem schema?_prunedAt (registry : Registry) (version : UInt32) (type : TypeExpr) :
    (registry.prunedAt version).schema? type =
      (registry.schema? type).map fun schema => schema.prunedAt version := by
  simp only [schema?, prunedAt, List.find?_map]
  rfl

/-- **The plans are the same**, but for the fields that the schema of a record lists. -/
theorem plan?_prunedAt (registry : Registry) (version : UInt32) (type : TypeExpr) :
    (registry.prunedAt version).plan? version type =
      (registry.plan? version type).map (Plan.prunedAt version) := by
  have hadapter : (registry.prunedAt version).adapter? type = registry.adapter? type := rfl
  cases hcustom : registry.adapter? type with
  | some adapter =>
    rw [plan?_of_adapter? (hadapter.trans hcustom), plan?_of_adapter? hcustom]
    rfl
  | none =>
    rw [plan?_of_no_adapter? (hadapter.trans hcustom), plan?_of_no_adapter? hcustom]
    cases type with
    | record name =>
      rw [builtinPlan?, builtinPlan?, schema?_prunedAt]
      cases registry.schema? (.record name) with
      | none => rfl
      | some schema =>
        simp only [Option.map_some, Schema.fieldsAt_prunedAt]
        rfl
    | _ => rfl

theorem needs_prunedAt (registry : Registry) (version : UInt32) (type : TypeExpr) :
    (registry.prunedAt version).needs version type = registry.needs version type := by
  rw [needs, needs, plan?_prunedAt]
  cases registry.plan? version type with
  | none => rfl
  | some plan => exact plan.needs_prunedAt version

theorem hasAdapter_prunedAt_iff : (registry.prunedAt version).HasAdapter type ↔ registry.HasAdapter type := by
  have hpruned : (registry.prunedAt version).HasAdapter type ↔
      ∃ plan, (registry.prunedAt version).plan? version type = some plan := hasAdapter_iff
  have hplain : registry.HasAdapter type ↔ ∃ plan, registry.plan? version type = some plan :=
    hasAdapter_iff
  rw [hpruned, hplain, plan?_prunedAt]
  cases registry.plan? version type <;> simp

/-! ## The same search

Pruned schemas mention fewer types, so a resolution in the pruned registry is granted less fuel, and the
two searches can not be compared step by step. They need not be: what is found missing is characterised
without fuel, by needs and by which types have adapters, and these agree. -/

/-- Two registries whose types have the same needs, and the same types with adapters. Which types a
resolution asks for, in which order, and which of them it finds lacking depends on nothing else. -/
structure SameNeeds (registry registry' : Registry) (version : UInt32) : Prop where
  needs_eq : ∀ type, registry.needs version type = registry'.needs version type
  hasAdapter_iff : ∀ type, registry.HasAdapter type ↔ registry'.HasAdapter type

theorem SameNeeds.symm (h : SameNeeds registry registry' version) : SameNeeds registry' registry version :=
  ⟨fun type => (h.needs_eq type).symm, fun type => (h.hasAdapter_iff type).symm⟩

theorem SameNeeds.below (h : SameNeeds registry registry' version)
    (hbelow : registry.Below version above type other) : registry'.Below version above type other := by
  induction hbelow with
  | here hfresh => exact .here hfresh
  | step hfresh huses _ ih =>
    exact .step hfresh (mem_needs_iff.1 (h.needs_eq _ ▸ mem_needs_iff.2 huses)) ih

theorem SameNeeds.firstLacking (h : SameNeeds registry registry' version)
    (hfirst : registry.FirstLacking version above type missing) :
    registry'.FirstLacking version above type missing := by
  induction hfirst with
  | here hfresh hlacking => exact .here hfresh fun hadapter => hlacking ((h.hasAdapter_iff _).2 hadapter)
  | deeper hfresh hneeds hfront _ ih =>
    refine .deeper hfresh ((h.needs_eq _).symm.trans hneeds) (fun earlier hearlier other hbelow => ?_) ih
    exact (h.hasAdapter_iff other).1 (hfront earlier hearlier other (h.symm.below hbelow))

/-- The same type is missing. -/
theorem SameNeeds.missing?_eq (h : SameNeeds registry registry' version) (type : TypeExpr) :
    registry.missing? version type = registry'.missing? version type := by
  cases hmissing : registry'.missing? version type with
  | some missing => exact missing?_eq_some_iff.2 (h.symm.firstLacking (missing?_eq_some_iff.1 hmissing))
  | none =>
    cases hother : registry.missing? version type with
    | none => rfl
    | some missing =>
      rw [missing?_eq_some_iff.2 (h.firstLacking (missing?_eq_some_iff.1 hother))] at hmissing
      cases hmissing

/-- **The same type is found missing**, if any is: a type that only fields of other versions mention is
never asked for. -/
theorem missing?_prunedAt (registry : Registry) (version : UInt32) (type : TypeExpr) :
    (registry.prunedAt version).missing? version type = registry.missing? version type :=
  SameNeeds.missing?_eq ⟨registry.needs_prunedAt version, fun _ => hasAdapter_prunedAt_iff⟩ type

end Registry

end Telegram
