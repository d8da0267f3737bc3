import Mathlib.Logic.Relation
import Telegram.Proofs.Registry.Resolve

/-!
# What a type leads to

The adapter of a type uses the adapters of other types, and these use more. `Registry.lacking?` follows
them with fuel; this file says without fuel what it finds.

* `Registry.Uses` is one step: from a container to its element, from a record to the types of the fields
  on the wire. It stops at types that callers brought an adapter for, and at families. `Registry.Reaches`
  is any number of steps.
* `Registry.HasAdapter` holds of a type that something reads and writes.
* `Registry.FirstLacking` is the depth-first search for a type without an adapter. Its answer is unique
  (`Registry.FirstLacking.unique`).
* `Registry.missing?_eq_none_iff` and `Registry.missing?_eq_some_iff`: what a resolution finds missing is
  what this search finds, and nothing is missing when every type that is reached has an adapter.
-/

namespace Telegram

open Codec

namespace Registry

/-! ## One step and many

The steps are those of plans, spelled out by the kinds of types, and so they can be followed without
looking anything up. That a type leads to itself is the case of no steps. -/

/-- The adapter of the first type uses the adapter of the second. A type with an adapter of the caller's
uses none, and neither does a field with an adapter of its own: what programs of callers ask for is not
declared. -/
inductive Uses (registry : Registry) (version : UInt32) : TypeExpr → TypeExpr → Prop where
  | optional {element : TypeExpr} (hadapter : registry.adapter? (.optional element) = none) :
      Uses registry version (.optional element) element
  | sequence {container : Container} {element : TypeExpr}
      (hadapter : registry.adapter? (.sequence container element) = none) :
      Uses registry version (.sequence container element) element
  | field {name : String} {schema : Schema} {field : Field}
      (hadapter : registry.adapter? (.record name) = none)
      (hschema : registry.schema? (.record name) = some schema) (hfield : field ∈ schema.fields)
      (happlies : field.format.appliesAt version = true) (hown : field.adapter = none) :
      Uses registry version (.record name) field.type

/-- The second type is the first one, or is used by way of it. -/
def Reaches (registry : Registry) (version : UInt32) : TypeExpr → TypeExpr → Prop :=
  Relation.ReflTransGen (registry.Uses version)

/-- Something reads and writes the type: an adapter of the caller's, or what comes with the library. -/
inductive HasAdapter (registry : Registry) : TypeExpr → Prop where
  | custom {type : TypeExpr} (h : (registry.adapter? type).isSome) : HasAdapter registry type
  | scalar (scalar : Scalar) : HasAdapter registry (.scalar scalar)
  | optional (element : TypeExpr) : HasAdapter registry (.optional element)
  | sequence (container : Container) (element : TypeExpr) :
      HasAdapter registry (.sequence container element)
  | family (name : String) : HasAdapter registry (.family name)
  | record {name : String} (h : (registry.schema? (.record name)).isSome) :
      HasAdapter registry (.record name)

/-- The types that the adapter of a type uses, in the order in which they are asked for. -/
def needs (registry : Registry) (version : UInt32) (type : TypeExpr) : List TypeExpr :=
  (registry.plan? version type).elim [] Plan.needs

variable {registry : Registry} {version : UInt32}

/-- **A type has an adapter when it has a plan.** -/
theorem hasAdapter_iff {type : TypeExpr} :
    registry.HasAdapter type ↔ ∃ plan, registry.plan? version type = some plan := by
  cases hadapter : registry.adapter? type with
  | some adapter =>
    exact ⟨fun _ => ⟨_, plan?_of_adapter? hadapter⟩, fun _ => .custom (by rw [hadapter]; rfl)⟩
  | none =>
    rw [plan?_of_no_adapter? hadapter]
    constructor
    · intro h
      cases h with
      | custom h =>
        rw [hadapter] at h
        cases h
      | scalar | optional | sequence | family => exact ⟨_, rfl⟩
      | record h =>
        obtain ⟨schema, hschema⟩ := Option.isSome_iff_exists.1 h
        exact ⟨_, by rw [builtinPlan?, hschema, Option.map_some]⟩
    · rintro ⟨plan, hplan⟩
      cases type with
      | scalar s => exact .scalar s
      | foreign name => cases hplan
      | record name =>
        obtain ⟨schema, hschema, -⟩ := Option.map_eq_some_iff.1 hplan
        exact .record (by rw [hschema]; rfl)
      | family name => exact .family name
      | optional element => exact .optional element
      | sequence container element => exact .sequence container element

/-- A type without a plan has no adapter, and the search stops at it. -/
theorem plan?_eq_none_iff {type : TypeExpr} :
    registry.plan? version type = none ↔ ¬ registry.HasAdapter type := by
  have hiff : registry.HasAdapter type ↔ ∃ plan, registry.plan? version type = some plan := hasAdapter_iff
  rw [hiff, not_exists]
  cases registry.plan? version type <;> simp

theorem needs_of_plan? {type : TypeExpr} {plan : Plan} (h : registry.plan? version type = some plan) :
    registry.needs version type = plan.needs := by
  rw [needs, h, Option.elim_some]

/-- A field that brings an adapter needs nothing. -/
theorem mem_field_needs {field : Field} {need : TypeExpr} :
    need ∈ field.needs ↔ field.adapter = none ∧ need = field.type := by
  rw [Field.needs]
  cases field.adapter <;> simp

/-- **What a type uses are its needs.** -/
theorem mem_needs_iff {type need : TypeExpr} :
    need ∈ registry.needs version type ↔ registry.Uses version type need := by
  cases hadapter : registry.adapter? type with
  | some adapter =>
    rw [needs_of_plan? (plan?_of_adapter? hadapter)]
    refine ⟨fun h => absurd h List.not_mem_nil, fun h => ?_⟩
    cases h with
    | optional hnone | sequence hnone | field hnone =>
      rw [hadapter] at hnone
      cases hnone
  | none =>
    rw [needs, plan?_of_no_adapter? hadapter]
    constructor
    · intro h
      cases type with
      | scalar | foreign | family => exact absurd h List.not_mem_nil
      | optional element =>
        obtain rfl := List.mem_singleton.1 h
        exact .optional hadapter
      | sequence container element =>
        obtain rfl := List.mem_singleton.1 h
        exact .sequence hadapter
      | record name =>
        cases hschema : registry.schema? (.record name) with
        | none =>
          rw [builtinPlan?, hschema] at h
          exact absurd h List.not_mem_nil
        | some schema =>
          rw [builtinPlan?, hschema] at h
          obtain ⟨field, hfield, hneed⟩ := List.mem_flatMap.1 h
          obtain ⟨hown, rfl⟩ := mem_field_needs.1 hneed
          obtain ⟨hlisted, happlies⟩ := List.mem_filter.1 hfield
          exact .field hadapter hschema hlisted happlies hown
    · intro h
      cases h with
      | optional | sequence => exact List.mem_singleton_self _
      | field _ hschema hfield happlies hown =>
        rw [builtinPlan?, hschema]
        exact List.mem_flatMap.2 ⟨_, List.mem_filter.2 ⟨hfield, happlies⟩, mem_field_needs.2 ⟨hown, rfl⟩⟩

/-- What a type leads to is among the types that its parts and the fields of records mention. -/
theorem Reaches.mem_reach {type other : TypeExpr} (h : registry.Reaches version type other) :
    other ∈ registry.reach type := by
  induction h with
  | refl => exact mem_reach_self type
  | @tail middle last _ huses ih =>
    have hneed := mem_needs_iff.2 huses
    cases hplan : registry.plan? version middle with
    | none =>
      rw [needs, hplan] at hneed
      exact absurd hneed List.not_mem_nil
    | some plan =>
      rw [needs_of_plan? hplan] at hneed
      exact reach_closed ih hplan last hneed

/-! ## The depth-first search

That a type has no adapter is a question of what can be reached. *Which* type is named by the error is a
question of the order of the search, and the search does not enter a type twice on one path.
`Registry.Below` is reachability with this restriction. It loses nothing: a path that comes back to a type
can be shortened, and the last visit to it is where the rest of the path begins
(`Registry.Below.avoid`). -/

/-- The second type is reached from the first by way of types outside `above`, itself one of them. The
types in `above` are those that are being resolved at the moment, where a resolution does not enter a
second time. -/
inductive Below (registry : Registry) (version : UInt32) (above : List TypeExpr) :
    TypeExpr → TypeExpr → Prop where
  | here {type : TypeExpr} (hfresh : type ∉ above) : Below registry version above type type
  | step {type need other : TypeExpr} (hfresh : type ∉ above) (huses : registry.Uses version type need)
      (h : Below registry version above need other) : Below registry version above type other

/-- `missing` is the first type without an adapter that a depth-first search from `type` comes to. The
types in `above` are those on the way to it, and are not entered again. -/
inductive FirstLacking (registry : Registry) (version : UInt32) :
    List TypeExpr → TypeExpr → TypeExpr → Prop where
  | here {above : List TypeExpr} {type : TypeExpr} (hfresh : type ∉ above)
      (hlacking : ¬ registry.HasAdapter type) : FirstLacking registry version above type type
  /-- The search is in vain below all needs before `need`. -/
  | deeper {above front back : List TypeExpr} {type need missing : TypeExpr} (hfresh : type ∉ above)
      (hneeds : registry.needs version type = front ++ need :: back)
      (hfront : ∀ earlier ∈ front, ∀ other, registry.Below version (type :: above) earlier other →
        registry.HasAdapter other)
      (h : FirstLacking registry version (type :: above) need missing) :
      FirstLacking registry version above type missing

variable {above : List TypeExpr} {type other need missing : TypeExpr}

/-- A path does not begin in what it avoids. -/
theorem Below.fresh (h : registry.Below version above type other) : type ∉ above := by
  cases h with
  | here hfresh | step hfresh _ _ => exact hfresh

/-- With nothing to avoid, it is reachability. -/
theorem below_nil_iff : registry.Below version [] type other ↔ registry.Reaches version type other := by
  constructor
  · intro h
    induction h with
    | here _ => exact .refl
    | step _ huses _ ih => exact ih.head huses
  · intro h
    induction h using Relation.ReflTransGen.head_induction_on with
    | refl => exact .here List.not_mem_nil
    | head huses _ ih => exact .step List.not_mem_nil huses ih

/-- A path either keeps clear of one more type or has a last visit to it, and goes on from one of its
needs. -/
theorem Below.avoid (h : registry.Below version above type other) (entered : TypeExpr) :
    registry.Below version (entered :: above) type other ∨ other = entered ∨
      ∃ need, registry.Uses version entered need ∧
        registry.Below version (entered :: above) need other := by
  induction h with
  | @here type hfresh =>
    by_cases heq : type = entered
    · exact .inr (.inl heq)
    · exact .inl (.here (List.not_mem_cons_of_ne_of_not_mem heq hfresh))
  | @step type need other hfresh huses _ ih =>
    rcases ih with hclear | hlater
    · by_cases heq : type = entered
      · exact .inr (.inr ⟨need, heq ▸ huses, hclear⟩)
      · exact .inl (.step (List.not_mem_cons_of_ne_of_not_mem heq hfresh) huses hclear)
    · exact .inr hlater

/-- Below a type that has an adapter there is nothing but what is below its needs. -/
theorem hasAdapter_of_below (hadapter : registry.HasAdapter type)
    (hneeds : ∀ need ∈ registry.needs version type, ∀ other,
      registry.Below version (type :: above) need other → registry.HasAdapter other)
    (h : registry.Below version above type other) : registry.HasAdapter other := by
  -- a path below the type never comes back to it, or goes on from its last visit: either way from a need
  rcases h.avoid type with hclear | rfl | ⟨need, huses, hbelow⟩
  · exact absurd (List.mem_cons_self ..) hclear.fresh
  · exact hadapter
  · exact hneeds need (mem_needs_iff.2 huses) other hbelow

/-- What the search comes to has no adapter, and was reached. -/
theorem FirstLacking.sound (h : registry.FirstLacking version above type missing) :
    registry.Below version above type missing ∧ ¬ registry.HasAdapter missing := by
  induction h with
  | here hfresh hlacking => exact ⟨.here hfresh, hlacking⟩
  | @deeper above front back type need missing hfresh hneeds _ _ ih =>
    obtain ⟨hbelow, hlacking⟩ := ih
    have huses : registry.Uses version type need :=
      mem_needs_iff.1 (hneeds ▸ List.mem_append_right _ (List.mem_cons_self ..))
    have hshorter : ∀ {first last : TypeExpr}, registry.Below version (type :: above) first last →
        registry.Below version above first last := by
      intro first last hpath
      induction hpath with
      | here hfresh => exact .here fun hmem => hfresh (List.mem_cons_of_mem _ hmem)
      | step hfresh huses _ ih => exact .step (fun hmem => hfresh (List.mem_cons_of_mem _ hmem)) huses ih
    exact ⟨.step hfresh huses (hshorter hbelow), hlacking⟩

/-- The search ends at a type without an adapter, as it has no needs. -/
theorem needs_of_not_hasAdapter (h : ¬ registry.HasAdapter type) : registry.needs version type = [] := by
  rw [needs, plan?_eq_none_iff.2 h, Option.elim_none]

/-- **The search has one answer.** -/
theorem FirstLacking.unique {missing' : TypeExpr} (h : registry.FirstLacking version above type missing)
    (h' : registry.FirstLacking version above type missing') : missing = missing' := by
  have hempty : ∀ {type need : TypeExpr} {front back : List TypeExpr},
      registry.needs version type = front ++ need :: back → registry.HasAdapter type := by
    intro type need front back hneeds
    by_contra hlacking
    rw [needs_of_not_hasAdapter hlacking] at hneeds
    simp at hneeds
  induction h with
  | here _ hlacking =>
    cases h' with
    | here => rfl
    | deeper _ hneeds _ _ => exact absurd (hempty hneeds) hlacking
  | @deeper above front back type need missing hfresh hneeds hfront h ih =>
    cases h' with
    | here _ hlacking => exact absurd (hempty hneeds) hlacking
    | @deeper _ front' back' _ need' _ _ hneeds' hfront' h' =>
      -- of two places in the list of needs, the search is in vain below the earlier one
      rcases List.append_eq_append_iff.1 (hneeds.symm.trans hneeds') with
        ⟨between, rfl, hrest⟩ | ⟨between, rfl, hrest⟩
      · cases between with
        | nil =>
          obtain ⟨rfl, -⟩ := List.cons.inj hrest
          exact ih h'
        | cons first _ =>
          obtain ⟨rfl, -⟩ := List.cons.inj hrest
          obtain ⟨hbelow, hlacking⟩ := h.sound
          exact absurd (hfront' _ (by simp) _ hbelow) hlacking
      · cases between with
        | nil =>
          obtain ⟨rfl, -⟩ := List.cons.inj hrest
          exact ih h'
        | cons first _ =>
          obtain ⟨rfl, -⟩ := List.cons.inj hrest
          obtain ⟨hbelow, hlacking⟩ := h'.sound
          exact absurd (hfront _ (by simp) _ hbelow) hlacking

/-! ## What a resolution finds missing

The search of a resolution has fuel and stops at types in flight, the one above has neither. Both are
followed together by induction on fuel, with the types on the way as the types in flight. An answer of the
one says which case of the other holds, so no second induction is needed for completeness. -/

/-- With fuel for the types that are not on the way yet, following the needs of a type is the depth-first
search. -/
theorem lacking?_spec (goal : TypeExpr) (fuel : Nat) : ∀ (above : List TypeExpr) (type : TypeExpr),
    type ∈ registry.reach goal → above.Nodup → (∀ entered ∈ above, entered ∈ registry.reach goal) →
    (registry.reach goal).length < fuel + above.length →
    match registry.lacking? version fuel above type with
    | none => ∀ other, registry.Below version above type other → registry.HasAdapter other
    | some missing => registry.FirstLacking version above type missing := by
  induction fuel with
  | zero =>
    -- the types on the way are distinct and within reach, so there are not more of them
    intro above type _ hnodup habove hfuel
    have hle := (List.subperm_of_subset hnodup habove).length_le
    omega
  | succ fuel ih =>
    intro above type hgoal hnodup habove hfuel
    by_cases hmem : type ∈ above
    · rw [lacking?_of_mem hmem]
      exact fun other hbelow => absurd hmem hbelow.fresh
    cases hplan : registry.plan? version type with
    | none =>
      simp only [lacking?, if_neg hmem, hplan]
      exact .here hmem (plan?_eq_none_iff.1 hplan)
    | some plan =>
      have hneed : ∀ need ∈ plan.needs, _ := fun need hneed =>
        ih (type :: above) need (reach_closed hgoal hplan need hneed) (List.nodup_cons.2 ⟨hmem, hnodup⟩)
          (List.forall_mem_cons.2 ⟨hgoal, habove⟩) (by rw [List.length_cons]; omega)
      have hneeds := needs_of_plan? hplan
      simp only [lacking?, if_neg hmem, hplan]
      -- the search is in vain below all needs, or comes to something below one of them
      cases hfound : plan.needs.findSome? (registry.lacking? version fuel (type :: above)) with
      | none =>
        intro other hbelow
        refine hasAdapter_of_below (hasAdapter_iff.2 ⟨plan, hplan⟩) (fun need hlisted => ?_) hbelow
        rw [hneeds] at hlisted
        have hclear := hneed need hlisted
        rwa [List.findSome?_eq_none_iff.1 hfound need hlisted] at hclear
      | some missing =>
        obtain ⟨front, need, back, hsplit, hfirst, hfront⟩ := List.findSome?_eq_some_iff.1 hfound
        refine .deeper hmem (hneeds.trans hsplit) (fun earlier hearlier => ?_) ?_
        · have hclear := hneed earlier (hsplit ▸ List.mem_append_left _ hearlier)
          rwa [hfront earlier hearlier] at hclear
        · have hlacking := hneed need (hsplit ▸ List.mem_append_right _ (List.mem_cons_self ..))
          rwa [hfirst] at hlacking

/-- The fuel of a resolution is enough for the search. -/
theorem missing?_spec (registry : Registry) (version : UInt32) (type : TypeExpr) :
    match registry.missing? version type with
    | none => ∀ other, registry.Below version [] type other → registry.HasAdapter other
    | some missing => registry.FirstLacking version [] type missing := by
  refine lacking?_spec type (registry.resolveFuel type) [] type (mem_reach_self type) List.nodup_nil
    (fun _ h => absurd h List.not_mem_nil) ?_
  rw [length_reach, resolveFuel, List.length_nil]
  omega

/-- **Nothing is missing** when every type that is reached has an adapter. -/
theorem missing?_eq_none_iff :
    registry.missing? version type = none ↔
      ∀ other, registry.Reaches version type other → registry.HasAdapter other := by
  have hspec := registry.missing?_spec version type
  constructor
  · intro hnone other hreaches
    rw [hnone] at hspec
    exact hspec other (below_nil_iff.2 hreaches)
  · intro hall
    cases hmissing : registry.missing? version type with
    | none => rfl
    | some missing =>
      rw [hmissing] at hspec
      obtain ⟨hbelow, hlacking⟩ := FirstLacking.sound hspec
      exact absurd (hall missing (below_nil_iff.1 hbelow)) hlacking

/-- **What is missing** is the first type without an adapter. -/
theorem missing?_eq_some_iff :
    registry.missing? version type = some missing ↔ registry.FirstLacking version [] type missing := by
  have hspec := registry.missing?_spec version type
  constructor
  · intro hsome
    rwa [hsome] at hspec
  · intro h
    cases hmissing : registry.missing? version type with
    | none =>
      rw [hmissing] at hspec
      obtain ⟨hbelow, hlacking⟩ := h.sound
      exact absurd (hspec missing hbelow) hlacking
    | some first =>
      rw [hmissing] at hspec
      rw [FirstLacking.unique hspec h]

end Registry

end Telegram
