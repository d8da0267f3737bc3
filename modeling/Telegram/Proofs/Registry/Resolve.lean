import Mathlib.Algebra.GroupWithZero.Nat
import Mathlib.Data.List.Perm.Subperm
import Telegram.Proofs.Registry.Spared
import Telegram.Proofs.Registry.Underway

/-!
# What a resolution answers

Where factories leave the types alone, a resolution always ends, and the registry alone decides how: it
fails exactly when following the needs of the type depth first meets a type without a plan
(`Registry.lacking?`), and the error names that type. What is cached already makes no difference to the
answer.

* `Resolving.Answers` is the contract of every part of a resolution: what it does to the resolution when
  nothing is lacking, and the error it gives when something is.
* `Registry.create_answers` shows it for building one adapter, from the contract for the needs.
* `Registry.resolveIn_answers` closes the recursion. The types in flight are distinct and belong to a
  finite set that is closed under needs, so fuel can not run out.
* `Registry.Spares.resolve_spec` is the contract of a whole resolution, from one sound table to the next,
  and `Registry.resolve_spec` is its case without factories.
-/

namespace Telegram

open Codec

/-! ## Running stateful code

A resolution is a computation with a state that may run out of fuel. These lemmas take a sequence of two
apart, into what the first did and what the second did from there, so that no proof has to unfold the
monad. -/

section Bind

variable {σ α β : Type} {first : StateT σ Option α} {next : α → StateT σ Option β} {s : σ}

theorem bind_of_eq_some {a : α} {s' : σ} (h : first s = some (a, s')) :
    (first >>= next) s = next a s' := by
  simp only [bind, StateT.bind, h, Option.bind_some]

theorem bind_of_eq_none (h : first s = none) : (first >>= next) s = none := by
  simp only [bind, StateT.bind, h, Option.bind_none]

theorem bind_eq_some_iff {b : β} {s'' : σ} :
    (first >>= next) s = some (b, s'') ↔
      ∃ a s', first s = some (a, s') ∧ next a s' = some (b, s'') := by
  cases hfirst : first s with
  | none => simp [bind_of_eq_none hfirst]
  | some answer =>
    rw [bind_of_eq_some hfirst]
    constructor
    · exact fun h => ⟨_, _, rfl, h⟩
    · rintro ⟨a, s', heq, h⟩
      obtain rfl := Option.some.inj heq
      exact h

theorem bind_eq_none_iff :
    (first >>= next) s = none ↔
      first s = none ∨ ∃ a s', first s = some (a, s') ∧ next a s' = none := by
  cases hfirst : first s with
  | none => simp [bind_of_eq_none hfirst]
  | some answer =>
    rw [bind_of_eq_some hfirst]
    constructor
    · exact fun h => .inr ⟨_, _, rfl, h⟩
    · rintro (heq | ⟨a, s', heq, h⟩)
      · cases heq
      · obtain rfl := Option.some.inj heq
        exact h

end Bind

/-! ## The contract

What is shown of a resolution has three sides: that it has an answer at all, which answer, and what it
leaves behind. The parts that a resolution is made of are run one after the other on one state, and each
of the three is needed of the earlier ones before anything can be said of the later. So the three are kept
together in one contract, with rules for the ways in which parts are put together. -/

section Answers

variable {registry : Registry} {version : UInt32} {base : SlotTable} {r : Resolution}
variable {α β : Type}

/-- What part of a resolution ends with: a good answer when nothing is lacking, and otherwise an error
that names the first type without a plan. An error leaves nothing to rely on but the slots.

A good answer leaves the resolution valid, with the same types in flight, and with every type that had a
slot in that slot. The last is what earlier parts count on: the slots that they were given are still those
of their types when the adapter is put together at the end. -/
inductive Resolution.Ends (registry : Registry) (version : UInt32) (base : SlotTable) (r : Resolution)
    (lacking : Option TypeExpr) (Good : Resolution → α → Prop) : Except Error α → Resolution → Prop where
  | ok {a : α} {r' : Resolution} (hlacking : lacking = none)
      (hvalid : r'.Valid registry version base) (hinFlight : r'.inFlight = r.inFlight)
      (hkept : ∀ type slot, r.slot? version type = some slot → r'.slot? version type = some slot)
      (hgood : Good r' a) : Ends registry version base r lacking Good (.ok a) r'
  | error {missing : TypeExpr} {r' : Resolution} (hlacking : lacking = some missing)
      (halloc : r'.Allocated base) :
      Ends registry version base r lacking Good (.error (.noAdapter missing version)) r'

/-- Part of a resolution, run from `r`, has an answer and ends as it should. That it has one is
part of what is claimed: it says that fuel has not run out. -/
def Resolving.Answers (registry : Registry) (version : UInt32) (base : SlotTable) (r : Resolution)
    (lacking : Option TypeExpr) (Good : Resolution → α → Prop) (run : Resolving (Except Error α)) : Prop :=
  ∃ answer r', run r = some (answer, r') ∧ r.Ends registry version base lacking Good answer r'

namespace Resolving

variable {lacking lacking' : Option TypeExpr} {Good : Resolution → α → Prop}
variable {Good' : Resolution → β → Prop} {run : Resolving (Except Error α)}

/-- A part that asks for nothing. -/
theorem answers_pure (h : r.Valid registry version base) {a : α} (hgood : Good r a) :
    Answers registry version base r none Good (pure (.ok a)) :=
  ⟨_, r, rfl, .ok rfl h rfl (fun _ _ h => h) hgood⟩

/-- An answer that is put into another form. -/
theorem Answers.map (h : run.Answers registry version base r lacking Good) {f : α → β}
    (hgood : ∀ r' a, (∀ type slot, r.slot? version type = some slot → r'.slot? version type = some slot) →
      Good r' a → Good' r' (f a)) :
    Answers registry version base r lacking Good' (do
      let answer ← run
      pure (answer.map f)) := by
  obtain ⟨answer, r', hrun, hends⟩ := h
  refine ⟨answer.map f, r', bind_of_eq_some hrun, ?_⟩
  cases hends with
  | ok hlacking hvalid hinFlight hkept ha =>
    exact .ok hlacking hvalid hinFlight hkept (hgood _ _ hkept ha)
  | error hlacking halloc => exact .error hlacking halloc

/-- Two parts one after the other: the second is run only when nothing is lacking in the first. -/
theorem Answers.bind (h : run.Answers registry version base r lacking Good)
    {next : Except Error α → Resolving (Except Error β)}
    (herror : ∀ e, next (.error e) = pure (.error e))
    (hnext : ∀ r' a, r'.Valid registry version base → r'.inFlight = r.inFlight → Good r' a →
      (next (.ok a)).Answers registry version base r' lacking' Good') :
    Answers registry version base r (lacking.or lacking') Good' (run >>= next) := by
  obtain ⟨answer, r', hrun, hends⟩ := h
  cases hends with
  | ok hlacking hvalid hinFlight hkept ha =>
    obtain ⟨answer', r'', hrun', hends'⟩ := hnext _ _ hvalid hinFlight ha
    refine ⟨answer', r'', (bind_of_eq_some hrun).trans hrun', ?_⟩
    rw [hlacking, Option.none_or]
    cases hends' with
    | ok hlacking' hvalid' hinFlight' hkept' hb =>
      exact .ok hlacking' hvalid' (hinFlight'.trans hinFlight)
        (fun type slot hslot => hkept' type slot (hkept type slot hslot)) hb
    | error hlacking' halloc' => exact .error hlacking' halloc'
  | error hlacking halloc =>
    refine ⟨_, r', ?_, .error (by rw [hlacking, Option.some_or]) halloc⟩
    rw [bind_of_eq_some hrun, herror]
    rfl

end Resolving

end Answers

/-! ## Building one adapter

What an adapter needs is resolved by a function that is handed down, and that will turn out to be the
recursion itself with less fuel. Here it is any function that meets the contract for the needs of the plan
at hand. Each kind of type has its own way of asking, and the lemmas follow these: no need for scalars and
families, one for containers, one for each field of a record. -/

theorem findSome?_singleton {α β : Type} (f : α → Option β) (a : α) : [a].findSome? f = f a := by
  cases h : f a <;> simp [h]

section Create

variable {registry : Registry} {version : UInt32} {base : SlotTable} {r : Resolution}
variable {inFlight : List (TypeExpr × Nat)} {lacking : TypeExpr → Option TypeExpr} {resolve : Resolve}

/-- A way of asking for a type does what it should, wherever a resolution has got to with these types in
flight. The types in flight have to be fixed, since what is found lacking depends on them; everything else
about the state has moved on between one need and the next. -/
def Resolve.Meets (registry : Registry) (version : UInt32) (base : SlotTable)
    (inFlight : List (TypeExpr × Nat)) (lacking : TypeExpr → Option TypeExpr) (resolve : Resolve)
    (type : TypeExpr) : Prop :=
  ∀ r, r.Valid registry version base → r.inFlight = inFlight →
    (resolve type).Answers registry version base r (lacking type)
      (fun r' slot => r'.slot? version type = some slot)

/-- Finding the adapter of a field asks for what the field needs. -/
theorem bindTarget_answers {field : Field} (h : r.Valid registry version base)
    (hinFlight : r.inFlight = inFlight)
    (hneeds : ∀ need ∈ field.needs, resolve.Meets registry version base inFlight lacking need) :
    (bindTarget resolve field).Answers registry version base r (field.needs.findSome? lacking)
      (fun r' target => Field.Bound (r'.slot? version) field ⟨field, target⟩) := by
  cases hadapter : field.adapter with
  | some adapter =>
    simp only [bindTarget, Field.needs, hadapter, List.findSome?_nil]
    exact Resolving.answers_pure h (.own hadapter)
  | none =>
    simp only [Field.needs, hadapter, List.mem_singleton, forall_eq] at hneeds
    simp only [bindTarget, Field.needs, hadapter, findSome?_singleton]
    exact (hneeds r h hinFlight).map fun _ _ _ hslot => .slot hadapter hslot

/-- Finding the adapters of the fields asks for what the fields need, in order. -/
theorem bindFields_answers (fields : List Field) (h : r.Valid registry version base)
    (hinFlight : r.inFlight = inFlight)
    (hneeds : ∀ need ∈ fields.flatMap Field.needs,
      resolve.Meets registry version base inFlight lacking need) :
    (bindFields resolve fields).Answers registry version base r
      ((fields.flatMap Field.needs).findSome? lacking)
      (fun r' bounds => List.Forall₂ (Field.Bound (r'.slot? version)) fields bounds) := by
  induction fields generalizing r with
  | nil => exact Resolving.answers_pure h .nil
  | cons field rest ih =>
    simp only [List.flatMap_cons, List.mem_append] at hneeds
    rw [List.flatMap_cons, List.findSome?_append, bindFields]
    have htarget := bindTarget_answers h hinFlight fun need hneed => hneeds need (.inl hneed)
    refine htarget.bind (fun _ => rfl) fun r' target hvalid' hinFlight' hbound => ?_
    have hrest := ih hvalid' (hinFlight'.trans hinFlight) fun need hneed => hneeds need (.inr hneed)
    exact hrest.map fun r'' bounds hkept hbounds => .cons (hbound.mono hkept) hbounds

/-- **Building an adapter** that comes with the library asks for what its plan needs, and carries the plan
out. -/
theorem Registry.createBuiltin_answers {type : TypeExpr} {plan : Plan}
    (hplan : registry.builtinPlan? version type = some plan) (h : r.Valid registry version base)
    (hinFlight : r.inFlight = inFlight)
    (hneeds : ∀ need ∈ plan.needs, resolve.Meets registry version base inFlight lacking need) :
    (registry.createBuiltin resolve version type).Answers registry version base r
      (plan.needs.findSome? lacking)
      (fun r' built => ∃ adapter, built = some adapter ∧ plan.Wired (r'.slot? version) adapter.wiring ∧
        adapter.origin = plan.origin) := by
  cases type with
  | scalar s =>
    obtain rfl := Option.some.inj hplan
    exact Resolving.answers_pure h ⟨_, rfl, .leaf _, rfl⟩
  | foreign name => cases hplan
  | optional element =>
    obtain rfl := Option.some.inj hplan
    simp only [Plan.needs, List.mem_singleton, forall_eq] at hneeds
    rw [Plan.needs, findSome?_singleton]
    exact (hneeds r h hinFlight).map fun _ _ _ hslot => ⟨_, rfl, .optional hslot, rfl⟩
  | sequence container element =>
    obtain rfl := Option.some.inj hplan
    simp only [Plan.needs, List.mem_singleton, forall_eq] at hneeds
    rw [Plan.needs, findSome?_singleton]
    exact (hneeds r h hinFlight).map fun _ _ _ hslot => ⟨_, rfl, .sequence container hslot, rfl⟩
  | family name =>
    obtain rfl := Option.some.inj hplan
    exact Resolving.answers_pure h ⟨_, rfl, .family _, rfl⟩
  | record name =>
    obtain ⟨schema, hschema, rfl⟩ := Option.map_eq_some_iff.1 hplan
    simp only [createBuiltin, hschema]
    exact (bindFields_answers _ h hinFlight hneeds).map fun _ _ _ hfields =>
      ⟨_, rfl, .record schema hfields, rfl⟩

/-- A type without a plan is built by nothing. -/
theorem Registry.createBuiltin_of_no_plan {type : TypeExpr}
    (hplan : registry.builtinPlan? version type = none) (resolve : Resolve) :
    registry.createBuiltin resolve version type = pure (.ok none) := by
  cases type with
  | foreign name => rfl
  | record name => simp only [createBuiltin, Option.map_eq_none_iff.1 hplan]
  | _ => cases hplan

/-- Factories that pass over a type at once do nothing to the resolution. -/
theorem askFactories_of_passesOver {type : TypeExpr} {factories : List Factory}
    (h : ∀ factory ∈ factories, factory version type = .finish (.ok none)) (resolve : Resolve) :
    askFactories resolve version type factories = pure (.ok none) := by
  induction factories with
  | nil => rfl
  | cons factory rest ih =>
    rw [List.forall_mem_cons] at h
    rw [askFactories, h.1]
    exact ih h.2

/-- Where factories pass over a type, what callers brought no adapter for is built by the library. -/
theorem Registry.create_of_no_adapter? {type : TypeExpr} (hfactories : registry.PassesOver version type)
    (hadapter : registry.adapter? type = none) (resolve : Resolve) :
    registry.create resolve version type = registry.createBuiltin resolve version type := by
  simp only [create, hadapter, askFactories_of_passesOver hfactories, pure_bind]

/-- **Building an adapter** asks for what its plan needs, and gives one that serves the type. -/
theorem Registry.create_answers {type : TypeExpr} {plan : Plan}
    (hfactories : registry.PassesOver version type)
    (hplan : registry.plan? version type = some plan) (h : r.Valid registry version base)
    (hinFlight : r.inFlight = inFlight)
    (hneeds : ∀ need ∈ plan.needs, resolve.Meets registry version base inFlight lacking need) :
    (registry.create resolve version type).Answers registry version base r (plan.needs.findSome? lacking)
      (fun r' built => ∃ adapter, built = some adapter ∧
        registry.Serves (r'.slot? version) version type adapter) := by
  cases hadapter : registry.adapter? type with
  | some adapter =>
    rw [plan?_of_adapter? hadapter] at hplan
    obtain rfl := Option.some.inj hplan
    simp only [create, hadapter]
    exact Resolving.answers_pure h
      ⟨_, rfl, .leaf (.caller adapter), plan?_of_adapter? hadapter, .leaf _, rfl⟩
  | none =>
    rw [plan?_of_no_adapter? hadapter] at hplan
    rw [create_of_no_adapter? hfactories hadapter]
    obtain ⟨answer, r', hrun, hends⟩ := createBuiltin_answers hplan h hinFlight hneeds
    refine ⟨answer, r', hrun, ?_⟩
    cases hends with
    | ok hlacking hvalid hinFlight' hkept hgood =>
      obtain ⟨adapter, rfl, hwired, horigin⟩ := hgood
      exact .ok hlacking hvalid hinFlight' hkept
        ⟨adapter, rfl, plan, (plan?_of_no_adapter? hadapter).trans hplan, hwired, horigin⟩
    | error hlacking halloc => exact .error hlacking halloc

theorem Registry.create_of_no_plan {type : TypeExpr} (hfactories : registry.PassesOver version type)
    (hplan : registry.plan? version type = none) (resolve : Resolve) :
    registry.create resolve version type = pure (.ok none) := by
  cases hadapter : registry.adapter? type with
  | some adapter =>
    rw [plan?_of_adapter? hadapter] at hplan
    cases hplan
  | none =>
    rw [plan?_of_no_adapter? hadapter] at hplan
    rw [create_of_no_adapter? hfactories hadapter, createBuiltin_of_no_plan hplan]

end Create

/-! ## The types that a resolution can reach

The recursion ends because it comes to a type in flight before long. For this there must be a bound on the
types that can be in flight, and it has to hold whether or not the types have plans. Every type that is
asked for is mentioned by the type at the start or by a field of some schema, or stands in one that is.
These are finitely many, and `Registry.resolveFuel` counts them. -/

/-- The type and the types of what it contains. -/
def TypeExpr.parts : TypeExpr → List TypeExpr
  | .optional element => .optional element :: element.parts
  | .sequence container element => .sequence container element :: element.parts
  | type => [type]

namespace TypeExpr

theorem length_parts (type : TypeExpr) : type.parts.length = type.weight := by
  induction type with
  | optional element ih | sequence container element ih =>
    rw [parts, List.length_cons, ih, weight]
  | _ => rfl

theorem mem_parts_self (type : TypeExpr) : type ∈ type.parts := by
  cases type <;> exact List.mem_cons_self ..

/-- With a container, its element is a part. -/
theorem element_mem_parts {type other element : TypeExpr} (helement : other.element? = some element)
    (h : other ∈ type.parts) : element ∈ type.parts := by
  induction type with
  | optional inner ih | sequence container inner ih =>
    rw [parts, List.mem_cons] at h ⊢
    rcases h with rfl | hmem
    · obtain rfl := Option.some.inj helement
      exact .inr inner.mem_parts_self
    · exact .inr (ih hmem)
  | _ =>
    obtain rfl := List.mem_singleton.1 h
    cases helement

end TypeExpr

namespace Registry

variable {registry : Registry} {version : UInt32}

/-- Every type that the resolution of `type` can come to. -/
def reach (registry : Registry) (type : TypeExpr) : List TypeExpr :=
  type.parts ++ (registry.schemas.flatMap Schema.fields).flatMap fun field => field.type.parts

theorem mem_reach_self (type : TypeExpr) : type ∈ registry.reach type :=
  List.mem_append_left _ type.mem_parts_self

theorem weight_eq_sum (registry : Registry) :
    registry.weight = ((registry.schemas.flatMap Schema.fields).map fun field => field.type.weight).sum := by
  have hsum : ∀ (fields : List Field) (sum : Nat),
      fields.foldl (fun sum field => sum + field.type.weight) sum =
        sum + (fields.map fun field => field.type.weight).sum := by
    intro fields
    induction fields with
    | nil => exact fun _ => rfl
    | cons field rest ih =>
      intro sum
      rw [List.foldl_cons, ih, List.map_cons, List.sum_cons, Nat.add_assoc]
  rw [weight, hsum, Nat.zero_add]

theorem length_reach (type : TypeExpr) :
    (registry.reach type).length = type.weight + registry.weight := by
  simp only [reach, List.length_append, List.length_flatMap, TypeExpr.length_parts, weight_eq_sum]

/-- **What a resolution can come to is closed under needs.** -/
theorem reach_closed {type other : TypeExpr} (hmem : other ∈ registry.reach type) {plan : Plan}
    (hplan : registry.plan? version other = some plan) :
    ∀ need ∈ plan.needs, need ∈ registry.reach type := by
  intro need hneed
  cases hadapter : registry.adapter? other with
  | some adapter =>
    rw [plan?_of_adapter? hadapter] at hplan
    obtain rfl := Option.some.inj hplan
    cases hneed
  | none =>
    rw [plan?_of_no_adapter? hadapter] at hplan
    rw [reach, List.mem_append, List.mem_flatMap] at hmem ⊢
    cases other with
    | scalar s | family name =>
      obtain rfl := Option.some.inj hplan
      cases hneed
    | foreign name => cases hplan
    | optional element | sequence container element =>
      obtain rfl := Option.some.inj hplan
      obtain rfl := List.mem_singleton.1 hneed
      refine hmem.imp (TypeExpr.element_mem_parts rfl) ?_
      rintro ⟨field, hfield, hpart⟩
      exact ⟨field, hfield, TypeExpr.element_mem_parts rfl hpart⟩
    | record name =>
      obtain ⟨schema, hschema, rfl⟩ := Option.map_eq_some_iff.1 hplan
      obtain ⟨field, hfield, hneed⟩ := List.mem_flatMap.1 hneed
      have hlisted : field ∈ registry.schemas.flatMap Schema.fields :=
        List.mem_flatMap.2 ⟨schema, List.mem_of_find?_eq_some hschema, (List.mem_filter.1 hfield).1⟩
      have htype : need = field.type := by
        rw [Field.needs] at hneed
        split at hneed
        · cases hneed
        · exact List.mem_singleton.1 hneed
      exact .inr ⟨field, hlisted, htype ▸ field.type.mem_parts_self⟩

end Registry

/-! ## The recursion

With enough fuel for the types that are not in flight yet, asking for a type meets the contract. Fuel and
types in flight are traded against each other: entering a type costs one unit of fuel and puts one more
type in flight, so their sum stays what it was, and as the types in flight are distinct and within reach
it never falls short. -/

/-- How the resolution of a type that was entered ends, by whether its adapter could be built. -/
def Resolution.conclude (r : Resolution) (version : UInt32) (type : TypeExpr) (slot : Nat) :
    Except Error (Option Adapter) → Option (Except Error Nat × Resolution)
  | .error e => some (.error e, r.leave type)
  | .ok none => some (.error (.noAdapter type version), r.leave type)
  | .ok (some adapter) => ((r.leave type).settle? type slot adapter).map (.ok slot, ·)

namespace Registry

variable {registry : Registry} {version : UInt32} {base : SlotTable} {r : Resolution}

/-- A type that has a slot is answered with it. -/
theorem resolveIn_of_slot? {type : TypeExpr} {slot : Nat} (h : r.slot? version type = some slot)
    (fuel : Nat) : registry.resolveIn version (fuel + 1) type r = some (.ok slot, r) := by
  have hget : (get : Resolving Resolution) r = some (r, r) := rfl
  rw [resolveIn, bind_of_eq_some hget]
  simp only [h]
  rfl

/-- A type that has no slot is entered, and its adapter is built. -/
theorem resolveIn_of_enter {type : TypeExpr} (h : r.slot? version type = none) {fuel : Nat}
    {created : Except Error (Option Adapter)} {r' : Resolution}
    (hcreate : registry.create (registry.resolveIn version fuel) version type (r.enter type).2 =
      some (created, r')) :
    registry.resolveIn version (fuel + 1) type r = r'.conclude version type (r.enter type).1 created := by
  have hget : (get : Resolving Resolution) r = some (r, r) := rfl
  have hset : (set (r.enter type).2 : Resolving Unit) r = some ((), (r.enter type).2) := rfl
  have hleave : (modify (Resolution.leave · type) : Resolving Unit) r' = some ((), r'.leave type) := rfl
  rw [resolveIn, bind_of_eq_some hget]
  simp only [h]
  rw [bind_of_eq_some hset, bind_of_eq_some hcreate, bind_of_eq_some hleave]
  match created with
  | .error e => rfl
  | .ok none => rfl
  | .ok (some adapter) =>
    have hget' : (get : Resolving Resolution) (r'.leave type) = some (r'.leave type, r'.leave type) := rfl
    simp only [Resolution.conclude]
    rw [bind_of_eq_some hget']
    cases (r'.leave type).settle? type (r.enter type).1 adapter with
    | none => exact bind_of_eq_none rfl
    | some r'' => rfl

/-- Types that have slots need only types that have slots, as long as nothing below them is being
built. -/
theorem exists_plan_of_slot? (hbase : base.Sound registry) (h : r.Valid registry version base)
    {type : TypeExpr} {slot : Nat} (hslot : r.slot? version type = some slot)
    (hbuilt : type ∉ r.inFlight.map Prod.fst) :
    ∃ plan, registry.plan? version type = some plan ∧
      ∀ need ∈ plan.needs, ∃ slot, r.slot? version need = some slot := by
  have hserves : ∃ adapter, registry.Serves (r.slot? version) version type adapter := by
    rcases h.slot?_eq_some_iff.1 hslot with hcached | hlisted
    · obtain ⟨adapter, -, hserves⟩ := hbase.served version type slot hcached
      exact ⟨adapter, hserves.mono fun _ _ hold => h.slot?_eq_some_iff.2 (.inl hold)⟩
    · rcases List.mem_append.1 hlisted with hflying | hdone
      · exact absurd (List.mem_map_of_mem hflying) hbuilt
      · obtain ⟨adapter, -, hserves⟩ := h.served _ hdone
        exact ⟨adapter, hserves⟩
  obtain ⟨adapter, plan, hplan, hwired, -⟩ := hserves
  exact ⟨plan, hplan, hwired.exists_slot⟩

/-- Nothing is lacking below a type that has a slot. -/
theorem lacking?_of_slot? (hbase : base.Sound registry) (h : r.Valid registry version base)
    {type : TypeExpr} {slot : Nat} (hslot : r.slot? version type = some slot) (fuel : Nat) :
    registry.lacking? version fuel (r.inFlight.map Prod.fst) type = none := by
  refine lacking?_eq_none (fun type => ∃ slot, r.slot? version type = some slot) ?_ fuel type ⟨slot, hslot⟩
  intro other ⟨_, hother⟩ hbuilt
  exact exists_plan_of_slot? hbase h hother hbuilt

/-- Distinct types in flight are no more than there are types. -/
theorem length_inFlight_le (h : r.Valid registry version base) {types : List TypeExpr}
    (hmem : ∀ entry ∈ r.inFlight, entry.1 ∈ types) : r.inFlight.length ≤ types.length := by
  have hnodup : (r.inFlight.map Prod.fst).Nodup := by
    have hnodup := h.types_nodup
    rw [List.map_append] at hnodup
    exact (List.nodup_append.1 hnodup).1
  have hsubset : r.inFlight.map Prod.fst ⊆ types := by
    intro type htype
    obtain ⟨entry, hentry, rfl⟩ := List.mem_map.1 htype
    exact hmem entry hentry
  have hle := (List.subperm_of_subset hnodup hsubset).length_le
  rwa [List.length_map] at hle

/-- **A type that is not known yet** is answered as it should be, if what its adapter needs is. -/
theorem resolveIn_answers_of_enter {type : TypeExpr} (hfactories : registry.PassesOver version type) {fuel : Nat}
    (h : r.Valid registry version base) (hslot : r.slot? version type = none)
    (hneeds : ∀ plan, registry.plan? version type = some plan → ∀ need ∈ plan.needs,
      (registry.resolveIn version fuel).Meets registry version base (r.enter type).2.inFlight
        (registry.lacking? version fuel (type :: r.inFlight.map Prod.fst)) need) :
    (registry.resolveIn version (fuel + 1) type).Answers registry version base r
      (registry.lacking? version (fuel + 1) (r.inFlight.map Prod.fst) type)
      (fun r' slot => r'.slot? version type = some slot) := by
  have hfresh : type ∉ r.inFlight.map Prod.fst := by
    obtain ⟨-, hnot⟩ := h.not_mem_of_slot?_eq_none hslot
    rw [List.map_append, List.mem_append, not_or] at hnot
    exact hnot.1
  have henter := h.enter hslot
  cases hplan : registry.plan? version type with
  | none =>
    have hcreate := congrFun (create_of_no_plan hfactories hplan (registry.resolveIn version fuel))
      (r.enter type).2
    refine ⟨_, _, resolveIn_of_enter hslot hcreate, .error ?_ (henter.toAllocated.leave type)⟩
    rw [lacking?, if_neg hfresh, hplan]
  | some plan =>
    obtain ⟨created, r', hcreate, hends⟩ :=
      create_answers hfactories hplan henter rfl (hneeds plan hplan)
    have hlacking : registry.lacking? version (fuel + 1) (r.inFlight.map Prod.fst) type =
        plan.needs.findSome? (registry.lacking? version fuel (type :: r.inFlight.map Prod.fst)) := by
      rw [lacking?, if_neg hfresh, hplan]
    rw [hlacking]
    cases hends with
    | error hmissing halloc =>
      exact ⟨_, _, resolveIn_of_enter hslot hcreate, .error hmissing (halloc.leave type)⟩
    | ok hnone hvalid hinFlight hkept hgood =>
      obtain ⟨adapter, rfl, hserves⟩ := hgood
      -- what its adapter needed has come and gone, so the type is the first in flight again
      have hfirst : r'.inFlight = (type, (r.enter type).1) :: r.inFlight := hinFlight
      obtain ⟨r'', hsettle, hvalid', hinFlight', hslots⟩ := hvalid.settle hfirst hserves
      refine ⟨.ok (r.enter type).1, r'', ?_, .ok hnone hvalid' hinFlight' ?_ ?_⟩
      · rw [resolveIn_of_enter hslot hcreate, Resolution.conclude, hsettle]
        rfl
      · intro other slot hother
        exact hslots ▸ hkept other slot (h.slot?_enter hslot other slot hother)
      · rw [hslots]
        exact hkept type _ (henter.slot?_eq_some_iff.2 (.inr (List.mem_cons_self ..)))

/-- **The recursion answers as it should** on types that factories leave alone, with enough fuel for those
that are not in flight yet. -/
theorem resolveIn_answers {Spared : TypeExpr → Prop} (hspared : registry.Spares version Spared)
    (hbase : base.Sound registry) (goal : TypeExpr) (fuel : Nat) :
    ∀ (type : TypeExpr) (r : Resolution), Spared type → type ∈ registry.reach goal →
      r.Valid registry version base → (∀ entry ∈ r.inFlight, entry.1 ∈ registry.reach goal) →
      (registry.reach goal).length < fuel + r.inFlight.length →
      (registry.resolveIn version fuel type).Answers registry version base r
        (registry.lacking? version fuel (r.inFlight.map Prod.fst) type)
        (fun r' slot => r'.slot? version type = some slot) := by
  induction fuel with
  | zero =>
    -- the types in flight are distinct and all within reach, so the fuel lasts longer than they do
    intro type r _ _ h hreach hfuel
    have hle := length_inFlight_le h hreach
    omega
  | succ fuel ih =>
    intro type r htype hgoal h hreach hfuel
    cases hslot : r.slot? version type with
    | some slot =>
      refine ⟨_, r, resolveIn_of_slot? hslot fuel, ?_⟩
      exact .ok (lacking?_of_slot? hbase h hslot _) h rfl (fun _ _ hold => hold) hslot
    | none =>
      refine resolveIn_answers_of_enter (hspared.passesOver type htype) h hslot ?_
      -- the type itself is in flight while its needs are resolved, so one level of fuel less is enough
      intro plan hplan need hneed r' hvalid hinFlight
      have hneed' := (hspared.within type plan htype hplan).needs need hneed
      have hanswers := ih need r' hneed' (reach_closed hgoal hplan need hneed) hvalid
      rw [hinFlight] at hanswers
      have hlength : (r.enter type).2.inFlight.length = r.inFlight.length + 1 := List.length_cons
      refine hanswers ?_ (by omega)
      intro entry hentry
      rcases List.mem_cons.1 hentry with rfl | hold
      · exact hgoal
      · exact hreach entry hold

/-! ## A whole resolution

Nothing is in flight when a resolution starts and when it ends, and so the answer is a matter of the
registry and of the type. The table matters to a resolution in two ways only. A type that is cached is
answered at once, which is right because nothing can be missing below it. And cached types are not
entered, which is the same answer with less work. -/

/-- The first type without a plan that the resolution of a type meets. It goes by the registry alone, so
it is known without a table whether a resolution succeeds. -/
def missing? (registry : Registry) (version : UInt32) (type : TypeExpr) : Option TypeExpr :=
  registry.lacking? version (registry.resolveFuel type) [] type

/-- The recursion as a whole resolution runs it: nothing is in flight, and the fuel is what
`Registry.resolveFuel` grants. -/
theorem Spares.resolveIn_answers_missing? {Spared : TypeExpr → Prop} (hspared : registry.Spares version Spared)
    {table : SlotTable} (hsound : table.Sound registry) {type : TypeExpr} (htype : Spared type) :
    (registry.resolveIn version (registry.resolveFuel type) type).Answers registry version table { table }
      (registry.missing? version type) (fun r slot => r.slot? version type = some slot) := by
  have hfuel : (registry.reach type).length < registry.resolveFuel type + ([] : List Nat).length := by
    rw [length_reach, resolveFuel, List.length_nil]
    omega
  exact resolveIn_answers hspared hsound type _ type { table } htype (mem_reach_self type)
    (Resolution.valid_start hsound) nofun hfuel

/-- What a whole resolution does to a slot table, and what it answers. By the error case, nothing of a
failed resolution is left in the cache. The table may still have grown by the slots that were reserved
meanwhile, which are free afterwards. -/
inductive Resolves (registry : Registry) (type : TypeExpr) (version : UInt32) (table : SlotTable) :
    Except Error Nat → SlotTable → Prop where
  | ok {slot : Nat} {table' : SlotTable} (hmissing : registry.missing? version type = none)
      (hsound : table'.Sound registry) (hextends : table.Extends table')
      (hslot : table'.slotOf version type = some slot) : Resolves registry type version table (.ok slot) table'
  | error {missing : TypeExpr} {table' : SlotTable}
      (hmissing : registry.missing? version type = some missing)
      (hsound : table'.Sound registry) (hextends : table.Extends table')
      (hcached : table'.cached = table.cached) :
      Resolves registry type version table (.error (.noAdapter missing version)) table'

/-- Whatever a resolution answers, it keeps the table sound and what is cached in its slots. -/
theorem Resolves.keeps {type : TypeExpr} {table table' : SlotTable} {answer : Except Error Nat}
    (h : registry.Resolves type version table answer table') :
    table'.Sound registry ∧ table.Extends table' := by
  cases h with
  | ok _ hsound hextends _ | error _ hsound hextends _ => exact ⟨hsound, hextends⟩

/-- **A whole resolution** of a type that factories leave alone. From a sound table it always has an
answer, and that answer depends on the registry alone. The table after it is sound, and no type that was
cached has moved. -/
theorem Spares.resolve_spec {Spared : TypeExpr → Prop} (hspared : registry.Spares version Spared)
    {table : SlotTable} (hsound : table.Sound registry) {type : TypeExpr} (htype : Spared type) :
    ∃ answer table', registry.resolve type version table = some (answer, table') ∧
      registry.Resolves type version table answer table' := by
  cases hslot : table.slot? ⟨type, version⟩ with
  | some slot =>
    have hstart : Resolution.Valid registry version table { table } := Resolution.valid_start hsound
    refine ⟨.ok slot, table, by rw [resolve, hslot], .ok ?_ hsound (.refl table) hslot⟩
    exact lacking?_of_slot? hsound hstart (hstart.slot?_eq_some_iff.2 (.inl hslot)) _
  | none =>
    obtain ⟨answer, r, hrun, hends⟩ := hspared.resolveIn_answers_missing? hsound htype
    cases hends with
    | ok hlacking hvalid hinFlight _ hgood =>
      refine ⟨_, r.publish version, by rw [resolve, hslot, hrun], .ok hlacking ?_ ?_ ?_⟩
      · exact hvalid.publish_sound hsound hinFlight
      · exact hvalid.publish_extends hsound
      · rw [hvalid.publish_slotOf_eq hsound hinFlight, hgood]
    | error hlacking halloc =>
      refine ⟨_, r.abandon, by rw [resolve, hslot, hrun], .error hlacking ?_ ?_ ?_⟩
      · exact halloc.abandon_sound hsound
      · exact halloc.abandon_extends hsound
      · rw [Resolution.abandon, SlotTable.release_foldl_cached, halloc.cached_eq]

theorem Spares.sound_of_resolve {Spared : TypeExpr → Prop} (hspared : registry.Spares version Spared)
    {table table' : SlotTable} (hsound : table.Sound registry) {type : TypeExpr} (htype : Spared type)
    {answer : Except Error Nat} (hcall : registry.resolve type version table = some (answer, table')) :
    table'.Sound registry := by
  obtain ⟨answer, after, hrun, hresolves⟩ := hspared.resolve_spec hsound htype
  rw [hrun] at hcall
  cases hcall
  exact hresolves.keeps.1

/-- A registry without factories resolves any type. -/
theorem resolve_spec (hfactories : registry.factories = []) {table : SlotTable}
    (hsound : table.Sound registry) (type : TypeExpr) (version : UInt32) :
    ∃ answer table', registry.resolve type version table = some (answer, table') ∧
      registry.Resolves type version table answer table' :=
  (spares_all hfactories).resolve_spec hsound trivial

end Registry

end Telegram
