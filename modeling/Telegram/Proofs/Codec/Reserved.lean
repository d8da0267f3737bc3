import Telegram.Proofs.Codec.Complete
import Telegram.Proofs.Codec.Occupancy

/-!
# What a resolution reserves

How many slots a resolution reserves is decided by the registry and by what is cached. Which slots are
free makes no difference to it, so a resolution that is repeated with the same types cached reserves as
many slots again.

* `Registry.reserved` are the slots that a resolution reserves.
* `Resolution.Draws` says where they come from: from the free slots as long as there are any, and the
  table grows by the rest.
* `Resolution.InStep` compares two resolutions of the same type that began at different tables. They
  enter, leave and settle the same types, and `Registry.resolveIn_inStep` is about the whole recursion.
* `SlotTable.Sound.length_resolve` is the size of the table after a resolution, and
  `SlotTable.Sound.length_reserved_congr` says what the number of reserved slots depends on.

A resolution that fails gives its slots back, and they are free for the next. If the next one reserves as
many, the table does not grow; so the growth of a table under failures comes down to the question of how
many slots are reserved.
-/

namespace Telegram

open Codec

/-- The slots that resolving a type reserves, in that order: none if the type is cached. -/
def Registry.reserved (registry : Registry) (type : TypeExpr) (version : UInt32) (table : SlotTable) :
    List Nat :=
  match table.slot? ⟨type, version⟩ with
  | some _ => []
  | none =>
    ((registry.resolveIn version (registry.resolveFuel type) type { table }).map
      fun found => found.2.reserved).getD []

/-! ## Where slots come from

A slot is taken off the list of free ones while there are any, and is new otherwise. So the free slots
that were there in the beginning are, at any moment, those that were drawn and those that are still there,
and the table has grown only if none are left. -/

/-- The resolution has taken its slots off the free ones, in their order, and added to the table only what
these were too few for. So the order in which slots are given out is fixed by the
free ones, and the growth of a table by how many are reserved. -/
structure Resolution.Draws (base : SlotTable) (r : Resolution) : Prop where
  free_eq : r.table.free = base.free.drop r.reserved.length
  length_eq : r.table.slots.length = base.slots.length + (r.reserved.length - base.free.length)

namespace Resolution

variable {base : SlotTable} {r r' : Resolution}

/-- Entering a type reserves one slot. -/
theorem length_reserved_enter (r : Resolution) (type : TypeExpr) :
    (r.enter type).2.reserved.length = r.reserved.length + 1 :=
  List.length_append

/-- Nothing is cached before a resolution has ended. -/
theorem cached_enter (r : Resolution) (type : TypeExpr) :
    (r.enter type).2.table.cached = r.table.cached := by
  simp only [enter, SlotTable.reserve]
  cases r.table.free <;> rfl

/-- In the beginning nothing has been drawn. -/
theorem draws_start (base : SlotTable) : Draws base { table := base } where
  free_eq := List.drop_zero.symm
  length_eq := by simp

/-- **Entering a type draws one slot**: the first free one, or a new one when there are none left. -/
theorem Draws.enter (h : r.Draws base) (type : TypeExpr) : (r.enter type).2.Draws base := by
  have hlength := r.length_reserved_enter type
  have hfree := h.free_eq
  have hslots := h.length_eq
  constructor
  case free_eq =>
    rw [hlength, ← List.drop_drop, ← hfree]
    simp only [Resolution.enter, SlotTable.reserve]
    cases r.table.free <;> rfl
  case length_eq =>
    rw [hlength]
    cases hnext : r.table.free with
    | nil =>
      have hle : base.free.length ≤ r.reserved.length := List.drop_eq_nil_iff.1 (hfree.symm.trans hnext)
      have hgrows : (r.enter type).2.table.slots.length = r.table.slots.length + 1 := by
        simp [Resolution.enter, SlotTable.reserve, hnext]
      omega
    | cons slot free =>
      -- a slot is free, so fewer were drawn than had been there
      have hlt : r.reserved.length < base.free.length := by
        by_contra hle
        rw [hnext, List.drop_eq_nil_of_le (Nat.not_lt.1 hle)] at hfree
        cases hfree
      have hstays : (r.enter type).2.table.slots.length = r.table.slots.length := by
        simp [Resolution.enter, SlotTable.reserve, hnext]
      omega

theorem Draws.leave (h : r.Draws base) (type : TypeExpr) : (r.leave type).Draws base :=
  ⟨h.free_eq, h.length_eq⟩

/-- What settling a type does: its slot is filled, and the type is listed. -/
theorem eq_of_settle? {type : TypeExpr} {slot : Nat} {adapter : Adapter}
    (h : r.settle? type slot adapter = some r') :
    r' = { r with
      table := { r.table with slots := r.table.slots.set slot (some adapter) }
      resolved := (type, slot) :: r.resolved } := by
  obtain ⟨table, hfill, rfl⟩ := Option.map_eq_some_iff.1 h
  unfold SlotTable.fill? at hfill
  split at hfill
  · rw [← Option.some.inj hfill]
  · cases hfill

/-- Filling a slot draws none. -/
theorem Draws.settle (h : r.Draws base) {type : TypeExpr} {slot : Nat} {adapter : Adapter}
    (hsettle : r.settle? type slot adapter = some r') : r'.Draws base := by
  obtain rfl := eq_of_settle? hsettle
  exact ⟨h.free_eq, List.length_set.trans h.length_eq⟩

/-! ## Two resolutions in step

The recursion asks of the table only whether a type is cached, and goes by the types that are built and
being built. Two resolutions that agree in all of these take the same turns, however their slots are
numbered. -/

/-- Two resolutions have come equally far: the same types are cached, built and being built, and they have
reserved equally many slots. Which slots these are may differ. -/
structure InStep (version : UInt32) (r r' : Resolution) : Prop where
  cached : ∀ type, (r.table.slot? ⟨type, version⟩).isSome = (r'.table.slot? ⟨type, version⟩).isSome
  resolved : r.resolved.map Prod.fst = r'.resolved.map Prod.fst
  inFlight : r.inFlight.map Prod.fst = r'.inFlight.map Prod.fst
  reserved : r.reserved.length = r'.reserved.length

variable {version : UInt32}

theorem inStep_refl (r : Resolution) : r.InStep version r :=
  ⟨fun _ => rfl, rfl, rfl, rfl⟩

/-- In two lists with the same keys, the same keys are found. -/
theorem isSome_lookup_congr {α β : Type} [DecidableEq α] {entries entries' : List (α × β)}
    (h : entries.map Prod.fst = entries'.map Prod.fst) (key : α) :
    (entries.lookup key).isSome = (entries'.lookup key).isSome := by
  rw [Bool.eq_iff_iff, Option.isSome_iff_ne_none, Option.isSome_iff_ne_none, ne_eq, ne_eq,
    lookup_eq_none_iff_not_mem, lookup_eq_none_iff_not_mem, h]

/-- A type is found in both resolutions or in neither. -/
theorem InStep.isSome_slot? (h : r.InStep version r') (type : TypeExpr) :
    (r.slot? version type).isSome = (r'.slot? version type).isSome := by
  simp only [slot?, Option.orElse_eq_orElse, Option.orElse_eq_or, Option.isSome_or, h.cached,
    isSome_lookup_congr h.resolved, isSome_lookup_congr h.inFlight]

theorem InStep.enter (h : r.InStep version r') (type : TypeExpr) :
    (r.enter type).2.InStep version (r'.enter type).2 := by
  refine ⟨fun other => ?cached, h.resolved, congrArg (type :: ·) h.inFlight, ?reserved⟩
  case cached =>
    simp only [SlotTable.slot?, cached_enter]
    exact h.cached other
  case reserved => rw [length_reserved_enter, length_reserved_enter, h.reserved]

theorem InStep.leave (h : r.InStep version r') (type : TypeExpr) :
    (r.leave type).InStep version (r'.leave type) := by
  have hfilter : ∀ r : Resolution, (r.leave type).inFlight.map Prod.fst =
      (r.inFlight.map Prod.fst).filter (· ≠ type) := by
    intro r
    rw [List.filter_map]
    rfl
  refine ⟨h.cached, h.resolved, ?_, h.reserved⟩
  rw [hfilter, hfilter, h.inFlight]

theorem InStep.settle (h : r.InStep version r') {type : TypeExpr} {slot slot' : Nat}
    {adapter adapter' : Adapter} {s s' : Resolution} (hsettle : r.settle? type slot adapter = some s)
    (hsettle' : r'.settle? type slot' adapter' = some s') : s.InStep version s' := by
  obtain rfl := eq_of_settle? hsettle
  obtain rfl := eq_of_settle? hsettle'
  exact ⟨h.cached, congrArg (type :: ·) h.resolved, h.inFlight, h.reserved⟩

end Resolution

/-! ## Whole runs in step

The relation between two runs says that they are answered both or neither, that the answers are the same
up to slots, and that the resolutions are in step afterwards. The adapters that are built differ in the
slots they refer to, and nothing that follows looks into them. -/

section Runs

open Resolution

variable {registry : Registry} {version : UInt32} {base : SlotTable} {α β : Type}

/-- Both answers are good, or both are the same error. -/
def SameOutcome (answer answer' : Except Error α) : Prop :=
  answer.map (fun _ => ()) = answer'.map fun _ => ()

/-- Both times an adapter was built, or none, or the same error stopped it. -/
def SameBuilt (created created' : Except Error (Option Adapter)) : Prop :=
  created.map Option.isSome = created'.map Option.isSome

/-- Two parts of resolutions that begin in step end in step, with answers that differ in slots alone, and
the first of them has drawn its slots as it should. -/
def Resolving.InStep (version : UInt32) (base : SlotTable) (Same : α → α → Prop)
    (run run' : Resolving α) : Prop :=
  ∀ r r' a s a' s', r.InStep version r' → r.Draws base → run r = some (a, s) → run' r' = some (a', s') →
    s.InStep version s' ∧ s.Draws base ∧ Same a a'

namespace Resolving

variable {Same : α → α → Prop} {Same' : β → β → Prop} {run run' : Resolving α}

theorem inStep_pure {a a' : α} (h : Same a a') : InStep version base Same (pure a) (pure a') := by
  intro r r' b s b' s' hstep hdraws hrun hrun'
  cases hrun
  cases hrun'
  exact ⟨hstep, hdraws, h⟩

/-- Two parts one after the other. -/
theorem InStep.bind (h : InStep version base Same run run') {next next' : α → Resolving β}
    (hnext : ∀ a a', Same a a' → InStep version base Same' (next a) (next' a')) :
    InStep version base Same' (run >>= next) (run' >>= next') := by
  intro r r' b t b' t' hstep hdraws hrun hrun'
  obtain ⟨a, s, hfirst, hrest⟩ := bind_eq_some_iff.1 hrun
  obtain ⟨a', s', hfirst', hrest'⟩ := bind_eq_some_iff.1 hrun'
  obtain ⟨hstep', hdraws', hsame⟩ := h r r' a s a' s' hstep hdraws hfirst hfirst'
  exact hnext a a' hsame s s' b t b' t' hstep' hdraws' hrest hrest'

/-- Answers that are put into another form. -/
theorem InStep.map (h : InStep version base Same run run') {f f' : α → β}
    (hsame : ∀ a a', Same a a' → Same' (f a) (f' a')) :
    InStep version base Same' (do
      let answer ← run
      pure (f answer)) (do
      let answer ← run'
      pure (f' answer)) :=
  h.bind fun a a' ha => inStep_pure (hsame a a' ha)

end Resolving

theorem SameOutcome.map {answer answer' : Except Error α} (h : SameOutcome answer answer') (f f' : α → β) :
    SameOutcome (answer.map f) (answer'.map f') := by
  cases answer <;> cases answer' <;> exact h

/-- Adapters that are built of good answers. -/
theorem SameOutcome.built {answer answer' : Except Error α} (h : SameOutcome answer answer')
    (f f' : α → Adapter) :
    SameBuilt (answer.map fun a => some (f a)) (answer'.map fun a => some (f' a)) := by
  cases answer with
  | error e =>
    cases answer' with
    | error e' => exact congrArg Except.error (Except.error.inj h)
    | ok a' => cases h
  | ok a =>
    cases answer' with
    | error e' => cases h
    | ok a' => rfl

/-- Finding the adapters of the fields. -/
theorem bindFields_inStep {resolve : Resolve}
    (hresolve : ∀ type, (resolve type).InStep version base SameOutcome (resolve type)) (fields : List Field) :
    (bindFields resolve fields).InStep version base SameOutcome (bindFields resolve fields) := by
  induction fields with
  | nil => exact Resolving.inStep_pure rfl
  | cons field rest ih =>
    have htarget : (bindTarget resolve field).InStep version base SameOutcome
        (bindTarget resolve field) := by
      unfold bindTarget
      split
      · exact Resolving.inStep_pure rfl
      · exact (hresolve field.type).map fun _ _ hsame => hsame.map _ _
    refine htarget.bind fun target target' hsame => ?_
    match target, target' with
    | .error e, .error e' => exact Resolving.inStep_pure (congrArg Except.error (Except.error.inj hsame))
    | .ok target, .ok target' => exact ih.map fun _ _ hrest => hrest.map _ _

/-- Building one adapter. -/
theorem Registry.create_inStep (hfactories : registry.factories = []) {resolve : Resolve}
    (hresolve : ∀ type, (resolve type).InStep version base SameOutcome (resolve type)) (type : TypeExpr) :
    (registry.create resolve version type).InStep version base SameBuilt
      (registry.create resolve version type) := by
  cases hadapter : registry.adapter? type with
  | some adapter =>
    simp only [create, hadapter]
    exact Resolving.inStep_pure rfl
  | none =>
    rw [create_of_no_adapter? (passesOver_of_nil hfactories type) hadapter]
    cases type with
    | scalar | foreign | family => exact Resolving.inStep_pure rfl
    | optional element | sequence container element =>
      exact (hresolve element).map fun _ _ hsame => hsame.built _ _
    | record name =>
      cases hschema : registry.schema? (.record name) with
      | none =>
        simp only [createBuiltin, hschema]
        exact Resolving.inStep_pure rfl
      | some schema =>
        simp only [createBuiltin, hschema]
        exact (bindFields_inStep hresolve _).map fun _ _ hsame => hsame.built _ _

/-- Concluding a type after its adapter was built, or was not. -/
theorem Resolution.InStep.conclude {r r' s s' : Resolution} (h : r.InStep version r') (hdraws : r.Draws base)
    {type : TypeExpr} {slot slot' : Nat} {created created' : Except Error (Option Adapter)}
    (hbuilt : SameBuilt created created') {answer answer' : Except Error Nat}
    (hrun : r.conclude version type slot created = some (answer, s))
    (hrun' : r'.conclude version type slot' created' = some (answer', s')) :
    s.InStep version s' ∧ s.Draws base ∧ SameOutcome answer answer' := by
  have hleave := h.leave type
  have hdraws' := hdraws.leave type
  match created, created' with
  | .error e, .error e' =>
    cases hrun
    cases hrun'
    exact ⟨hleave, hdraws', congrArg Except.error (Except.error.inj hbuilt)⟩
  | .ok none, .ok none =>
    cases hrun
    cases hrun'
    exact ⟨hleave, hdraws', rfl⟩
  | .ok (some adapter), .ok (some adapter') =>
    obtain ⟨t, hsettle, heq⟩ := Option.map_eq_some_iff.1 hrun
    obtain ⟨t', hsettle', heq'⟩ := Option.map_eq_some_iff.1 hrun'
    cases heq
    cases heq'
    exact ⟨hleave.settle hsettle hsettle', hdraws'.settle hsettle, rfl⟩

/-- **The recursion in step**: from two resolutions that have come equally far it comes equally far. -/
theorem Registry.resolveIn_inStep (hfactories : registry.factories = []) (fuel : Nat) (type : TypeExpr) :
    (registry.resolveIn version fuel type).InStep version base SameOutcome
      (registry.resolveIn version fuel type) := by
  induction fuel generalizing type with
  | zero =>
    intro r r' a s a' s' _ _ hrun
    cases hrun
  | succ fuel ih =>
    intro r r' answer s answer' s' hstep hdraws hrun hrun'
    -- the type is found in both, and both are done; or in neither, and both build it
    have hslots := hstep.isSome_slot? type
    cases hslot : r.slot? version type with
    | some slot =>
      rw [hslot] at hslots
      obtain ⟨slot', hslot'⟩ := Option.isSome_iff_exists.1 hslots.symm
      rw [resolveIn_of_slot? hslot] at hrun
      rw [resolveIn_of_slot? hslot'] at hrun'
      cases hrun
      cases hrun'
      exact ⟨hstep, hdraws, rfl⟩
    | none =>
      rw [hslot] at hslots
      have hslot' : r'.slot? version type = none := by
        rwa [Option.isSome_none, eq_comm, Option.isSome_eq_false_iff, Option.isNone_iff_eq_none] at hslots
      obtain ⟨created, t, hcreate, hconclude⟩ := exists_create_of_resolveIn hslot hrun
      obtain ⟨created', t', hcreate', hconclude'⟩ := exists_create_of_resolveIn hslot' hrun'
      obtain ⟨hstep', hdraws', hbuilt⟩ := create_inStep hfactories ih type _ _ _ _ _ _ (hstep.enter type)
        (hdraws.enter type) hcreate hcreate'
      exact hstep'.conclude hdraws' hbuilt hconclude hconclude'

end Runs

/-! ## Whole resolutions

A resolution that succeeds caches what it reserved, and one that fails releases it. In both cases the size
of the table is settled by the slots that were reserved while it ran. -/

section Whole

open Registry

variable {registry : Registry} {version : UInt32} {table : SlotTable} {type : TypeExpr}

theorem Registry.reserved_of_slot? {slot : Nat} (h : table.slot? ⟨type, version⟩ = some slot) :
    registry.reserved type version table = [] := by
  rw [reserved, h]

theorem Registry.reserved_of_resolveIn {answer : Except Error Nat} {r : Resolution}
    (hslot : table.slot? ⟨type, version⟩ = none)
    (hrun : registry.resolveIn version (registry.resolveFuel type) type { table } = some (answer, r)) :
    registry.reserved type version table = r.reserved := by
  rw [reserved, hslot, hrun]
  rfl

theorem Resolution.Draws.length_slots {base : SlotTable} {r : Resolution} (hbase : base.Sound registry)
    (h : r.Draws base) :
    r.table.slots.length = max base.slots.length (base.cached.length + r.reserved.length) := by
  have hlength := hbase.length_slots
  have hgrown := h.length_eq
  omega

theorem SlotTable.release_foldl_length (released : List Nat) (table : SlotTable) :
    (released.foldl release table).slots.length = table.slots.length := by
  induction released generalizing table with
  | nil => rfl
  | cons slot rest ih => rw [List.foldl_cons, ih, release, List.length_set]

/-- **What a resolution costs.** Whether or not it succeeds, the table is afterwards as large as before,
or holds just what is cached and the slots reserved, whichever is more. If it succeeds, every slot that it
reserved is cached, and otherwise nothing is in addition to what was. -/
theorem SlotTable.Sound.length_resolve (hfactories : registry.factories = []) (h : table.Sound registry)
    {answer : Except Error Nat} {after : SlotTable}
    (hcall : registry.resolve type version table = some (answer, after)) :
    after.slots.length =
        max table.slots.length (table.cached.length + (registry.reserved type version table).length) ∧
      ((∃ slot, answer = .ok slot) →
        after.cached.length = table.cached.length + (registry.reserved type version table).length) ∧
      ((∃ e, answer = .error e) → after.cached = table.cached) := by
  cases hslot : table.slot? ⟨type, version⟩ with
  | some slot =>
    rw [resolve_of_slot? hslot] at hcall
    cases hcall
    rw [reserved_of_slot? hslot]
    have hlength := h.length_slots
    refine ⟨?_, fun _ => rfl, fun _ => rfl⟩
    rw [List.length_nil]
    omega
  | none =>
    obtain ⟨outcome, r, hrun, hends⟩ := (spares_all hfactories).resolveIn_answers_missing? h trivial
    obtain ⟨-, hdraws, -⟩ := resolveIn_inStep hfactories _ type _ _ _ _ _ _ (Resolution.inStep_refl _)
      (Resolution.draws_start table) hrun hrun
    have hgrown := hdraws.length_slots h
    rw [reserved_of_resolveIn hslot hrun]
    rw [resolve, hslot, hrun] at hcall
    cases hends with
    | ok _ hvalid hinFlight _ _ =>
      cases hcall
      have hpublish := hvalid.publish_eq
      have hreserved := hvalid.owned.length_eq
      rw [hinFlight, List.nil_append, List.length_map] at hreserved
      refine ⟨by rw [hpublish, ← hgrown], fun _ => ?_, ?_⟩
      · rw [hpublish, List.length_append, List.length_reverse, List.length_map, hreserved, Nat.add_comm]
      · rintro ⟨_, herror⟩
        cases herror
    | error _ halloc =>
      cases hcall
      refine ⟨?_, ?_, fun _ => ?_⟩
      · rw [Resolution.abandon, release_foldl_length, hgrown]
      · rintro ⟨_, hok⟩
        cases hok
      · rw [Resolution.abandon, release_foldl_cached, halloc.cached_eq]

/-- **What is free makes no difference**: with the same types cached, a resolution reserves as many
slots. -/
theorem SlotTable.Sound.length_reserved_congr (hfactories : registry.factories = [])
    (h : table.Sound registry) {table' : SlotTable} (h' : table'.Sound registry)
    (hcached : table'.cached = table.cached) (type : TypeExpr) (version : UInt32) :
    (registry.reserved type version table').length = (registry.reserved type version table).length := by
  have hsame : ∀ key, table'.slot? key = table.slot? key := fun key => by rw [slot?, hcached]; rfl
  cases hslot : table.slot? ⟨type, version⟩ with
  | some slot => rw [reserved_of_slot? hslot, reserved_of_slot? ((hsame _).trans hslot)]
  | none =>
    have hslot' := (hsame _).trans hslot
    obtain ⟨answer, r, hrun, -⟩ := (spares_all hfactories).resolveIn_answers_missing? h trivial
    obtain ⟨answer', r', hrun', -⟩ := (spares_all hfactories).resolveIn_answers_missing? h' trivial
    have hbegin : Resolution.InStep version { table := table' } { table } :=
      ⟨fun other => by rw [hsame], rfl, rfl, rfl⟩
    obtain ⟨hstep, -, -⟩ := resolveIn_inStep hfactories _ type _ _ _ _ _ _ hbegin
      (Resolution.draws_start table') hrun' hrun
    rw [reserved_of_resolveIn hslot hrun, reserved_of_resolveIn hslot' hrun', hstep.reserved]

end Whole

end Telegram
