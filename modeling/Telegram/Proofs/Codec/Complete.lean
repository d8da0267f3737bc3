import Telegram.Proofs.Codec.History
import Telegram.Proofs.Registry.Reach

/-!
# What a resolution caches

After any history of calls, resolving a type always ends. It succeeds exactly when every type that the
type leads to has an adapter, and then these types are cached, and nothing else in addition to what was.
When it fails, it names the first type without an adapter, and nothing new is cached.

* `Resolving.Adds` bounds what a part of a resolution has built when it ends: only types of one kind are
  new. There is one lemma for each part of a resolution, and `Registry.resolveIn_adds` closes the
  recursion.
* `SlotTable.Sound.slotOf_of_reaches`: a sound table that has a slot for a type has one for every type
  that it leads to.
* `Registry.Reached.resolve_complete` puts the two bounds together.

The lower bound needs no run to be followed. It is a property of sound tables: what an adapter refers to
is cached, and so what is cached is closed under needs. The upper bound does follow the run, and only with
an eye on what is built.
-/

namespace Telegram

open Codec

/-! ## Nothing but what is needed is built

A resolution that fails half way has built something as well, which is then thrown away. So the bound is
on every outcome. -/

/-- Whatever this part of a resolution ends with, the types that it has built are all of one kind. -/
def Resolving.Adds {α : Type} (Kind : TypeExpr → Prop) (run : Resolving α) : Prop :=
  ∀ r a r', run r = some (a, r') → ∀ entry ∈ r'.resolved, entry ∈ r.resolved ∨ Kind entry.1

namespace Resolving

variable {α β : Type} {Kind Kind' : TypeExpr → Prop} {run : Resolving α}

/-- Answering builds nothing. -/
theorem adds_pure (a : α) : Adds Kind (pure a) := by
  intro r b r' hrun entry hentry
  cases hrun
  exact .inl hentry

/-- Two parts build what each of them builds. -/
theorem Adds.bind (h : run.Adds Kind) {next : α → Resolving β} (hnext : ∀ a, (next a).Adds Kind) :
    Adds Kind (run >>= next) := by
  intro r b r'' hrun entry hentry
  obtain ⟨a, r', hfirst, hrest⟩ := bind_eq_some_iff.1 hrun
  rcases hnext a r' b r'' hrest entry hentry with hold | hnew
  · exact h r a r' hfirst entry hold
  · exact .inr hnew

theorem Adds.imp (h : run.Adds Kind) (himp : ∀ type, Kind type → Kind' type) : run.Adds Kind' :=
  fun r a r' hrun entry hentry => (h r a r' hrun entry hentry).imp_right (himp _)

end Resolving

section Adds

open Resolving Registry

variable {registry : Registry} {version : UInt32} {Kind : TypeExpr → Prop} {resolve : Resolve}

/-- Fields build what comes of asking for their types, and those with an adapter of their own ask for
none. -/
theorem bindFields_adds (fields : List Field)
    (h : ∀ field ∈ fields, field.adapter = none → (resolve field.type).Adds Kind) :
    (bindFields resolve fields).Adds Kind := by
  induction fields with
  | nil => exact adds_pure _
  | cons field rest ih =>
    rw [List.forall_mem_cons] at h
    have htarget : (bindTarget resolve field).Adds Kind := by
      cases hadapter : field.adapter with
      | some adapter =>
        simp only [bindTarget, hadapter]
        exact adds_pure _
      | none =>
        simp only [bindTarget, hadapter]
        exact (h.1 hadapter).bind fun _ => adds_pure _
    refine htarget.bind fun target => ?_
    rcases target with e | target
    · exact adds_pure _
    · exact (ih h.2).bind fun _ => adds_pure _

/-- Building an adapter builds what comes of asking for the types that it uses. -/
theorem Registry.create_adds (hfactories : registry.factories = []) {type : TypeExpr}
    (h : ∀ need, registry.Uses version type need → (resolve need).Adds Kind) :
    (registry.create resolve version type).Adds Kind := by
  cases hadapter : registry.adapter? type with
  | some adapter =>
    simp only [create, hadapter]
    exact adds_pure _
  | none =>
    rw [create_of_no_adapter? (passesOver_of_nil hfactories type) hadapter]
    cases type with
    | scalar | foreign | family => exact adds_pure _
    | optional element => exact (h element (.optional hadapter)).bind fun _ => adds_pure _
    | sequence container element => exact (h element (.sequence hadapter)).bind fun _ => adds_pure _
    | record name =>
      cases hschema : registry.schema? (.record name) with
      | none =>
        simp only [createBuiltin, hschema]
        exact adds_pure _
      | some schema =>
        simp only [createBuiltin, hschema]
        refine (bindFields_adds _ fun field hfield hown => ?_).bind fun _ => adds_pure _
        obtain ⟨hlisted, happlies⟩ := List.mem_filter.1 hfield
        exact h field.type (.field hadapter hschema hlisted happlies hown)

/-- A type that has no slot is answered after its adapter has been built, or not at all. -/
theorem Registry.exists_create_of_resolveIn {type : TypeExpr} {fuel : Nat} {r r' : Resolution}
    {answer : Except Error Nat} (hslot : r.slot? version type = none)
    (hrun : registry.resolveIn version (fuel + 1) type r = some (answer, r')) :
    ∃ created r₁, registry.create (registry.resolveIn version fuel) version type (r.enter type).2 =
        some (created, r₁) ∧ r₁.conclude version type (r.enter type).1 created = some (answer, r') := by
  cases hcreate : registry.create (registry.resolveIn version fuel) version type (r.enter type).2 with
  | none =>
    have hget : (get : Resolving Resolution) r = some (r, r) := rfl
    have hset : (set (r.enter type).2 : Resolving Unit) r = some ((), (r.enter type).2) := rfl
    rw [resolveIn, bind_of_eq_some hget] at hrun
    simp only [hslot] at hrun
    rw [bind_of_eq_some hset, bind_of_eq_none hcreate] at hrun
    cases hrun
  | some outcome => exact ⟨outcome.1, outcome.2, rfl, (resolveIn_of_enter hslot hcreate).symm.trans hrun⟩

/-- Concluding a type builds nothing but this type. -/
theorem Resolution.resolved_of_conclude {type : TypeExpr} {slot : Nat} {r r' : Resolution}
    {created : Except Error (Option Adapter)} {answer : Except Error Nat}
    (h : r.conclude version type slot created = some (answer, r')) :
    ∀ entry ∈ r'.resolved, entry ∈ r.resolved ∨ entry.1 = type := by
  intro entry hentry
  match created with
  | .error e =>
    cases h
    exact .inl hentry
  | .ok none =>
    cases h
    exact .inl hentry
  | .ok (some adapter) =>
    obtain ⟨settled, hsettle, heq⟩ := Option.map_eq_some_iff.1 h
    cases heq
    obtain ⟨table, -, rfl⟩ := Option.map_eq_some_iff.1 hsettle
    rcases List.mem_cons.1 hentry with rfl | hold
    · exact .inr rfl
    · exact .inl hold

/-- **Resolving a type builds only types that it leads to**, whether or not it succeeds. -/
theorem Registry.resolveIn_adds (hfactories : registry.factories = []) (fuel : Nat) (type : TypeExpr) :
    (registry.resolveIn version fuel type).Adds (registry.Reaches version type) := by
  induction fuel generalizing type with
  | zero =>
    intro r answer r' hrun
    cases hrun
  | succ fuel ih =>
    intro r answer r' hrun entry hentry
    cases hslot : r.slot? version type with
    | some slot =>
      rw [resolveIn_of_slot? hslot] at hrun
      cases hrun
      exact .inl hentry
    | none =>
      obtain ⟨created, r₁, hcreate, hconclude⟩ := exists_create_of_resolveIn hslot hrun
      have hadds : (registry.create (registry.resolveIn version fuel) version type).Adds
          (registry.Reaches version type) :=
        create_adds hfactories fun need huses => (ih need).imp fun other => .head huses
      rcases Resolution.resolved_of_conclude hconclude entry hentry with hbuilt | rfl
      · exact hadds _ _ _ hcreate entry hbuilt
      · exact .inr .refl

end Adds

/-! ## Everything that is needed is cached

References are slots, and in a sound table a slot that an adapter refers to is the cached slot of the type
meant. One step is one reference, and the rest is induction along the path. -/

section Sound

variable {registry : Registry} {table : SlotTable} {version : UInt32}

/-- **A sound table is closed**: with a type, it has every type that this leads to. -/
theorem SlotTable.Sound.slotOf_of_reaches (h : table.Sound registry) {type other : TypeExpr}
    (hreaches : registry.Reaches version type other) {slot : Nat}
    (hslot : table.slotOf version type = some slot) : ∃ slot, table.slotOf version other = some slot := by
  induction hreaches with
  | refl => exact ⟨slot, hslot⟩
  | tail _ huses ih =>
    obtain ⟨used, hused⟩ := ih
    obtain ⟨adapter, -, plan, hplan, hwired, -⟩ := h.served version _ used hused
    refine hwired.exists_slot _ ?_
    rw [← Registry.needs_of_plan? hplan]
    exact Registry.mem_needs_iff.2 huses

/-- A key is cached when its type has a slot at its version. -/
theorem SlotTable.mem_keys_iff {key : Key} :
    key ∈ table.cached.map Prod.fst ↔ ∃ slot, table.slotOf key.version key.type = some slot := by
  rw [← not_iff_not, ← lookup_eq_none_iff_not_mem, not_exists]
  exact Option.eq_none_iff_forall_ne_some

/-- A resolution that succeeds caches nothing but what the type leads to. -/
theorem Registry.reaches_of_resolve (hfactories : registry.factories = []) (hsound : table.Sound registry)
    {type : TypeExpr} {slot : Nat} {after : SlotTable}
    (hcall : registry.resolve type version table = some (.ok slot, after)) {key : Key}
    (hkey : key ∈ after.cached.map Prod.fst) :
    key ∈ table.cached.map Prod.fst ∨ key.version = version ∧ registry.Reaches version type key.type := by
  cases hslot : table.slot? ⟨type, version⟩ with
  | some found =>
    rw [resolve, hslot] at hcall
    cases hcall
    exact .inl hkey
  | none =>
    obtain ⟨answer, r, hrun, hends⟩ := (spares_all hfactories).resolveIn_answers_missing? hsound trivial
    cases hends with
    | error =>
      rw [resolve, hslot, hrun] at hcall
      cases hcall
    | ok _ hvalid _ _ _ =>
      rw [resolve, hslot, hrun] at hcall
      cases hcall
      obtain ⟨⟨key, slot⟩, hentry, rfl⟩ := List.mem_map.1 hkey
      rcases hvalid.mem_publish.1 hentry with ⟨hversion, hbuilt⟩ | hold
      · have hadded := resolveIn_adds hfactories _ _ _ _ _ hrun _ hbuilt
        exact .inr ⟨hversion, hadded.resolve_left List.not_mem_nil⟩
      · exact .inl (List.mem_map_of_mem hold)

end Sound

/-! ## A whole resolution

A resolution that succeeds publishes what it has built, and one that fails gives it up. The two bounds
meet at what is published. -/

namespace Registry

variable {registry : Registry} {table : SlotTable}

/-- **Resolution is complete.** After any history of calls, resolving a type at a version has an answer.

* It succeeds exactly when every type that the type leads to at that version has an adapter. Then the type
  has the slot that was answered, and in addition to what was cached before, the types that it leads to
  are cached at that version, and nothing else.
* Otherwise the error names the version and the first type without an adapter that a depth-first search
  comes to, and what is cached has not changed. -/
theorem Reached.resolve_complete (hfactories : registry.factories = []) (h : registry.Reached table)
    (type : TypeExpr) (version : UInt32) :
    ∃ answer after, registry.resolve type version table = some (answer, after) ∧
      ((∃ slot, answer = .ok slot) ↔
        ∀ other, registry.Reaches version type other → registry.HasAdapter other) ∧
      (∀ slot, answer = .ok slot → after.slot? ⟨type, version⟩ = some slot ∧
        ∀ key, key ∈ after.cached.map Prod.fst ↔ key ∈ table.cached.map Prod.fst ∨
          key.version = version ∧ registry.Reaches version type key.type) ∧
      ∀ e, answer = .error e →
        (∃ missing, e = .noAdapter missing version ∧ registry.FirstLacking version [] type missing) ∧
          after.cached = table.cached := by
  have hsound := h.sound hfactories
  obtain ⟨answer, after, hcall, hresolves⟩ := registry.resolve_spec hfactories hsound type version
  refine ⟨answer, after, hcall, ?_⟩
  cases hresolves with
  | @ok slot _ hmissing hsound' hextends hslot =>
    refine ⟨⟨fun _ => missing?_eq_none_iff.1 hmissing, fun _ => ⟨slot, rfl⟩⟩, ?keys, nofun⟩
    -- nothing else is cached, by following the run; and all of it is, as a sound table is closed
    case keys =>
      intro answered heq
      obtain rfl := Except.ok.inj heq
      refine ⟨hslot, fun key => ⟨fun hkey => reaches_of_resolve hfactories hsound hcall hkey, ?_⟩⟩
      rw [SlotTable.mem_keys_iff, SlotTable.mem_keys_iff]
      rintro (⟨old, hold⟩ | ⟨rfl, hreaches⟩)
      · exact ⟨old, hextends.slotOf _ _ _ hold⟩
      · exact hsound'.slotOf_of_reaches hreaches hslot
  | @error missing _ hmissing _ _ hcached =>
    have hfirst := missing?_eq_some_iff.1 hmissing
    refine ⟨⟨nofun, fun hall => ?fails⟩, nofun, ?names⟩
    case fails =>
      obtain ⟨hbelow, hlacking⟩ := hfirst.sound
      exact absurd (hall missing (below_nil_iff.1 hbelow)) hlacking
    case names =>
      intro e heq
      obtain rfl := Except.error.inj heq
      exact ⟨⟨missing, rfl, hfirst⟩, hcached⟩

/-- A route fails over its port, also after the cycle in its first field was built, and caches nothing. A
hop then succeeds, and caches what it leads to. -/
theorem Reached.resolve_complete_routes :
    ∃ failed table slot,
      routes.resolve (.record "route") 1 {} = some (.error (.noAdapter (.foreign "port") 1), failed) ∧
      (routes.FirstLacking 1 [] (.record "route") (.foreign "port") ∧ failed.cached = []) ∧
      routes.resolve (.record "hop") 1 failed = some (.ok slot, table) ∧
      ∀ key, key ∈ table.cached.map Prod.fst ↔
        key.version = 1 ∧ routes.Reaches 1 (.record "hop") key.type := by
  have hroute : (routes.resolve (.record "route") 1 {}).map Prod.fst =
      some (.error (.noAdapter (.foreign "port") 1)) := by decide +kernel
  have hhop : routes.missing? 1 (.record "hop") = none := by decide +kernel
  have hfactories : routes.factories = [] := rfl
  obtain ⟨answer, failed, hcall, -, -, hfails⟩ :=
    Reached.resolve_complete hfactories .fresh (.record "route") 1
  rw [hcall] at hroute
  obtain rfl : answer = .error (.noAdapter (.foreign "port") 1) := Option.some.inj hroute
  obtain ⟨⟨missing, hnamed, hfirst⟩, hcached⟩ := hfails _ rfl
  cases hnamed
  obtain ⟨answer', table, hcall', hsucceeds, hkeys, -⟩ :=
    Reached.resolve_complete hfactories (.resolve .fresh hcall) (.record "hop") 1
  obtain ⟨slot, rfl⟩ := hsucceeds.2 (missing?_eq_none_iff.1 hhop)
  refine ⟨failed, table, slot, hcall, ⟨hfirst, hcached⟩, hcall', fun key => ?_⟩
  rw [(hkeys slot rfl).2 key, hcached]
  exact or_iff_right List.not_mem_nil

end Registry

end Telegram
