import Telegram.Proofs.Codec.Refinement

/-!
# Histories of calls

Resolving, writing and reading all leave something behind in the slot table, also when they fail.
`Registry.Reached` holds of every table that some history of calls leads to, and `Registry.ReachedWithin` of
those that calls lead to which keep to types that factories leave alone.

* `Registry.ReachedWithin.sound`: all of the latter are sound, as each call keeps a table so.
* `Registry.ReachedWithin.encodeIn_answer` and `Registry.ReachedWithin.decodeIn_answer`: what is written and
  read after such a history is what the plans of the registry say.
* `Registry.Reached.transfers_eq_fresh`: in a registry without factories, where every history is of that kind,
  nothing of a history shows in what is written and read later.

Callers may bring adapters, and these may have any types read and written in the middle of a call.
-/

namespace Telegram

open Codec

/-- The slot tables that histories of calls lead to. Calls that fail are part of a history, and calls may
be given any fuel. -/
inductive Registry.Reached (registry : Registry) : SlotTable → Prop where
  /-- Nothing has been called yet. -/
  | fresh : Reached registry {}
  | resolve {table table' : SlotTable} {type : TypeExpr} {version : UInt32} {answer : Except Error Nat}
      (h : Reached registry table) (hcall : registry.resolve type version table = some (answer, table')) :
      Reached registry table'
  | encode {table table' : SlotTable} {fuel : Nat} {value : Value} {version : UInt32} {writing : Writing}
      (h : Reached registry table)
      (hcall : registry.encodeIn fuel value version table = some (writing, table')) :
      Reached registry table'
  | decode {table table' : SlotTable} {fuel : Nat} {type : TypeExpr} {version : UInt32} {source : Bytes}
      {reading : Reading} (h : Reached registry table)
      (hcall : registry.decodeIn fuel type version source table = some (reading, table')) :
      Reached registry table'

/-- The slot tables that histories of calls lead to in which every call keeps to a set of types. Which set
that is may differ from one version to the next. -/
inductive Registry.ReachedWithin (registry : Registry) (Spared : UInt32 → TypeExpr → Prop) :
    SlotTable → Prop where
  /-- Nothing has been called yet. -/
  | fresh : ReachedWithin registry Spared {}
  | resolve {table table' : SlotTable} {type : TypeExpr} {version : UInt32} {answer : Except Error Nat}
      (h : ReachedWithin registry Spared table) (htype : Spared version type)
      (hcall : registry.resolve type version table = some (answer, table')) :
      ReachedWithin registry Spared table'
  | encode {table table' : SlotTable} {fuel : Nat} {value : Value} {version : UInt32} {writing : Writing}
      (h : ReachedWithin registry Spared table) (htype : Spared version value.type)
      (hvalue : value.Within (Spared version))
      (hcall : registry.encodeIn fuel value version table = some (writing, table')) :
      ReachedWithin registry Spared table'
  | decode {table table' : SlotTable} {fuel : Nat} {type : TypeExpr} {version : UInt32} {source : Bytes}
      {reading : Reading} (h : ReachedWithin registry Spared table) (htype : Spared version type)
      (hcall : registry.decodeIn fuel type version source table = some (reading, table')) :
      ReachedWithin registry Spared table'

/-- Every history keeps to the set of all types. -/
theorem Registry.Reached.within {registry : Registry} {table : SlotTable} (h : registry.Reached table) :
    registry.ReachedWithin (fun _ _ => True) table := by
  induction h with
  | fresh => exact .fresh
  | resolve _ hcall ih => exact .resolve ih trivial hcall
  | encode _ hcall ih => exact .encode ih trivial (Value.within_all _) hcall
  | decode _ hcall ih => exact .decode ih trivial hcall

/-- What a run answers from a slot table. -/
def Run.answer {α : Type} (run : Run α) (table : SlotTable) : Option α :=
  (run table).map Prod.fst

namespace Run

variable {α : Type} {registry : Registry} {table table' : SlotTable} {run : Run α} {direct : Option α}

/-- From a sound table, a run that matches a computation has its answer. -/
theorem Matches.answer_eq (h : run.Matches registry table direct) (hsound : table.Sound registry) :
    run.answer table = direct := by
  have hrun := h table hsound (.refl table)
  cases direct with
  | none => exact congrArg (Option.map Prod.fst) hrun
  | some a =>
    obtain ⟨after, hrun, -, -⟩ := hrun
    exact congrArg (Option.map Prod.fst) hrun

/-- A run that matches a computation keeps a sound table sound and what is cached in its slots. -/
theorem Matches.keeps (h : run.Matches registry table direct) (hsound : table.Sound registry) {a : α}
    (hrun : run table = some (a, table')) : table'.Sound registry ∧ table.Extends table' := by
  have hagrees := h table hsound (.refl table)
  cases direct with
  | none =>
    rw [show run table = none from hagrees] at hrun
    cases hrun
  | some b =>
    obtain ⟨after, hrun', hsound', hextends⟩ := hagrees
    rw [hrun'] at hrun
    cases hrun
    exact ⟨hsound', hextends⟩

end Run

namespace Registry

variable {registry : Registry} {table : SlotTable}

section Within

variable {Spared : UInt32 → TypeExpr → Prop} (hspared : ∀ version, registry.Spares version (Spared version))
include hspared

/-- **Every table is sound** that calls lead to in which factories have no hand. -/
theorem ReachedWithin.sound (h : registry.ReachedWithin Spared table) : table.Sound registry := by
  induction h with
  | fresh => exact SlotTable.sound_empty registry
  | resolve _ htype hcall ih => exact (hspared _).sound_of_resolve ih htype hcall
  | encode _ htype hvalue hcall ih =>
    exact ((encodeIn_matches (hspared _) _ htype hvalue).keeps ih hcall).1
  | decode _ htype hcall ih => exact ((decodeIn_matches (hspared _) _ htype _).keeps ih hcall).1

/-- What is written after a history is what the plans of the registry say. -/
theorem ReachedWithin.encodeIn_answer (h : registry.ReachedWithin Spared table) (fuel : Nat) {value : Value}
    {version : UInt32} (htype : Spared version value.type) (hvalue : value.Within (Spared version)) :
    (registry.encodeIn fuel value version).answer table = registry.encodeDirect fuel value version :=
  (encodeIn_matches (hspared version) fuel htype hvalue).answer_eq (h.sound hspared)

/-- What is read after a history is what the plans of the registry say. -/
theorem ReachedWithin.decodeIn_answer (h : registry.ReachedWithin Spared table) (fuel : Nat) {type : TypeExpr}
    {version : UInt32} (htype : Spared version type) (source : Bytes) :
    (registry.decodeIn fuel type version source).answer table =
      registry.decodeDirect fuel type version source :=
  (decodeIn_matches (hspared version) fuel htype source).answer_eq (h.sound hspared)

end Within

/-- Without factories, **every table that calls lead to is sound**. -/
theorem Reached.sound (hfactories : registry.factories = []) (h : registry.Reached table) :
    table.Sound registry :=
  h.within.sound fun _ => spares_all hfactories

theorem Reached.encodeIn_answer (hfactories : registry.factories = []) (h : registry.Reached table)
    (fuel : Nat) (value : Value) (version : UInt32) :
    (registry.encodeIn fuel value version).answer table = registry.encodeDirect fuel value version :=
  h.within.encodeIn_answer (fun _ => spares_all hfactories) fuel trivial value.within_all

theorem Reached.decodeIn_answer (hfactories : registry.factories = []) (h : registry.Reached table)
    (fuel : Nat) (type : TypeExpr) (version : UInt32) (source : Bytes) :
    (registry.decodeIn fuel type version source).answer table =
      registry.decodeDirect fuel type version source :=
  h.within.decodeIn_answer (fun _ => spares_all hfactories) fuel trivial source

/-- **A history never shows.** Whatever was resolved, written and read before, and whether or not it
succeeded, writing gives the same bytes and the same outcome, and reading the same outcome and the same
bytes left unread, as with a slot table that has never been used. -/
theorem Reached.transfers_eq_fresh (hfactories : registry.factories = []) (h : registry.Reached table) :
    (∀ value version, (registry.encode value version).answer table =
      (registry.encode value version).answer {}) ∧
    (∀ type version source, (registry.decode type version source).answer table =
      (registry.decode type version source).answer {}) ∧
    (∀ fuel value version, (registry.encodeIn fuel value version).answer table =
      (registry.encodeIn fuel value version).answer {}) ∧
    ∀ fuel type version source, (registry.decodeIn fuel type version source).answer table =
      (registry.decodeIn fuel type version source).answer {} := by
  have hencode : ∀ fuel value version, (registry.encodeIn fuel value version).answer table =
      (registry.encodeIn fuel value version).answer {} := by
    intro fuel value version
    rw [h.encodeIn_answer hfactories, Reached.fresh.encodeIn_answer hfactories]
  have hdecode : ∀ fuel type version source, (registry.decodeIn fuel type version source).answer table =
      (registry.decodeIn fuel type version source).answer {} := by
    intro fuel type version source
    rw [h.decodeIn_answer hfactories, Reached.fresh.decodeIn_answer hfactories]
  exact ⟨fun _ _ => hencode _ _ _, fun _ _ _ => hdecode _ _ _ _, hencode, hdecode⟩

/-- A caller's adapter that has its values read and written as single bytes. -/
def markAdapter : CallerAdapter where
  type := .foreign "mark"
  read call source := .read (.scalar (.int .u8)) call.format source fun reading =>
    .finish ⟨reading.result.map fun value => value.map (.foreign "mark"), reading.rest⟩
  write call value :=
    let content := match value with
      | some (.foreign _ content) => some content
      | _ => none
    .write (.scalar (.int .u8)) call.format content .finish

/-- Records that contain themselves, and records that begin with one of those and end with a type that
nothing serves. -/
def routes : Registry where
  schemas := [
    { type := .record "hop"
      fields := [
        { name := "id", member := "id", type := .scalar (.int .u16), format := { order := .big },
          adapter := none },
        { name := "mark", member := "mark", type := .foreign "mark", format := {}, adapter := none },
        { name := "next", member := "next", type := .optional (.record "hop"), format := {},
          adapter := none }]
      initial := [("id", .int .u16 0), ("mark", .foreign "mark" (.int .u8 0)),
        ("next", .none (.record "hop"))] },
    { type := .record "route"
      fields := [
        { name := "first", member := "first", type := .record "hop", format := {}, adapter := none },
        { name := "port", member := "port", type := .foreign "port", format := {}, adapter := none }]
      initial := [] }]
  adapters := [markAdapter]

/-- A hop with another behind it. -/
def twoHops : Value :=
  .record "hop" [("id", .int .u16 0x0102), ("mark", .foreign "mark" (.int .u8 7)),
    ("next", .some (.record "hop") (.record "hop" [("id", .int .u16 3)]))]

/-- A resolution that fails after the slots of a cycle were handed out changes nothing about what is
written next. -/
theorem Reached.encode_routes_of_failure :
    ∃ table, routes.resolve (.record "route") 1 {} =
        some (.error (.noAdapter (.foreign "port") 1), table) ∧
      ((routes.encode twoHops 1).answer table).map (fun writing => (writing.bytes, writing.result)) =
        some ([1, 2, 7, 0, 3], .ok ()) := by
  have hmissing : routes.missing? 1 (.record "route") = some (.foreign "port") := by decide +kernel
  obtain ⟨answer, table, hrun, hresolves⟩ :=
    routes.resolve_spec rfl (SlotTable.sound_empty routes) (.record "route") 1
  cases hresolves with
  | ok hnone _ _ _ =>
    rw [hmissing] at hnone
    cases hnone
  | error hsome _ _ _ =>
    obtain rfl := Option.some.inj (hmissing.symm.trans hsome)
    refine ⟨table, hrun, ?_⟩
    rw [(Reached.transfers_eq_fresh rfl (.resolve .fresh hrun)).1 twoHops 1]
    decide +kernel

end Registry

end Telegram
