import Telegram.Registry.Basic
import Telegram.Registry.SlotTable

/-!
# Resolution

To resolve a type is to find the slot of its adapter, and to build the adapter if there is none yet.
Building one may need the adapters of other types first: of a container's element, of a record's
fields. A type that is met again while its own adapter is being built is answered with the slot
reserved for it, which closes the cycle.

* `Registry.create` asks, in this order, the adapters of callers, the factories of callers, the
  scalars, the containers, the families and the records.
* `Registry.resolveIn` is the recursion. `fuel` bounds how many types can be nested in each other; the
  answer is `none` only when it runs out, as no slot is ever filled twice.
* `Registry.resolve` runs one resolution from a slot table. A resolution that succeeds publishes every
  slot it filled, and one that fails gives back every slot it reserved.

A factory's requests are the one way to ask for types without end, so the fuel that
`Registry.resolveFuel` grants counts the types that schemas can reach and adds `Registry.requestDepth` for
each factory.
-/

namespace Telegram

open Codec

/-- One resolution under way. -/
structure Resolution where
  table : SlotTable
  /-- Types whose adapters are being built, each with the slot reserved for it. -/
  inFlight : List (TypeExpr × Nat) := []
  /-- Types whose adapters have been built. -/
  resolved : List (TypeExpr × Nat) := []
  /-- All slots reserved so far, in that order. -/
  reserved : List Nat := []

/-- A step of a resolution; `none` means that it ran out of fuel. -/
abbrev Resolving := StateT Resolution Option

namespace Resolution

/-- The slot of a type that is cached, built or being built. -/
def slot? (resolution : Resolution) (version : UInt32) (type : TypeExpr) : Option Nat :=
  resolution.table.slot? ⟨type, version⟩
    <|> resolution.resolved.lookup type
    <|> resolution.inFlight.lookup type

/-- Reserves a slot for a type whose adapter is about to be built. -/
def enter (resolution : Resolution) (type : TypeExpr) : Nat × Resolution :=
  let (slot, table) := resolution.table.reserve
  (slot, { resolution with
    table
    inFlight := (type, slot) :: resolution.inFlight
    reserved := resolution.reserved ++ [slot] })

/-- Notes that a type's adapter is no longer being built. -/
def leave (resolution : Resolution) (type : TypeExpr) : Resolution :=
  { resolution with inFlight := resolution.inFlight.filter fun entry => entry.1 ≠ type }

/-- Puts a finished adapter into the slot of its type. -/
def settle? (resolution : Resolution) (type : TypeExpr) (slot : Nat) (adapter : Adapter) :
    Option Resolution :=
  (resolution.table.fill? slot adapter).map fun table =>
    { resolution with table, resolved := (type, slot) :: resolution.resolved }

/-- The slot table with everything that was built. -/
def publish (resolution : Resolution) (version : UInt32) : SlotTable :=
  resolution.resolved.foldl (fun table (type, slot) => table.publish ⟨type, version⟩ slot)
    resolution.table

/-- The slot table with every reserved slot free again. -/
def abandon (resolution : Resolution) : SlotTable :=
  resolution.reserved.foldl SlotTable.release resolution.table

end Resolution

/-- How a resolution asks for the slot of another type. -/
abbrev Resolve := TypeExpr → Resolving (Except Error Nat)

/-- Runs a factory's program. -/
def Codec.BindProgram.run (resolve : Resolve) : BindProgram → Resolving (Except Error (Option Adapter))
  | .finish offer => pure (offer.map (Option.map fun offer => ⟨offer.origin, .leaf offer.leaf⟩))
  | .resolve type next => do
    let answer ← resolve type
    (next (answer.map fun _ => ())).run resolve

/-- Asks factories one after the other. The first that offers an adapter or fails decides. -/
def askFactories (resolve : Resolve) (version : UInt32) (type : TypeExpr) :
    List Factory → Resolving (Except Error (Option Adapter))
  | [] => pure (.ok none)
  | factory :: rest => do
    match ← (factory version type).run resolve with
    | .ok none => askFactories resolve version type rest
    | answer => pure answer

/-- Finds the adapter of a field. -/
def bindTarget (resolve : Resolve) (field : Field) : Resolving (Except Error Target) :=
  match field.adapter with
  | some adapter => pure (.ok (.own adapter))
  | none => do
    let slot ← resolve field.type
    pure (slot.map Target.slot)

/-- Finds the adapter of each field. -/
def bindFields (resolve : Resolve) : List Field → Resolving (Except Error (List BoundField))
  | [] => pure (.ok [])
  | field :: rest => do
    match ← bindTarget resolve field with
    | .error e => pure (.error e)
    | .ok target =>
      let fields ← bindFields resolve rest
      pure (fields.map (⟨field, target⟩ :: ·))

namespace Registry

/-- Builds the adapter that comes with the library, if the type has one. -/
def createBuiltin (registry : Registry) (resolve : Resolve) (version : UInt32) :
    TypeExpr → Resolving (Except Error (Option Adapter))
  | .scalar s => pure (.ok (some ⟨.builtin, .leaf (.scalar s)⟩))
  | .foreign _ => pure (.ok none)
  | .optional element => do
    let slot ← resolve element
    pure (slot.map fun slot => some ⟨.builtin, .optional element slot⟩)
  | .sequence container element => do
    let slot ← resolve element
    pure (slot.map fun slot => some ⟨.builtin, .sequence container element slot⟩)
  | .family name => pure (.ok (some ⟨.generic, .family name⟩))
  | .record name =>
    match registry.schema? (.record name) with
    | none => pure (.ok none)
    | some schema => do
      let fields ← bindFields resolve (schema.fieldsAt version)
      pure (fields.map fun fields => some ⟨.generic, .record schema fields⟩)

/-- Builds the adapter of a type, if anything can. -/
def create (registry : Registry) (resolve : Resolve) (version : UInt32) (type : TypeExpr) :
    Resolving (Except Error (Option Adapter)) := do
  match registry.adapter? type with
  | some adapter => pure (.ok (some ⟨.custom, .leaf (.caller adapter)⟩))
  | none =>
    match ← askFactories resolve version type registry.factories with
    | .ok none => registry.createBuiltin resolve version type
    | answer => pure answer

/-- Finds the slot of a type within a resolution, and builds its adapter if there is none. -/
def resolveIn (registry : Registry) (version : UInt32) : Nat → Resolve
  | 0, _ => fun _ => none
  | fuel + 1, type => do
    let resolution ← get
    match resolution.slot? version type with
    | some slot => pure (.ok slot)
    | none =>
      let (slot, resolution) := resolution.enter type
      set resolution
      let created ← registry.create (registry.resolveIn version fuel) version type
      modify (Resolution.leave · type)
      match created with
      | .error e => pure (.error e)
      | .ok none => pure (.error (.noAdapter type version))
      | .ok (some adapter) =>
        set (← (← get).settle? type slot adapter)
        pure (.ok slot)

/-- How many types the schemas mention. -/
def weight (registry : Registry) : Nat :=
  (registry.schemas.flatMap Schema.fields).foldl (fun sum field => sum + field.type.weight) 0

/-- How many types can be nested in each other while `type` is being resolved. -/
def resolveFuel (registry : Registry) (type : TypeExpr) : Nat :=
  type.weight + registry.weight + registry.requestDepth * registry.factories.length + 1

/-- Finds the slot of a type. The slot table after it is part of the answer; there is none when a
factory's requests have no end, or nest deeper than they are followed. -/
def resolve (registry : Registry) (type : TypeExpr) (version : UInt32) :
    StateT SlotTable Option (Except Error Nat) := fun table =>
  match table.slot? ⟨type, version⟩ with
  | some slot => some (.ok slot, table)
  | none =>
    match registry.resolveIn version (registry.resolveFuel type) type { table } with
    | none => none
    | some (.ok slot, resolution) => some (.ok slot, resolution.publish version)
    | some (.error e, resolution) => some (.error e, resolution.abandon)

end Registry

end Telegram
