import Telegram.Registry.Schema

/-!
# The registry

A registry knows the schemas of record types and the adapters and factories that callers brought. It
does not change once it is built; what is found out while it is used is kept in a slot table.

* `Registry.addSchema` takes the schema of one record type, once.
* `Registry.addAdapter` gives a type an adapter of the caller's, and replaces an earlier one.
* `Registry.addFactory` appends a factory to those that are asked.
-/

namespace Telegram

open Codec

/-- The limits of a registry. -/
structure Limits where
  /-- The protocol version that is meant when none is given. -/
  defaultVersion : UInt32 := 1
  /-- The most elements that a sequence field may ask for. -/
  maxSequence : Nat := 4096
  /-- How deep records may be nested. -/
  maxDepth : Nat := 64

/-- What is known about types before any of them is used. -/
structure Registry where
  limits : Limits := {}
  schemas : List Schema := []
  /-- The adapters of callers, the latest first. -/
  adapters : List CallerAdapter := []
  factories : List Factory := []
  /-- How many types the requests of a factory are followed into each other. Only requests that nest deeper than
  that are left without an answer, and what is shown of all registries is shown of every such bound. -/
  requestDepth : Nat := 64

namespace Registry

/-- The schema of a record type. -/
def schema? (registry : Registry) (type : TypeExpr) : Option Schema :=
  registry.schemas.find? fun schema => schema.type = type

/-- The caller's adapter for a type. -/
def adapter? (registry : Registry) (type : TypeExpr) : Option CallerAdapter :=
  registry.adapters.find? fun adapter => adapter.type = type

/-- What keeps a schema from being registered. -/
def schemaFault? (registry : Registry) (schema : Schema) : Option Error :=
  match schema.type with
  | .record _ =>
    if (registry.schema? schema.type).isSome then
      some (.invalidSchema (.registeredTwice schema.type))
    else schema.fault? registry.limits.maxSequence
  | type => some (.invalidSchema (.notARecord type))

/-- Takes the schema of a record type. -/
def addSchema (registry : Registry) (schema : Schema) : Except Error Registry :=
  match registry.schemaFault? schema with
  | some error => .error error
  | none => .ok { registry with schemas := registry.schemas ++ [schema] }

/-- Uses an adapter for every occurrence of its type. -/
def addAdapter (registry : Registry) (adapter : CallerAdapter) : Registry :=
  { registry with adapters := adapter :: registry.adapters }

/-- Asks a factory after the adapters of callers and before what is built in. -/
def addFactory (registry : Registry) (factory : Factory) : Registry :=
  { registry with factories := registry.factories ++ [factory] }

end Registry

end Telegram
