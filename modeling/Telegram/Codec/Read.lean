import Telegram.Registry.Resolution
import Telegram.Scalar.Basic

/-!
# Reading values

`Registry.readStep` says how an adapter reads, given a way to read with other adapters. It is one rule
for each wiring:

* a leaf reads by itself, or runs the caller's program;
* an optional always succeeds, with nothing inside when nothing could be read;
* a sequence reads its elements back to back and stops at the first that is absent;
* a family can not be read, as nothing on the wire tells its alternatives apart;
* a record starts from its initial members and reads its fields in order; a field that is absent keeps
  what it had.

`Registry.readIn` ties the knot with `fuel`, which bounds how deep adapters call each other, and
`Registry.decode` resolves a type and reads one value of it. The slot table is threaded through, because
a caller's adapter may have further types resolved.
-/

namespace Telegram

open Codec

/-- A computation that may add adapters to the slot table; `none` means that it ran out of fuel. -/
abbrev Run := StateT SlotTable Option

/-- How a call reads with another adapter, `depth` records deep. -/
abbrev ReadWith := (depth : Nat) → Wiring → FieldFormat → Bytes → Run Reading

/-- The adapter in a slot. -/
def adapterAt (slot : Nat) : Run (Except Error Adapter) := do
  return (← get).adapter slot

/-- Reads with the adapter in a slot. -/
def readSlot (read : Wiring → FieldFormat → Bytes → Run Reading) (slot : Nat) (format : FieldFormat)
    (source : Bytes) : Run Reading := do
  match ← adapterAt slot with
  | .ok adapter => read adapter.wiring format source
  | .error e => pure (.failed e source)

section Loops

variable {m : Type → Type} [Monad m]

/-- Reads elements back to back, as many as asked for or up to the first that is absent. -/
def readItems (read : Bytes → m Reading) (element : TypeExpr) :
    Nat → Bytes → m (Except Error (List Value) × Bytes)
  | 0, source => pure (.ok [], source)
  | count + 1, source => do
    let reading ← read source
    match (reading.expect element).result with
    | .error e => pure (.error e, reading.rest)
    | .ok none => pure (.ok [], reading.rest)
    | .ok (some item) =>
      let (items, rest) ← readItems read element count reading.rest
      pure (items.map (item :: ·), rest)

/-- Stores what was read for a field. A value of another type than the member's is passed over. -/
def Field.store (field : Field) (members : List (String × Value)) : Option Value → List (String × Value)
  | some value => if value.type = field.type then setMember members field.member value else members
  | none => members

/-- Reads the fields of a record into its members. Each field comes with the way it is read. -/
def readFields :
    List (Field × (Bytes → m Reading)) → List (String × Value) → Bytes →
      m (Except Error (List (String × Value)) × Bytes)
  | [], members, source => pure (.ok members, source)
  | (field, read) :: rest, members, source => do
    let reading ← read source
    match reading.result with
    | .error e => pure (.error e, reading.rest)
    | .ok value => readFields rest (field.store members value) reading.rest

/-- Runs a caller's program for reading. -/
def Codec.ReadProgram.run (read : TypeExpr → FieldFormat → Bytes → m Reading) :
    ReadProgram → m Reading
  | .finish reading => pure reading
  | .read type format source next => do
    let reading ← read type format source
    (next reading).run read

end Loops

/-- Reads a field with the adapter it is bound to. -/
def readBound (read : Wiring → FieldFormat → Bytes → Run Reading) (bound : BoundField)
    (source : Bytes) : Run Reading :=
  match bound.target with
  | .own adapter => read (.leaf (.caller adapter)) bound.field.format source
  | .slot slot => readSlot read slot bound.field.format source

/-- The record of a schema with the given members. -/
def Schema.record (schema : Schema) (members : List (String × Value)) : Value :=
  .record schema.type.name members

namespace Registry

/-- Resolves a type and reads a value of it. -/
def readType (registry : Registry) (version : UInt32)
    (read : Wiring → FieldFormat → Bytes → Run Reading) (type : TypeExpr) (format : FieldFormat)
    (source : Bytes) : Run Reading := do
  match ← registry.resolve type version with
  | .error e => pure (.failed e source)
  | .ok slot =>
    let reading ← readSlot read slot format source
    pure (reading.expect type)

/-- How an adapter reads, given how others do. -/
def readStep (registry : Registry) (version : UInt32) (read : ReadWith) (depth : Nat)
    (wiring : Wiring) (format : FieldFormat) (source : Bytes) : Run Reading :=
  match wiring with
  | .leaf (.scalar s) => pure (s.read format source)
  | .leaf (.caller adapter) =>
    (adapter.read ⟨version, depth, format⟩ source).run (registry.readType version (read depth))
  | .optional element slot => do
    let reading ← readSlot (read depth) slot format source
    match (reading.expect element).result with
    | .error e => pure (.failed e reading.rest)
    | .ok none => pure (.found (.none element) reading.rest)
    | .ok (some value) => pure (.found (.some element value) reading.rest)
  | .sequence container element slot =>
    if source.isEmpty then pure (.absent source)
    else do
      let count := container.size?.getD format.length
      let (items, rest) ← readItems (readSlot (read depth) slot format.element) element count source
      pure ⟨items.map (container.ofItems? element), rest⟩
  | .family name => pure (.failed (.noAdapter (.family name) version) source)
  | .record schema fields =>
    if registry.limits.maxDepth ≤ depth then
      pure (.failed (.tooDeep registry.limits.maxDepth) source)
    else do
      let readers := fields.map fun bound => (bound.field, readBound (read (depth + 1)) bound)
      let (members, rest) ← readFields readers schema.initial source
      pure ⟨members.map fun members => some (schema.record members), rest⟩

/-- Reads with an adapter. `fuel` bounds how deep adapters call each other. -/
def readIn (registry : Registry) (version : UInt32) : Nat → ReadWith
  | 0 => fun _ _ _ _ _ => none
  | fuel + 1 => registry.readStep version (registry.readIn version fuel)

/-- How deep adapters can call each other while a value of `type` is transferred: each record entered
admits a field type with all that it contains, and a caller's adapter may ask for a type of its own. -/
def callFuel (registry : Registry) (weight : Nat) : Nat :=
  (registry.limits.maxDepth + 2) * (2 * (registry.weight + weight) + 64)

/-- Reads one value of `type` at the front of a buffer, with adapters that call each other at most `fuel`
deep. -/
def decodeIn (registry : Registry) (fuel : Nat) (type : TypeExpr) (version : UInt32) (source : Bytes) :
    Run Reading :=
  registry.readType version (registry.readIn version fuel 0) type {} source

/-- Reads one value of `type` at the front of a buffer. There is no answer when a caller's adapters call
each other without end. -/
def decode (registry : Registry) (type : TypeExpr) (version : UInt32) (source : Bytes) : Run Reading :=
  registry.decodeIn (registry.callFuel type.weight) type version source

end Registry

end Telegram
