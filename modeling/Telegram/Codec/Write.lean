import Telegram.Codec.Read

/-!
# Writing values

`Registry.writeStep` says how an adapter writes, given a way to write with other adapters. An adapter
refuses a value of another type before it writes anything. Then, by wiring:

* a leaf writes by itself, or runs the caller's program;
* an optional hands on what it holds, which may be nothing;
* a sequence writes its elements back to back, and nothing when it is absent;
* a family writes the alternative held with the adapter of that alternative's type;
* a record writes its fields in order. A field whose value turns out to be of the wrong type is passed
  over, and what it had written before that stays.

Fields, elements and the inside of an optional are written by `Registry.writeDeclared`, which looks at
the value as well as at its declared type: where the type is a family, the adapter of the alternative
held is preferred to the declared one, unless it is a generic adapter and the declared one is not.
-/

namespace Telegram

open Codec

/-- How a call writes with another adapter, `depth` records deep. -/
abbrev WriteWith := (depth : Nat) → Wiring → FieldFormat → Option Value → Run Writing

section Loops

variable {m : Type → Type} [Monad m]

/-- Writes items back to back, up to the first that fails. -/
def writeItems (write : Value → m Writing) : List Value → m Writing
  | [] => pure (.done [])
  | item :: rest => do
    let writing ← write item
    match writing.result with
    | .error _ => pure writing
    | .ok () =>
      let others ← writeItems write rest
      pure (others.after writing.bytes)

/-- Writes a member of a record, if it is there. -/
def writeMember (write : Value → m Writing) : Option Value → m Writing
  | some value => write value
  | none => pure (.done [])

/-- Writes the fields of a record, passing over those whose value is of the wrong type. Each field comes
with the way it is written. -/
def writeFields (members : List (String × Value)) : List (Field × (Value → m Writing)) → m Writing
  | [] => pure (.done [])
  | (field, write) :: rest => do
    let writing ← writeMember write (member? members field.member)
    match writing.result with
    | .ok () | .error (.typeMismatch _) =>
      let others ← writeFields members rest
      pure (others.after writing.bytes)
    | .error _ => pure writing

/-- Runs a caller's program for writing. -/
def Codec.WriteProgram.run (write : TypeExpr → FieldFormat → Option Value → m Writing) :
    WriteProgram → m Writing
  | .finish writing => pure writing
  | .write type format value next => do
    let writing ← write type format value
    (next writing).run write

end Loops

/-- The adapter of an alternative is preferred to the one declared for its family. -/
def prefersConcrete (declared concrete : Origin) : Bool :=
  concrete ≠ .generic || declared = .generic

namespace Registry

/-- Resolves a type and writes a value of it. -/
def writeType (registry : Registry) (version : UInt32)
    (write : Wiring → FieldFormat → Option Value → Run Writing) (type : TypeExpr)
    (format : FieldFormat) (value : Option Value) : Run Writing := do
  match ← registry.resolve type version with
  | .error e => pure (.failed e)
  | .ok slot =>
    match ← adapterAt slot with
    | .error e => pure (.failed e)
    | .ok adapter => write adapter.wiring format value

/-- The adapter for the type of a value. -/
def adapterOf (registry : Registry) (version : UInt32) (value : Value) :
    Run (Except Error Adapter) := do
  match ← registry.resolve value.type version with
  | .error e => pure (.error e)
  | .ok slot => adapterAt slot

/-- Writes a value whose declared type is `type`, with the adapter in `slot` or with that of the
alternative the value holds. -/
def writeDeclared (registry : Registry) (version : UInt32)
    (write : Wiring → FieldFormat → Option Value → Run Writing) (type : TypeExpr) (slot : Nat)
    (format : FieldFormat) (value : Option Value) : Run Writing := do
  match ← adapterAt slot with
  | .error e => pure (.failed e)
  | .ok declared =>
    match value with
    | none => write declared.wiring format none
    | some value =>
      if value.type = type ∧ value.concrete.type ≠ type then
        match ← registry.adapterOf version value.concrete with
        | .error e => pure (.failed e)
        | .ok concrete =>
          if prefersConcrete declared.origin concrete.origin then
            write concrete.wiring format (some value.concrete)
          else write declared.wiring format (some value)
      else write declared.wiring format (some value)

/-- Writes a value of a family by the alternative it holds. -/
def writeAlternative (registry : Registry) (version : UInt32)
    (write : Wiring → FieldFormat → Option Value → Run Writing) (family : TypeExpr)
    (format : FieldFormat) (value : Value) : Run Writing := do
  if value.concrete.type = family then pure (.failed (.noAdapter family version))
  else match ← registry.adapterOf version value.concrete with
    | .error e => pure (.failed e)
    | .ok adapter => write adapter.wiring format (some value.concrete)

/-- Writes one field of a record. -/
def writeField (registry : Registry) (version : UInt32)
    (write : Wiring → FieldFormat → Option Value → Run Writing) (bound : BoundField)
    (value : Value) : Run Writing :=
  match bound.target with
  | .own adapter => write (.leaf (.caller adapter)) bound.field.format (some value)
  | .slot slot =>
    registry.writeDeclared version write bound.field.type slot bound.field.format (some value)

/-- How an adapter writes a value of its own type, given how others do. -/
def writeOwn (registry : Registry) (version : UInt32) (write : WriteWith) (depth : Nat)
    (wiring : Wiring) (format : FieldFormat) (value : Option Value) : Run Writing :=
  match wiring with
  | .leaf (.scalar s) => pure (s.write format value)
  | .leaf (.caller adapter) =>
    (adapter.write ⟨version, depth, format⟩ value).run (registry.writeType version (write depth))
  | .optional element slot =>
    let content := match value with
      | some (.some _ content) => some content
      | _ => none
    registry.writeDeclared version (write depth) element slot format content
  | .sequence _ element slot =>
    let items := match value with
      | some (.sequence _ _ items) => items
      | _ => []
    writeItems (fun item =>
      registry.writeDeclared version (write depth) element slot format.element (some item)) items
  | .family name =>
    match value with
    | none => pure (.done [])
    | some value => registry.writeAlternative version (write depth) (.family name) format value
  | .record _ fields =>
    match value with
    | some (.record _ members) =>
      if registry.limits.maxDepth ≤ depth then pure (.failed (.tooDeep registry.limits.maxDepth))
      else writeFields members (fields.map fun bound =>
        (bound.field, registry.writeField version (write (depth + 1)) bound))
    | _ => pure (.done [])

/-- How an adapter writes, given how others do. -/
def writeStep (registry : Registry) (version : UInt32) (write : WriteWith) (depth : Nat)
    (wiring : Wiring) (format : FieldFormat) (value : Option Value) : Run Writing :=
  if value.all fun value => value.type = wiring.type then
    registry.writeOwn version write depth wiring format value
  else pure (.failed (.typeMismatch wiring.type))

/-- Writes with an adapter. `fuel` bounds how deep adapters call each other. -/
def writeIn (registry : Registry) (version : UInt32) : Nat → WriteWith
  | 0 => fun _ _ _ _ _ => none
  | fuel + 1 => registry.writeStep version (registry.writeIn version fuel)

/-- Writes a value as its own type, with adapters that call each other at most `fuel` deep. -/
def encodeIn (registry : Registry) (fuel : Nat) (value : Value) (version : UInt32) : Run Writing :=
  registry.writeType version (registry.writeIn version fuel 0) value.type {} (some value)

/-- Writes a value as its own type. There is no answer when a caller's adapters call each other without
end. -/
def encode (registry : Registry) (value : Value) (version : UInt32) : Run Writing :=
  registry.encodeIn (registry.callFuel value.weight) value version

end Registry

end Telegram
