import Telegram.Codec.Write
import Telegram.Proofs.Registry.Resolve

/-!
# Reading and writing without slots

What a registry reads and writes where factories have no hand, said without a slot table: wherever an
adapter would go through a slot to another, the plan of that other type is looked up instead. There is no
state, so the answer is a function of the registry and the call.

* `Registry.find` is what a resolution comes to.
* `Registry.readDirect` and `Registry.writeDirect` go by plans where `Registry.readIn` and
  `Registry.writeIn` go by adapters. They call each other as deep, so they run out of fuel together.
* `Registry.decodeDirect` and `Registry.encodeDirect` are a whole call.

The loops over elements, fields and callers' programs are those of the codec, in another monad.
-/

namespace Telegram

open Codec

/-! ## Plans in place of adapters

A call looks types up in two situations. In the middle of a call an adapter asks for a type by way of a
slot it was wired with, and then the type is known to have a plan; looking it up is `Registry.plan?`. A
caller's program, or the writing of an alternative, asks for a type that may not have been resolved yet,
and the resolution may fail; that is `Registry.find`, which knows of the first type that is missing. -/

namespace Registry

/-- The plan of a type, if all that it needs has plans too. The errors are those of a resolution: the type
that is named is the first one lacking. -/
def find (registry : Registry) (version : UInt32) (type : TypeExpr) : Except Error Plan :=
  match registry.missing? version type, registry.plan? version type with
  | none, some plan => .ok plan
  | some missing, _ => .error (.noAdapter missing version)
  | none, none => .error (.noAdapter type version)

variable {registry : Registry} {version : UInt32} {type : TypeExpr}

theorem find_of_missing? {missing : TypeExpr} (h : registry.missing? version type = some missing) :
    registry.find version type = .error (.noAdapter missing version) := by
  rw [find, h]

theorem find_of_plan? {plan : Plan} (h : registry.missing? version type = none)
    (hplan : registry.plan? version type = some plan) : registry.find version type = .ok plan := by
  rw [find, h, hplan]

theorem plan?_of_find {plan : Plan} (h : registry.find version type = .ok plan) :
    registry.plan? version type = some plan := by
  unfold find at h
  split at h
  · rename_i hplan
    rw [hplan, Except.ok.inj h]
  · cases h
  · cases h

/-- A type that is not found is one that nothing serves, or needs one. -/
theorem find_error {e : Error} (h : registry.find version type = .error e) :
    ∃ missing, e = .noAdapter missing version := by
  unfold find at h
  split at h
  · cases h
  · exact ⟨_, (Except.error.inj h).symm⟩
  · exact ⟨_, (Except.error.inj h).symm⟩

end Registry

/-- How a call reads with another plan, `depth` records deep. -/
abbrev ReadPlan := (depth : Nat) → Plan → FieldFormat → Bytes → Option Reading

/-- How a call writes with another plan, `depth` records deep. -/
abbrev WritePlan := (depth : Nat) → Plan → FieldFormat → Option Value → Option Writing

namespace Registry

/-! ## Reading

The equations follow those of the codec line by line, with a type wherever there was a slot. The errors
are the same, those about missing adapters included. -/

/-- Reads with the plan of a type that is known to be served. -/
def readNeed (registry : Registry) (version : UInt32)
    (read : Plan → FieldFormat → Bytes → Option Reading) (type : TypeExpr) (format : FieldFormat)
    (source : Bytes) : Option Reading :=
  match registry.plan? version type with
  | some plan => read plan format source
  | none => some (.failed (.noAdapter type version) source)

/-- Reads a field with its own adapter or with the plan of its type. -/
def readFieldDirect (registry : Registry) (version : UInt32)
    (read : Plan → FieldFormat → Bytes → Option Reading) (field : Field) (source : Bytes) :
    Option Reading :=
  match field.adapter with
  | some adapter => read (.leaf (.caller adapter)) field.format source
  | none => registry.readNeed version read field.type field.format source

/-- Finds the plan of a type and reads a value of it. -/
def readTypeDirect (registry : Registry) (version : UInt32)
    (read : Plan → FieldFormat → Bytes → Option Reading) (type : TypeExpr) (format : FieldFormat)
    (source : Bytes) : Option Reading :=
  match registry.find version type with
  | .error e => some (.failed e source)
  | .ok plan => (read plan format source).map (·.expect type)

/-- How a plan is read, given how others are. It is `Registry.readStep` with the slot table taken out:
where that looks a slot up, this asks for the plan of the type. -/
def readStepDirect (registry : Registry) (version : UInt32) (read : ReadPlan) (depth : Nat)
    (plan : Plan) (format : FieldFormat) (source : Bytes) : Option Reading :=
  match plan with
  | .leaf (.scalar s) => some (s.read format source)
  | .leaf (.caller adapter) =>
    (adapter.read ⟨version, depth, format⟩ source).run (registry.readTypeDirect version (read depth))
  | .optional element => do
    let reading ← registry.readNeed version (read depth) element format source
    match (reading.expect element).result with
    | .error e => pure (.failed e reading.rest)
    | .ok none => pure (.found (.none element) reading.rest)
    | .ok (some value) => pure (.found (.some element value) reading.rest)
  | .sequence container element =>
    if source.isEmpty then some (.absent source)
    else do
      let count := container.size?.getD format.length
      let (items, rest) ← readItems (registry.readNeed version (read depth) element format.element)
        element count source
      pure ⟨items.map (container.ofItems? element), rest⟩
  | .family name => some (.failed (.noAdapter (.family name) version) source)
  | .record schema fields =>
    if registry.limits.maxDepth ≤ depth then
      some (.failed (.tooDeep registry.limits.maxDepth) source)
    else do
      let readers := fields.map fun field =>
        (field, registry.readFieldDirect version (read (depth + 1)) field)
      let (members, rest) ← readFields readers schema.initial source
      pure ⟨members.map fun members => some (schema.record members), rest⟩

/-- Reads by a plan. `fuel` bounds how deep plans call each other. -/
def readDirect (registry : Registry) (version : UInt32) : Nat → ReadPlan
  | 0 => fun _ _ _ _ => none
  | fuel + 1 => registry.readStepDirect version (registry.readDirect version fuel)

/-- Reads one value of `type` at the front of a buffer. -/
def decodeDirect (registry : Registry) (fuel : Nat) (type : TypeExpr) (version : UInt32)
    (source : Bytes) : Option Reading :=
  registry.readTypeDirect version (registry.readDirect version fuel 0) type {} source

/-! ## Writing

Writing asks more of the registry than reading: a value of a family is written with the adapter of the
alternative it holds, and which alternative that is shows only in the value. -/

/-- Finds the plan of a type and writes a value of it. -/
def writeTypeDirect (registry : Registry) (version : UInt32)
    (write : Plan → FieldFormat → Option Value → Option Writing) (type : TypeExpr)
    (format : FieldFormat) (value : Option Value) : Option Writing :=
  match registry.find version type with
  | .error e => some (.failed e)
  | .ok plan => write plan format value

/-- Writes a value of a type that is known to be served, by the plan of that type or by that of the
alternative the value holds. -/
def writeNeed (registry : Registry) (version : UInt32)
    (write : Plan → FieldFormat → Option Value → Option Writing) (type : TypeExpr)
    (format : FieldFormat) (value : Option Value) : Option Writing :=
  match registry.plan? version type with
  | none => some (.failed (.noAdapter type version))
  | some declared =>
    match value with
    | none => write declared format none
    | some value =>
      if value.type = type ∧ value.concrete.type ≠ type then
        match registry.find version value.concrete.type with
        | .error e => some (.failed e)
        | .ok concrete =>
          if prefersConcrete declared.origin concrete.origin then
            write concrete format (some value.concrete)
          else write declared format (some value)
      else write declared format (some value)

/-- Writes a value of a family by the alternative it holds. -/
def writeAlternativeDirect (registry : Registry) (version : UInt32)
    (write : Plan → FieldFormat → Option Value → Option Writing) (family : TypeExpr)
    (format : FieldFormat) (value : Value) : Option Writing :=
  if value.concrete.type = family then some (.failed (.noAdapter family version))
  else registry.writeTypeDirect version write value.concrete.type format (some value.concrete)

/-- Writes one field of a record. -/
def writeFieldDirect (registry : Registry) (version : UInt32)
    (write : Plan → FieldFormat → Option Value → Option Writing) (field : Field) (value : Value) :
    Option Writing :=
  match field.adapter with
  | some adapter => write (.leaf (.caller adapter)) field.format (some value)
  | none => registry.writeNeed version write field.type field.format (some value)

/-- How a plan writes a value of its own type, given how others do. -/
def writeOwnDirect (registry : Registry) (version : UInt32) (write : WritePlan) (depth : Nat)
    (plan : Plan) (format : FieldFormat) (value : Option Value) : Option Writing :=
  match plan with
  | .leaf (.scalar s) => some (s.write format value)
  | .leaf (.caller adapter) =>
    (adapter.write ⟨version, depth, format⟩ value).run (registry.writeTypeDirect version (write depth))
  | .optional element =>
    let content := match value with
      | some (.some _ content) => some content
      | _ => none
    registry.writeNeed version (write depth) element format content
  | .sequence _ element =>
    let items := match value with
      | some (.sequence _ _ items) => items
      | _ => []
    writeItems (fun item => registry.writeNeed version (write depth) element format.element (some item))
      items
  | .family name =>
    match value with
    | none => some (.done [])
    | some value => registry.writeAlternativeDirect version (write depth) (.family name) format value
  | .record _ fields =>
    match value with
    | some (.record _ members) =>
      if registry.limits.maxDepth ≤ depth then some (.failed (.tooDeep registry.limits.maxDepth))
      else writeFields members (fields.map fun field =>
        (field, registry.writeFieldDirect version (write (depth + 1)) field))
    | _ => some (.done [])

/-- How a plan writes, given how others do. A value of another type is refused before anything is
written. -/
def writeStepDirect (registry : Registry) (version : UInt32) (write : WritePlan) (depth : Nat)
    (plan : Plan) (format : FieldFormat) (value : Option Value) : Option Writing :=
  if value.all fun value => value.type = plan.type then
    registry.writeOwnDirect version write depth plan format value
  else some (.failed (.typeMismatch plan.type))

/-- Writes by a plan. `fuel` bounds how deep plans call each other. -/
def writeDirect (registry : Registry) (version : UInt32) : Nat → WritePlan
  | 0 => fun _ _ _ _ => none
  | fuel + 1 => registry.writeStepDirect version (registry.writeDirect version fuel)

/-- Writes a value as its own type. -/
def encodeDirect (registry : Registry) (fuel : Nat) (value : Value) (version : UInt32) :
    Option Writing :=
  registry.writeTypeDirect version (registry.writeDirect version fuel 0) value.type {} (some value)

end Registry

end Telegram
