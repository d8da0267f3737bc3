import Telegram.Proofs.Codec.Dangling
import Telegram.Proofs.Codec.Fuel
import Telegram.Proofs.Codec.Settles
import Telegram.Proofs.Registry.Pruned
import Telegram.Proofs.Scalar.Width

/-!
# Only the fields on the wire matter

What is read and written at a version is the same in a registry from which every field of other versions
has been taken out.

* `Registry.readDirect_prunedAt` and `Registry.writeDirect_prunedAt`: by plans, every call with some fuel
  is the same in both registries. The registries grant different fuel to a whole call, but each grants
  enough (`Registry.SchemasOnly.decode_answered` and `Registry.SchemasOnly.encode_answered`).
* `Registry.Alike` relates values that differ only in members that no field on the wire carries.
  `Registry.SchemasOnly.writeDirect_alike`: they are written alike.
* `Registry.AsBuilt` holds of values whose records have such members from their schema's initial ones.
  `Registry.SchemasOnly.readDirect_asBuilt`: values that were read are of this kind.
* `Registry.SchemasOnly.transfers_prunedAt` is about whole calls, after any history.

A field of another version is never looked at, and so it is tempting to say that the two registries
compute the same. They do not quite: types that only such fields mention count towards the fuel of a
resolution and of a call, the slot tables differ, and values keep the members. Each of these is dealt with
on its own.
-/

namespace Telegram

open Codec

namespace Registry

variable {registry : Registry} {version : UInt32}

/-! ## The same calls

A plan is pruned by pruning the schema in it. The equations below say that a step by the pruned plan in
the pruned registry is the step by the plan in the registry, so one induction on fuel is enough for each
direction. No hypothesis about the registry is needed here, callers' adapters and alternatives of families
included: none of them can see the fields that are gone. -/

/-- A type can be resolved in the one registry if it can in the other, and its plan is pruned with it. The
error names the same type. -/
theorem find_prunedAt (registry : Registry) (version : UInt32) (type : TypeExpr) :
    (registry.prunedAt version).find version type =
      (registry.find version type).map (Plan.prunedAt version) := by
  simp only [find, missing?_prunedAt, plan?_prunedAt]
  cases registry.missing? version type <;> cases registry.plan? version type <;> rfl

section Reading

variable {read read' : Plan → FieldFormat → Bytes → Option Reading}

theorem readNeed_prunedAt (h : ∀ plan, read' (plan.prunedAt version) = read plan) (type : TypeExpr) :
    (registry.prunedAt version).readNeed version read' type = registry.readNeed version read type := by
  funext format source
  simp only [readNeed, plan?_prunedAt]
  cases registry.plan? version type with
  | none => rfl
  | some plan => simp only [Option.map_some, h]

theorem readFieldDirect_prunedAt (h : ∀ plan, read' (plan.prunedAt version) = read plan) (field : Field) :
    (registry.prunedAt version).readFieldDirect version read' field =
      registry.readFieldDirect version read field := by
  funext source
  simp only [readFieldDirect, readNeed_prunedAt h]
  cases field.adapter with
  | none => rfl
  | some adapter => exact congrFun (congrFun (h (.leaf (.caller adapter))) _) source

theorem readTypeDirect_prunedAt (h : ∀ plan, read' (plan.prunedAt version) = read plan) :
    (registry.prunedAt version).readTypeDirect version read' = registry.readTypeDirect version read := by
  funext type format source
  simp only [readTypeDirect, find_prunedAt]
  cases registry.find version type with
  | error e => rfl
  | ok plan => simp only [Except.map, h]

/-- **One step of reading** is the same, if the calls it makes are. -/
theorem readStepDirect_prunedAt {read read' : ReadPlan}
    (h : ∀ depth plan, read' depth (plan.prunedAt version) = read depth plan) (depth : Nat) (plan : Plan) :
    (registry.prunedAt version).readStepDirect version read' depth (plan.prunedAt version) =
      registry.readStepDirect version read depth plan := by
  funext format source
  cases plan with
  | leaf leaf =>
    cases leaf with
    | scalar s => rfl
    | caller adapter => simp only [Plan.prunedAt, readStepDirect, readTypeDirect_prunedAt (h depth)]
  | optional | sequence => simp only [Plan.prunedAt, readStepDirect, readNeed_prunedAt (h depth)]
  | family name => rfl
  | record schema fields =>
    simp only [Plan.prunedAt, readStepDirect, readFieldDirect_prunedAt (h (depth + 1))]
    rfl

/-- **Reading is the same**, with any fuel. -/
theorem readDirect_prunedAt (fuel depth : Nat) (plan : Plan) :
    (registry.prunedAt version).readDirect version fuel depth (plan.prunedAt version) =
      registry.readDirect version fuel depth plan := by
  induction fuel generalizing depth plan with
  | zero => rfl
  | succ fuel ih => exact readStepDirect_prunedAt ih depth plan

theorem decodeDirect_prunedAt (fuel : Nat) (type : TypeExpr) (source : Bytes) :
    (registry.prunedAt version).decodeDirect fuel type version source =
      registry.decodeDirect fuel type version source := by
  rw [decodeDirect, decodeDirect, readTypeDirect_prunedAt (readDirect_prunedAt fuel 0)]

end Reading

section Writing

variable {write write' : Plan → FieldFormat → Option Value → Option Writing}

theorem writeTypeDirect_prunedAt (h : ∀ plan, write' (plan.prunedAt version) = write plan) :
    (registry.prunedAt version).writeTypeDirect version write' = registry.writeTypeDirect version write := by
  funext type format value
  simp only [writeTypeDirect, find_prunedAt]
  cases registry.find version type with
  | error e => rfl
  | ok plan => simp only [Except.map, h]

theorem writeNeed_prunedAt (h : ∀ plan, write' (plan.prunedAt version) = write plan) (type : TypeExpr) :
    (registry.prunedAt version).writeNeed version write' type = registry.writeNeed version write type := by
  funext format value
  simp only [writeNeed, plan?_prunedAt, find_prunedAt]
  cases registry.plan? version type with
  | none => rfl
  | some declared =>
    cases value with
    | none => simp only [Option.map_some, h]
    | some value =>
      simp only [Option.map_some, h, Plan.origin_prunedAt]
      cases registry.find version value.concrete.type with
      | error e => rfl
      | ok concrete => simp only [Except.map, h, Plan.origin_prunedAt]

theorem writeFieldDirect_prunedAt (h : ∀ plan, write' (plan.prunedAt version) = write plan)
    (field : Field) :
    (registry.prunedAt version).writeFieldDirect version write' field =
      registry.writeFieldDirect version write field := by
  funext value
  simp only [writeFieldDirect, writeNeed_prunedAt h]
  cases field.adapter with
  | none => rfl
  | some adapter => exact congrFun (congrFun (h (.leaf (.caller adapter))) _) (some value)

/-- **One step of writing** is the same, if the calls it makes are. -/
theorem writeStepDirect_prunedAt {write write' : WritePlan}
    (h : ∀ depth plan, write' depth (plan.prunedAt version) = write depth plan) (depth : Nat)
    (plan : Plan) :
    (registry.prunedAt version).writeStepDirect version write' depth (plan.prunedAt version) =
      registry.writeStepDirect version write depth plan := by
  funext format value
  simp only [writeStepDirect, Plan.type_prunedAt]
  cases plan with
  | leaf leaf =>
    cases leaf with
    | scalar s => rfl
    | caller adapter => simp only [Plan.prunedAt, writeOwnDirect, writeTypeDirect_prunedAt (h depth)]
  | optional | sequence => simp only [Plan.prunedAt, writeOwnDirect, writeNeed_prunedAt (h depth)]
  | family name =>
    simp only [Plan.prunedAt, writeOwnDirect, writeAlternativeDirect, writeTypeDirect_prunedAt (h depth)]
  | record schema fields =>
    simp only [Plan.prunedAt, writeOwnDirect, writeFieldDirect_prunedAt (h (depth + 1))]
    -- a scalar has no calls to make
    rfl

/-- **Writing is the same**, with any fuel. -/
theorem writeDirect_prunedAt (fuel depth : Nat) (plan : Plan) :
    (registry.prunedAt version).writeDirect version fuel depth (plan.prunedAt version) =
      registry.writeDirect version fuel depth plan := by
  induction fuel generalizing depth plan with
  | zero => rfl
  | succ fuel ih => exact writeStepDirect_prunedAt ih depth plan

theorem encodeDirect_prunedAt (fuel : Nat) (value : Value) :
    (registry.prunedAt version).encodeDirect fuel value version =
      registry.encodeDirect fuel value version := by
  rw [encodeDirect, encodeDirect, writeTypeDirect_prunedAt (writeDirect_prunedAt fuel 0)]

end Writing

/-! ## Values that are written alike

Writing looks up the members of a record by the names that its fields carry. What other members hold, and
whether they are there at all, can not be seen on the wire. This is so in records at any depth, which is
why the relation is inductive: the values that a carried member holds may differ in the same way further
down. -/

/-- The values differ only in members that no field on the wire carries, at any depth. Members that a
field does carry are there in both records or missing in both, and are alike themselves where they are
there. -/
inductive Alike (registry : Registry) (version : UInt32) : Value → Value → Prop where
  | refl (value : Value) : Alike registry version value value
  | some {element : TypeExpr} {content content' : Value} (h : Alike registry version content content') :
      Alike registry version (.some element content) (.some element content')
  | sequence {container : Container} {element : TypeExpr} {items items' : List Value}
      (hlength : items.length = items'.length)
      (h : ∀ index (hleft : index < items.length) (hright : index < items'.length),
        Alike registry version items[index] items'[index]) :
      Alike registry version (.sequence container element items) (.sequence container element items')
  | variant {family label : String} {content content' : Value}
      (h : Alike registry version content content') :
      Alike registry version (.variant family label content) (.variant family label content')
  | record {name : String} {members members' : List (String × Value)}
      (hcarried : ∀ schema, registry.schema? (.record name) = some schema →
        ∀ field ∈ schema.fieldsAt version,
          (member? members field.member).isSome = (member? members' field.member).isSome)
      (h : ∀ schema, registry.schema? (.record name) = some schema →
        ∀ field ∈ schema.fieldsAt version, ∀ value value', member? members field.member = some value →
          member? members' field.member = some value' → Alike registry version value value') :
      Alike registry version (.record name members) (.record name members')

/-- Types are told from the outside of values, so they never differ here. -/
theorem Alike.type_eq {value value' : Value} (h : registry.Alike version value value') :
    value.type = value'.type := by
  cases h <;> rfl

/-- What stands for two such values on the wire is alike. -/
theorem Alike.concrete {value value' : Value} (h : registry.Alike version value value') :
    registry.Alike version value.concrete value'.concrete := by
  cases h with
  | refl => exact .refl _
  | some h => exact .some h
  | sequence hlength h => exact .sequence hlength h
  | variant h => exact h
  | record hcarried h => exact .record hcarried h

section Alike

variable {write : WritePlan}

/-- Values that are alike are written alike. The bytes are the same and so is the error, if there is
one. -/
def WritesEqually (registry : Registry) (version : UInt32) (write : WritePlan) : Prop :=
  ∀ depth (type : TypeExpr) (plan : Plan) (format : FieldFormat) (value value' : Value),
    registry.plan? version type = some plan → registry.Alike version value value' →
      write depth plan format (some value) = write depth plan format (some value')

theorem writeItems_congr {write : Value → Option Writing} {items items' : List Value}
    (h : List.Forall₂ (fun item item' => write item = write item') items items') :
    writeItems write items = writeItems write items' := by
  induction h with
  | nil => rfl
  | cons hitem _ ih => simp only [writeItems, hitem, ih]

theorem writeFields_congr {write : Field → Value → Option Writing} {members members' : List (String × Value)}
    (fields : List Field)
    (h : ∀ field ∈ fields, writeMember (write field) (member? members field.member) =
      writeMember (write field) (member? members' field.member)) :
    writeFields members (fields.map fun field => (field, write field)) =
      writeFields members' (fields.map fun field => (field, write field)) := by
  induction fields with
  | nil => rfl
  | cons field rest ih =>
    rw [List.forall_mem_cons] at h
    simp only [List.map_cons, writeFields, h.1, ih h.2]

theorem WritesEqually.writeTypeDirect (h : registry.WritesEqually version write) (depth : Nat)
    (type : TypeExpr) (format : FieldFormat) {value value' : Value}
    (halike : registry.Alike version value value') :
    registry.writeTypeDirect version (write depth) type format (some value) =
      registry.writeTypeDirect version (write depth) type format (some value') := by
  simp only [Registry.writeTypeDirect]
  cases hfind : registry.find version type with
  | error e => rfl
  | ok plan => exact h depth type plan format value value' (plan?_of_find hfind) halike

theorem WritesEqually.writeAlternativeDirect (h : registry.WritesEqually version write) (depth : Nat)
    (family : TypeExpr) (format : FieldFormat) {value value' : Value}
    (halike : registry.Alike version value value') :
    registry.writeAlternativeDirect version (write depth) family format value =
      registry.writeAlternativeDirect version (write depth) family format value' := by
  simp only [Registry.writeAlternativeDirect]
  rw [halike.concrete.type_eq, h.writeTypeDirect depth _ format halike.concrete]

theorem WritesEqually.writeNeed (h : registry.WritesEqually version write) (depth : Nat)
    (type : TypeExpr) (format : FieldFormat) {value value' : Value}
    (halike : registry.Alike version value value') :
    registry.writeNeed version (write depth) type format (some value) =
      registry.writeNeed version (write depth) type format (some value') := by
  simp only [Registry.writeNeed, halike.type_eq, halike.concrete.type_eq]
  cases hplan : registry.plan? version type with
  | none => rfl
  | some declared =>
    have hdeclared := h depth type declared format value value' hplan halike
    cases hfind : registry.find version value'.concrete.type with
    | error e => simp only [hdeclared]
    | ok concrete =>
      have hconcrete := h depth _ concrete format _ _ (plan?_of_find hfind) halike.concrete
      simp only [hdeclared, hconcrete]

theorem WritesEqually.writeMember (h : registry.WritesEqually version write) {depth : Nat}
    {type : TypeExpr} {format : FieldFormat} {member member' : Option Value}
    (hsome : member.isSome = member'.isSome)
    (halike : ∀ value value', member = some value → member' = some value' →
      registry.Alike version value value') :
    Telegram.writeMember (fun value => registry.writeNeed version (write depth) type format (some value))
        member =
      Telegram.writeMember (fun value => registry.writeNeed version (write depth) type format (some value))
        member' := by
  cases member with
  | none =>
    cases member' with
    | none => rfl
    | some value' => cases hsome
  | some value =>
    cases member' with
    | none => cases hsome
    | some value' => exact h.writeNeed depth type format (halike value value' rfl rfl)

/-- **One step of writing** does not tell such values apart, if the calls it makes do not. -/
theorem SchemasOnly.writeStepDirect_alike (hplain : registry.SchemasOnly)
    (h : registry.WritesEqually version write) :
    registry.WritesEqually version (registry.writeStepDirect version write) := by
  intro depth type plan format value value' hplan halike
  simp only [writeStepDirect, Option.all_some, halike.type_eq]
  split
  case isFalse => rfl
  case isTrue hown =>
    -- a value of another type is refused before anything in it is looked at, so the plan is that of its
    -- own type
    have htype : type = value'.type := (type_of_plan? hplan).symm.trans (of_decide_eq_true hown).symm
    subst htype
    rw [hplain.plan?_eq] at hplan
    cases halike with
    | refl => rfl
    | some hcontent =>
      obtain rfl := Option.some.inj hplan
      exact h.writeNeed depth _ format hcontent
    | sequence hlength hitems =>
      obtain rfl := Option.some.inj hplan
      refine writeItems_congr (List.forall₂_iff_get.2 ⟨hlength, fun index hleft hright => ?_⟩)
      exact h.writeNeed depth _ format.element (hitems index hleft hright)
    | variant hcontent =>
      obtain rfl := Option.some.inj hplan
      exact h.writeAlternativeDirect depth _ format (.variant hcontent)
    | record hcarried hmembers =>
      obtain ⟨schema, hschema, rfl⟩ := Option.map_eq_some_iff.1 hplan
      simp only [writeOwnDirect]
      split
      · rfl
      -- only the members that fields carry are looked up, and these are alike
      · refine writeFields_congr _ fun field hfield => ?_
        rw [hplain.writeFieldDirect_eq hschema hfield]
        exact h.writeMember (hcarried schema hschema field hfield) (hmembers schema hschema field hfield)

/-- **Values that are alike are written alike**, with any fuel. -/
theorem SchemasOnly.writeDirect_alike (hplain : registry.SchemasOnly) (fuel : Nat) :
    registry.WritesEqually version (registry.writeDirect version fuel) := by
  induction fuel with
  | zero => exact fun _ _ _ _ _ _ _ _ => rfl
  | succ fuel ih => exact hplain.writeStepDirect_alike ih

/-- The same for a whole call, which begins with the type of the value. -/
theorem SchemasOnly.encodeDirect_alike (hplain : registry.SchemasOnly) (fuel : Nat)
    {value value' : Value} (h : registry.Alike version value value') :
    registry.encodeDirect fuel value version = registry.encodeDirect fuel value' version := by
  rw [encodeDirect, encodeDirect, h.type_eq]
  exact (hplain.writeDirect_alike fuel).writeTypeDirect 0 _ {} h

end Alike

/-! ## Values as they were built

A record is read into the members that its schema begins with, and a field that is read replaces the
member of its name. So a member that no field carries is never touched. A member that a field does carry
may still be as in the beginning, if its bytes were absent, and then nothing is known of what it holds: it
was not read. -/

/-- In every record that was read, a member that no field on the wire carries is as the schema has it to
begin with. A member that is not as in the beginning has been read itself. -/
inductive AsBuilt (registry : Registry) (version : UInt32) : Value → Prop where
  | scalar {value : Value} {scalar : Scalar} (h : value.type = .scalar scalar) :
      AsBuilt registry version value
  | none (element : TypeExpr) : AsBuilt registry version (.none element)
  | some {element : TypeExpr} {content : Value} (h : AsBuilt registry version content) :
      AsBuilt registry version (.some element content)
  | sequence {container : Container} {element : TypeExpr} {items : List Value}
      (h : ∀ item ∈ items, AsBuilt registry version item) :
      AsBuilt registry version (.sequence container element items)
  | record {name : String} {schema : Schema} {members : List (String × Value)}
      (hschema : registry.schema? (.record name) = some schema)
      (hnames : members.map Prod.fst = schema.initial.map Prod.fst)
      (hkept : ∀ name, (∀ field ∈ schema.fieldsAt version, field.member ≠ name) →
        member? members name = member? schema.initial name)
      (hread : ∀ name value, member? members name = some value →
        member? schema.initial name ≠ some value → AsBuilt registry version value) :
      AsBuilt registry version (.record name members)

end Registry

/-- Whatever was read is good. The loops are shown to keep any such property, and the one that is wanted
is put in at the end. -/
def Codec.Reading.Brings (Good : Value → Prop) (reading : Reading) : Prop :=
  ∀ value, reading.result = .ok (some value) → Good value

theorem Codec.Reading.brings_found {Good : Value → Prop} {value : Value} (h : Good value) (rest : Bytes) :
    (Reading.found value rest).Brings Good := by
  intro other hother
  cases hother
  exact h

theorem Codec.Reading.brings_absent (Good : Value → Prop) (rest : Bytes) :
    (Reading.absent rest).Brings Good :=
  fun _ hvalue => by cases hvalue

theorem Codec.Reading.brings_failed (Good : Value → Prop) (e : Error) (rest : Bytes) :
    (Reading.failed e rest).Brings Good :=
  fun _ hvalue => by cases hvalue

/-- Members on the way from those that a record begins with: those that are carried may have been replaced
by what was read. This is the invariant of the loop over fields. `read` speaks of members that have
changed, since one that has not may hold anything that the schema begins with. -/
structure Kept (Good : Value → Prop) (carried : List String) (initial current : List (String × Value)) :
    Prop where
  names_eq : current.map Prod.fst = initial.map Prod.fst
  kept : ∀ name, name ∉ carried → member? current name = member? initial name
  read : ∀ name value, member? current name = some value → member? initial name ≠ some value → Good value

section Loops

variable {Good : Value → Prop} {carried : List String} {initial current : List (String × Value)}

theorem Kept.refl (Good : Value → Prop) (carried : List String) (initial : List (String × Value)) :
    Kept Good carried initial initial :=
  ⟨rfl, fun _ _ => rfl, fun _ _ hsame hdiffers => absurd hsame hdiffers⟩

theorem Kept.set (h : Kept Good carried initial current) {name : String} (hname : name ∈ carried)
    {value : Value} (hvalue : Good value) : Kept Good carried initial (setMember current name value) := by
  refine ⟨(setMember_names name value).trans h.names_eq, ?kept, ?read⟩
  case kept =>
    intro other hother
    have hne : other ≠ name := fun heq => hother (heq ▸ hname)
    rw [member?_setMember_of_ne hne, h.kept other hother]
  case read =>
    intro other content hcontent hdiffers
    by_cases heq : other = name
    · subst heq
      -- a member can only be replaced where there is one
      have hlisted : other ∈ current.map Prod.fst := by
        rw [← setMember_names other value]
        exact List.mem_map_of_mem (mem_of_lookup_eq_some hcontent)
      rw [member?_setMember_self hlisted] at hcontent
      exact Option.some.inj hcontent ▸ hvalue
    · rw [member?_setMember_of_ne heq] at hcontent
      exact h.read other content hcontent hdiffers

/-- Storing what was read for a field that is carried. -/
theorem Kept.store (h : Kept Good carried initial current) {field : Field} (hfield : field.member ∈ carried)
    {value? : Option Value} (hvalue : ∀ value ∈ value?, Good value) :
    Kept Good carried initial (field.store current value?) := by
  cases value? with
  | none => exact h
  | some value =>
    simp only [Field.store]
    split
    · exact h.set hfield (hvalue value rfl)
    · exact h

theorem readItems_brings {read : Bytes → Option Reading}
    (h : ∀ source, ∀ reading ∈ read source, reading.Brings Good) (element : TypeExpr) (count : Nat)
    (source : Bytes) :
    ∀ items ∈ readItems read element count source, ∀ found, items.1 = .ok found →
      ∀ item ∈ found, Good item := by
  induction count generalizing source with
  | zero =>
    refine forall_mem_some fun found hfound => ?_
    cases hfound
    exact fun _ hitem => absurd hitem List.not_mem_nil
  | succ count ih =>
    refine forall_mem_bind (h source) fun reading hreading => ?_
    rcases hresult : (reading.expect element).result with e | _ | item
    · exact forall_mem_some fun _ hfound => by cases hfound
    · refine forall_mem_some fun found hfound => ?_
      cases hfound
      exact fun _ hitem => absurd hitem List.not_mem_nil
    · have hitem := hreading item (Reading.result_of_expect hresult)
      refine forall_mem_bind (ih reading.rest) fun items hitems => forall_mem_some fun found hfound => ?_
      obtain ⟨result, rest⟩ := items
      cases result with
      | error e => cases hfound
      | ok others =>
        cases hfound
        exact List.forall_mem_cons.2 ⟨hitem, hitems others rfl⟩

/-- **The loop over fields keeps the invariant.** A field that is absent stores nothing, and one that was
read stores a good value under its own name. -/
theorem readFields_kept {readers : List (Field × (Bytes → Option Reading))}
    (h : ∀ reader ∈ readers, ∀ source, ∀ reading ∈ reader.2 source, reading.Brings Good)
    (hcarried : ∀ reader ∈ readers, reader.1.member ∈ carried) (hkept : Kept Good carried initial current)
    (source : Bytes) :
    ∀ answer ∈ readFields readers current source, ∀ final, answer.1 = .ok final →
      Kept Good carried initial final := by
  induction readers generalizing current source with
  | nil =>
    refine forall_mem_some fun final hfinal => ?_
    cases hfinal
    exact hkept
  | cons reader rest ih =>
    obtain ⟨field, read⟩ := reader
    rw [List.forall_mem_cons] at h hcarried
    refine forall_mem_bind (h.1 source) fun reading hreading => ?_
    rcases hresult : reading.result with e | value?
    · exact forall_mem_some fun _ hfinal => by cases hfinal
    · refine ih h.2 hcarried.2 (hkept.store hcarried.1 fun value hvalue => ?_) _
      exact hreading value (hresult.trans (congrArg Except.ok hvalue))

end Loops

namespace Registry

variable {registry : Registry} {version : UInt32} {read : ReadPlan}

/-- Whatever is read is as it was built. -/
def ReadsAsBuilt (registry : Registry) (version : UInt32) (read : ReadPlan) : Prop :=
  ∀ depth (type : TypeExpr) (plan : Plan) (format : FieldFormat) (source : Bytes),
    registry.plan? version type = some plan →
      ∀ reading ∈ read depth plan format source, reading.Brings (registry.AsBuilt version)

theorem ReadsAsBuilt.readNeed (h : registry.ReadsAsBuilt version read) (depth : Nat) (type : TypeExpr)
    (format : FieldFormat) (source : Bytes) :
    ∀ reading ∈ registry.readNeed version (read depth) type format source,
      reading.Brings (registry.AsBuilt version) := by
  unfold Registry.readNeed
  split
  · rename_i plan hplan
    exact h depth type plan format source hplan
  · exact forall_mem_some (Reading.brings_failed _ _ _)

/-- **One step of reading** gives values as they were built, if the calls it makes do. -/
theorem SchemasOnly.readStepDirect_asBuilt (hplain : registry.SchemasOnly)
    (h : registry.ReadsAsBuilt version read) :
    registry.ReadsAsBuilt version (registry.readStepDirect version read) := by
  intro depth type plan format source hplan
  have htype := type_of_plan? hplan
  rw [hplain.plan?_eq] at hplan
  cases type with
  | foreign name => cases hplan
  | scalar s =>
    obtain rfl := Option.some.inj hplan
    exact forall_mem_some fun value hvalue => .scalar (s.type_of_read hvalue)
  | family name =>
    obtain rfl := Option.some.inj hplan
    exact forall_mem_some (Reading.brings_failed _ _ _)
  | optional element =>
    obtain rfl := Option.some.inj hplan
    refine forall_mem_bind (h.readNeed depth element format source) fun reading hreading => ?_
    rcases hresult : (reading.expect element).result with e | _ | content
    · exact forall_mem_some (Reading.brings_failed _ _ _)
    · exact forall_mem_some (Reading.brings_found (.none element) _)
    · have hcontent := hreading content (Reading.result_of_expect hresult)
      exact forall_mem_some (Reading.brings_found (.some hcontent) _)
  | sequence container element =>
    obtain rfl := Option.some.inj hplan
    simp only [readStepDirect]
    split
    · exact forall_mem_some (Reading.brings_absent _ _)
    · refine forall_mem_bind (readItems_brings (h.readNeed depth element format.element) element _ source)
        fun items hitems => forall_mem_some fun value hvalue => ?_
      obtain ⟨result, rest⟩ := items
      cases result with
      | error e => cases hvalue
      | ok found =>
        have hfound := Except.ok.inj hvalue
        unfold Container.ofItems? at hfound
        split at hfound
        · cases hfound
          exact .sequence (hitems found rfl)
        · cases hfound
  | record name =>
    obtain ⟨schema, hschema, rfl⟩ := Option.map_eq_some_iff.1 hplan
    have hname : schema.type = .record name := htype
    simp only [readStepDirect]
    split
    · exact forall_mem_some (Reading.brings_failed _ _ _)
    -- the loop begins with the members of the schema, where nothing has been replaced
    · have hkept := Kept.refl (registry.AsBuilt version) ((schema.fieldsAt version).map Field.member)
        schema.initial
      refine forall_mem_bind (readFields_kept ?brings ?carried hkept source) fun members hmembers =>
        forall_mem_some fun value hvalue => ?built
      case brings =>
        intro reader hreader source'
        obtain ⟨field, hfield, rfl⟩ := List.mem_map.1 hreader
        rw [hplain.readFieldDirect_eq hschema hfield]
        exact h.readNeed (depth + 1) field.type field.format source'
      case carried =>
        intro reader hreader
        obtain ⟨field, hfield, rfl⟩ := List.mem_map.1 hreader
        exact List.mem_map_of_mem hfield
      case built =>
        obtain ⟨result, rest⟩ := members
        cases result with
        | error e => cases hvalue
        | ok final =>
          obtain ⟨hnames, hkept, hread⟩ := hmembers final rfl
          have hvalue := Option.some.inj (Except.ok.inj hvalue)
          simp only [Schema.record, hname] at hvalue
          subst hvalue
          refine .record hschema hnames (fun other hother => hkept other fun hlisted => ?_) hread
          obtain ⟨field, hfield, heq⟩ := List.mem_map.1 hlisted
          exact hother field hfield heq

/-- **Values that were read are as they were built**, with any fuel. -/
theorem SchemasOnly.readDirect_asBuilt (hplain : registry.SchemasOnly) (fuel : Nat) :
    registry.ReadsAsBuilt version (registry.readDirect version fuel) := by
  induction fuel with
  | zero =>
    intro depth type plan format source _ reading hreading
    cases hreading
  | succ fuel ih => exact hplain.readStepDirect_asBuilt ih

theorem SchemasOnly.decodeDirect_asBuilt (hplain : registry.SchemasOnly) (fuel : Nat) (type : TypeExpr)
    (source : Bytes) :
    ∀ reading ∈ registry.decodeDirect fuel type version source,
      reading.Brings (registry.AsBuilt version) := by
  unfold decodeDirect readTypeDirect
  split
  · exact forall_mem_some (Reading.brings_failed _ _ _)
  · rename_i plan hfind
    intro reading hreading value hvalue
    obtain ⟨inner, hinner, rfl⟩ := Option.map_eq_some_iff.1 hreading
    exact hplain.readDirect_asBuilt fuel 0 type plan {} source (plan?_of_find hfind) inner hinner value
      (Reading.result_of_expect hvalue)

/-! ## Whole calls

The two registries grant different fuel to a whole call. In registries of schemas alone each grants
enough, so the answers are those with any greater amount, and there they are equal. -/

/-- Pruning a registry of record schemas leaves one. -/
theorem SchemasOnly.prunedAt (hplain : registry.SchemasOnly) (version : UInt32) :
    (registry.prunedAt version).SchemasOnly := by
  refine ⟨hplain.adapters_eq, hplain.factories_eq, fun schema hschema field hfield => ?_⟩
  obtain ⟨schema, hlisted, rfl⟩ := List.mem_map.1 hschema
  exact hplain.adapter_eq schema hlisted field (List.mem_filter.1 hfield).1

/-- **Only the fields on the wire matter.** Take from a registry of record schemas alone every field that
is not on the wire at a version. At that version, after any history of calls in either registry:

* every value is written as the same bytes with the same outcome, and so is every value that differs from
  it only in members that no field on the wire carries, in records at any depth;
* every type is read from every buffer with the same outcome, and the same bytes are left unread. In a
  value that was read, such members are those that the schema begins with. -/
theorem SchemasOnly.transfers_prunedAt (hplain : registry.SchemasOnly) (version : UInt32)
    {table table' : SlotTable} (h : registry.Reached table)
    (h' : (registry.prunedAt version).Reached table') :
    (∀ value, ∃ writing, (registry.encode value version).answer table = some writing ∧
      ((registry.prunedAt version).encode value version).answer table' = some writing ∧
      ∀ value', registry.Alike version value value' →
        (registry.encode value' version).answer table = some writing) ∧
    ∀ type source, ∃ reading, (registry.decode type version source).answer table = some reading ∧
      ((registry.prunedAt version).decode type version source).answer table' = some reading ∧
      ∀ value, reading.result = .ok (some value) → registry.AsBuilt version value := by
  have hplain' := hplain.prunedAt version
  refine ⟨fun value => ?encode, fun type source => ?decode⟩
  case encode =>
    -- each call has an answer with its own fuel, and any greater amount gives the same one in both
    -- registries
    have hanswered := hplain.encode_answered h value version
    obtain ⟨writing, hwriting, hpruned⟩ := hanswered.agree (hplain'.encode_answered h' value version)
      fun fuel => by
        rw [h.encodeIn_answer hplain.factories_eq, h'.encodeIn_answer hplain'.factories_eq,
          encodeDirect_prunedAt]
    refine ⟨writing, hwriting, hpruned, fun value' halike => ?_⟩
    -- a value that is alike may be of another weight and be granted other fuel
    obtain ⟨other, hother, hvalue'⟩ := hanswered.agree (hplain.encode_answered h value' version)
      fun fuel => by
        rw [h.encodeIn_answer hplain.factories_eq, h.encodeIn_answer hplain.factories_eq,
          hplain.encodeDirect_alike fuel halike]
    obtain rfl := Option.some.inj (hwriting.symm.trans hother)
    exact hvalue'
  case decode =>
    obtain ⟨reading, hreading, hpruned⟩ := (hplain.decode_answered h type version source).agree
      (hplain'.decode_answered h' type version source) fun fuel => by
        rw [h.decodeIn_answer hplain.factories_eq, h'.decodeIn_answer hplain'.factories_eq,
          decodeDirect_prunedAt]
    refine ⟨reading, hreading, hpruned, ?_⟩
    rw [h.decodeIn_answer hplain.factories_eq] at hreading
    exact hplain.decodeDirect_asBuilt _ type source reading hreading

def tagField : Field :=
  { name := "tag", member := "tag", type := .scalar (.int .u8), format := {}, adapter := none }

/-- A stamp, which later versions carry, and which nothing reads and writes. -/
def stampField : Field :=
  { name := "stamp", member := "stamp", type := .foreign "stamp", format := { minVersion := 2 },
    adapter := none }

/-- Room for one letter in reply, which is left empty at the end of a buffer. -/
def replyField : Field :=
  { name := "reply", member := "reply", type := .sequence .list (.record "letter"),
    format := { length := 1 }, adapter := none }

def letterSchema : Schema :=
  { type := .record "letter", fields := [tagField, stampField, replyField],
    initial := [("tag", .int .u8 0), ("stamp", .foreign "stamp" (.text "none")),
      ("reply", .sequence .list (.record "letter") [])] }

def letters : Registry where
  schemas := [letterSchema]

def stampedLetter (tag : BitVec 8) (stamp : String) (replies : List Value) : Value :=
  .record "letter" [("tag", .int .u8 tag), ("stamp", .foreign "stamp" (.text stamp)),
    ("reply", .sequence .list (.record "letter") replies)]

theorem alike_stampedLetter (tag : BitVec 8) (stamp stamp' : String) {replies replies' : List Value}
    (h : letters.Alike 1 (.sequence .list (.record "letter") replies)
      (.sequence .list (.record "letter") replies')) :
    letters.Alike 1 (stampedLetter tag stamp replies) (stampedLetter tag stamp' replies') := by
  have hfields : ∀ schema, letters.schema? (.record "letter") = some schema →
      schema.fieldsAt 1 = [tagField, replyField] := by
    intro schema hschema
    obtain rfl := Option.some.inj hschema
    rfl
  refine .record (fun schema hschema => ?carried) (fun schema hschema => ?alike) <;>
    rw [hfields schema hschema, List.forall_mem_cons, List.forall_mem_singleton]
  case carried => exact ⟨rfl, rfl⟩
  case alike =>
    refine ⟨fun value value' hvalue hvalue' => ?_, fun value value' hvalue hvalue' => ?_⟩
    · obtain rfl := Option.some.inj hvalue
      obtain rfl := Option.some.inj hvalue'
      exact .refl _
    · obtain rfl := Option.some.inj hvalue
      obtain rfl := Option.some.inj hvalue'
      exact h

/-- A letter with another in reply, stamped with the given texts. -/
def stampedLetters (outer inner : String) : Value :=
  stampedLetter 1 outer [stampedLetter 2 inner []]

theorem alike_stampedLetters (outer inner outer' inner' : String) :
    letters.Alike 1 (stampedLetters outer inner) (stampedLetters outer' inner') := by
  have hinner : letters.Alike 1 (stampedLetter 2 inner []) (stampedLetter 2 inner' []) :=
    alike_stampedLetter 2 inner inner' (.refl _)
  have hreplies : ∀ index (hleft : index < [stampedLetter 2 inner []].length)
      (hright : index < [stampedLetter 2 inner' []].length),
      letters.Alike 1 [stampedLetter 2 inner []][index] [stampedLetter 2 inner' []][index] := by
    intro index hleft _
    obtain rfl := Nat.lt_one_iff.1 hleft
    exact hinner
  exact alike_stampedLetter 1 outer outer' (.sequence rfl hreplies)

/-- Writing the two letters takes four adapters that call each other, and more fuel changes nothing. -/
theorem encode_stampedLetters : (letters.encode (stampedLetters "a" "b") 1).answer {} =
    some (.done [1, 2]) := by
  have hwritten : letters.encodeDirect 4 (stampedLetters "a" "b") 1 = some (.done [1, 2]) := rfl
  have hle : 4 ≤ letters.callFuel (stampedLetters "a" "b").weight := by decide +kernel
  rw [encode, Reached.fresh.encodeIn_answer rfl]
  exact writeTypeDirect_persists (writeDirect_persists hle 0) _ _ _ _ hwritten

/-- So does reading them. -/
theorem decode_stampedLetters : (letters.decode (.record "letter") 1 [1, 2]).answer {} =
    some (.found (stampedLetters "none" "none") []) := by
  have hread : letters.decodeDirect 4 (.record "letter") 1 [1, 2] =
      some (.found (stampedLetters "none" "none") []) := rfl
  have hle : 4 ≤ letters.callFuel (TypeExpr.record "letter").weight := by decide +kernel
  rw [decode, Reached.fresh.decodeIn_answer rfl]
  exact readTypeDirect_persists (readDirect_persists hle 0) _ _ _ _ hread

/-- The stamps make no difference at version 1, and are as in the beginning after reading. At version 2
letters can not be read or written at all. -/
theorem SchemasOnly.transfers_prunedAt_letters :
    Run.answer (letters.resolve (.record "letter") 2) {} =
        some (.error (.noAdapter (.foreign "stamp") 2)) ∧
      (letters.encode (stampedLetters "a" "b") 1).answer {} = some (.done [1, 2]) ∧
      (letters.encode (stampedLetters "c" "d") 1).answer {} = some (.done [1, 2]) ∧
      ((letters.prunedAt 1).encode (stampedLetters "a" "b") 1).answer {} = some (.done [1, 2]) ∧
      (letters.decode (.record "letter") 1 [1, 2]).answer {} =
        some (.found (stampedLetters "none" "none") []) ∧
      ((letters.prunedAt 1).decode (.record "letter") 1 [1, 2]).answer {} =
        some (.found (stampedLetters "none" "none") []) ∧
      letters.AsBuilt 1 (stampedLetters "none" "none") := by
  have hplain : letters.SchemasOnly := by
    refine ⟨rfl, rfl, ?_⟩
    simp [letters, letterSchema, tagField, stampField, replyField]
  obtain ⟨hencode, hdecode⟩ := hplain.transfers_prunedAt 1 .fresh .fresh
  obtain ⟨writing, hwriting, hpruned, hothers⟩ := hencode (stampedLetters "a" "b")
  obtain ⟨reading, hreading, hprunedReading, hbuilt⟩ := hdecode (.record "letter") [1, 2]
  obtain rfl := Option.some.inj (hwriting.symm.trans encode_stampedLetters)
  obtain rfl := Option.some.inj (hreading.symm.trans decode_stampedLetters)
  exact ⟨by decide +kernel, hwriting, hothers _ (alike_stampedLetters "a" "b" "c" "d"), hpruned, hreading,
    hprunedReading, hbuilt _ rfl⟩

end Registry

end Telegram
