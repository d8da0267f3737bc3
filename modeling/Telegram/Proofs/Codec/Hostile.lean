import Telegram.Proofs.Codec.Dangling
import Telegram.Proofs.Codec.Fuel
import Telegram.Proofs.Registry.Reach

/-!
# Reading hostile input

Bytes come from anywhere, so reading has to come to an end on all of them. In a registry of accepted
record schemas, where a type can be resolved and leads to no family, one thing alone can go wrong with its
bytes: records nested too deep.

* `Registry.Accepted` holds of the registries that are built from schemas alone, and `Registry.Readable`
  is what reading relies on: among it, that no field divides by 0.
* `Codec.Safe` says what a part of a reading came to. There is a lemma for the scalars, one for each loop
  and one for each step, and `Registry.Readable.readDirect_safe` closes the recursion by induction on
  fuel.
* `Registry.readWithin` reads with a bound on the records entered. `Registry.readWithin_eq`: the bound of
  the registry's limits changes nothing.
* `Registry.Accepted.decode_total` is a whole call, after any history.
-/

namespace Telegram

open Codec

/-! ## Accepted schemas

Registration looks at one schema at a time and refuses those with a field format that can never be
applied. `Accepted` is the history of a registry, one constructor for each thing that can be done to it,
and `Readable` is what is left of that history for reading. A value of the second can be had without the
first. -/

namespace Registry

/-- The registries that are built from record schemas alone. No field has an adapter of its own, and
registration found no fault in any of the schemas. The second argument of `addSchema` is a condition on
what the caller brings, and the third says that the registry took it. -/
inductive Accepted : Registry → Prop where
  | start (limits : Limits) : Accepted { limits }
  | addSchema {registry registry' : Registry} {schema : Schema} (h : Accepted registry)
      (hown : ∀ field ∈ schema.fields, field.adapter = none)
      (hadd : registry.addSchema schema = .ok registry') : Accepted registry'

/-- What reading values of a type relies on. All of it is about the registry and is known before the first
byte arrives; of the bytes, nothing is assumed. -/
structure Readable (registry : Registry) (version : UInt32) (goal : TypeExpr) : Prop where
  schemasOnly : registry.SchemasOnly
  /-- Every field format can be applied; in particular, no field divides by 0. -/
  fault?_eq : ∀ schema ∈ registry.schemas, ∀ field ∈ schema.fields, field.format.fault? = none
  hasAdapter : ∀ type, registry.Reaches version goal type → registry.HasAdapter type
  /-- Nothing on the wire tells the alternatives of a family apart. -/
  not_reaches_family : ∀ name, ¬ registry.Reaches version goal (.family name)

variable {registry registry' : Registry} {version : UInt32}

/-- What an accepted schema adds is itself, and it is free of faults. -/
theorem addSchema_eq_ok {schema : Schema} (h : registry.addSchema schema = .ok registry') :
    registry' = { registry with schemas := registry.schemas ++ [schema] } ∧
      schema.fault? registry.limits.maxSequence = none := by
  unfold addSchema at h
  split at h
  · cases h
  · rename_i hfault
    refine ⟨(Except.ok.inj h).symm, ?_⟩
    unfold schemaFault? at hfault
    split at hfault
    · split at hfault
      · cases hfault
      · exact hfault
    · cases hfault

/-- A schema without a fault has no field with a format that can not be applied. -/
theorem format_fault?_of_schema_fault? {schema : Schema} {maxLength : Nat}
    (h : schema.fault? maxLength = none) : ∀ field ∈ schema.fields, field.format.fault? = none := by
  intro field hfield
  have hfault := List.findSome?_eq_none_iff.1 h field hfield
  simp only [Field.fault?, Option.map_eq_none_iff, Option.orElse_eq_none] at hfault
  exact hfault.1

/-- Registration finds no fault in any of the schemas, also later. -/
theorem Accepted.schema_fault? (h : registry.Accepted) :
    ∀ schema ∈ registry.schemas, schema.fault? registry.limits.maxSequence = none := by
  induction h with
  | start limits => exact nofun
  | addSchema _ _ hadd ih =>
    obtain ⟨rfl, hfault⟩ := addSchema_eq_ok hadd
    exact List.forall_mem_append.2 ⟨ih, List.forall_mem_singleton.2 hfault⟩

/-- Nothing but schemas is ever registered. -/
theorem Accepted.schemasOnly (h : registry.Accepted) : registry.SchemasOnly := by
  induction h with
  | start limits => exact ⟨rfl, rfl, nofun⟩
  | addSchema _ hown hadd ih =>
    obtain ⟨rfl, -⟩ := addSchema_eq_ok hadd
    exact ⟨ih.adapters_eq, ih.factories_eq,
      List.forall_mem_append.2 ⟨ih.adapter_eq, List.forall_mem_singleton.2 hown⟩⟩

theorem Accepted.schemas (h : registry.Accepted) :
    registry.SchemasOnly ∧
      ∀ schema ∈ registry.schemas, ∀ field ∈ schema.fields, field.format.fault? = none :=
  ⟨h.schemasOnly, fun schema hschema => format_fault?_of_schema_fault? (h.schema_fault? schema hschema)⟩

end Registry

/-! ## What a part of a reading comes to

Every part of a reading answers with a result and with what it left of the buffer, but the results are of
different types: a value or none, the elements of a sequence, the members of a record. `Safe` is said of
all of them, with the good results as a parameter, so that the parts can be put together. -/

namespace Codec

/-- Reading from `source` came to something good, or to the one error that bytes can bring about. Either
way what is left is the end of the buffer. -/
inductive Safe {α : Type} (limit : Nat) (source : Bytes) (Good : α → Prop) : Except Error α → Bytes → Prop where
  | ok {a : α} {rest : Bytes} (hgood : Good a) (hrest : rest <:+ source) : Safe limit source Good (.ok a) rest
  | tooDeep {rest : Bytes} (hrest : rest <:+ source) : Safe limit source Good (.error (.tooDeep limit)) rest

/-- A reading of the type or of nothing, or the one error. In all three cases what is left is the end of
what there was. -/
def Reading.Safe (limit : Nat) (type : TypeExpr) (source : Bytes) (reading : Reading) : Prop :=
  Codec.Safe limit source (fun value? : Option Value => ∀ value ∈ value?, value.type = type)
    reading.result reading.rest

section Safe

variable {α β : Type} {limit : Nat} {source middle rest : Bytes} {type : TypeExpr} {Good : α → Prop}
  {result : Except Error α}

/-- Reading goes on where it stopped before. -/
theorem Safe.of_suffix (h : Safe limit middle Good result rest) (hmiddle : middle <:+ source) :
    Safe limit source Good result rest := by
  cases h with
  | ok hgood hrest => exact .ok hgood (hrest.trans hmiddle)
  | tooDeep hrest => exact .tooDeep (hrest.trans hmiddle)

/-- What is made of a good result is good, and an error stays what it is. -/
theorem Safe.map (h : Safe limit source Good result rest) {Good' : β → Prop} {f : α → β}
    (hf : ∀ a, Good a → Good' (f a)) : Safe limit source Good' (result.map f) rest := by
  cases h with
  | ok hgood hrest => exact .ok (hf _ hgood) hrest
  | tooDeep hrest => exact .tooDeep hrest

/-- Nothing is made up that was not in the buffer, and nothing is skipped and read later. -/
theorem Safe.rest_suffix (h : Safe limit source Good result rest) : rest <:+ source := by
  cases h with
  | ok _ hrest => exact hrest
  | tooDeep hrest => exact hrest

theorem Reading.safe_found {value : Value} (htype : value.type = type) (hrest : rest <:+ source) :
    (Reading.found value rest).Safe limit type source :=
  .ok (fun _ heq => Option.some.inj heq ▸ htype) hrest

theorem Reading.safe_absent (hrest : rest <:+ source) :
    (Reading.absent rest).Safe limit type source :=
  .ok nofun hrest

/-- What is read of the type it was asked for is as expected. -/
theorem Reading.Safe.expect_eq {reading : Reading} (h : reading.Safe limit type source) :
    reading.expect type = reading := by
  obtain ⟨result, rest⟩ := reading
  cases h with
  | @ok value? _ hgood _ =>
    cases value? with
    | none => rfl
    | some value => exact if_pos (hgood value rfl)
  | tooDeep _ => rfl

end Safe

end Codec

/-! ## Scalars

Two things could go wrong with a scalar. A stored number that is divided by 0 has no quotient, which the
check of the format excludes; and a decimal that is too large for its type would have none either, which
four bytes can not spell. -/

/-- A format that can be applied never divides by 0. -/
theorem FieldFormat.offset_ne_of_fault? {format : FieldFormat} (h : format.fault? = none)
    (hrule : format.rule = .divide) : format.offset ≠ 0 := by
  intro hoffset
  unfold fault? at h
  split at h
  · cases h
  · rw [if_pos ⟨.inr hrule, hoffset⟩] at h
    cases h

/-- The format of an element differs in its length alone. -/
theorem FieldFormat.fault?_element (format : FieldFormat) : format.element.fault? = format.fault? := by
  unfold element
  split <;> rfl

/-- Whatever bytes are stored for a decimal, there is a decimal that they stand for. -/
theorem Decimal.read_safe {format : FieldFormat} (hformat : format.fault? = none) (limit : Nat)
    (source : Bytes) : (Decimal.read format source).Safe limit (.scalar .decimal) source := by
  unfold Decimal.read
  split
  · exact Reading.safe_found rfl (List.suffix_refl _)
  · rename_i width hwidth
    rw [ByteOrder.split?_eq]
    split
    · exact Reading.safe_absent (List.suffix_refl _)
    · rename_i stored rest hsplit
      split at hsplit
      · rename_i hle
        cases hsplit
        -- at most four bytes are stored, and every number that they spell has a quotient
        have hfour : format.order.decode (source.take width) < 256 ^ 4 := by
          refine (format.order.decode_lt _).trans_le (Nat.pow_le_pow_right (by decide) ?_)
          rw [List.length_take, Nat.min_eq_left hle]
          exact (storedBytes?_pos hwidth).2
        obtain ⟨x, hx⟩ := exists_ofStored (FieldFormat.offset_ne_of_fault? hformat) hfour
        rw [hx]
        exact Reading.safe_found rfl (List.drop_suffix _ _)
      · cases hsplit

/-- **Reading a scalar never fails** in a format that can be applied. -/
theorem Scalar.read_safe (scalar : Scalar) {format : FieldFormat} (hformat : format.fault? = none)
    (limit : Nat) (source : Bytes) : (scalar.read format source).Safe limit (.scalar scalar) source := by
  cases scalar with
  | decimal => exact Decimal.read_safe hformat limit source
  | bool =>
    cases source with
    | nil => exact Reading.safe_absent (List.suffix_refl _)
    | cons byte rest => exact Reading.safe_found rfl (List.suffix_cons _ _)
  | int type =>
    simp only [Scalar.read, IntType.read, ByteOrder.split?_eq]
    split
    · exact Reading.safe_found rfl (List.suffix_refl _)
    · split
      · exact Reading.safe_absent (List.suffix_refl _)
      · rename_i hsplit
        split at hsplit
        · cases hsplit
          exact Reading.safe_found rfl (List.drop_suffix _ _)
        · cases hsplit
  | text =>
    simp only [Scalar.read, Text.read, Bytes.split?_eq]
    split
    · exact Reading.safe_found rfl (List.nil_suffix)
    · split
      · exact Reading.safe_absent (List.suffix_refl _)
      · rename_i hsplit
        split at hsplit
        · cases hsplit
          exact Reading.safe_found rfl (List.drop_suffix _ _)
        · cases hsplit

/-! ## Loops

A loop ends at the first part that is absent or in error, and both ends are safe if each part is. The
induction is on what the loop counts: the elements still to be read, or the readers of the fields. -/

section Loops

variable {limit : Nat}

/-- **Elements** are read one after the other, each from where the last one stopped. -/
theorem readItems_safe {read : Bytes → Option Reading} {element : TypeExpr}
    (h : ∀ source, ∀ reading ∈ read source, reading.Safe limit element source) (count : Nat)
    (source : Bytes) :
    ∀ items ∈ readItems read element count source, Safe limit source (fun _ => True) items.1 items.2 := by
  induction count generalizing source with
  | zero => exact forall_mem_some (.ok trivial (List.suffix_refl _))
  | succ count ih =>
    refine forall_mem_bind (h source) fun reading hreading => ?_
    rw [hreading.expect_eq]
    obtain ⟨result, rest⟩ := reading
    cases hreading with
    | tooDeep hrest => exact forall_mem_some (.tooDeep hrest)
    | @ok value? _ _ hrest =>
      cases value? with
      | none => exact forall_mem_some (.ok trivial hrest)
      | some item =>
        exact forall_mem_bind (ih rest) fun items hitems =>
          forall_mem_some ((hitems.map fun _ _ => trivial).of_suffix hrest)

/-- **Fields** are read in their order. One that is absent leaves its member as it is and is not the end
of the record. -/
theorem readFields_safe {readers : List (Field × (Bytes → Option Reading))}
    (h : ∀ reader ∈ readers, ∀ source, ∀ reading ∈ reader.2 source,
      reading.Safe limit reader.1.type source)
    (members : List (String × Value)) (source : Bytes) :
    ∀ answer ∈ readFields readers members source,
      Safe limit source (fun _ => True) answer.1 answer.2 := by
  induction readers generalizing members source with
  | nil => exact forall_mem_some (.ok trivial (List.suffix_refl _))
  | cons reader others ih =>
    obtain ⟨field, read⟩ := reader
    rw [List.forall_mem_cons] at h
    refine forall_mem_bind (h.1 source) fun reading hreading => ?_
    obtain ⟨result, rest⟩ := reading
    cases hreading with
    | tooDeep hrest => exact forall_mem_some (.tooDeep hrest)
    | ok _ hrest => exact fun answer hanswer => (ih h.2 _ rest answer hanswer).of_suffix hrest

end Loops

/-! ## Reading by plans

The plan of a type says what its adapter would do, without slots and tables. The types that are read are
those that `goal` leads to, and the formats are those that registration has accepted, so both travel with
the induction: `ReadsSafely` asks only for readings at such types and in such formats. -/

namespace Registry

variable {registry : Registry} {version : UInt32} {goal : TypeExpr} {read : ReadPlan}

/-- Every reading of a type that `goal` leads to is safe. -/
def ReadsSafely (registry : Registry) (version : UInt32) (goal : TypeExpr) (read : ReadPlan) : Prop :=
  ∀ depth (type : TypeExpr) (plan : Plan) (format : FieldFormat) (source : Bytes),
    registry.Reaches version goal type → registry.plan? version type = some plan →
      format.fault? = none →
        ∀ reading ∈ read depth plan format source, reading.Safe registry.limits.maxDepth type source

/-- A type that is reached has a plan. -/
theorem Readable.readNeed_safe (h : registry.Readable version goal)
    (hread : registry.ReadsSafely version goal read) (depth : Nat) {type : TypeExpr}
    (hreaches : registry.Reaches version goal type) {format : FieldFormat}
    (hformat : format.fault? = none) (source : Bytes) :
    ∀ reading ∈ registry.readNeed version (read depth) type format source,
      reading.Safe registry.limits.maxDepth type source := by
  obtain ⟨plan, hplan⟩ : ∃ plan, registry.plan? version type = some plan :=
    hasAdapter_iff.1 (h.hasAdapter type hreaches)
  simp only [readNeed, hplan]
  exact hread depth type plan format source hreaches hplan hformat

/-- **One step of reading** is safe, if the calls it makes are. -/
theorem Readable.readStepDirect_safe (h : registry.Readable version goal)
    (hread : registry.ReadsSafely version goal read) :
    registry.ReadsSafely version goal (registry.readStepDirect version read) := by
  intro depth type plan format source hreaches hplan hformat
  have hadapter := h.schemasOnly.adapter?_eq
  have htype := type_of_plan? hplan
  rw [h.schemasOnly.plan?_eq] at hplan
  cases type with
  | foreign name => cases hplan
  | scalar s =>
    obtain rfl := Option.some.inj hplan
    exact forall_mem_some (s.read_safe hformat _ source)
  | family name => exact absurd hreaches (h.not_reaches_family name)
  | optional element =>
    obtain rfl := Option.some.inj hplan
    have helement := hreaches.tail (.optional (hadapter _))
    refine forall_mem_bind (h.readNeed_safe hread depth helement hformat source) fun reading hreading => ?_
    -- what came back is of the type that was asked for, so it is not refused
    rw [hreading.expect_eq]
    obtain ⟨result, rest⟩ := reading
    cases hreading with
    | tooDeep hrest => exact forall_mem_some (.tooDeep hrest)
    | @ok value? _ _ hrest =>
      cases value? with
      | none => exact forall_mem_some (Reading.safe_found rfl hrest)
      | some value => exact forall_mem_some (Reading.safe_found rfl hrest)
  | sequence container element =>
    obtain rfl := Option.some.inj hplan
    have helement := hreaches.tail (.sequence (hadapter _))
    simp only [readStepDirect]
    split
    · exact forall_mem_some (Reading.safe_absent (List.suffix_refl _))
    · have hitems := readItems_safe (h.readNeed_safe hread depth helement
        ((FieldFormat.fault?_element format).trans hformat)) (container.size?.getD format.length) source
      refine forall_mem_bind hitems fun items hitems => forall_mem_some (hitems.map fun found _ => ?_)
      intro value hvalue
      unfold Container.ofItems? at hvalue
      split at hvalue
      · exact Option.some.inj hvalue ▸ rfl
      · cases hvalue
  | record name =>
    obtain ⟨schema, hschema, rfl⟩ := Option.map_eq_some_iff.1 hplan
    have hmem := List.mem_of_find?_eq_some hschema
    have hname : schema.type = .record name := htype
    simp only [readStepDirect]
    split
    · exact forall_mem_some (.tooDeep (List.suffix_refl _))
    · refine forall_mem_bind (readFields_safe ?fields schema.initial source) fun members hmembers =>
        forall_mem_some (hmembers.map fun final _ value hvalue => ?typed)
      case fields =>
        intro reader hreader source'
        obtain ⟨field, hfield, rfl⟩ := List.mem_map.1 hreader
        obtain ⟨hlisted, happlies⟩ := List.mem_filter.1 hfield
        have hown := h.schemasOnly.adapter_eq schema hmem field hlisted
        rw [h.schemasOnly.readFieldDirect_eq hschema hfield]
        exact h.readNeed_safe hread (depth + 1)
          (hreaches.tail (.field (hadapter _) hschema hlisted happlies hown))
          (h.fault?_eq schema hmem field hlisted) source'
      case typed =>
        obtain rfl := Option.some.inj hvalue
        simp only [Schema.record, hname]
        rfl

/-- **Reading is safe**, with any fuel. -/
theorem Readable.readDirect_safe (h : registry.Readable version goal) (fuel : Nat) :
    registry.ReadsSafely version goal (registry.readDirect version fuel) := by
  induction fuel with
  | zero =>
    intro depth type plan format source _ _ _ reading hreading
    cases hreading
  | succ fuel ih => exact h.readStepDirect_safe ih

theorem Readable.decodeDirect_safe (h : registry.Readable version goal) (fuel : Nat) (source : Bytes) :
    ∀ reading ∈ registry.decodeDirect fuel goal version source,
      reading.Safe registry.limits.maxDepth goal source := by
  intro reading hreading
  have hmissing := missing?_eq_none_iff.2 h.hasAdapter
  obtain ⟨plan, hplan⟩ : ∃ plan, registry.plan? version goal = some plan :=
    hasAdapter_iff.1 (h.hasAdapter goal .refl)
  simp only [decodeDirect, readTypeDirect, find_of_plan? hmissing hplan] at hreading
  obtain ⟨inner, hinner, rfl⟩ := Option.map_eq_some_iff.1 hreading
  have hsafe := h.readDirect_safe fuel 0 goal plan {} source .refl hplan rfl inner hinner
  rwa [hsafe.expect_eq]

end Registry

/-! ## How many records are entered

That a reading is refused when it is too deep does not say how deep it went before. `readWithin` is a
reading that has no answer at all if it goes deeper than a bound; that it is the reading itself, for the
bound of the limits, says that the reading never went deeper. -/

/-- The adapter is that of a record. -/
def Wiring.isRecord : Wiring → Bool
  | .record .. => true
  | _ => false

namespace Registry

/-- Reads with an adapter, and enters no more than `limit` records, one inside the other. A record that
would be one more is refused as soon as it is met. There is no answer if anything is read deeper than
that. -/
def readWithin (registry : Registry) (version : UInt32) (limit : Nat) : Nat → ReadWith
  | 0 => fun _ _ _ _ _ => none
  | fuel + 1 => fun depth wiring format source =>
    if limit < depth then fun _ => none
    else if limit = depth ∧ wiring.isRecord then pure (.failed (.tooDeep limit) source)
    else registry.readStep version (registry.readWithin version limit fuel) depth wiring format source

/-- Reads one value of `type`, and enters no more than `limit` records. -/
def decodeWithin (registry : Registry) (limit fuel : Nat) (type : TypeExpr) (version : UInt32)
    (source : Bytes) : Run Reading :=
  registry.readType version (registry.readWithin version limit fuel 0) type {} source

variable {registry : Registry} {version : UInt32}

/-- A step depends on how others read at its own depth and, in a record that is entered, one deeper. -/
theorem readStep_congr {read read' : ReadWith} {depth : Nat} (hsame : read depth = read' depth)
    (hdeeper : depth < registry.limits.maxDepth → read (depth + 1) = read' (depth + 1)) :
    registry.readStep version read depth = registry.readStep version read' depth := by
  funext wiring format source
  cases wiring with
  | leaf leaf => cases leaf <;> simp only [readStep, hsame]
  | optional | sequence | family => simp only [readStep, hsame]
  | record schema fields =>
    simp only [readStep]
    split
    · rfl
    · rename_i hdepth
      rw [hdeeper (Nat.not_le.1 hdepth)]

/-- **No more records are entered than the limits allow**: reading with that bound is reading. -/
theorem readWithin_eq (fuel : Nat) : ∀ depth ≤ registry.limits.maxDepth,
    registry.readWithin version registry.limits.maxDepth fuel depth = registry.readIn version fuel depth := by
  induction fuel with
  | zero => exact fun _ _ => rfl
  | succ fuel ih =>
    intro depth hdepth
    have hstep : registry.readStep version (registry.readWithin version registry.limits.maxDepth fuel) depth =
        registry.readStep version (registry.readIn version fuel) depth :=
      readStep_congr (ih depth hdepth) fun hless => ih (depth + 1) hless
    funext wiring format source
    simp only [readWithin, if_neg (Nat.not_lt.2 hdepth), hstep, readIn]
    split
    · rename_i hfull
      obtain ⟨rfl, hrecord⟩ := hfull
      cases wiring with
      | record schema fields => simp only [readStep, if_pos (Nat.le_refl _)]
      | _ => cases hrecord
    · rfl

theorem decodeWithin_eq (fuel : Nat) (type : TypeExpr) (source : Bytes) :
    registry.decodeWithin registry.limits.maxDepth fuel type version source =
      registry.decodeIn fuel type version source := by
  rw [decodeWithin, decodeIn, readWithin_eq fuel 0 (Nat.zero_le _)]

/-! ## Whole calls

A call resolves the type it is asked for and reads with the adapter in its slot. What was shown of
readings by plans carries over, as a call whose type is resolved reads by the plan of that type, whatever
the calls before it have left in the table. -/

/-- A type that can be resolved leads to types with adapters only. -/
theorem hasAdapter_of_resolve (hfactories : registry.factories = []) {type : TypeExpr} {slot : Nat}
    (h : Run.answer (registry.resolve type version) {} = some (.ok slot)) :
    ∀ other, registry.Reaches version type other → registry.HasAdapter other := by
  obtain ⟨plan, hfind, -⟩ := find_of_resolve hfactories h
  refine missing?_eq_none_iff.1 ?_
  cases hmissing : registry.missing? version type with
  | none => rfl
  | some missing =>
    rw [find_of_missing? hmissing] at hfind
    cases hfind

/-- **Reading hostile input is total.** In a registry built from accepted schemas alone, let a type be
resolved at a version and lead to no family. Then reading it from any bytes, after any history of calls,
comes to an end, and with more fuel to the same one.

* A value of the type or none was read, or else records are nested deeper than the registry allows. There
  is no other error.
* What is left unread is the end of the input.
* No more records are entered, one inside the other, than the registry allows. -/
theorem Accepted.decode_total (haccepted : registry.Accepted) {type : TypeExpr} {slot : Nat}
    (hresolves : Run.answer (registry.resolve type version) {} = some (.ok slot))
    (hfamilies : ∀ name, ¬ registry.Reaches version type (.family name)) {table : SlotTable}
    (h : registry.Reached table) (source : Bytes) :
    ∃ reading, (registry.decode type version source).answer table = some reading ∧
      ((∃ value?, reading.result = .ok value? ∧ ∀ value ∈ value?, value.type = type) ∨
        reading.result = .error (.tooDeep registry.limits.maxDepth)) ∧
      reading.rest <:+ source ∧
      ∀ fuel, registry.callFuel type.weight ≤ fuel →
        (registry.decodeIn fuel type version source).answer table = some reading ∧
        (registry.decodeWithin registry.limits.maxDepth fuel type version source).answer table =
          some reading := by
  obtain ⟨hplain, hfaults⟩ := haccepted.schemas
  have hreadable : registry.Readable version type :=
    ⟨hplain, hfaults, hasAdapter_of_resolve hplain.factories_eq hresolves, hfamilies⟩
  obtain ⟨reading, hreading⟩ := hplain.decode_answered h type version source
  have hcall : (registry.decode type version source).answer table = some reading :=
    hreading _ (Nat.le_refl _)
  have hsafe : reading.Safe registry.limits.maxDepth type source := by
    refine hreadable.decodeDirect_safe (registry.callFuel type.weight) source reading ?_
    rw [← h.decodeIn_answer hplain.factories_eq]
    exact hcall
  refine ⟨reading, hcall, ?result, hsafe.rest_suffix, fun fuel hle => ?more⟩
  case result =>
    obtain ⟨result, rest⟩ := reading
    cases hsafe with
    | ok hgood _ => exact .inl ⟨_, rfl, hgood⟩
    | tooDeep _ => exact .inr rfl
  case more =>
    rw [decodeWithin_eq]
    exact ⟨hreading fuel hle, hreading fuel hle⟩

/-- A ratio in thirds, counted downward. -/
def thirdsField : Field :=
  { name := "thirds", member := "thirds", type := .scalar .decimal,
    format := { rule := .divide, offset := -3 }, adapter := none }

def nextField : Field :=
  { name := "next", member := "next", type := .optional (.record "node"), format := {}, adapter := none }

def nodeSchema : Schema :=
  { type := .record "node", fields := [thirdsField, nextField],
    initial := [("thirds", .decimal .zero), ("next", .none (.record "node"))] }

/-- Nodes that contain themselves, at most two deep. -/
def nodes : Registry where
  limits := { maxDepth := 2 }
  schemas := [nodeSchema]

/-- Two nodes are read; the third is refused, and the byte that it would begin with stays unread. -/
theorem Accepted.decode_total_nodes :
    ∃ reading, (nodes.decode (.record "node") 1 [1, 0, 0, 0, 2, 0, 0, 0, 3]).answer {} = some reading ∧
      reading.result = .error (.tooDeep 2) ∧ reading.rest = [3] ∧
      ∀ fuel, nodes.callFuel 1 ≤ fuel →
        (nodes.decodeWithin 2 fuel (.record "node") 1 [1, 0, 0, 0, 2, 0, 0, 0, 3]).answer {} =
          some reading := by
  have haccepted : nodes.Accepted := by
    have hadd : Registry.addSchema { limits := { maxDepth := 2 } } nodeSchema = .ok nodes := rfl
    refine .addSchema (.start _) ?_ hadd
    rw [nodeSchema, List.forall_mem_cons, List.forall_mem_singleton]
    exact ⟨rfl, rfl⟩
  have hresolves : Run.answer (nodes.resolve (.record "node") 1) {} = some (.ok 0) := by decide +kernel
  have hfamilies : ∀ name, ¬ nodes.Reaches 1 (.record "node") (.family name) := by
    have hnone : ∀ other ∈ nodes.reach (.record "node"), other.isFamily = false := by decide +kernel
    intro name h
    cases hnone _ h.mem_reach
  have hanswer : ((nodes.decode (.record "node") 1 [1, 0, 0, 0, 2, 0, 0, 0, 3]).answer {}).map
      (fun reading => (reading.result.map fun _ => (), reading.rest)) =
        some (.error (.tooDeep 2), [3]) := by decide +kernel
  obtain ⟨reading, hcall, hresult, -, hfuel⟩ :=
    haccepted.decode_total hresolves hfamilies .fresh [1, 0, 0, 0, 2, 0, 0, 0, 3]
  rw [hcall, Option.map_some] at hanswer
  obtain ⟨herror, hrest⟩ := Prod.ext_iff.1 (Option.some.inj hanswer)
  refine ⟨reading, hcall, ?_, hrest, fun fuel hle => (hfuel fuel hle).2⟩
  rcases hresult with ⟨value?, hok, -⟩ | htooDeep
  · simp only [hok, Except.map] at herror
    cases herror
  · exact htooDeep

end Registry

end Telegram
