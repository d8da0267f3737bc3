import Telegram.Proofs.Codec.References

/-!
# No dangling references

An adapter refers to other adapters by slot, and a slot is handed out before it is filled. After any
history of calls, every reference of every cached adapter is the cached slot of the type it stands for, at
the same version.

* `Registry.Reached.encodeChecked_answer` and `Registry.Reached.decodeChecked_answer` say it of the tables
  in the middle of a call: wherever an adapter is set to work, the slots that it refers to are filled.
* `Resolved` holds of a result that does not complain of an empty slot, and `ReadProgram.Faithful` and
  `WriteProgram.Faithful` hold of callers' programs that never make up such a complaint.
* `Registry.readDirect_resolved` and `Registry.writeDirect_resolved`: nothing in the codec complains of an
  empty slot, one lemma for each loop and each step.
* `Registry.Reached.cached_wired` puts all of it together.

There are two ways to say that references are good. One looks at the tables and finds every slot filled.
The other listens to what calls answer, and never hears of an empty slot. The second does not follow from
the first, since the complaint is an error like any other, and a caller's program could answer with it.
-/

namespace Telegram

open Codec

/-! ## Results without a complaint

The complaint of an empty slot names the slot, and a program that is told of it may pass it on. So nothing
can be said of the programs of callers but this: a faithful one has heard of the complaint before it
answers with it. -/

namespace Codec

/-- The result is no complaint of an empty slot. It is said of results and not of answers, so that it
serves for readings, for writings, and for the lists and members that loops collect. -/
def Resolved {α : Type} (result : Except Error α) : Prop :=
  ∀ slot, result ≠ .error (.unresolved slot)

@[simp] theorem Reading.result_failed (e : Error) (rest : Bytes) : (Reading.failed e rest).result = .error e :=
  rfl

@[simp] theorem Writing.result_failed (e : Error) : (Writing.failed e).result = .error e :=
  rfl

/-- What is as expected was read as it is. -/
theorem Reading.result_of_expect {reading : Reading} {type : TypeExpr} {value? : Option Value}
    (h : (reading.expect type).result = .ok value?) : reading.result = .ok value? := by
  unfold expect at h
  split at h
  · split at h
    · exact h
    · cases h
  · exact h

@[simp] theorem Reading.rest_expect (reading : Reading) (type : TypeExpr) :
    (reading.expect type).rest = reading.rest := by
  unfold expect
  split
  · split <;> rfl
  · rfl

theorem resolved_ok {α : Type} (a : α) : Resolved (.ok a : Except Error α) := by
  simp [Resolved]

/-- What is passed on stays without a complaint. -/
theorem Resolved.error {α β : Type} {e : Error} (h : Resolved (.error e : Except Error α)) :
    Resolved (.error e : Except Error β) :=
  fun slot heq => h slot (congrArg Except.error (Except.error.inj heq))

theorem Resolved.map {α β : Type} {result : Except Error α} (h : Resolved result) (f : α → β) :
    Resolved (result.map f) := by
  cases result with
  | ok a => exact resolved_ok _
  | error e => exact h.error

/-- A value of an unexpected type is a complaint of another kind. -/
theorem Resolved.expect {reading : Reading} (h : Resolved reading.result) (type : TypeExpr) :
    Resolved (reading.expect type).result := by
  unfold Reading.expect
  split
  · split
    · exact h
    · simp [Resolved]
  · exact h

/-- The program complains of an empty slot only if it is told of one. -/
def ReadProgram.Faithful : ReadProgram → Prop
  | .finish reading => Resolved reading.result
  | .read _ _ _ next => ∀ reading, Resolved reading.result → (next reading).Faithful

/-- The program complains of an empty slot only if it is told of one. -/
def WriteProgram.Faithful : WriteProgram → Prop
  | .finish writing => Resolved writing.result
  | .write _ _ _ next => ∀ writing, Resolved writing.result → (next writing).Faithful

/-- None of the adapter's programs makes up a complaint of an empty slot. -/
structure CallerAdapter.Faithful (adapter : CallerAdapter) : Prop where
  read : ∀ call source, (adapter.read call source).Faithful
  write : ∀ call value, (adapter.write call value).Faithful

end Codec

/-- No adapter that the plan brings along makes up a complaint. -/
def Plan.Faithful : Plan → Prop
  | .leaf (.caller adapter) => adapter.Faithful
  | .record _ fields => ∀ field ∈ fields, ∀ adapter, field.adapter = some adapter → adapter.Faithful
  | _ => True

namespace Registry

/-- An adapter that callers brought, for a type or for a single field. -/
def Brings (registry : Registry) (adapter : CallerAdapter) : Prop :=
  adapter ∈ registry.adapters ∨
    ∃ schema ∈ registry.schemas, ∃ field ∈ schema.fields, field.adapter = some adapter

/-- No adapter that callers brought makes up a complaint. This is all that is assumed of them. What they
read and write, which types they ask for, and whether they end at all, is open. -/
def Faithful (registry : Registry) : Prop :=
  ∀ adapter, registry.Brings adapter → adapter.Faithful

variable {registry : Registry} {version : UInt32}

/-- Whatever adapter a plan brings along has come from callers: by its type, or with a field of a
schema. -/
theorem Faithful.plan (h : registry.Faithful) {type : TypeExpr} {plan : Plan}
    (hplan : registry.plan? version type = some plan) : plan.Faithful := by
  cases hadapter : registry.adapter? type with
  | some adapter =>
    rw [plan?_of_adapter? hadapter] at hplan
    obtain rfl := Option.some.inj hplan
    exact h adapter (.inl (List.mem_of_find?_eq_some hadapter))
  | none =>
    rw [plan?_of_no_adapter? hadapter] at hplan
    cases type with
    | foreign name => cases hplan
    | record name =>
      obtain ⟨schema, hschema, rfl⟩ := Option.map_eq_some_iff.1 hplan
      intro field hfield adapter hown
      exact h adapter (.inr ⟨schema, List.mem_of_find?_eq_some hschema, field,
        (List.mem_filter.1 hfield).1, hown⟩)
    | _ =>
      obtain rfl := Option.some.inj hplan
      trivial

/-- A type that can not be resolved is reported by its name, and no slot is mentioned. -/
theorem find_resolved (registry : Registry) (version : UInt32) (type : TypeExpr) :
    Resolved (registry.find version type) := by
  intro slot hfind
  obtain ⟨missing, hmissing⟩ := find_error hfind
  cases hmissing

end Registry

/-! ## Scalars

Scalars know nothing of slots. Their errors are about digits, characters and stored numbers, and each has
to be looked at once. -/

theorem Decimal.ofStored_resolved (format : FieldFormat) (stored : Nat) :
    Resolved (Decimal.ofStored format stored) := by
  simp only [Decimal.ofStored]
  split
  · split
    · exact resolved_ok _
    · simp [Resolved]
  · exact resolved_ok _

theorem Decimal.read_resolved (format : FieldFormat) (source : Bytes) :
    Resolved (Decimal.read format source).result := by
  unfold Decimal.read
  split
  · exact resolved_ok _
  · split
    · exact resolved_ok _
    · rename_i stored rest _
      have hstored := Decimal.ofStored_resolved format stored
      split
      · exact resolved_ok _
      · rename_i heq
        rw [heq] at hstored
        exact hstored.error

theorem Text.read_resolved (format : FieldFormat) (source : Bytes) :
    Resolved (Text.read format source).result := by
  unfold Text.read
  split
  · exact resolved_ok _
  · split <;> exact resolved_ok _

/-- **Scalars read without a complaint.** The only error there is comes of a stored number without a
quotient. -/
theorem Scalar.read_resolved (scalar : Scalar) (format : FieldFormat) (source : Bytes) :
    Resolved (scalar.read format source).result := by
  cases scalar with
  | int type =>
    simp only [Scalar.read, IntType.read]
    split
    · exact resolved_ok _
    · split <;> exact resolved_ok _
  | bool => cases source <;> exact resolved_ok _
  | text => exact Text.read_resolved format source
  | decimal => exact Decimal.read_resolved format source

theorem Text.stored_resolved (kind : TextKind) (text : String) (room : Option Nat) :
    Resolved (Text.stored kind text room) := by
  cases kind with
  | bcd =>
    simp only [Text.stored]
    split
    · exact resolved_ok _
    · simp [Resolved]
  | utf8 => exact resolved_ok _
  | ascii =>
    simp only [Text.stored]
    split
    · exact resolved_ok _
    · simp [Resolved]

theorem Text.write_resolved (format : FieldFormat) (text : Option String) :
    Resolved (Text.write format text).result := by
  cases text with
  | none => exact resolved_ok _
  | some text =>
    simp only [Text.write]
    have hstored := Text.stored_resolved format.text text
      (if format.length = 0 then none else some format.length)
    split
    · rename_i heq
      rw [heq] at hstored
      exact hstored.error
    · exact resolved_ok _

/-- **Scalars are written without a complaint.** -/
theorem Scalar.write_resolved (scalar : Scalar) (format : FieldFormat) (value : Option Value) :
    Resolved (scalar.write format value).result := by
  cases scalar with
  | int type =>
    simp only [Scalar.write, IntType.write]
    split <;> exact resolved_ok _
  | bool => exact resolved_ok _
  | text => exact Text.write_resolved format _
  | decimal =>
    simp only [Scalar.write, Decimal.write]
    split <;> exact resolved_ok _

/-! ## Loops

The computations have fuel, so everything is said of all answers that there may be, and nothing where
there is none. The first two lemmas carry such a statement through a computation. -/

section Loops

/-- What holds of all answers of a computation and of what comes after them. -/
theorem forall_mem_bind {α β : Type} {answer : Option α} {next : α → Option β} {P : α → Prop}
    {Q : β → Prop} (h : ∀ a ∈ answer, P a) (hnext : ∀ a, P a → ∀ b ∈ next a, Q b) :
    ∀ b ∈ answer >>= next, Q b := by
  intro b hb
  obtain ⟨a, ha, hb⟩ := Option.bind_eq_some_iff.1 hb
  exact hnext a (h a ha) b hb

theorem forall_mem_some {α : Type} {a : α} {P : α → Prop} (h : P a) : ∀ b ∈ some a, P b := by
  intro b hb
  exact Option.some.inj hb ▸ h

/-- A loop over elements ends with a complaint only if one of them did. -/
theorem readItems_resolved {read : Bytes → Option Reading}
    (h : ∀ source, ∀ reading ∈ read source, Resolved reading.result) (element : TypeExpr) (count : Nat)
    (source : Bytes) : ∀ items ∈ readItems read element count source, Resolved items.1 := by
  induction count generalizing source with
  | zero => exact forall_mem_some (resolved_ok _)
  | succ count ih =>
    refine forall_mem_bind (h source) fun reading hreading => ?_
    have hexpected := hreading.expect element
    rcases hresult : (reading.expect element).result with e | _ | item
    · rw [hresult] at hexpected
      exact forall_mem_some hexpected.error
    · exact forall_mem_some (resolved_ok _)
    · exact forall_mem_bind (ih reading.rest) fun items hitems => forall_mem_some (hitems.map _)

theorem readFields_resolved {readers : List (Field × (Bytes → Option Reading))}
    (h : ∀ reader ∈ readers, ∀ source, ∀ reading ∈ reader.2 source, Resolved reading.result)
    (members : List (String × Value)) (source : Bytes) :
    ∀ answer ∈ readFields readers members source, Resolved answer.1 := by
  induction readers generalizing members source with
  | nil => exact forall_mem_some (resolved_ok _)
  | cons reader rest ih =>
    obtain ⟨field, read⟩ := reader
    rw [List.forall_mem_cons] at h
    refine forall_mem_bind (h.1 source) fun reading hreading => ?_
    rcases hresult : reading.result with e | value
    · rw [hresult] at hreading
      exact forall_mem_some hreading.error
    · exact ih h.2 _ _

/-- **A faithful program** that is told of no empty slot never complains of one. The induction is on the
tree of its requests, and the answer to each of them is without a complaint. -/
theorem runReadProgram_resolved {read : TypeExpr → FieldFormat → Bytes → Option Reading}
    (h : ∀ type format source, ∀ reading ∈ read type format source, Resolved reading.result)
    {program : ReadProgram} (hprogram : program.Faithful) :
    ∀ reading ∈ program.run read, Resolved reading.result := by
  induction program with
  | finish reading => exact forall_mem_some hprogram
  | read type format source next ih =>
    exact forall_mem_bind (h type format source) fun reading hreading => ih reading (hprogram reading hreading)

theorem writeItems_resolved {write : Value → Option Writing}
    (h : ∀ value, ∀ writing ∈ write value, Resolved writing.result) (items : List Value) :
    ∀ writing ∈ writeItems write items, Resolved writing.result := by
  induction items with
  | nil => exact forall_mem_some (resolved_ok _)
  | cons item rest ih =>
    refine forall_mem_bind (h item) fun writing hwriting => ?_
    rcases hresult : writing.result with e | _
    · exact forall_mem_some hwriting
    · exact forall_mem_bind ih fun others hothers => forall_mem_some hothers

theorem writeFields_resolved {writers : List (Field × (Value → Option Writing))}
    (h : ∀ writer ∈ writers, ∀ value, ∀ writing ∈ writer.2 value, Resolved writing.result)
    (members : List (String × Value)) :
    ∀ writing ∈ writeFields members writers, Resolved writing.result := by
  induction writers with
  | nil => exact forall_mem_some (resolved_ok _)
  | cons writer rest ih =>
    obtain ⟨field, write⟩ := writer
    rw [List.forall_mem_cons] at h
    -- a member that is missing writes nothing
    have hmember : ∀ value, ∀ writing ∈ writeMember write value, Resolved writing.result := by
      rintro (_ | value)
      · exact forall_mem_some (resolved_ok _)
      · exact h.1 value
    refine forall_mem_bind (hmember _) fun writing hwriting => ?_
    split
    · exact forall_mem_bind (ih h.2) fun others hothers => forall_mem_some hothers
    · exact forall_mem_bind (ih h.2) fun others hothers => forall_mem_some hothers
    · exact forall_mem_some hwriting

theorem runWriteProgram_resolved {write : TypeExpr → FieldFormat → Option Value → Option Writing}
    (h : ∀ type format value, ∀ writing ∈ write type format value, Resolved writing.result)
    {program : WriteProgram} (hprogram : program.Faithful) :
    ∀ writing ∈ program.run write, Resolved writing.result := by
  induction program with
  | finish writing => exact forall_mem_some hprogram
  | write type format value next ih =>
    exact forall_mem_bind (h type format value) fun writing hwriting => ih writing (hprogram writing hwriting)

end Loops

/-! ## Reading and writing by plans

A plan looks types up by name and meets no slots at all. What is left to show is that no error of another
kind turns into the complaint on its way up, and that callers' adapters keep to what they were told. -/

namespace Registry

variable {registry : Registry} {version : UInt32}

section Reading

variable {read : ReadPlan}

/-- Every reading by a faithful plan is without a complaint. -/
def ReadsResolved (read : ReadPlan) : Prop :=
  ∀ depth (plan : Plan) format source, plan.Faithful →
    ∀ reading ∈ read depth plan format source, Resolved reading.result

/-- A type without a plan is an error by itself, which names the type. -/
theorem readNeed_resolved (hfaithful : registry.Faithful) (h : ReadsResolved read) (depth : Nat)
    (type : TypeExpr) (format : FieldFormat) (source : Bytes) :
    ∀ reading ∈ registry.readNeed version (read depth) type format source, Resolved reading.result := by
  unfold readNeed
  split
  · rename_i hplan
    exact h depth _ format source (hfaithful.plan hplan)
  · exact forall_mem_some (by simp [Resolved])

theorem readTypeDirect_resolved (hfaithful : registry.Faithful) (h : ReadsResolved read) (depth : Nat)
    (type : TypeExpr) (format : FieldFormat) (source : Bytes) :
    ∀ reading ∈ registry.readTypeDirect version (read depth) type format source,
      Resolved reading.result := by
  unfold readTypeDirect
  have hfind := registry.find_resolved version type
  split
  · rename_i heq
    rw [heq] at hfind
    exact forall_mem_some hfind.error
  · rename_i plan heq
    intro reading hreading
    obtain ⟨inner, hinner, rfl⟩ := Option.map_eq_some_iff.1 hreading
    exact (h depth plan format source (hfaithful.plan (plan?_of_find heq)) inner hinner).expect type

/-- **One step of reading** complains of no empty slot, if the calls it makes do not. -/
theorem readStepDirect_resolved (hfaithful : registry.Faithful) (h : ReadsResolved read) :
    ReadsResolved (registry.readStepDirect version read) := by
  intro depth plan format source hplan
  cases plan with
  | leaf leaf =>
    cases leaf with
    | scalar s => exact forall_mem_some (s.read_resolved format source)
    | caller adapter =>
      exact runReadProgram_resolved (readTypeDirect_resolved hfaithful h depth) (hplan.read _ _)
  | optional element =>
    refine forall_mem_bind (readNeed_resolved hfaithful h depth element format source)
      fun reading hreading => ?_
    have hexpected := hreading.expect element
    rcases hresult : (reading.expect element).result with e | _ | value
    · rw [hresult] at hexpected
      exact forall_mem_some hexpected.error
    · exact forall_mem_some (resolved_ok _)
    · exact forall_mem_some (resolved_ok _)
  | sequence container element =>
    simp only [readStepDirect]
    split
    · exact forall_mem_some (resolved_ok _)
    · exact forall_mem_bind
        (readItems_resolved (readNeed_resolved hfaithful h depth element format.element) _ _ source)
        fun items hitems => forall_mem_some (hitems.map _)
  | family name => exact forall_mem_some (by simp [Resolved])
  | record schema fields =>
    simp only [readStepDirect]
    split
    · exact forall_mem_some (by simp [Resolved])
    -- a field brings its own adapter, or is read by the plan of its type
    · refine forall_mem_bind (readFields_resolved ?_ _ source) fun members hmembers =>
        forall_mem_some (hmembers.map _)
      intro reader hreader source'
      obtain ⟨field, hfield, rfl⟩ := List.mem_map.1 hreader
      cases hadapter : field.adapter with
      | some adapter =>
        simp only [readFieldDirect, hadapter]
        exact h _ _ _ _ (hplan field hfield adapter hadapter)
      | none =>
        simp only [readFieldDirect, hadapter]
        exact readNeed_resolved hfaithful h _ _ _ _

/-- **Reading never complains of an empty slot**, with any fuel. -/
theorem readDirect_resolved (hfaithful : registry.Faithful) (fuel : Nat) :
    ReadsResolved (registry.readDirect version fuel) := by
  induction fuel with
  | zero =>
    intro depth plan format source hplan reading hreading
    cases hreading
  | succ fuel ih => exact readStepDirect_resolved hfaithful ih

end Reading

section Writing

variable {write : WritePlan}

/-- Every writing by a faithful plan is without a complaint. -/
def WritesResolved (write : WritePlan) : Prop :=
  ∀ depth (plan : Plan) format value, plan.Faithful →
    ∀ writing ∈ write depth plan format value, Resolved writing.result

theorem writeTypeDirect_resolved (hfaithful : registry.Faithful) (h : WritesResolved write) (depth : Nat)
    (type : TypeExpr) (format : FieldFormat) (value : Option Value) :
    ∀ writing ∈ registry.writeTypeDirect version (write depth) type format value,
      Resolved writing.result := by
  unfold writeTypeDirect
  have hfind := registry.find_resolved version type
  split
  · rename_i heq
    rw [heq] at hfind
    exact forall_mem_some hfind.error
  · rename_i plan heq
    exact h depth plan format value (hfaithful.plan (plan?_of_find heq))

theorem writeNeed_resolved (hfaithful : registry.Faithful) (h : WritesResolved write) (depth : Nat)
    (type : TypeExpr) (format : FieldFormat) (value : Option Value) :
    ∀ writing ∈ registry.writeNeed version (write depth) type format value, Resolved writing.result := by
  unfold writeNeed
  split
  · exact forall_mem_some (by simp [Resolved])
  · rename_i declared hplan
    -- the declared type writes the value, or the type that stands for it on the wire
    have hdeclared : ∀ value, ∀ writing ∈ write depth declared format value, Resolved writing.result :=
      fun value => h depth declared format value (hfaithful.plan hplan)
    rcases value with _ | value
    · exact hdeclared none
    · simp only
      split
      · have hfind := registry.find_resolved version value.concrete.type
        split
        · rename_i heq
          rw [heq] at hfind
          exact forall_mem_some hfind.error
        · rename_i concrete heq
          split
          · exact h depth concrete format _ (hfaithful.plan (plan?_of_find heq))
          · exact hdeclared _
      · exact hdeclared _

/-- A plan that writes a value of its own type complains of no empty slot, if the calls it makes do
not. -/
theorem writeOwnDirect_resolved (hfaithful : registry.Faithful) (h : WritesResolved write) (depth : Nat)
    {plan : Plan} (hplan : plan.Faithful) (format : FieldFormat) (value : Option Value) :
    ∀ writing ∈ registry.writeOwnDirect version write depth plan format value,
      Resolved writing.result := by
  cases plan with
  | leaf leaf =>
    cases leaf with
    | scalar s => exact forall_mem_some (s.write_resolved format value)
    | caller adapter =>
      exact runWriteProgram_resolved (writeTypeDirect_resolved hfaithful h depth) (hplan.write _ _)
  | optional element => exact writeNeed_resolved hfaithful h depth element format _
  | sequence container element =>
    exact writeItems_resolved
      (fun item => writeNeed_resolved hfaithful h depth element format.element (some item)) _
  | family name =>
    rcases value with _ | value
    · exact forall_mem_some (resolved_ok _)
    · simp only [writeOwnDirect, writeAlternativeDirect]
      split
      · exact forall_mem_some (by simp [Resolved])
      · exact writeTypeDirect_resolved hfaithful h depth _ format _
  | record schema fields =>
    simp only [writeOwnDirect]
    split
    · split
      · exact forall_mem_some (by simp [Resolved])
      · refine writeFields_resolved ?_ _
        intro writer hwriter value'
        obtain ⟨field, hfield, rfl⟩ := List.mem_map.1 hwriter
        cases hadapter : field.adapter with
        | some adapter =>
          simp only [writeFieldDirect, hadapter]
          exact h _ _ _ _ (hplan field hfield adapter hadapter)
        | none =>
          simp only [writeFieldDirect, hadapter]
          exact writeNeed_resolved hfaithful h _ _ _ _
    · exact forall_mem_some (resolved_ok _)

/-- **Writing never complains of an empty slot**, with any fuel. -/
theorem writeDirect_resolved (hfaithful : registry.Faithful) (fuel : Nat) :
    WritesResolved (registry.writeDirect version fuel) := by
  induction fuel with
  | zero =>
    intro depth plan format value hplan writing hwriting
    cases hwriting
  | succ fuel ih =>
    intro depth plan format value hplan
    simp only [writeDirect, writeStepDirect]
    split
    · exact writeOwnDirect_resolved hfaithful ih depth hplan format value
    · exact forall_mem_some (by simp [Resolved])

end Writing

end Registry

/-! ## After any history

The checked calls are those of the codec with a look at the references wherever an adapter is set to work.
That they answer as the unchecked ones do says that no look ever finds anything wrong. -/

namespace Registry

variable {registry : Registry} {table : SlotTable}

/-- **No reference dangles.** After any history of calls, the slot of every cached type holds the adapter
that the registry has for that type at that version, and each reference in it is the cached slot of the
type it stands for, at the same version. The same holds of every adapter that is set to work in the middle
of a call, so that no reference is ever found empty (`encodeChecked`, `decodeChecked`). So an answer that
complains of an empty slot can only be made up by an adapter of the caller's. -/
theorem Reached.cached_wired (hfactories : registry.factories = []) (h : registry.Reached table) :
    (∀ type version slot, (⟨type, version⟩, slot) ∈ table.cached →
      ∃ adapter, table.adapter slot = .ok adapter ∧ adapter.wiring.type = type ∧
        registry.Serves (table.slotOf version) version type adapter ∧
        ∀ reference ∈ adapter.wiring.references,
          table.slot? ⟨reference.1, version⟩ = some reference.2) ∧
    ((∀ fuel value version, (registry.encodeChecked fuel value version).answer table =
        (registry.encodeIn fuel value version).answer table) ∧
      ∀ fuel type version source, (registry.decodeChecked fuel type version source).answer table =
        (registry.decodeIn fuel type version source).answer table) ∧
    (∀ fuel value version writing table' slot,
      registry.encodeIn fuel value version table = some (writing, table') →
      writing.result = .error (.unresolved slot) →
        ∃ adapter, registry.Brings adapter ∧ ¬ adapter.Faithful) ∧
    ∀ fuel type version source reading table' slot,
      registry.decodeIn fuel type version source table = some (reading, table') →
      reading.result = .error (.unresolved slot) →
        ∃ adapter, registry.Brings adapter ∧ ¬ adapter.Faithful := by
  have hsound := h.sound hfactories
  refine ⟨?wired, ⟨h.encodeChecked_answer hfactories, h.decodeChecked_answer hfactories⟩, ?encode, ?decode⟩
  case wired =>
    intro type version slot hcached
    have hslot := (SlotTable.slotOf_eq_some_iff hsound.keys_nodup).2 hcached
    obtain ⟨adapter, hfilled, hserves⟩ := hsound.served version type slot hslot
    obtain ⟨plan, hplan, hwired, -⟩ := id hserves
    exact ⟨adapter, SlotTable.adapter_eq_ok hfilled, hwired.type_eq.trans (type_of_plan? hplan), hserves,
      hwired.slotOf_of_mem_references⟩
  case encode =>
    -- the plans write what the adapters write, and complain only if a caller's adapter does
    intro fuel value version writing table' slot hcall hresult
    by_contra hnone
    have hfaithful : registry.Faithful := fun adapter hbrings =>
      by_contra fun hnot => hnone ⟨adapter, hbrings, hnot⟩
    have hdirect := h.encodeIn_answer hfactories fuel value version
    rw [Run.answer, hcall] at hdirect
    exact writeTypeDirect_resolved hfaithful (writeDirect_resolved hfaithful fuel) 0 value.type {}
      (some value) writing hdirect.symm slot hresult
  case decode =>
    intro fuel type version source reading table' slot hcall hresult
    by_contra hnone
    have hfaithful : registry.Faithful := fun adapter hbrings =>
      by_contra fun hnot => hnone ⟨adapter, hbrings, hnot⟩
    have hdirect := h.decodeIn_answer hfactories fuel type version source
    rw [Run.answer, hcall] at hdirect
    exact readTypeDirect_resolved hfaithful (readDirect_resolved hfaithful fuel) 0 type {} source
      reading hdirect.symm slot hresult

/-- The record that contains itself refers to its own slot by way of the optional in it, and two of them
are written with every reference kept. -/
theorem Reached.cached_wired_routes :
    ∃ slot table, routes.resolve (.record "hop") 1 {} = some (.ok slot, table) ∧
      (∃ adapter, table.adapter slot = .ok adapter ∧ adapter.wiring.type = .record "hop" ∧
        ∀ reference ∈ adapter.wiring.references,
          table.slot? ⟨reference.1, 1⟩ = some reference.2) ∧
      ((routes.encodeChecked 20 twoHops 1).answer table).map (fun writing => (writing.bytes, writing.result)) =
        some ([1, 2, 7, 0, 3], .ok ()) := by
  have hmissing : routes.missing? 1 (.record "hop") = none := by decide +kernel
  obtain ⟨answer, table, hrun, hresolves⟩ :=
    routes.resolve_spec rfl (SlotTable.sound_empty routes) (.record "hop") 1
  cases hresolves with
  | error hsome _ _ _ =>
    rw [hmissing] at hsome
    cases hsome
  | ok _ hsound _ hslot =>
    have hcached := (SlotTable.slotOf_eq_some_iff hsound.keys_nodup).1 hslot
    obtain ⟨hwired, ⟨hchecked, -⟩, -⟩ := Reached.cached_wired rfl (.resolve .fresh hrun)
    obtain ⟨adapter, hadapter, htype, -, hreferences⟩ := hwired (.record "hop") 1 _ hcached
    refine ⟨_, table, hrun, ⟨adapter, hadapter, htype, hreferences⟩, ?_⟩
    rw [hchecked, Reached.encodeIn_answer rfl (.resolve .fresh hrun)]
    decide +kernel

end Registry

end Telegram
