import Telegram.Proofs.Codec.Dangling
import Telegram.Proofs.Codec.Fuel

/-!
# Another limit on nesting

Two registries that differ only in how deep records may be nested answer alike, except where the smaller
limit cuts a call off: a call that is not refused as too deep under the smaller limit has the same answer
under the greater one.

* `Unless` compares the two computations. It has rules for `pure` and for `bind`, and a lemma for each
  loop: no loop goes on after a call that was cut off, so that answer is the last.
* There is a lemma for each step, parametric in the calls that the step makes.
  `Registry.SchemasOnly.readsUnless` and `Registry.SchemasOnly.writesUnless` close the recursion by
  induction on fuel.

The limit is compared with the depth when a record is entered, and with nothing else. So as long as the
smaller limit has not been met, both computations are at the same place.
-/

namespace Telegram

open Codec

/-! ## Registries with another limit

The limit is part of the registry, as it is set before any call. Changing it changes no plan, and so the
search for types that are missing is the same too; it is only when a plan is carried out that the limit
matters. -/

namespace Registry

/-- The registry with another limit on how deep records may be nested. -/
def withDepth (registry : Registry) (limit : Nat) : Registry :=
  { registry with limits := { registry.limits with maxDepth := limit } }

variable {registry : Registry} {version : UInt32} {limit : Nat}

@[simp] theorem plan?_withDepth (type : TypeExpr) :
    (registry.withDepth limit).plan? version type = registry.plan? version type := rfl

/-- What is missing is found by following plans, and no plan knows the limit. -/
theorem lacking?_withDepth (fuel : Nat) (inFlight : List TypeExpr) (type : TypeExpr) :
    (registry.withDepth limit).lacking? version fuel inFlight type =
      registry.lacking? version fuel inFlight type := by
  induction fuel generalizing inFlight type with
  | zero => rfl
  | succ fuel ih =>
    have hneeds : (registry.withDepth limit).lacking? version fuel (type :: inFlight) =
        registry.lacking? version fuel (type :: inFlight) := funext (ih _)
    simp only [lacking?, plan?_withDepth, hneeds]

@[simp] theorem find_withDepth (type : TypeExpr) :
    (registry.withDepth limit).find version type = registry.find version type := by
  have hmissing : (registry.withDepth limit).missing? version type = registry.missing? version type :=
    lacking?_withDepth _ _ _
  simp only [find, hmissing, plan?_withDepth]

theorem SchemasOnly.withDepth (hplain : registry.SchemasOnly) (limit : Nat) :
    (registry.withDepth limit).SchemasOnly :=
  ⟨hplain.adapters_eq, hplain.factories_eq, hplain.adapter_eq⟩

end Registry

/-! ## Cut off, or the same

The comparison is not an equation, and it is not symmetric either. What is said about an answer is that it
is the complaint of the smaller limit, or that the other computation gives it as well. -/

/-- What the first computation answers the second one answers too, unless it was cut off. A first
computation without an answer, one that has run out of fuel, is compared with anything. -/
def Unless {α : Type} (Cut : α → Prop) (first second : Option α) : Prop :=
  ∀ a, first = some a → ¬ Cut a → second = some a

/-- Records were nested deeper than the limit. -/
def Codec.TooDeep {α : Type} (limit : Nat) (result : Except Error α) : Prop :=
  result = .error (.tooDeep limit)

namespace Unless

variable {α β : Type} {Cut : α → Prop} {Cut' : β → Prop} {first second : Option α} {limit : Nat}

theorem refl (first : Option α) : Unless Cut first first :=
  fun _ h _ => h

theorem of_none (second : Option α) : Unless Cut none second :=
  nofun

/-- An answer that is cut off. -/
theorem of_cut {a : α} (hcut : Cut a) (second : Option α) : Unless Cut (some a) second := by
  intro b hb hkept
  obtain rfl := Option.some.inj hb
  exact absurd hcut hkept

/-- What was cut off stays so, and what was not goes on alike. The first hypothesis is what a loop has to
show about itself: that it does not carry on after such an answer, and does not hide it. -/
theorem bind (h : Unless Cut first second) {next next' : α → Option β}
    (hcut : ∀ a, Cut a → ∀ b ∈ next a, Cut' b) (hnext : ∀ a, ¬ Cut a → Unless Cut' (next a) (next' a)) :
    Unless Cut' (first >>= next) (second >>= next') := by
  intro b hb hkept
  obtain ⟨a, hfirst, hb⟩ := Option.bind_eq_some_iff.1 hb
  have hgoes : ¬ Cut a := fun ha => hkept (hcut a ha b hb)
  exact Option.bind_eq_some_iff.2 ⟨a, h a hfirst hgoes, hnext a hgoes b hb hkept⟩

/-- An answer that is put into another form. -/
theorem map (h : Unless Cut first second) {f : α → β} (hcut : ∀ a, Cut a → Cut' (f a)) :
    Unless Cut' (first.map f) (second.map f) := by
  intro b hb hkept
  obtain ⟨a, hfirst, rfl⟩ := Option.map_eq_some_iff.1 hb
  exact Option.map_eq_some_iff.2 ⟨a, h a hfirst fun ha => hkept (hcut a ha), rfl⟩

end Unless

/-- Two computations that are compared at every amount of fuel, where each begins to answer at an amount
of its own. -/
theorem Answered.unless {α : Type} {Cut : α → Prop} {bound bound' : Nat} {run run' : Nat → Option α}
    (h : Answered bound run) (h' : Answered bound' run')
    (hunless : ∀ fuel, Unless Cut (run fuel) (run' fuel)) : Unless Cut (run bound) (run' bound') := by
  obtain ⟨a, ha⟩ := h
  obtain ⟨b, hb⟩ := h'
  have hboth := hunless (max bound bound')
  rwa [ha _ (Nat.le_max_left ..), hb _ (Nat.le_max_right ..), ← ha bound (Nat.le_refl _),
    ← hb bound' (Nat.le_refl _)] at hboth

/-- What was expected makes no difference to a complaint. -/
theorem Codec.TooDeep.expect {limit : Nat} {reading : Reading} (h : TooDeep limit reading.result)
    (type : TypeExpr) : (reading.expect type).result = .error (.tooDeep limit) := by
  obtain ⟨result, rest⟩ := reading
  obtain rfl : result = .error (.tooDeep limit) := h
  rfl

/-! ## The loops

In every loop an error is the end, except that a field whose value is of the wrong type is passed over
when a record is written. The complaint of the limit is of another kind, so it ends that loop as well. -/

namespace Unless

variable {limit : Nat}

/-- A loop over elements is cut off when one of them is, and is the same otherwise. -/
theorem readItems {read read' : Bytes → Option Reading}
    (h : ∀ source, Unless (fun reading => TooDeep limit reading.result) (read source) (read' source))
    (element : TypeExpr) (count : Nat) (source : Bytes) :
    Unless (fun items => TooDeep limit items.1) (Telegram.readItems read element count source)
      (Telegram.readItems read' element count source) := by
  induction count generalizing source with
  | zero => exact refl _
  | succ count ih =>
    apply (h source).bind
    · intro reading hcut
      simp only [hcut.expect]
      exact forall_mem_some rfl
    · intro reading _
      rcases (reading.expect element).result with e | _ | item
      · exact refl _
      · exact refl _
      · apply (ih reading.rest).bind
        · rintro ⟨result, rest⟩ hcut
          obtain rfl : result = .error (.tooDeep limit) := hcut
          exact forall_mem_some rfl
        · exact fun _ _ => refl _

/-- A loop over fields is cut off when one of them is. Nothing is stored then, and no later field is
tried. -/
theorem readFields {read read' : Field → Bytes → Option Reading} {fields : List Field}
    (h : ∀ field ∈ fields, ∀ source,
      Unless (fun reading => TooDeep limit reading.result) (read field source) (read' field source))
    (members : List (String × Value)) (source : Bytes) :
    Unless (fun answer => TooDeep limit answer.1)
      (Telegram.readFields (fields.map fun field => (field, read field)) members source)
      (Telegram.readFields (fields.map fun field => (field, read' field)) members source) := by
  induction fields generalizing members source with
  | nil => exact refl _
  | cons field rest ih =>
    rw [List.forall_mem_cons] at h
    apply (h.1 source).bind
    · intro reading hcut
      have hresult : reading.result = .error (.tooDeep limit) := hcut
      simp only [hresult]
      exact forall_mem_some rfl
    · intro reading _
      rcases reading.result with e | value
      · exact refl _
      · exact ih h.2 _ _

/-- Items that are written before the cut are the same under both limits, and so are the bytes in front of
it. -/
theorem writeItems {write write' : Value → Option Writing}
    (h : ∀ value, Unless (fun writing => TooDeep limit writing.result) (write value) (write' value))
    (items : List Value) :
    Unless (fun writing => TooDeep limit writing.result) (Telegram.writeItems write items)
      (Telegram.writeItems write' items) := by
  induction items with
  | nil => exact refl _
  | cons item rest ih =>
    apply (h item).bind
    · intro writing hcut
      have hresult : writing.result = .error (.tooDeep limit) := hcut
      simp only [hresult]
      exact forall_mem_some hcut
    · intro writing _
      rcases writing.result with e | _
      · exact refl _
      · apply ih.bind
        · exact fun others hcut => forall_mem_some hcut
        · exact fun _ _ => refl _

/-- A complaint of the limit is not passed over, as a value of the wrong type is: it ends the record. -/
theorem writeFields {write write' : Field → Value → Option Writing} {fields : List Field}
    (h : ∀ field ∈ fields, ∀ value,
      Unless (fun writing => TooDeep limit writing.result) (write field value) (write' field value))
    (members : List (String × Value)) :
    Unless (fun writing => TooDeep limit writing.result)
      (Telegram.writeFields members (fields.map fun field => (field, write field)))
      (Telegram.writeFields members (fields.map fun field => (field, write' field))) := by
  induction fields with
  | nil => exact refl _
  | cons field rest ih =>
    rw [List.forall_mem_cons] at h
    have hmember : Unless (fun writing => TooDeep limit writing.result)
        (writeMember (write field) (member? members field.member))
        (writeMember (write' field) (member? members field.member)) := by
      cases member? members field.member with
      | none => exact refl _
      | some value => exact h.1 value
    apply hmember.bind
    · intro writing hcut
      have hresult : writing.result = .error (.tooDeep limit) := hcut
      simp only [hresult]
      exact forall_mem_some hcut
    · intro writing _
      have hrest : Unless (fun writing => TooDeep limit writing.result)
          (Telegram.writeFields members (rest.map fun field => (field, write field)) >>= fun others =>
            some (others.after writing.bytes))
          (Telegram.writeFields members (rest.map fun field => (field, write' field)) >>= fun others =>
            some (others.after writing.bytes)) := by
        apply (ih h.2).bind
        · exact fun others hcut => forall_mem_some hcut
        · exact fun _ _ => refl _
      rcases writing.result with e | _
      · cases e with
        | typeMismatch expected => exact hrest
        | _ => exact refl _
      · exact hrest

end Unless

/-! ## The steps

A record is the one place at which the two registries can part. Under the smaller limit the step may end
there, and that is the cut. If it does not, the depth is below the greater limit as well. -/

namespace Registry

variable {registry : Registry} {version : UInt32} {shallow deep : Nat}

/-- Reading by the plan of any type is cut off, or the same in both ways. -/
def ReadsUnless (registry : Registry) (version : UInt32) (shallow : Nat) (read read' : ReadPlan) : Prop :=
  ∀ depth type plan format source, registry.plan? version type = some plan →
    Unless (fun reading => TooDeep shallow reading.result) (read depth plan format source)
      (read' depth plan format source)

/-- Writing by the plan of any type is cut off, or the same in both ways. -/
def WritesUnless (registry : Registry) (version : UInt32) (shallow : Nat) (write write' : WritePlan) : Prop :=
  ∀ depth type plan format value, registry.plan? version type = some plan →
    Unless (fun writing => TooDeep shallow writing.result) (write depth plan format value)
      (write' depth plan format value)

section Reading

variable {read read' : ReadPlan}

/-- A type has the same plan under both limits, or none. -/
theorem ReadsUnless.readNeed (h : registry.ReadsUnless version shallow read read') (depth : Nat)
    (type : TypeExpr) (format : FieldFormat) (source : Bytes) :
    Unless (fun reading => TooDeep shallow reading.result)
      ((registry.withDepth shallow).readNeed version (read depth) type format source)
      ((registry.withDepth deep).readNeed version (read' depth) type format source) := by
  simp only [Registry.readNeed, plan?_withDepth]
  cases hplan : registry.plan? version type with
  | none => exact .refl _
  | some plan => exact h depth type plan format source hplan

/-- **One step of reading** is cut off or the same, if the calls it makes are. -/
theorem ReadsUnless.readStepDirect (hplain : registry.SchemasOnly) (hle : shallow ≤ deep)
    (h : registry.ReadsUnless version shallow read read') :
    registry.ReadsUnless version shallow ((registry.withDepth shallow).readStepDirect version read)
      ((registry.withDepth deep).readStepDirect version read') := by
  intro depth type plan format source hplan
  rw [hplain.plan?_eq] at hplan
  cases type with
  | foreign name => cases hplan
  | scalar s =>
    obtain rfl := Option.some.inj hplan
    exact .refl _
  | family name =>
    obtain rfl := Option.some.inj hplan
    exact .refl _
  | optional element =>
    obtain rfl := Option.some.inj hplan
    apply (h.readNeed depth element format source).bind
    · intro reading hcut
      simp only [hcut.expect]
      exact forall_mem_some rfl
    · exact fun _ _ => .refl _
  | sequence container element =>
    obtain rfl := Option.some.inj hplan
    simp only [Registry.readStepDirect]
    split
    · exact .refl _
    · apply (Unless.readItems (h.readNeed depth element format.element) element _ source).bind
      · rintro ⟨result, rest⟩ hcut
        obtain rfl : result = .error (.tooDeep shallow) := hcut
        exact forall_mem_some rfl
      · exact fun _ _ => .refl _
  | record name =>
    obtain ⟨schema, hschema, rfl⟩ := Option.map_eq_some_iff.1 hplan
    simp only [Registry.readStepDirect]
    by_cases hdepth : (registry.withDepth shallow).limits.maxDepth ≤ depth
    · rw [if_pos hdepth]
      apply Unless.of_cut
      rfl
    · have hdeeper : ¬ (registry.withDepth deep).limits.maxDepth ≤ depth := fun h => hdepth (hle.trans h)
      rw [if_neg hdepth, if_neg hdeeper]
      apply (Unless.readFields (fun field hfield source => ?_) schema.initial source).bind
      · rintro ⟨result, rest⟩ hcut
        obtain rfl : result = .error (.tooDeep shallow) := hcut
        exact forall_mem_some rfl
      · exact fun _ _ => .refl _
      · rw [(hplain.withDepth shallow).readFieldDirect_eq hschema hfield,
          (hplain.withDepth deep).readFieldDirect_eq hschema hfield]
        exact h.readNeed (depth + 1) field.type field.format source

/-- **Reading is cut off or the same**, with any fuel. -/
theorem SchemasOnly.readsUnless (hplain : registry.SchemasOnly) (hle : shallow ≤ deep) (fuel : Nat) :
    registry.ReadsUnless version shallow ((registry.withDepth shallow).readDirect version fuel)
      ((registry.withDepth deep).readDirect version fuel) := by
  induction fuel with
  | zero => exact fun _ _ _ _ _ _ => .of_none _
  | succ fuel ih => exact ih.readStepDirect hplain hle

/-- A call begins with a type that can be found under both limits or under neither. -/
theorem SchemasOnly.decodeDirect_unless (hplain : registry.SchemasOnly) (hle : shallow ≤ deep) (fuel : Nat)
    (type : TypeExpr) (source : Bytes) :
    Unless (fun reading => TooDeep shallow reading.result)
      ((registry.withDepth shallow).decodeDirect fuel type version source)
      ((registry.withDepth deep).decodeDirect fuel type version source) := by
  simp only [decodeDirect, readTypeDirect, find_withDepth]
  cases hfind : registry.find version type with
  | error e => exact .refl _
  | ok plan =>
    have halike := hplain.readsUnless hle fuel 0 type plan {} source (plan?_of_find hfind)
    exact halike.map fun _ hcut => hcut.expect type

end Reading

section Writing

variable {write write' : WritePlan}

theorem WritesUnless.writeTypeDirect (h : registry.WritesUnless version shallow write write') (depth : Nat)
    (type : TypeExpr) (format : FieldFormat) (value : Option Value) :
    Unless (fun writing => TooDeep shallow writing.result)
      ((registry.withDepth shallow).writeTypeDirect version (write depth) type format value)
      ((registry.withDepth deep).writeTypeDirect version (write' depth) type format value) := by
  simp only [Registry.writeTypeDirect, find_withDepth]
  cases hfind : registry.find version type with
  | error e => exact .refl _
  | ok plan => exact h depth type plan format value (plan?_of_find hfind)

/-- Which plan writes a value is decided alike under both limits. -/
theorem WritesUnless.writeNeed (h : registry.WritesUnless version shallow write write') (depth : Nat)
    (type : TypeExpr) (format : FieldFormat) (value : Option Value) :
    Unless (fun writing => TooDeep shallow writing.result)
      ((registry.withDepth shallow).writeNeed version (write depth) type format value)
      ((registry.withDepth deep).writeNeed version (write' depth) type format value) := by
  simp only [Registry.writeNeed, plan?_withDepth, find_withDepth]
  cases hplan : registry.plan? version type with
  | none => exact .refl _
  | some declared =>
    have hdeclared (value : Option Value) := h depth type declared format value hplan
    cases value with
    | none => exact hdeclared none
    | some value =>
      simp only
      split
      · cases hfind : registry.find version value.concrete.type with
        | error e => exact .refl _
        | ok concrete =>
          simp only
          split
          · exact h depth _ concrete format (some value.concrete) (plan?_of_find hfind)
          · exact hdeclared (some value)
      · exact hdeclared (some value)

/-- **One step of writing** is cut off or the same, if the calls it makes are. -/
theorem WritesUnless.writeStepDirect (hplain : registry.SchemasOnly) (hle : shallow ≤ deep)
    (h : registry.WritesUnless version shallow write write') :
    registry.WritesUnless version shallow ((registry.withDepth shallow).writeStepDirect version write)
      ((registry.withDepth deep).writeStepDirect version write') := by
  intro depth type plan format value hplan
  rw [hplain.plan?_eq] at hplan
  rw [Registry.writeStepDirect, Registry.writeStepDirect]
  split
  case isFalse => exact .refl _
  case isTrue =>
    cases type with
    | foreign name => cases hplan
    | scalar s =>
      obtain rfl := Option.some.inj hplan
      exact .refl _
    | optional element =>
      obtain rfl := Option.some.inj hplan
      exact h.writeNeed depth element format _
    | sequence container element =>
      obtain rfl := Option.some.inj hplan
      exact .writeItems (fun item => h.writeNeed depth element format.element (some item)) _
    | family name =>
      obtain rfl := Option.some.inj hplan
      cases value with
      | none => exact .refl _
      | some value =>
        simp only [writeOwnDirect, writeAlternativeDirect]
        split
        · exact .refl _
        · exact h.writeTypeDirect depth _ format _
    | record name =>
      obtain ⟨schema, hschema, rfl⟩ := Option.map_eq_some_iff.1 hplan
      simp only [writeOwnDirect]
      split
      case h_2 => exact .refl _
      case h_1 =>
        by_cases hdepth : (registry.withDepth shallow).limits.maxDepth ≤ depth
        · rw [if_pos hdepth]
          apply Unless.of_cut
          rfl
        · have hdeeper : ¬ (registry.withDepth deep).limits.maxDepth ≤ depth := fun h => hdepth (hle.trans h)
          rw [if_neg hdepth, if_neg hdeeper]
          apply Unless.writeFields
          intro field hfield value
          rw [(hplain.withDepth shallow).writeFieldDirect_eq hschema hfield,
            (hplain.withDepth deep).writeFieldDirect_eq hschema hfield]
          exact h.writeNeed (depth + 1) field.type field.format (some value)

/-- **Writing is cut off or the same**, with any fuel. -/
theorem SchemasOnly.writesUnless (hplain : registry.SchemasOnly) (hle : shallow ≤ deep) (fuel : Nat) :
    registry.WritesUnless version shallow ((registry.withDepth shallow).writeDirect version fuel)
      ((registry.withDepth deep).writeDirect version fuel) := by
  induction fuel with
  | zero => exact fun _ _ _ _ _ _ => .of_none _
  | succ fuel ih => exact ih.writeStepDirect hplain hle

theorem SchemasOnly.encodeDirect_unless (hplain : registry.SchemasOnly) (hle : shallow ≤ deep) (fuel : Nat)
    (value : Value) :
    Unless (fun writing => TooDeep shallow writing.result)
      ((registry.withDepth shallow).encodeDirect fuel value version)
      ((registry.withDepth deep).encodeDirect fuel value version) :=
  (hplain.writesUnless hle fuel).writeTypeDirect 0 value.type {} (some value)

end Writing

/-! ## Whole calls

The two registries have slot tables of their own, each with its own history. What a call answers does not
depend on them, and so they do not appear in the comparison by plans. -/

section Calls

variable {table table' : SlotTable}

/-- Reading under one limit and reading under another. -/
theorem SchemasOnly.decode_unless (hplain : registry.SchemasOnly) (hle : shallow ≤ deep)
    (h : (registry.withDepth shallow).Reached table) (h' : (registry.withDepth deep).Reached table')
    (type : TypeExpr) (source : Bytes) :
    Unless (fun reading => TooDeep shallow reading.result)
      (((registry.withDepth shallow).decode type version source).answer table)
      (((registry.withDepth deep).decode type version source).answer table') := by
  apply ((hplain.withDepth shallow).decode_answered h type version source).unless
    ((hplain.withDepth deep).decode_answered h' type version source)
  intro fuel
  simp only [h.decodeIn_answer (hplain.withDepth shallow).factories_eq,
    h'.decodeIn_answer (hplain.withDepth deep).factories_eq]
  exact hplain.decodeDirect_unless hle fuel type source

/-- Writing under one limit and writing under another. -/
theorem SchemasOnly.encode_unless (hplain : registry.SchemasOnly) (hle : shallow ≤ deep)
    (h : (registry.withDepth shallow).Reached table) (h' : (registry.withDepth deep).Reached table')
    (value : Value) :
    Unless (fun writing => TooDeep shallow writing.result)
      (((registry.withDepth shallow).encode value version).answer table)
      (((registry.withDepth deep).encode value version).answer table') := by
  apply ((hplain.withDepth shallow).encode_answered h value version).unless
    ((hplain.withDepth deep).encode_answered h' value version)
  intro fuel
  simp only [h.encodeIn_answer (hplain.withDepth shallow).factories_eq,
    h'.encodeIn_answer (hplain.withDepth deep).factories_eq]
  exact hplain.encodeDirect_unless hle fuel value

end Calls

end Registry

end Telegram
