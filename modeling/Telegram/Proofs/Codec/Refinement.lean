import Telegram.Proofs.Codec.Direct

/-!
# Adapters do what plans say

Reading and writing through slots comes to the same as reading and writing by plans, from every sound slot
table, as long as the call keeps to types that factories leave alone (`Registry.Spares`). What is cached
already, and in which slots, shows in no answer.

* `Run.Matches` relates a run that threads the slot table to a computation without one: the same answer,
  or no answer from either, and a sound table afterwards.
* `Run.Matches.resolve` and `Run.Matches.adapterAt` are the only two places where a run looks at slots.
* The loops preserve the relation, so do the steps, and `Registry.readIn_matches` and
  `Registry.writeIn_matches` close the recursion by induction on fuel.
-/

namespace Telegram

open Codec Registry

/-! ## The relation

A run starts from some table and leaves another. The computation beside it knows of neither, so the
relation says what they have to do with each other: nothing, as long as the table was sound. It is stated
for all sound tables that extend a given one. The given table is there for the slots that an adapter was
wired with, which have to be found in whatever table the run has reached by then. -/

section Matches

variable {α β : Type}

/-- What a run came to, from the table `before`, agrees with `direct`: both are without an answer, or they
have the same one and the table after the run is sound and extends the one before. -/
def Run.Agrees (registry : Registry) (before : SlotTable) (outcome : Option (α × SlotTable)) :
    Option α → Prop
  | none => outcome = none
  | some a => ∃ after, outcome = some (a, after) ∧ after.Sound registry ∧ before.Extends after

/-- A run does what `direct` says, from every sound table that extends `table`. The answer does not
depend on which of these tables it is, and that is the whole point. -/
def Run.Matches (registry : Registry) (table : SlotTable) (run : Run α) (direct : Option α) : Prop :=
  ∀ current, current.Sound registry → table.Extends current →
    Run.Agrees registry current (run current) direct

namespace Run

variable {registry : Registry} {version : UInt32} {table : SlotTable} {run : Run α} {direct : Option α}

/-- Agreement is kept by starting from an earlier table, as tables only grow. -/
theorem Agrees.of_extends {before before' : SlotTable} {outcome : Option (α × SlotTable)}
    (h : Agrees registry before' outcome direct) (hextends : before.Extends before') :
    Agrees registry before outcome direct := by
  cases direct with
  | none => exact h
  | some a =>
    obtain ⟨after, houtcome, hsound, hextends'⟩ := h
    exact ⟨after, houtcome, hsound, hextends.trans hextends'⟩

/-- An answer without a look at the table leaves the table as it is. -/
theorem matches_pure (a : α) : Matches registry table (pure a) (some a) :=
  fun current hsound _ => ⟨current, rfl, hsound, .refl current⟩

theorem matches_none : Matches registry table (fun _ => none) (none : Option α) :=
  fun _ _ _ => rfl

/-- Runs that match one after the other. The second starts from the table that the first has left, which
is one of the sound tables that extend `table`. -/
theorem Matches.bind (h : run.Matches registry table direct) {next : α → Run β} {next' : α → Option β}
    (hnext : ∀ a, (next a).Matches registry table (next' a)) :
    Matches registry table (run >>= next) (direct >>= next') := by
  intro current hsound hextends
  have hrun := h current hsound hextends
  cases direct with
  | none => exact bind_of_eq_none hrun
  | some a =>
    obtain ⟨after, hrun, hsound', hextends'⟩ := hrun
    rw [bind_of_eq_some hrun]
    -- the second run starts later, but what it extends is the table from before both
    exact (hnext a after hsound' (hextends.trans hextends')).of_extends hextends'

/-- An answer that is put into another form. -/
theorem Matches.map (h : run.Matches registry table direct) (f : α → β) :
    Matches registry table (do
      let a ← run
      pure (f a)) (direct.map f) := by
  have hbind : direct.map f = direct >>= fun a => some (f a) := by cases direct <;> rfl
  rw [hbind]
  exact h.bind fun a => matches_pure (f a)

/-! ## Where a run looks at slots

There are two such places: asking for the adapter in a slot, and resolving a type. Everything else that a
call does is ordinary computation, and the relation passes through it by the rules above. -/

theorem adapterAt_of_filled {current : SlotTable} {slot : Nat} {adapter : Adapter}
    (hfilled : current.slots[slot]? = some (some adapter)) :
    Telegram.adapterAt slot current = some (.ok adapter, current) := by
  rw [← SlotTable.adapter_eq_ok hfilled]
  rfl

/-- **A slot of a sound table is never empty**: a run that asks for the adapter of a type that has a slot
is given one that carries out the plan of that type. -/
theorem Matches.adapterAt {type : TypeExpr} {slot : Nat} (hslot : table.slotOf version type = some slot)
    {next : Except Error Adapter → Run α}
    (hnext : ∀ current adapter plan, table.Extends current → registry.plan? version type = some plan →
      plan.Wired (current.slotOf version) adapter.wiring → adapter.origin = plan.origin →
      (next (.ok adapter)).Matches registry current direct) :
    Matches registry table (Telegram.adapterAt slot >>= next) direct := by
  intro current hsound hextends
  obtain ⟨adapter, hfilled, plan, hplan, hwired, horigin⟩ :=
    hsound.served version type slot (hextends.slotOf version type slot hslot)
  have hrun := hnext current adapter plan hextends hplan hwired horigin current hsound (.refl current)
  rwa [bind_of_eq_some (adapterAt_of_filled hfilled)]

/-- **A resolution shows in the table alone**: what comes after it is given the slot of the type exactly
when a plan of it is found. -/
theorem Matches.resolve {Spared : TypeExpr → Prop} (hspared : registry.Spares version Spared)
    {type : TypeExpr} (htype : Spared type) {next : Except Error Nat → Run α}
    (herror : ∀ e, registry.find version type = .error e →
      (next (.error e)).Matches registry table direct)
    (hok : ∀ current slot plan, table.Extends current → current.slotOf version type = some slot →
      registry.find version type = .ok plan → (next (.ok slot)).Matches registry current direct) :
    Matches registry table (registry.resolve type version >>= next) direct := by
  intro current hsound hextends
  obtain ⟨answer, after, hrun, hresolves⟩ := hspared.resolve_spec hsound htype
  rw [bind_of_eq_some hrun]
  cases hresolves with
  | ok hmissing hsound' hextends' hslot =>
    -- nothing that the type needs is missing and it has a slot, so its plan is the one that is found
    obtain ⟨_, _, plan, hplan, _⟩ := hsound'.served version type _ hslot
    have hnext := hok after _ plan (hextends.trans hextends') hslot (find_of_plan? hmissing hplan)
    exact (hnext after hsound' (.refl after)).of_extends hextends'
  | error hmissing hsound' hextends' _ =>
    have hnext := herror _ (find_of_missing? hmissing)
    exact (hnext after hsound' (hextends.trans hextends')).of_extends hextends'

end Run

end Matches

/-! ## The loops

Elements, fields and the requests of callers' programs are gone through one after the other, each from the
table that the one before left. The relation is about all later tables, so one hypothesis for each
iteration is enough, and nothing has to be said about what the earlier iterations did. -/

section Loops

variable {registry : Registry} {table : SlotTable} {Spared : TypeExpr → Prop}

/-- **Elements** are all read with the adapter of one slot. -/
theorem readItems_matches {read : Bytes → Run Reading} {read' : Bytes → Option Reading}
    (h : ∀ source, (read source).Matches registry table (read' source)) (element : TypeExpr)
    (count : Nat) (source : Bytes) :
    Run.Matches registry table (readItems read element count source)
      (readItems read' element count source) := by
  induction count generalizing source with
  | zero => exact Run.matches_pure _
  | succ count ih =>
    refine (h source).bind fun reading => ?_
    rcases (reading.expect element).result with e | _ | item
    · exact Run.matches_pure _
    · exact Run.matches_pure _
    · exact (ih reading.rest).bind fun _ => Run.matches_pure _

/-- **Fields** are read each with its own reader, and they are compared in pairs. -/
theorem readFields_matches {readers : List (Field × (Bytes → Run Reading))}
    {readers' : List (Field × (Bytes → Option Reading))}
    (h : List.Forall₂ (fun reader reader' => reader.1 = reader'.1 ∧
      ∀ source, (reader.2 source).Matches registry table (reader'.2 source)) readers readers')
    (members : List (String × Value)) (source : Bytes) :
    Run.Matches registry table (readFields readers members source)
      (readFields readers' members source) := by
  induction h generalizing members source with
  | nil => exact Run.matches_pure _
  | @cons reader reader' _ _ hfirst _ ih =>
    obtain ⟨field, read⟩ := reader
    obtain ⟨field', read'⟩ := reader'
    obtain ⟨hfield, hread⟩ := hfirst
    cases hfield
    refine (hread source).bind fun reading => ?_
    rcases reading.result with e | value
    · exact Run.matches_pure _
    · exact ih _ _

/-- **A caller's program** asks for types, and it may ask for any of those that the set spares. What it
does with an answer is its own matter, as both runs are given the same one. -/
theorem runReadProgram_matches {read : TypeExpr → FieldFormat → Bytes → Run Reading}
    {read' : TypeExpr → FieldFormat → Bytes → Option Reading}
    (h : ∀ type format source, Spared type →
      (read type format source).Matches registry table (read' type format source))
    {program : ReadProgram} (hasks : program.AsksWithin Spared) :
    Run.Matches registry table (program.run read) (program.run read') := by
  induction program with
  | finish reading => exact Run.matches_pure reading
  | read type format source next ih =>
    obtain ⟨htype, hnext⟩ := hasks
    exact (h type format source htype).bind fun reading => ih reading (hnext reading)

theorem writeItems_matches {write : Value → Run Writing} {write' : Value → Option Writing}
    {items : List Value} (h : ∀ item ∈ items, (write item).Matches registry table (write' item)) :
    Run.Matches registry table (writeItems write items) (writeItems write' items) := by
  induction items with
  | nil => exact Run.matches_pure _
  | cons item rest ih =>
    rw [List.forall_mem_cons] at h
    refine h.1.bind fun writing => ?_
    rcases writing.result with e | _
    · exact Run.matches_pure _
    · exact (ih h.2).bind fun _ => Run.matches_pure _

/-- **Fields** are written if the record has a member for them; the hypothesis is about these members
alone. -/
theorem writeFields_matches {writers : List (Field × (Value → Run Writing))}
    {writers' : List (Field × (Value → Option Writing))} {members : List (String × Value)}
    (h : List.Forall₂ (fun writer writer' => writer.1 = writer'.1 ∧
      ∀ name value, (name, value) ∈ members →
        (writer.2 value).Matches registry table (writer'.2 value)) writers writers') :
    Run.Matches registry table (writeFields members writers) (writeFields members writers') := by
  induction h with
  | nil => exact Run.matches_pure _
  | @cons writer writer' l₁ l₂ hfirst _ ih =>
    obtain ⟨field, write⟩ := writer
    obtain ⟨field', write'⟩ := writer'
    obtain ⟨hfield, hwrite⟩ := hfirst
    cases hfield
    -- the member is missing in both runs or in none
    have hmember : Run.Matches registry table (writeMember write (member? members field.member))
        (writeMember write' (member? members field.member)) := by
      cases hfound : member? members field.member with
      | none => exact Run.matches_pure _
      | some value => exact hwrite _ value (mem_of_lookup_eq_some hfound)
    have hrest : ∀ bytes, Run.Matches registry table (do
        let others ← writeFields members l₁
        pure (others.after bytes)) (do
        let others ← writeFields members l₂
        pure (others.after bytes)) :=
      fun bytes => ih.bind fun _ => Run.matches_pure _
    refine hmember.bind fun writing => ?_
    split
    · exact hrest _
    · exact hrest _
    · exact Run.matches_pure _

/-- **A caller's program** asks for values to be written, which have to stay within the set like their
types. -/
theorem runWriteProgram_matches {write : TypeExpr → FieldFormat → Option Value → Run Writing}
    {write' : TypeExpr → FieldFormat → Option Value → Option Writing}
    (h : ∀ type format value, Spared type → (∀ held ∈ value, held.Within Spared) →
      (write type format value).Matches registry table (write' type format value))
    {program : WriteProgram} (hasks : program.AsksWithin Spared) :
    Run.Matches registry table (program.run write) (program.run write') := by
  induction program with
  | finish writing => exact Run.matches_pure writing
  | write type format value next ih =>
    obtain ⟨htype, hvalue, hnext⟩ := hasks
    exact (h type format value htype hvalue).bind fun writing => ih writing (hnext writing)

end Loops

/-! ## Reading

One step of reading makes calls, and the step does right by a plan if the calls do. The hypothesis is
about any way of reading, not about the recursion, and so it serves every variant of the recursion as
well: with watches, with checks, or with a look at the references. -/

section Reading

variable {registry : Registry} {version : UInt32} {table : SlotTable} {Spared : TypeExpr → Prop}
variable {read : ReadWith} {direct : ReadPlan}

/-- A way of reading with adapters does what a way of reading by plans does, wherever an adapter carries
out a plan that stays within a set of types. -/
def ReadsAlike (registry : Registry) (version : UInt32) (Spared : TypeExpr → Prop) (read : ReadWith)
    (direct : ReadPlan) : Prop :=
  ∀ (table : SlotTable) (depth : Nat) (plan : Plan) (wiring : Wiring) (format : FieldFormat)
    (source : Bytes), plan.Within version Spared → plan.Wired (table.slotOf version) wiring →
      (read depth wiring format source).Matches registry table (direct depth plan format source)

/-- Reading with the slot of a type goes by the plan of that type. -/
theorem readSlot_matches (hspared : registry.Spares version Spared)
    (h : ReadsAlike registry version Spared read direct) {type : TypeExpr} (htype : Spared type) {slot : Nat}
    (hslot : table.slotOf version type = some slot) (depth : Nat) (format : FieldFormat) (source : Bytes) :
    (readSlot (read depth) slot format source).Matches registry table
      (registry.readNeed version (direct depth) type format source) := by
  refine Run.Matches.adapterAt hslot fun current adapter plan _ hplan hwired _ => ?_
  rw [readNeed, hplan]
  exact h current depth plan adapter.wiring format source (hspared.within type plan htype hplan) hwired

/-- A field is read by the adapter it brings along, or by the slot of its type. -/
theorem readBound_matches (hspared : registry.Spares version Spared)
    (h : ReadsAlike registry version Spared read direct) {field : Field} (hfield : field.Within version Spared)
    {bound : BoundField} (hbound : field.Bound (table.slotOf version) bound) (depth : Nat)
    (source : Bytes) :
    (readBound (read depth) bound source).Matches registry table
      (registry.readFieldDirect version (direct depth) field source) := by
  cases hbound with
  | own hadapter =>
    simp only [Field.Within, hadapter] at hfield
    simp only [readBound, readFieldDirect, hadapter]
    exact h table depth _ _ _ _ hfield (.leaf _)
  | slot hadapter hslot =>
    simp only [Field.Within, hadapter] at hfield
    simp only [readBound, readFieldDirect, hadapter]
    exact readSlot_matches hspared h hfield hslot depth _ source

/-- Reading a type that has to be found first. -/
theorem readType_matches (hspared : registry.Spares version Spared)
    (h : ReadsAlike registry version Spared read direct) (depth : Nat) (type : TypeExpr) (format : FieldFormat)
    (source : Bytes) (htype : Spared type) :
    (registry.readType version (read depth) type format source).Matches registry table
      (registry.readTypeDirect version (direct depth) type format source) := by
  refine Run.Matches.resolve hspared htype ?_ ?_
  · intro e hfind
    rw [readTypeDirect, hfind]
    exact Run.matches_pure _
  · intro current slot plan _ hslot hfind
    have hread := readSlot_matches hspared h htype hslot depth format source
    rw [readNeed, plan?_of_find hfind] at hread
    rw [readTypeDirect, hfind]
    exact hread.map fun reading => reading.expect type

/-- **One step of reading** is alike, if the calls it makes are. -/
theorem readStep_matches (hspared : registry.Spares version Spared)
    (h : ReadsAlike registry version Spared read direct) :
    ReadsAlike registry version Spared (registry.readStep version read)
      (registry.readStepDirect version direct) := by
  intro table depth plan wiring format source hwithin hwired
  cases hwired with
  | leaf leaf =>
    cases leaf with
    | scalar s => exact Run.matches_pure _
    | caller adapter => exact runReadProgram_matches (readType_matches hspared h depth) (hwithin.read _ _ _)
  | optional hslot =>
    refine (readSlot_matches hspared h hwithin hslot depth format source).bind fun reading => ?_
    rcases (reading.expect _).result with e | _ | value
    · exact Run.matches_pure _
    · exact Run.matches_pure _
    · exact Run.matches_pure _
  | sequence container hslot =>
    simp only [readStep, readStepDirect]
    by_cases hempty : source.isEmpty = true
    · rw [if_pos hempty, if_pos hempty]
      exact Run.matches_pure _
    · rw [if_neg hempty, if_neg hempty]
      exact (readItems_matches (readSlot_matches hspared h hwithin hslot depth format.element) _ _ source).bind
        fun _ => Run.matches_pure _
  | family name => exact Run.matches_pure _
  | @record schema fields bounds hfields =>
    simp only [readStep, readStepDirect]
    -- the limit is a matter of depth, which is the same for adapters and plans
    by_cases hdeep : registry.limits.maxDepth ≤ depth
    · rw [if_pos hdeep, if_pos hdeep]
      exact Run.matches_pure _
    · rw [if_neg hdeep, if_neg hdeep]
      have hreaders : List.Forall₂ (fun reader reader' => reader.1 = reader'.1 ∧
          ∀ source, (reader.2 source).Matches registry table (reader'.2 source))
          (bounds.map fun bound => (bound.field, readBound (read (depth + 1)) bound))
          (fields.map fun field => (field, registry.readFieldDirect version (direct (depth + 1)) field)) := by
        rw [List.forall₂_map_left_iff, List.forall₂_map_right_iff]
        have hbounds := (List.forall₂_and_left _ _).2 ⟨hwithin, hfields⟩
        refine hbounds.flip.imp fun bound field hfield =>
          ⟨?_, readBound_matches hspared h hfield.1 hfield.2 (depth + 1)⟩
        cases hfield.2 <;> rfl
      exact (readFields_matches hreaders _ source).bind fun _ => Run.matches_pure _

/-- **Reading by adapters and by plans is alike**, with any fuel. -/
theorem readIn_matches (hspared : registry.Spares version Spared) (fuel : Nat) :
    ReadsAlike registry version Spared (registry.readIn version fuel) (registry.readDirect version fuel) := by
  induction fuel with
  | zero => exact fun _ _ _ _ _ _ _ _ => Run.matches_none
  | succ fuel ih => exact readStep_matches hspared ih

/-- **A whole call for reading.** -/
theorem decodeIn_matches (hspared : registry.Spares version Spared) (fuel : Nat) {type : TypeExpr}
    (htype : Spared type) (source : Bytes) :
    (registry.decodeIn fuel type version source).Matches registry table
      (registry.decodeDirect fuel type version source) :=
  readType_matches hspared (readIn_matches hspared fuel) 0 type {} source htype

end Reading

/-! ## Writing

The lemmas are those of reading with one more case. Where a value of a family is written, the adapter of
its alternative is found by a resolution in the middle of the call, and this may grow the table between
the moment at which the declared adapter is looked up and the moment at which it is used. -/

section Writing

variable {registry : Registry} {version : UInt32} {table : SlotTable} {Spared : TypeExpr → Prop}
variable {write : WriteWith} {direct : WritePlan}

/-- A way of writing with adapters does what a way of writing by plans does, wherever an adapter carries
out a plan that stays within a set of types, on values that stay within it. -/
def WritesAlike (registry : Registry) (version : UInt32) (Spared : TypeExpr → Prop) (write : WriteWith)
    (direct : WritePlan) : Prop :=
  ∀ (table : SlotTable) (depth : Nat) (plan : Plan) (wiring : Wiring) (format : FieldFormat)
    (value : Option Value), plan.Within version Spared → (∀ held ∈ value, held.Within Spared) →
      plan.Wired (table.slotOf version) wiring →
      (write depth wiring format value).Matches registry table (direct depth plan format value)

/-- What comes after looking for the adapter of a value is given one that carries out the plan of its
type, or the error of not finding that plan. -/
theorem Run.Matches.adapterOf {α : Type} (hspared : registry.Spares version Spared) {value : Value}
    (htype : Spared value.type) {next : Except Error Adapter → Run α} {answer : Option α}
    (herror : ∀ e, registry.find version value.type = .error e →
      (next (.error e)).Matches registry table answer)
    (hok : ∀ current adapter plan, table.Extends current →
      registry.find version value.type = .ok plan →
      plan.Wired (current.slotOf version) adapter.wiring → adapter.origin = plan.origin →
      (next (.ok adapter)).Matches registry current answer) :
    Run.Matches registry table (registry.adapterOf version value >>= next) answer := by
  rw [Registry.adapterOf, bind_assoc]
  refine Run.Matches.resolve hspared htype herror fun current slot plan hextends hslot hfind => ?_
  refine Run.Matches.adapterAt hslot fun later adapter plan' hlater hplan' hwired horigin => ?_
  obtain rfl := Option.some.inj ((plan?_of_find hfind).symm.trans hplan')
  exact hok later adapter plan (hextends.trans hlater) hfind hwired horigin

/-- Writing a type that has to be found first. -/
theorem writeType_matches (hspared : registry.Spares version Spared)
    (h : WritesAlike registry version Spared write direct) (depth : Nat) (type : TypeExpr)
    (format : FieldFormat) (value : Option Value) (htype : Spared type)
    (hvalue : ∀ held ∈ value, held.Within Spared) :
    (registry.writeType version (write depth) type format value).Matches registry table
      (registry.writeTypeDirect version (direct depth) type format value) := by
  refine Run.Matches.resolve hspared htype ?_ ?_
  · intro e hfind
    rw [writeTypeDirect, hfind]
    exact Run.matches_pure _
  · intro current slot plan _ hslot hfind
    refine Run.Matches.adapterAt hslot fun later adapter plan' _ hplan' hwired _ => ?_
    obtain rfl := Option.some.inj ((plan?_of_find hfind).symm.trans hplan')
    rw [writeTypeDirect, hfind]
    exact h later depth plan adapter.wiring format value (hspared.within type plan htype hplan') hvalue hwired

/-- Writing with the slot of a type goes by the plan of that type, or by that of the alternative held. -/
theorem writeDeclared_matches (hspared : registry.Spares version Spared)
    (h : WritesAlike registry version Spared write direct) {type : TypeExpr} (htype : Spared type) {slot : Nat}
    (hslot : table.slotOf version type = some slot) (depth : Nat) (format : FieldFormat)
    {value : Option Value} (hvalue : ∀ held ∈ value, held.Within Spared) :
    (registry.writeDeclared version (write depth) type slot format value).Matches registry table
      (registry.writeNeed version (direct depth) type format value) := by
  refine Run.Matches.adapterAt hslot fun current adapter plan _ hplan hwired horigin => ?_
  have hwithin := hspared.within type plan htype hplan
  simp only [writeNeed, hplan]
  rcases value with _ | value
  · have hnone : ∀ held ∈ (none : Option Value), held.Within Spared :=
      fun _ hmem => absurd hmem (Option.not_mem_none _)
    exact h current depth plan adapter.wiring format none hwithin hnone hwired
  · simp only
    have hvalue' := hvalue value rfl
    by_cases hheld : value.type = type ∧ value.concrete.type ≠ type
    · rw [if_pos hheld, if_pos hheld]
      have hconcrete := hvalue'.concrete_type (hheld.1.symm ▸ hheld.2)
      refine Run.Matches.adapterOf hspared hconcrete ?_ ?_
      · intro e hfind
        rw [hfind]
        exact Run.matches_pure _
      -- finding the adapter of the alternative may fill the table, which leaves the declared one as it
      -- was
      · intro later other plan' hextends hfind hwired' horigin'
        rw [hfind]
        simp only [horigin, horigin']
        split
        · exact h later depth plan' other.wiring format _
            (hspared.within _ plan' hconcrete (plan?_of_find hfind)) hvalue'.concrete.mem_some hwired'
        · exact h later depth plan adapter.wiring format _ hwithin hvalue (hwired.mono (hextends.slotOf version))
    · rw [if_neg hheld, if_neg hheld]
      exact h current depth plan adapter.wiring format _ hwithin hvalue hwired

/-- A value of a family that is written as such is written by the adapter of its alternative. -/
theorem writeAlternative_matches (hspared : registry.Spares version Spared)
    (h : WritesAlike registry version Spared write direct) (depth : Nat) {family : TypeExpr}
    (format : FieldFormat) {value : Value} (htype : value.type = family) (hvalue : value.Within Spared) :
    (registry.writeAlternative version (write depth) family format value).Matches registry table
      (registry.writeAlternativeDirect version (direct depth) family format value) := by
  simp only [writeAlternative, writeAlternativeDirect]
  by_cases hbare : value.concrete.type = family
  · rw [if_pos hbare, if_pos hbare]
    exact Run.matches_pure _
  · rw [if_neg hbare, if_neg hbare]
    have hconcrete := hvalue.concrete_type (htype.symm ▸ hbare)
    refine Run.Matches.adapterOf hspared hconcrete ?_ ?_
    · intro e hfind
      rw [writeTypeDirect, hfind]
      exact Run.matches_pure _
    · intro later adapter plan _ hfind hwired _
      rw [writeTypeDirect, hfind]
      exact h later depth plan adapter.wiring format _
        (hspared.within _ plan hconcrete (plan?_of_find hfind)) hvalue.concrete.mem_some hwired

/-- A field is written by the adapter it brings along, or by the slot of its type and what the value
holds. -/
theorem writeField_matches (hspared : registry.Spares version Spared)
    (h : WritesAlike registry version Spared write direct) {field : Field} (hfield : field.Within version Spared)
    {bound : BoundField} (hbound : field.Bound (table.slotOf version) bound) (depth : Nat) {value : Value}
    (hvalue : value.Within Spared) :
    (registry.writeField version (write depth) bound value).Matches registry table
      (registry.writeFieldDirect version (direct depth) field value) := by
  cases hbound with
  | own hadapter =>
    simp only [Field.Within, hadapter] at hfield
    simp only [writeField, writeFieldDirect, hadapter]
    exact h table depth _ _ _ _ hfield hvalue.mem_some (.leaf _)
  | slot hadapter hslot =>
    simp only [Field.Within, hadapter] at hfield
    simp only [writeField, writeFieldDirect, hadapter]
    exact writeDeclared_matches hspared h hfield hslot depth _ hvalue.mem_some

/-- An adapter writes a value of its own type as its plan says, if the calls it makes are alike. -/
theorem writeOwn_matches (hspared : registry.Spares version Spared)
    (h : WritesAlike registry version Spared write direct) {plan : Plan} (hwithin : plan.Within version Spared)
    {wiring : Wiring} (hwired : plan.Wired (table.slotOf version) wiring) (depth : Nat) (format : FieldFormat)
    {value : Option Value} (hvalue : ∀ held ∈ value, held.Within Spared)
    (hown : ∀ held ∈ value, held.type = plan.type) :
    (registry.writeOwn version write depth wiring format value).Matches registry table
      (registry.writeOwnDirect version direct depth plan format value) := by
  cases hwired with
  | leaf leaf =>
    cases leaf with
    | scalar s => exact Run.matches_pure _
    | caller adapter =>
      exact runWriteProgram_matches (writeType_matches hspared h depth) (hwithin.write _ _ _ hvalue)
  | optional hslot =>
    refine writeDeclared_matches hspared h hwithin hslot depth format fun held hheld => ?_
    split at hheld
    · obtain rfl := Option.some.inj hheld
      exact (hvalue _ rfl).content
    · cases hheld
  | sequence container hslot =>
    refine writeItems_matches fun item hitem => ?_
    refine writeDeclared_matches hspared h hwithin hslot depth format.element ?_
    split at hitem
    · exact ((hvalue _ rfl).item hitem).mem_some
    · cases hitem
  | family name =>
    rcases value with _ | value
    · exact Run.matches_pure _
    · exact writeAlternative_matches hspared h depth format (hown value rfl) (hvalue value rfl)
  | @record schema fields bounds hfields =>
    rcases value with _ | value
    · exact Run.matches_pure _
    · cases value with
      | record name members =>
        simp only [writeOwn, writeOwnDirect]
        by_cases hdeep : registry.limits.maxDepth ≤ depth
        · rw [if_pos hdeep, if_pos hdeep]
          exact Run.matches_pure _
        · rw [if_neg hdeep, if_neg hdeep]
          refine writeFields_matches ?_
          rw [List.forall₂_map_left_iff, List.forall₂_map_right_iff]
          have hbounds := (List.forall₂_and_left _ _).2 ⟨hwithin, hfields⟩
          refine hbounds.flip.imp fun bound field hfield => ⟨?_, fun key value hmem => ?_⟩
          · cases hfield.2 <;> rfl
          · exact writeField_matches hspared h hfield.1 hfield.2 (depth + 1) ((hvalue _ rfl).member hmem)
      | _ => exact Run.matches_pure _

/-- **One step of writing** is alike, if the calls it makes are. -/
theorem writeStep_matches (hspared : registry.Spares version Spared)
    (h : WritesAlike registry version Spared write direct) :
    WritesAlike registry version Spared (registry.writeStep version write)
      (registry.writeStepDirect version direct) := by
  intro table depth plan wiring format value hwithin hvalue hwired
  rw [writeStep, writeStepDirect, hwired.type_eq]
  split
  · rename_i hown
    simp only [Option.all_eq_true, decide_eq_true_eq] at hown
    exact writeOwn_matches hspared h hwithin hwired depth format hvalue hown
  · exact Run.matches_pure _

/-- **Writing by adapters and by plans is alike**, with any fuel. -/
theorem writeIn_matches (hspared : registry.Spares version Spared) (fuel : Nat) :
    WritesAlike registry version Spared (registry.writeIn version fuel) (registry.writeDirect version fuel) := by
  induction fuel with
  | zero => exact fun _ _ _ _ _ _ _ _ _ => Run.matches_none
  | succ fuel ih => exact writeStep_matches hspared ih

/-- **A whole call for writing.** -/
theorem encodeIn_matches (hspared : registry.Spares version Spared) (fuel : Nat) {value : Value}
    (htype : Spared value.type) (hvalue : value.Within Spared) :
    (registry.encodeIn fuel value version).Matches registry table
      (registry.encodeDirect fuel value version) :=
  writeType_matches hspared (writeIn_matches hspared fuel) 0 value.type {} (some value) htype
    hvalue.mem_some

end Writing

end Telegram
