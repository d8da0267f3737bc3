import Telegram.Proofs.Codec.History

/-!
# Fields that are passed over

A record is written without the fields whose values turn out to be of the wrong type. Such a field is
passed over, but what it had written before that stays.

* `FieldsWritten` follows the fields one by one: what each wrote, and from which slot table to which.
* `FieldsWritten.keep` writes the kept fields alone, as long as those passed over left nothing in the slot
  table that matters to them (`Indifferent`). In a registry without factories nothing there does.
* `Registry.writeIn_record_eq_done_iff` says that a record is written by writing its fields so.
* `Registry.encode_keeps_passed_over` compares a whole call with one by the schema without the fields that
  were passed over. `Registry.encode_keeps_half_written_field` is one where the bytes differ.

A field that is passed over has left two kinds of traces: bytes, and types that were resolved on the way.
The bytes are what the comparison is about. The types matter only because a later field may be answered by
a factory that can tell whether a type has been resolved before.
-/

namespace Telegram

open Codec

/-! ## Fields one by one

The loop over the fields of a record gives one answer for all of them, and from that it can not be told
which fields were passed over and what each had written. So the loop is taken apart into pieces, one for
each field, each with the slot table that the field found and the one that it left. -/

/-- How one field of a record was written. The tables are kept because writing a field may resolve types,
and the field behind it is written with what there is then. -/
structure FieldWriting where
  bound : BoundField
  before : SlotTable
  writing : Writing
  after : SlotTable

/-- A value turned out to be of the wrong type. No other error is passed over: each of them ends the
record. -/
def Codec.Writing.isMismatch (writing : Writing) : Bool :=
  match writing.result with
  | .error (.typeMismatch _) => true
  | _ => false

/-- The fields that were not passed over. -/
def keptFields (pieces : List FieldWriting) : List FieldWriting :=
  pieces.filter fun piece => !piece.writing.isMismatch

/-- What fields wrote together. -/
def writtenBytes (pieces : List FieldWriting) : Bytes :=
  pieces.flatMap fun piece => piece.writing.bytes

/-- The members of a record were written field after field, from one slot table to another, and no field
failed otherwise than by a value of the wrong type. -/
inductive FieldsWritten (write : BoundField → Value → Run Writing) (members : List (String × Value)) :
    SlotTable → List FieldWriting → SlotTable → Prop where
  | nil {table : SlotTable} : FieldsWritten write members table [] table
  | cons {bound : BoundField} {before after table : SlotTable} {writing : Writing}
      {pieces : List FieldWriting}
      (hwrite : writeMember (write bound) (member? members bound.field.member) before =
        some (writing, after))
      (hpasses : writing.result = .ok () ∨ writing.isMismatch = true)
      (hrest : FieldsWritten write members after pieces table) :
      FieldsWritten write members before (⟨bound, before, writing, after⟩ :: pieces) table

section Fields

variable {write : BoundField → Value → Run Writing} {members : List (String × Value)}
variable {table table' : SlotTable} {pieces : List FieldWriting} {bytes : Bytes}

theorem writtenBytes_cons (piece : FieldWriting) (pieces : List FieldWriting) :
    writtenBytes (piece :: pieces) = piece.writing.bytes ++ writtenBytes pieces :=
  List.flatMap_cons ..

theorem keptFields_cons_of_mismatch {piece : FieldWriting} (h : piece.writing.isMismatch = true) :
    keptFields (piece :: pieces) = keptFields pieces :=
  List.filter_cons_of_neg (by simpa using h)

theorem keptFields_cons_of_not_mismatch {piece : FieldWriting} (h : ¬ piece.writing.isMismatch = true) :
    keptFields (piece :: pieces) = piece :: keptFields pieces :=
  List.filter_cons_of_pos (by simpa using h)

/-- The kept fields wrote no more than all of them. -/
theorem length_writtenBytes_keptFields_le (pieces : List FieldWriting) :
    (writtenBytes (keptFields pieces)).length ≤ (writtenBytes pieces).length := by
  induction pieces with
  | nil => exact Nat.le_refl _
  | cons piece pieces ih =>
    rw [writtenBytes_cons, List.length_append]
    by_cases hmismatch : piece.writing.isMismatch = true
    · rw [keptFields_cons_of_mismatch hmismatch]
      exact Nat.le_trans ih (Nat.le_add_left ..)
    · rw [keptFields_cons_of_not_mismatch hmismatch, writtenBytes_cons, List.length_append]
      exact Nat.add_le_add_left ih _

/-- **What the kept fields wrote is all there is** exactly if those passed over wrote nothing. -/
theorem writtenBytes_keptFields_eq_iff :
    writtenBytes (keptFields pieces) = writtenBytes pieces ↔
      ∀ piece ∈ pieces, piece.writing.isMismatch = true → piece.writing.bytes = [] := by
  induction pieces with
  | nil => exact ⟨fun _ _ h => (List.not_mem_nil h).elim, fun _ => rfl⟩
  | cons piece pieces ih =>
    rw [List.forall_mem_cons, writtenBytes_cons, ← ih]
    by_cases hmismatch : piece.writing.isMismatch = true
    · rw [keptFields_cons_of_mismatch hmismatch]
      constructor
      · intro h
        have hle := length_writtenBytes_keptFields_le pieces
        rw [h, List.length_append] at hle
        have hnil : piece.writing.bytes = [] := List.eq_nil_of_length_eq_zero (by omega)
        exact ⟨fun _ => hnil, by rw [h, hnil, List.nil_append]⟩
      · rintro ⟨hnil, h⟩
        rw [hnil hmismatch, List.nil_append, h]
    · rw [keptFields_cons_of_not_mismatch hmismatch, writtenBytes_cons, List.append_cancel_left_eq]
      exact ⟨fun h => ⟨fun h' => absurd h' hmismatch, h⟩, And.right⟩

/-- The whole is written if what comes behind is. -/
theorem Codec.Writing.after_eq_done_iff {front : Bytes} {others : Writing} :
    others.after front = .done bytes ↔ ∃ back, others = .done back ∧ bytes = front ++ back := by
  obtain ⟨back, result⟩ := others
  constructor
  · intro h
    obtain ⟨rfl, rfl⟩ := Writing.mk.inj h
    exact ⟨back, rfl, rfl⟩
  · rintro ⟨_, heq, rfl⟩
    obtain ⟨rfl, rfl⟩ := Writing.mk.inj heq
    rfl

/-- The first field, and the others after it. -/
theorem writeFields_cons_eq_done_iff {field : Field} {first : Value → Run Writing}
    {rest : List (Field × (Value → Run Writing))} :
    writeFields members ((field, first) :: rest) table = some (.done bytes, table') ↔
      ∃ writing middle others,
        writeMember first (member? members field.member) table = some (writing, middle) ∧
        (writing.result = .ok () ∨ writing.isMismatch = true) ∧
        writeFields members rest middle = some (.done others, table') ∧
        bytes = writing.bytes ++ others := by
  -- what comes after a field that was written or passed over
  have hgoes : ∀ (writing : Writing) (middle : SlotTable),
      (do
        let others ← writeFields members rest
        pure (others.after writing.bytes) : Run Writing) middle = some (.done bytes, table') ↔
      ∃ others, writeFields members rest middle = some (.done others, table') ∧
        bytes = writing.bytes ++ others := by
    intro writing middle
    rw [bind_eq_some_iff]
    constructor
    · rintro ⟨others, _, hrest, hpure⟩
      obtain ⟨hbytes, rfl⟩ := Prod.mk.inj (Option.some.inj hpure)
      obtain ⟨back, rfl, rfl⟩ := Writing.after_eq_done_iff.1 hbytes
      exact ⟨back, hrest, rfl⟩
    · rintro ⟨others, hrest, rfl⟩
      exact ⟨_, _, hrest, rfl⟩
  rw [writeFields, bind_eq_some_iff]
  refine exists_congr fun writing => exists_congr fun middle => ?_
  rw [exists_and_left, exists_and_left, ← hgoes]
  refine and_congr_right fun _ => ?_
  obtain ⟨front, result⟩ := writing
  rcases result with e | ⟨⟩
  · cases e with
    | typeMismatch => exact ⟨fun h => ⟨.inr rfl, h⟩, And.right⟩
    | _ =>
      constructor
      · intro h
        cases h
      · rintro ⟨h | h, -⟩ <;> cases h
  · exact ⟨fun h => ⟨.inl rfl, h⟩, And.right⟩

/-- **A record is written field by field.** -/
theorem writeFields_eq_done_iff {bounds : List BoundField} :
    writeFields members (bounds.map fun bound => (bound.field, write bound)) table =
        some (.done bytes, table') ↔
      ∃ pieces, FieldsWritten write members table pieces table' ∧
        pieces.map FieldWriting.bound = bounds ∧ writtenBytes pieces = bytes := by
  induction bounds generalizing table bytes with
  | nil =>
    constructor
    · intro h
      obtain ⟨hbytes, rfl⟩ := Prod.mk.inj (Option.some.inj h)
      exact ⟨[], .nil, rfl, congrArg Writing.bytes hbytes⟩
    · rintro ⟨pieces, hwritten, hbounds, rfl⟩
      obtain rfl := List.map_eq_nil_iff.1 hbounds
      cases hwritten
      rfl
  -- from the first field to the table it left, and from there to the end
  | cons bound bounds ih =>
    rw [List.map_cons, writeFields_cons_eq_done_iff]
    constructor
    · rintro ⟨writing, middle, others, hfirst, hpasses, hrest, rfl⟩
      obtain ⟨pieces, hwritten, rfl, rfl⟩ := ih.1 hrest
      exact ⟨_, .cons hfirst hpasses hwritten, rfl, rfl⟩
    · rintro ⟨pieces, hwritten, hbounds, rfl⟩
      cases hwritten with
      | nil => cases hbounds
      | cons hfirst hpasses hrest =>
        obtain ⟨rfl, rfl⟩ := List.cons.inj hbounds
        exact ⟨_, _, _, hfirst, hpasses, ih.2 ⟨_, hrest, rfl, rfl⟩, rfl⟩

/-- Each field was written from the table before it to the table after it. -/
theorem FieldsWritten.written_of_mem (h : FieldsWritten write members table pieces table') :
    ∀ piece ∈ pieces, writeMember (write piece.bound) (member? members piece.bound.field.member)
      piece.before = some (piece.writing, piece.after) := by
  induction h with
  | nil => exact fun _ h => (List.not_mem_nil h).elim
  | cons hwrite _ _ ih => exact List.forall_mem_cons.2 ⟨hwrite, ih⟩

/-- A relation between slot tables that writing does not care for: a field is written alike from two of
them, and what a field does that is passed over does not matter. There are two uses of it. With equality,
it says that the fields passed over changed nothing. With soundness, it says that no field can see what
others have resolved. -/
structure Indifferent (write : BoundField → Value → Run Writing) (members : List (String × Value))
    (pieces : List FieldWriting) (Alike : SlotTable → SlotTable → Prop) : Prop where
  written : ∀ piece ∈ pieces, ∀ other, Alike piece.before other →
    ∃ after, writeMember (write piece.bound) (member? members piece.bound.field.member) other =
      some (piece.writing, after) ∧ Alike piece.after after
  passedOver : ∀ piece ∈ pieces, piece.writing.isMismatch = true →
    ∀ other, Alike piece.before other → Alike piece.after other

/-- **The kept fields are written alike without the others**, in slot tables that do not matter to
them. -/
theorem FieldsWritten.keep {Alike : SlotTable → SlotTable → Prop}
    (h : FieldsWritten write members table pieces table') (hblind : Indifferent write members pieces Alike)
    {other : SlotTable} (halike : Alike table other) :
    ∃ alone other', FieldsWritten write members other alone other' ∧
      alone.map FieldWriting.bound = (keptFields pieces).map FieldWriting.bound ∧
      writtenBytes alone = writtenBytes (keptFields pieces) := by
  induction h generalizing other with
  | nil => exact ⟨[], other, .nil, rfl, rfl⟩
  | @cons bound before after table writing pieces hwrite hpasses _ ih =>
    have hrest := @ih ⟨fun piece hmem => hblind.written piece (List.mem_cons_of_mem _ hmem),
      fun piece hmem => hblind.passedOver piece (List.mem_cons_of_mem _ hmem)⟩
    -- a field that was passed over is left out, and is not missed; the others are written again
    by_cases hmismatch : writing.isMismatch = true
    · have halike' := hblind.passedOver _ (List.mem_cons_self ..) hmismatch other halike
      obtain ⟨alone, other', hwritten, hbounds, hbytes⟩ := hrest halike'
      rw [keptFields_cons_of_mismatch hmismatch]
      exact ⟨alone, other', hwritten, hbounds, hbytes⟩
    · obtain ⟨after', hwrite', halike'⟩ := hblind.written _ (List.mem_cons_self ..) other halike
      obtain ⟨alone, other', hwritten, hbounds, hbytes⟩ := hrest halike'
      refine ⟨_, other', .cons hwrite' hpasses hwritten, ?_, ?_⟩
      · rw [keptFields_cons_of_not_mismatch hmismatch, List.map_cons, List.map_cons, hbounds]
      · rw [keptFields_cons_of_not_mismatch hmismatch, writtenBytes_cons, writtenBytes_cons, hbytes]

/-- Where no field that was passed over changed the slot table, the kept fields have the same tables. -/
theorem FieldsWritten.indifferent_of_unchanged (h : FieldsWritten write members table pieces table')
    (hunchanged : ∀ piece ∈ pieces, piece.writing.isMismatch = true → piece.after = piece.before) :
    Indifferent write members pieces Eq where
  written piece hmem other halike := by
    subst halike
    exact ⟨_, h.written_of_mem piece hmem, rfl⟩
  passedOver piece hmem hmismatch other halike := (hunchanged piece hmem hmismatch).trans halike

end Fields

/-! ## Records

The schema without the fields that were passed over is a schema of its own, and its adapter is bound to
the slots that the kept fields had. So it can be set to work on the table that the record was written
from, and no resolution has to be run for the comparison. -/

/-- The schema without the fields that were passed over. -/
def Schema.keeping (schema : Schema) (pieces : List FieldWriting) : Schema :=
  { schema with fields := (keptFields pieces).map fun piece => piece.bound.field }

/-- The adapter of a record without the fields that were passed over. -/
def recordOfKept (schema : Schema) (pieces : List FieldWriting) : Wiring :=
  .record (schema.keeping pieces) ((keptFields pieces).map FieldWriting.bound)

/-- Where the plan of a record is carried out, each field is bound, and it is a field of the plan. -/
theorem Plan.Wired.bound_of_mem {slotOf : TypeExpr → Option Nat} {schema schema' : Schema}
    {fields : List Field} {bounds : List BoundField}
    (h : (Plan.record schema' fields).Wired slotOf (.record schema bounds)) :
    ∀ bound ∈ bounds, bound.field ∈ fields ∧ bound.field.Bound slotOf bound := by
  cases h with
  | record _ hfields =>
    induction hfields with
    | nil => exact fun _ h => (List.not_mem_nil h).elim
    | @cons field bound _ _ hbound _ ih =>
      have hfield : bound.field = field := by cases hbound <;> rfl
      refine List.forall_mem_cons.2 ⟨⟨hfield ▸ List.mem_cons_self .., hfield ▸ hbound⟩, fun other hmem => ?_⟩
      exact ⟨List.mem_cons_of_mem _ (ih other hmem).1, (ih other hmem).2⟩

/-- The adapter of the kept fields carries out the plan of the schema that has no others. -/
theorem wired_recordOfKept {slotOf : TypeExpr → Option Nat} {version : UInt32} {schema : Schema}
    {pieces : List FieldWriting}
    (h : ∀ piece ∈ pieces, piece.bound.field.format.appliesAt version = true ∧
      piece.bound.field.Bound slotOf piece.bound) :
    (Plan.record (schema.keeping pieces) ((schema.keeping pieces).fieldsAt version)).Wired slotOf
      (recordOfKept schema pieces) := by
  have hkept : ∀ piece ∈ keptFields pieces, piece.bound.field.format.appliesAt version = true ∧
      piece.bound.field.Bound slotOf piece.bound :=
    fun piece hmem => h piece (List.mem_of_mem_filter hmem)
  refine .record _ ?_
  rw [Schema.fieldsAt, List.filter_eq_self.2]
  · rw [Schema.keeping, List.forall₂_map_left_iff, List.forall₂_map_right_iff, List.forall₂_same]
    exact fun piece hmem => (hkept piece hmem).2
  · intro field hfield
    obtain ⟨piece, hmem, rfl⟩ := List.mem_map.1 hfield
    exact (hkept piece hmem).1

/-- The adapter that a field is bound to is for values of another type. It refuses the value before it
writes anything, so such a field leaves no bytes behind when it is passed over. -/
def BoundField.Refuses (table : SlotTable) (bound : BoundField) (value : Value) : Prop :=
  match bound.target with
  | .own adapter => value.type ≠ adapter.type
  | .slot slot => value.type ≠ bound.field.type ∧
      ∃ adapter, table.slots[slot]? = some (some adapter) ∧ adapter.wiring.type = bound.field.type

/-- A run that matches a computation answers alike in all sound tables that extend the same one. -/
theorem Run.Matches.answers_alike {α : Type} {registry : Registry} {base before other : SlotTable}
    {run : Run α} {direct : Option α} (h : run.Matches registry base direct)
    (hbefore : before.Sound registry ∧ base.Extends before)
    (hother : other.Sound registry ∧ base.Extends other) {a : α} {after : SlotTable}
    (hrun : run before = some (a, after)) :
    (after.Sound registry ∧ base.Extends after) ∧
      ∃ after', run other = some (a, after') ∧ after'.Sound registry ∧ base.Extends after' := by
  have hfirst := h before hbefore.1 hbefore.2
  have hsecond := h other hother.1 hother.2
  cases direct with
  | none =>
    rw [show run before = none from hfirst] at hrun
    cases hrun
  | some b =>
    obtain ⟨_, hrun', hsound, hextends⟩ := hfirst
    obtain ⟨after', hother', hsound', hextends'⟩ := hsecond
    rw [hrun'] at hrun
    obtain ⟨rfl, rfl⟩ := Prod.mk.inj (Option.some.inj hrun)
    exact ⟨⟨hsound, hbefore.2.trans hextends⟩, after', hother', hsound', hother.2.trans hextends'⟩

namespace Registry

variable {registry : Registry} {version : UInt32} {fuel depth : Nat} {schema : Schema}
variable {bounds : List BoundField} {pieces : List FieldWriting} {format : FieldFormat} {name : String}
variable {members : List (String × Value)} {table table' : SlotTable} {bytes : Bytes}

/-- **A record is written by its fields**, if the adapter is one for it and it is not nested too deep. -/
theorem writeIn_record_eq_done_iff :
    registry.writeIn version (fuel + 1) depth (.record schema bounds) format
        (some (.record name members)) table = some (.done bytes, table') ↔
      schema.type = .record name ∧ depth < registry.limits.maxDepth ∧
      ∃ pieces, FieldsWritten (registry.writeField version (registry.writeIn version fuel (depth + 1)))
          members table pieces table' ∧
        pieces.map FieldWriting.bound = bounds ∧ writtenBytes pieces = bytes := by
  have hall : (some (Value.record name members)).all
      (fun value => value.type = (Wiring.record schema bounds).type) = true ↔ schema.type = .record name := by
    rw [Option.all_some, decide_eq_true_iff]
    exact eq_comm
  rw [← writeFields_eq_done_iff, writeIn, writeStep]
  by_cases htype : schema.type = .record name
  · rw [if_pos (hall.2 htype)]
    simp only [writeOwn]
    by_cases hdeep : registry.limits.maxDepth ≤ depth
    · rw [if_pos hdeep]
      constructor
      · intro h
        cases h
      · exact fun h => absurd h.2.1 (Nat.not_lt.2 hdeep)
    · rw [if_neg hdeep]
      exact ⟨fun h => ⟨htype, Nat.lt_of_not_le hdeep, h⟩, fun h => h.2.2⟩
  · rw [if_neg (fun h => htype (hall.1 h))]
    constructor
    · intro h
      cases h
    · exact fun h => absurd h.1 htype

/-- **A record is written alike without the fields that were passed over**, if what those did to the slot
table does not matter. -/
theorem writeIn_recordOfKept {Alike : SlotTable → SlotTable → Prop} (htype : schema.type = .record name)
    (hdeep : depth < registry.limits.maxDepth)
    (h : FieldsWritten (registry.writeField version (registry.writeIn version fuel (depth + 1))) members
      table pieces table')
    (hblind : Indifferent (registry.writeField version (registry.writeIn version fuel (depth + 1))) members
      pieces Alike)
    (halike : Alike table table) :
    ∃ table'', registry.writeIn version (fuel + 1) depth (recordOfKept schema pieces) format
      (some (.record name members)) table =
        some (.done (writtenBytes (keptFields pieces)), table'') := by
  obtain ⟨alone, table'', hwritten, hbounds, hbytes⟩ := h.keep hblind halike
  exact ⟨table'', writeIn_record_eq_done_iff.2 ⟨htype, hdeep, alone, hwritten, hbounds, hbytes⟩⟩

/-- The plan of a record is that of a schema, unless a caller's adapter serves it. -/
theorem eq_record_of_plan? {slotOf : TypeExpr → Option Nat} {plan : Plan}
    (hplan : registry.plan? version (.record name) = some plan)
    (hwired : plan.Wired slotOf (.record schema bounds)) : plan = .record schema (schema.fieldsAt version) := by
  cases hadapter : registry.adapter? (.record name) with
  | some adapter =>
    rw [plan?_of_adapter? hadapter] at hplan
    obtain rfl := Option.some.inj hplan
    cases hwired
  | none =>
    rw [plan?_of_no_adapter? hadapter] at hplan
    obtain ⟨found, -, rfl⟩ := Option.map_eq_some_iff.1 hplan
    cases hwired
    rfl

/-- What serves a record, and the table after finding it, in a registry without factories. -/
theorem adapterOf_record_spec (hfactories : registry.factories = []) {origin : Origin}
    (hsound : table.Sound registry)
    (h : registry.adapterOf version (.record name members) table =
      some (.ok ⟨origin, .record schema bounds⟩, table')) :
    table'.Sound registry ∧ ∀ bound ∈ bounds, bound.field.format.appliesAt version = true ∧
      bound.field.Bound (table'.slotOf version) bound := by
  obtain ⟨answer, after, hrun, hresolves⟩ := registry.resolve_spec hfactories hsound (.record name) version
  rw [adapterOf, Value.type, bind_of_eq_some hrun] at h
  cases hresolves with
  | error => cases h
  | ok _ hsound' _ hslot =>
    obtain ⟨served, hfilled, hserves⟩ := hsound'.served version _ _ hslot
    have hsame := (Run.adapterAt_of_filled hfilled).symm.trans h
    obtain ⟨heq, rfl⟩ := Prod.mk.inj (Option.some.inj hsame)
    obtain rfl := Except.ok.inj heq
    obtain ⟨plan, hplan, hwired, -⟩ := hserves
    obtain rfl := eq_record_of_plan? hplan hwired
    refine ⟨hsound', fun bound hmem => ?_⟩
    obtain ⟨hfield, hbound⟩ := hwired.bound_of_mem bound hmem
    exact ⟨(List.mem_filter.1 hfield).2, hbound⟩

/-- Writing a value as its own type asks for its adapter first. -/
theorem encodeIn_of_adapterOf {value : Value} {adapter : Adapter} {bound : SlotTable}
    (h : registry.adapterOf version value table = some (.ok adapter, bound)) :
    registry.encodeIn fuel value version table =
      registry.writeIn version fuel 0 adapter.wiring {} (some value) bound := by
  obtain ⟨answer, after, hresolve, hadapter⟩ := bind_eq_some_iff.1 h
  cases answer with
  | error e => cases hadapter
  | ok slot =>
    rw [encodeIn, writeType, bind_of_eq_some hresolve]
    exact bind_of_eq_some hadapter

/-- In a registry without factories, the fields of a record can not see what others did to the slot
table. -/
theorem indifferent_of_no_factories (hfactories : registry.factories = [])
    (h : FieldsWritten (registry.writeField version (registry.writeIn version fuel depth)) members
      table pieces table')
    (hbound : ∀ piece ∈ pieces, piece.bound.field.Bound (table.slotOf version) piece.bound) :
    Indifferent (registry.writeField version (registry.writeIn version fuel depth)) members pieces
      fun before other => (before.Sound registry ∧ table.Extends before) ∧
        (other.Sound registry ∧ table.Extends other) := by
  have hspared : registry.Spares version fun _ => True := spares_all hfactories
  have hmatches : ∀ piece ∈ pieces, ∃ direct, Run.Matches registry table
      (writeMember (registry.writeField version (registry.writeIn version fuel depth) piece.bound)
        (member? members piece.bound.field.member)) direct := by
    intro piece hmem
    cases member? members piece.bound.field.member with
    | none => exact ⟨_, Run.matches_pure _⟩
    | some value =>
      exact ⟨_, writeField_matches hspared (writeIn_matches hspared fuel) (Field.within_all _)
        (hbound piece hmem) depth value.within_all⟩
  constructor
  · rintro piece hmem other ⟨hbefore, hother⟩
    obtain ⟨direct, hdirect⟩ := hmatches piece hmem
    obtain ⟨hafter, after, hrun, hafter'⟩ :=
      hdirect.answers_alike hbefore hother (h.written_of_mem piece hmem)
    exact ⟨after, hrun, hafter, hafter'⟩
  · rintro piece hmem - other ⟨hbefore, hother⟩
    obtain ⟨direct, hdirect⟩ := hmatches piece hmem
    exact ⟨(hdirect.answers_alike hbefore hother (h.written_of_mem piece hmem)).1, hother⟩

/-- An adapter refuses a value of another type than its own before it does anything. -/
theorem writeIn_of_type_ne {wiring : Wiring} {value : Value} (hne : value.type ≠ wiring.type)
    {writing : Writing}
    (h : registry.writeIn version fuel depth wiring format (some value) table = some (writing, table')) :
    writing = .failed (.typeMismatch wiring.type) ∧ table' = table := by
  cases fuel with
  | zero => cases h
  | succ fuel =>
    -- the type of the value is compared before the wiring is looked at
    have hall : ¬ (some value).all (fun value => value.type = wiring.type) = true := by
      rw [Option.all_some, decide_eq_true_iff]
      exact hne
    rw [writeIn, writeStep, if_neg hall] at h
    obtain ⟨rfl, rfl⟩ := Prod.mk.inj (Option.some.inj h)
    exact ⟨rfl, rfl⟩

/-- **A field whose adapter is for other values leaves nothing.** -/
theorem writeField_of_refuses {bound : BoundField} {value : Value} {writing : Writing}
    (hrefuses : bound.Refuses table value)
    (h : registry.writeField version (registry.writeIn version fuel depth) bound value table =
      some (writing, table')) :
    writing.isMismatch = true ∧ writing.bytes = [] ∧ table' = table := by
  obtain ⟨field, target⟩ := bound
  cases target with
  | own adapter =>
    -- the adapter is the one of the field, or the one in the slot
    have hne : value.type ≠ (Wiring.leaf (.caller adapter)).type := hrefuses
    obtain ⟨rfl, rfl⟩ := writeIn_of_type_ne hne h
    exact ⟨rfl, rfl, rfl⟩
  | slot slot =>
    obtain ⟨hne, adapter, hfilled, htype⟩ := hrefuses
    have hadapter := Run.adapterAt_of_filled hfilled
    simp only [writeField, writeDeclared] at h
    rw [bind_of_eq_some hadapter] at h
    simp only [if_neg fun hheld : _ ∧ _ => hne hheld.1] at h
    obtain ⟨rfl, rfl⟩ := writeIn_of_type_ne (htype ▸ hne) h
    exact ⟨rfl, rfl, rfl⟩

/-- **What a field that is passed over leaves.** A record that is written has its fields written one after
the other, some of them passed over as their values are of the wrong type, and its bytes are those of all
of them. So they are the bytes of the kept fields exactly if no field that was passed over had written
anything before it failed, and a field whose adapter is for other values never has.

The bytes of the kept fields are what the schema without the other fields writes. In a registry without
factories that is always so, after any history. With factories, it is so if the fields that were passed
over have not changed the slot table.

All of this holds however deep adapters may call each other, and so of `encode`, which is the case of
`callFuel`. -/
theorem encode_keeps_passed_over {origin : Origin} {bound : SlotTable} {calls : Nat}
    (h : registry.encodeIn calls (.record name members) version table = some (.done bytes, table'))
    (hadapter : registry.adapterOf version (.record name members) table =
      some (.ok ⟨origin, .record schema bounds⟩, bound)) :
    ∃ fuel pieces, calls = fuel + 1 ∧
      FieldsWritten (registry.writeField version (registry.writeIn version fuel 1)) members bound pieces
        table' ∧
      pieces.map FieldWriting.bound = bounds ∧ writtenBytes pieces = bytes ∧
      (writtenBytes (keptFields pieces) = bytes ↔
        ∀ piece ∈ pieces, piece.writing.isMismatch = true → piece.writing.bytes = []) ∧
      (∀ piece ∈ pieces, ∀ value, member? members piece.bound.field.member = some value →
        piece.bound.Refuses piece.before value →
          piece.writing.isMismatch = true ∧ piece.writing.bytes = [] ∧ piece.after = piece.before) ∧
      (registry.factories = [] ∧ registry.Reached table →
        (Plan.record (schema.keeping pieces) ((schema.keeping pieces).fieldsAt version)).Wired
          (bound.slotOf version) (recordOfKept schema pieces)) ∧
      (registry.factories = [] ∧ registry.Reached table ∨
          (∀ piece ∈ pieces, piece.writing.isMismatch = true → piece.after = piece.before) →
        ∃ table'', registry.writeIn version (fuel + 1) 0 (recordOfKept schema pieces) {}
          (some (.record name members)) bound =
            some (.done (writtenBytes (keptFields pieces)), table'')) := by
  rw [encodeIn_of_adapterOf hadapter] at h
  obtain ⟨fuel, rfl⟩ : ∃ fuel, calls = fuel + 1 := by
    refine Nat.exists_eq_succ_of_ne_zero ?_
    rintro rfl
    cases h
  obtain ⟨htype, hdeep, pieces, hwritten, rfl, rfl⟩ := writeIn_record_eq_done_iff.1 h
  -- without factories, finding the adapter of the record leaves a sound table and bound fields
  have hspec : registry.factories = [] ∧ registry.Reached table →
      bound.Sound registry ∧ ∀ piece ∈ pieces, piece.bound.field.format.appliesAt version = true ∧
        piece.bound.field.Bound (bound.slotOf version) piece.bound := by
    rintro ⟨hfactories, hreached⟩
    obtain ⟨hsound, hbounds⟩ :=
      adapterOf_record_spec hfactories (hreached.sound hfactories) hadapter
    exact ⟨hsound, fun piece hmem => hbounds piece.bound (List.mem_map_of_mem hmem)⟩
  refine ⟨fuel, pieces, rfl, hwritten, rfl, rfl, writtenBytes_keptFields_eq_iff, ?refused,
    fun hplain => wired_recordOfKept (hspec hplain).2, ?kept⟩
  case refused =>
    intro piece hmem value hvalue hrefuses
    have hwrite := hwritten.written_of_mem piece hmem
    rw [hvalue] at hwrite
    exact writeField_of_refuses hrefuses hwrite
  case kept =>
    rintro (hplain | hunchanged)
    · obtain ⟨hsound, hbounds⟩ := hspec hplain
      have hblind := indifferent_of_no_factories hplain.1 hwritten fun piece hmem => (hbounds piece hmem).2
      exact writeIn_recordOfKept htype hdeep hwritten hblind ⟨⟨hsound, .refl _⟩, hsound, .refl _⟩
    · exact writeIn_recordOfKept htype hdeep hwritten (hwritten.indifferent_of_unchanged hunchanged) rfl

/-- An adapter for small numbers that marks its field and then finds the value to be of a wrong type. -/
def fussyAdapter : CallerAdapter where
  type := .scalar (.int .u8)
  read _ source := .finish (.absent source)
  write _ _ := .finish ⟨[0xEE], .error (.typeMismatch (.foreign "gauge"))⟩

def gaugeField : Field :=
  { name := "gauge", member := "gauge", type := .scalar (.int .u8), format := {},
    adapter := some fussyAdapter }

def itemsField : Field :=
  { name := "items", member := "items", type := .sequence .list (.family "item"), format := { length := 2 },
    adapter := none }

def footField : Field :=
  { name := "stamp", member := "stamp", type := .scalar (.int .u8), format := {}, adapter := none }

/-- Batches of some fields. -/
def batchSchema (fields : List Field) : Schema :=
  { type := .record "batch", fields := fields, initial := [] }

/-- A factory that has small numbers written by the adapter for larger ones. -/
def mixUpFactory : Factory := fun _ type =>
  .finish (.ok (if type = .scalar (.int .u16) then some ⟨.builtin, .scalar (.int .u32)⟩ else none))

/-- A gauge is passed over. Its mark stays, though the stamp alone is all that the schema without gauges
has written. -/
theorem encode_keeps_passed_over_of_gauge :
    let registry : Registry := { schemas := [batchSchema [gaugeField, footField]] }
    let members : List (String × Value) := [("gauge", .int .u8 1), ("stamp", .int .u8 2)]
    ∃ fuel bound pieces table, FieldsWritten (registry.writeField 1 (registry.writeIn 1 fuel 1)) members bound
        pieces table ∧
      writtenBytes pieces = [0xEE, 2] ∧ writtenBytes (keptFields pieces) ≠ [0xEE, 2] ∧
      ∃ table', registry.writeIn 1 (fuel + 1) 0
        (recordOfKept (batchSchema [gaugeField, footField]) pieces) {} (some (.record "batch" members)) bound =
          some (.done (writtenBytes (keptFields pieces)), table') := by
  intro registry members
  obtain ⟨table, hencode⟩ : ∃ table, registry.encode (.record "batch" members) 1 {} =
      some (.done [0xEE, 2], table) := ⟨_, rfl⟩
  obtain ⟨bound, hadapter⟩ : ∃ bound, registry.adapterOf 1 (.record "batch" members) {} =
      some (.ok ⟨.generic, .record (batchSchema [gaugeField, footField])
        [⟨gaugeField, .own fussyAdapter⟩, ⟨footField, .slot 1⟩]⟩, bound) := ⟨_, rfl⟩
  obtain ⟨fuel, pieces, hfuel, hwritten, hbounds, hbytes, hsame, -, -, hkept⟩ :=
    encode_keeps_passed_over hencode hadapter
  refine ⟨fuel, bound, pieces, table, hwritten, hbytes, ?_, hkept (.inl ⟨rfl, .fresh⟩)⟩
  intro heq
  obtain ⟨piece, hmem, hpiece⟩ := List.mem_map.1 (hbounds ▸ List.mem_cons_self ..)
  have hwrite := hwritten.written_of_mem piece hmem
  rw [hpiece] at hwrite
  obtain ⟨deeper, rfl⟩ : ∃ deeper, fuel = deeper + 1 := Nat.exists_eq_succ_of_ne_zero (by
    rintro rfl
    exact absurd hfuel (by decide))
  have hmark : (⟨[0xEE], .error (.typeMismatch (.foreign "gauge"))⟩, piece.before) =
    (piece.writing, piece.after) := Option.some.inj hwrite
  obtain ⟨hmark, -⟩ := Prod.mk.inj hmark
  have hnil := hsame.1 heq piece hmem (by rw [← hmark]; rfl)
  rw [← hmark] at hnil
  cases hnil

/-- **A field that is passed over leaves half of what it holds.** The first of two items is a text and is
written, the second is a small number that the factory has mixed up. The list of items is passed over, and
the text stays in front of the stamp, where the schema without items writes the stamp alone. -/
theorem encode_keeps_half_written_field :
    let items : Value := .sequence .list (.family "item")
      [.variant "item" "name" (.text "ab"), .variant "item" "count" (.int .u16 5)]
    let batch : Value := .record "batch" [("items", items), ("stamp", .int .u8 7)]
    let registry (fields : List Field) : Registry :=
      { schemas := [batchSchema fields], factories := [mixUpFactory] }
    let whole := registry [itemsField, footField]
    ((whole.adapterOf 1 batch {}).bind fun found =>
      ((whole.writeField 1 (whole.writeIn 1 (whole.callFuel batch.weight - 1) 1) ⟨itemsField, .slot 1⟩
        items).answer found.2).map fun writing => (writing.bytes, writing.result)) =
          some ([0x61, 0x62], .error (.typeMismatch (.scalar (.int .u32)))) ∧
      ((whole.encode batch 1).answer {}).map (fun writing => (writing.bytes, writing.result)) =
        some ([0x61, 0x62, 7], .ok ()) ∧
      (((registry [footField]).encode batch 1).answer {}).map
        (fun writing => (writing.bytes, writing.result)) = some ([7], .ok ()) := by
  decide +kernel

end Registry

end Telegram
