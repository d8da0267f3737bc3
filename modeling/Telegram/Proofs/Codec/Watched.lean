import Telegram.Proofs.Codec.Hostile

/-!
# Watching what a field reads

A field whose type is a container reads more than one value: what an optional may hold, each element of a
sequence, and so on down to the scalars and records at the end. Each of these readings has a format of its
own, which the containers above hand down. This module says which readings a field comes to, whatever the
bytes are.

* `Visit` is one such reading, and `TypeExpr.visits` lists them for a type and a format.
* `Registry.readWatched` reads like `Registry.readIn`, and gives no answer as soon as it comes to a
  reading that is forbidden. `Registry.Avoids` says of a field that this makes no difference: the field
  never comes to a forbidden reading.
* `Registry.avoids_iff`: that is so exactly when none of the listed readings is forbidden. The list is
  sound by `Registry.SchemasOnly.readWatched_eq`, and complete because on any byte the first element of
  everything is read (`Registry.readWatched_eq_none`), where plain reading has an answer.

The watch ends at records: their fields have formats of their own.

What a field comes to is defined by its effect and not by a list, so that the list has something to be
right about. To forbid a reading is to make it have no answer; a call that never comes to it can not tell
the difference.
-/

namespace Telegram

open Codec

/-- One reading that a field comes to. This is all that the rules of registration are about: no rule looks
at the bytes, or at what was read before. -/
structure Visit where
  /-- It reads an element of a sequence, or something inside one. -/
  inSequence : Bool
  type : TypeExpr
  format : FieldFormat

/-- The readings that reading a type comes to. A sequence without elements reads none. -/
def TypeExpr.visits : TypeExpr → Bool → FieldFormat → List Visit
  | .optional element, inSequence, format =>
    ⟨inSequence, .optional element, format⟩ :: element.visits inSequence format
  | .sequence container element, inSequence, format =>
    ⟨inSequence, .sequence container element, format⟩ ::
      if container.size?.getD format.length = 0 then [] else element.visits true format.element
  | type, inSequence, format => [⟨inSequence, type, format⟩]

theorem TypeExpr.mem_visits_self (type : TypeExpr) (inSequence : Bool) (format : FieldFormat) :
    ⟨inSequence, type, format⟩ ∈ type.visits inSequence format := by
  cases type <;> exact List.mem_cons_self

namespace Registry

/-! ## Reading under watch

The watched recursion is that of the codec with one question in front of each step. It has the same two
forms, by adapters and by plans, and they are related in the same way. -/

/-- Reads with an adapter, and gives no answer as soon as a forbidden reading is come to. What a sequence
holds is inside it, also further down. -/
def readWatched (registry : Registry) (version : UInt32) (forbidden : Visit → Bool) :
    Nat → Bool → ReadWith
  | 0, _ => fun _ _ _ _ _ => none
  | fuel + 1, inSequence => fun depth wiring format source =>
    if forbidden ⟨inSequence, wiring.type, format⟩ then fun _ => none
    else
      let read := match wiring with
        | .optional .. => registry.readWatched version forbidden fuel inSequence
        | .sequence .. => registry.readWatched version forbidden fuel true
        | _ => registry.readIn version fuel
      registry.readStep version read depth wiring format source

/-- The same by plans. -/
def readWatchedDirect (registry : Registry) (version : UInt32) (forbidden : Visit → Bool) :
    Nat → Bool → ReadPlan
  | 0, _ => fun _ _ _ _ => none
  | fuel + 1, inSequence => fun depth plan format source =>
    if forbidden ⟨inSequence, plan.type, format⟩ then none
    else
      let read := match plan with
        | .optional _ => registry.readWatchedDirect version forbidden fuel inSequence
        | .sequence .. => registry.readWatchedDirect version forbidden fuel true
        | _ => registry.readDirect version fuel
      registry.readStepDirect version read depth plan format source

/-- Reading the field never comes to a forbidden reading, whatever the bytes are, and whatever was called
before the adapter of the field was looked up: to refuse such readings changes no answer. -/
def Avoids (registry : Registry) (version : UInt32) (forbidden : Visit → Bool) (field : Field) : Prop :=
  ∀ table, registry.Reached table → ∀ bound, field.Bound (table.slotOf version) bound →
    ∀ fuel depth source,
      (readBound (registry.readWatched version forbidden fuel false depth) bound source).answer table =
        (readBound (registry.readIn version fuel depth) bound source).answer table

variable {registry : Registry} {version : UInt32} {forbidden : Visit → Bool}

/-- **Watching by adapters and by plans is alike**, with any fuel. -/
theorem readWatched_matches (hfactories : registry.factories = []) (fuel : Nat) : ∀ inSequence : Bool,
    ReadsAlike registry version (fun _ => True) (registry.readWatched version forbidden fuel inSequence)
      (registry.readWatchedDirect version forbidden fuel inSequence) := by
  have hspared : registry.Spares version fun _ => True := spares_all hfactories
  induction fuel with
  | zero => exact fun _ _ _ _ _ _ _ _ _ => Run.matches_none
  | succ fuel ih =>
    intro inSequence table depth plan wiring format source hwithin hwired
    simp only [readWatched, readWatchedDirect, hwired.type_eq]
    split
    · exact Run.matches_none
    · have hplain := readStep_matches hspared (readIn_matches hspared fuel) table depth
      cases hwired with
      | leaf leaf => exact hplain _ _ format source hwithin (.leaf leaf)
      | optional hslot =>
        exact readStep_matches hspared (ih inSequence) table depth _ _ format source hwithin (.optional hslot)
      | sequence container hslot =>
        exact readStep_matches hspared (ih true) table depth _ _ format source hwithin
          (.sequence container hslot)
      | family name => exact hplain _ _ format source hwithin (.family name)
      | record schema hfields => exact hplain _ _ format source hwithin (.record schema hfields)

/-! ## The readings that are listed

Soundness is by induction on the type, as the list is. Completeness needs a buffer on which everything is
come to. One byte is enough: it is not empty, so every sequence tries its first element, and whatever that
reads, the way down to the first scalar has been gone. -/

/-- **No other reading is come to**: where no listed reading is forbidden, watching changes nothing. -/
theorem SchemasOnly.readWatched_eq (hplain : registry.SchemasOnly) (type : TypeExpr) :
    ∀ (inSequence : Bool) (format : FieldFormat),
      (∀ visit ∈ type.visits inSequence format, forbidden visit = false) →
      ∀ fuel depth source,
        registry.readNeed version (registry.readWatchedDirect version forbidden fuel inSequence depth) type
            format source =
          registry.readNeed version (registry.readDirect version fuel depth) type format source := by
  induction type with
  | scalar | foreign | record | family =>
    intro inSequence format hallowed fuel depth source
    have hself := hallowed _ (TypeExpr.mem_visits_self _ inSequence format)
    simp only [readNeed]
    split
    · rename_i plan hplan
      rw [← type_of_plan? hplan] at hself
      cases fuel with
      | zero => rfl
      | succ fuel =>
        rw [hplain.plan?_eq] at hplan
        simp only [readWatchedDirect, readDirect, hself, Bool.false_eq_true, if_false]
        cases plan with
        | leaf | family | record => rfl
        | optional | sequence => simp [builtinPlan?] at hplan
    · rfl
  | optional element ih =>
    intro inSequence format hallowed fuel depth source
    rw [TypeExpr.visits, List.forall_mem_cons] at hallowed
    simp only [readNeed, hplain.plan?_eq, builtinPlan?]
    cases fuel with
    | zero => rfl
    | succ fuel =>
      simp only [readWatchedDirect, readDirect, Plan.type, hallowed.1, Bool.false_eq_true, if_false,
        readStepDirect, ih inSequence format hallowed.2]
  | sequence container element ih =>
    intro inSequence format hallowed fuel depth source
    rw [TypeExpr.visits, List.forall_mem_cons] at hallowed
    simp only [readNeed, hplain.plan?_eq, builtinPlan?]
    cases fuel with
    | zero => rfl
    | succ fuel =>
      simp only [readWatchedDirect, readDirect, Plan.type, hallowed.1, Bool.false_eq_true, if_false,
        readStepDirect]
      by_cases hcount : container.size?.getD format.length = 0
      · simp only [hcount, readItems]
      · rw [if_neg hcount] at hallowed
        have hitems : registry.readNeed version
            (registry.readWatchedDirect version forbidden fuel true depth) element format.element =
              registry.readNeed version (registry.readDirect version fuel depth) element format.element :=
          funext (ih true format.element hallowed.2 fuel depth)
        rw [hitems]

/-- A forbidden reading has no answer under watch. -/
theorem readWatchedDirect_of_forbidden {inSequence : Bool} {plan : Plan} {format : FieldFormat}
    (h : forbidden ⟨inSequence, plan.type, format⟩ = true) (fuel depth : Nat) (source : Bytes) :
    registry.readWatchedDirect version forbidden fuel inSequence depth plan format source = none := by
  cases fuel with
  | zero => rfl
  | succ fuel => simp only [readWatchedDirect, h, if_true]

/-- **Every listed reading is come to** on any bytes at all: where one of them is forbidden, watching
leaves no answer. The first elements of sequences lead there. -/
theorem SchemasOnly.readWatched_eq_none (hplain : registry.SchemasOnly) (type : TypeExpr) :
    ∀ (inSequence : Bool) (format : FieldFormat),
      (∀ other, registry.Reaches version type other → registry.HasAdapter other) →
      (∃ visit ∈ type.visits inSequence format, forbidden visit = true) →
      ∀ fuel depth source, source ≠ [] →
        registry.readNeed version (registry.readWatchedDirect version forbidden fuel inSequence depth) type
          format source = none := by
  have hadapter := hplain.adapter?_eq
  induction type with
  | scalar | foreign | record | family =>
    intro inSequence format hserved hvisit fuel depth source _
    obtain ⟨visit, hmem, hforbidden⟩ := hvisit
    obtain rfl := List.mem_singleton.1 hmem
    obtain ⟨plan, hplan⟩ : ∃ plan, registry.plan? version _ = some plan :=
      hasAdapter_iff.1 (hserved _ .refl)
    rw [← type_of_plan? hplan] at hforbidden
    simp only [readNeed, hplan]
    exact readWatchedDirect_of_forbidden hforbidden fuel depth source
  | optional element ih =>
    intro inSequence format hserved hvisit fuel depth source hsource
    simp only [readNeed, hplain.plan?_eq, builtinPlan?]
    rw [TypeExpr.visits, List.exists_mem_cons_iff] at hvisit
    rcases hvisit with hself | hbelow
    · exact readWatchedDirect_of_forbidden hself fuel depth source
    · have helement := ih inSequence format
        (fun other h => hserved other (.head (.optional (hadapter _)) h)) hbelow
      cases fuel with
      | zero => rfl
      | succ fuel =>
        simp only [readWatchedDirect, readStepDirect, helement fuel depth source hsource]
        split <;> rfl
  | sequence container element ih =>
    intro inSequence format hserved hvisit fuel depth source hsource
    simp only [readNeed, hplain.plan?_eq, builtinPlan?]
    rw [TypeExpr.visits, List.exists_mem_cons_iff] at hvisit
    rcases hvisit with hself | hbelow
    · exact readWatchedDirect_of_forbidden hself fuel depth source
    · cases fuel with
      | zero => rfl
      | succ fuel =>
        cases hcount : container.size?.getD format.length with
        | zero =>
          rw [if_pos hcount] at hbelow
          obtain ⟨_, hmem, _⟩ := hbelow
          cases hmem
        | succ count =>
          rw [if_neg (by omega)] at hbelow
          have helement := ih true format.element
            (fun other h => hserved other (.head (.sequence (hadapter _)) h)) hbelow
          simp only [readWatchedDirect, readStepDirect, hcount, readItems,
            helement fuel depth source hsource]
          split
          · rfl
          · rw [if_neg (by simpa using hsource)]
            rfl

/-- **Which readings a type comes to**: watching makes no difference exactly when none of those that are
listed is forbidden. -/
theorem SchemasOnly.readWatched_eq_iff (hplain : registry.SchemasOnly) {type : TypeExpr}
    (hserved : ∀ other, registry.Reaches version type other → registry.HasAdapter other)
    (inSequence : Bool) (format : FieldFormat) :
    (∀ fuel depth source,
        registry.readNeed version (registry.readWatchedDirect version forbidden fuel inSequence depth) type
            format source =
          registry.readNeed version (registry.readDirect version fuel depth) type format source) ↔
      ∀ visit ∈ type.visits inSequence format, forbidden visit = false := by
  refine ⟨fun hsame visit hvisit => ?_, fun hallowed => hplain.readWatched_eq type inSequence format hallowed⟩
  rw [← Bool.not_eq_true]
  intro hforbidden
  -- one byte is enough to come to everything, and there plain reading has an answer
  have hanswered : Answered (registry.callDepth 0 type) fun fuel =>
      registry.readNeed version (registry.readDirect version fuel 0) type format [0] :=
    hplain.readNeed_answered _ 0 type format [0] (Nat.le_refl _)
  obtain ⟨reading, hreading⟩ := hanswered
  have hanswer : registry.readNeed version (registry.readDirect version _ 0) type format [0] = some reading :=
    hreading _ (Nat.le_refl _)
  rw [← hsame, hplain.readWatched_eq_none type inSequence format hserved ⟨visit, hvisit, hforbidden⟩ _ _ _
    (List.cons_ne_nil _ _)] at hanswer
  cases hanswer

/-! ## Fields

A field is read through the slot that its type has, and the slot is only there if the type can be
resolved. That is the one assumption on it. -/

/-- A type that can be resolved has a slot after some call. -/
theorem exists_slotOf_of_resolve (hfactories : registry.factories = []) {type : TypeExpr} {slot : Nat}
    (h : Run.answer (registry.resolve type version) {} = some (.ok slot)) :
    ∃ table, registry.Reached table ∧ table.slotOf version type = some slot := by
  obtain ⟨answer, table, hrun, hresolves⟩ :=
    registry.resolve_spec hfactories (SlotTable.sound_empty registry) type version
  refine ⟨table, .resolve .fresh hrun, ?_⟩
  rw [Run.answer, hrun] at h
  obtain rfl := Option.some.inj h
  cases hresolves with
  | ok _ _ _ hslot => exact hslot

/-- **Which readings a field comes to**: it avoids the forbidden ones exactly when none of the listed
readings of its type is forbidden. -/
theorem SchemasOnly.avoids_iff (hplain : registry.SchemasOnly) {field : Field}
    (hown : field.adapter = none) {slot : Nat}
    (hresolves : Run.answer (registry.resolve field.type version) {} = some (.ok slot)) :
    registry.Avoids version forbidden field ↔
      ∀ visit ∈ field.type.visits false field.format, forbidden visit = false := by
  have hfactories := hplain.factories_eq
  have hspared : registry.Spares version fun _ => True := spares_all hfactories
  have hserved := hasAdapter_of_resolve hfactories hresolves
  rw [← hplain.readWatched_eq_iff hserved]
  -- what is read through the slot of a field is what its plan says, under watch as well as without
  have hread : ∀ {table} (_ : registry.Reached table) {bound} (_ : field.Bound (table.slotOf version) bound)
      {read : ReadWith} {direct : ReadPlan} (_ : ReadsAlike registry version (fun _ => True) read direct)
      (depth : Nat) (source : Bytes), (readBound (read depth) bound source).answer table =
        registry.readNeed version (direct depth) field.type field.format source := by
    intro table hreached bound hbound read direct halike depth source
    rw [(readBound_matches hspared halike field.within_all hbound depth source).answer_eq
      (hreached.sound hfactories)]
    simp only [readFieldDirect, hown]
  constructor
  · intro havoids fuel depth source
    obtain ⟨table, hreached, hslot⟩ := exists_slotOf_of_resolve hfactories hresolves
    have hbound : field.Bound (table.slotOf version) ⟨field, .slot slot⟩ := .slot hown hslot
    have hsame := havoids table hreached _ hbound fuel depth source
    rwa [hread hreached hbound (readWatched_matches hfactories fuel false),
      hread hreached hbound (readIn_matches hspared fuel)] at hsame
  · intro hsame table hreached bound hbound fuel depth source
    rw [hread hreached hbound (readWatched_matches hfactories fuel false),
      hread hreached hbound (readIn_matches hspared fuel), hsame]

end Registry

end Telegram
