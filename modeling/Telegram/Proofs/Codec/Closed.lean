import Telegram.Codec.Write

/-!
# What calls are made of

However an adapter reads or writes, and whatever programs callers bring, a call does only four things with
the slot table: it looks into a slot, it has a type resolved, it goes on with what it was answered, and it
ends. So what holds of these four holds of every call.

* `Run.Closed` says that a property of runs is kept by the four.
* `Run.Closed.readStep` and `Run.Closed.writeStep`: then one step of reading or writing has the property,
  if the calls it makes have it. There is one lemma for each loop and each part of a step.

Properties of this kind are that the slot table stays sound, that it only grows, that no more slots are in
use than there are types cached. None of them has anything to do with what is read or written, and going
through the codec once for each of them would be the same proof every time.
-/

namespace Telegram

open Codec

/-- The property holds of the runs that calls are made of, at one version, and of what is made of them.

Sequencing is asked for in the form in which the codec uses it, with a property of the second run whatever
the first answered. A property that speaks of the first answer has to be put into this form by quantifying
over it. -/
structure Run.Closed (registry : Registry) (version : UInt32) (P : (α : Type) → Run α → Prop) : Prop where
  pure : ∀ {α : Type} (a : α), P α (pure a)
  bind : ∀ {α β : Type} {run : Run α} {next : α → Run β}, P α run → (∀ a, P β (next a)) →
    P β (run >>= next)
  adapterAt : ∀ slot, P _ (adapterAt slot)
  resolve : ∀ type, P _ (registry.resolve type version)

namespace Run.Closed

variable {registry : Registry} {version : UInt32} {P : (α : Type) → Run α → Prop}

/-- An answer that is put into another form. -/
theorem map (hP : Closed registry version P) {α β : Type} {run : Run α} (h : P α run) (f : α → β) :
    P β (do
      let a ← run
      Pure.pure (f a)) :=
  hP.bind h fun a => hP.pure (f a)

/-! ## The loops

Each loop is an induction on what it goes through. The programs of callers are among them: a program is a
tree of requests, and has the property if every request has. -/

section Loops

/-- The property is kept by a loop over elements, whatever is done with each of them. -/
theorem readItems (hP : Closed registry version P) {read : Bytes → Run Reading}
    (h : ∀ source, P _ (read source)) (element : TypeExpr) (count : Nat) (source : Bytes) :
    P _ (readItems read element count source) := by
  induction count generalizing source with
  | zero => exact hP.pure _
  | succ count ih =>
    refine hP.bind (h source) fun reading => ?_
    rcases (reading.expect element).result with e | _ | item
    · exact hP.pure _
    · exact hP.pure _
    · exact hP.map (ih reading.rest) _

/-- The property is kept by the loop over fields. Each has a reader of its own. -/
theorem readFields (hP : Closed registry version P) {readers : List (Field × (Bytes → Run Reading))}
    (h : ∀ reader ∈ readers, ∀ source, P _ (reader.2 source)) (members : List (String × Value))
    (source : Bytes) : P _ (readFields readers members source) := by
  induction readers generalizing members source with
  | nil => exact hP.pure _
  | cons reader rest ih =>
    obtain ⟨field, read⟩ := reader
    rw [List.forall_mem_cons] at h
    refine hP.bind (h.1 source) fun reading => ?_
    rcases reading.result with e | value
    · exact hP.pure _
    · exact ih h.2 _ _

/-- Nothing is assumed of callers' programs: what they do to the slot table, they do by their requests. -/
theorem readProgram (hP : Closed registry version P) {read : TypeExpr → FieldFormat → Bytes → Run Reading}
    (h : ∀ type format source, P _ (read type format source)) (program : ReadProgram) :
    P _ (program.run read) := by
  induction program with
  | finish reading => exact hP.pure reading
  | read type format source next ih => exact hP.bind (h type format source) fun reading => ih reading

theorem writeItems (hP : Closed registry version P) {write : Value → Run Writing}
    (h : ∀ value, P _ (write value)) (items : List Value) : P _ (writeItems write items) := by
  induction items with
  | nil => exact hP.pure _
  | cons item rest ih =>
    refine hP.bind (h item) fun writing => ?_
    rcases writing.result with e | _
    · exact hP.pure _
    · exact hP.map ih _

theorem writeMember (hP : Closed registry version P) {write : Value → Run Writing}
    (h : ∀ value, P _ (write value)) (member : Option Value) : P _ (writeMember write member) := by
  rcases member with _ | value
  · exact hP.pure _
  · exact h value

/-- Fields are written in their order, and one that is passed over is followed by the others. -/
theorem writeFields (hP : Closed registry version P) {writers : List (Field × (Value → Run Writing))}
    (h : ∀ writer ∈ writers, ∀ value, P _ (writer.2 value)) (members : List (String × Value)) :
    P _ (writeFields members writers) := by
  induction writers with
  | nil => exact hP.pure _
  | cons writer rest ih =>
    obtain ⟨field, write⟩ := writer
    rw [List.forall_mem_cons] at h
    refine hP.bind (hP.writeMember h.1 _) fun writing => ?_
    split
    · exact hP.map (ih h.2) _
    · exact hP.map (ih h.2) _
    · exact hP.pure _

/-- Nor is anything assumed of what callers' programs write. -/
theorem writeProgram (hP : Closed registry version P)
    {write : TypeExpr → FieldFormat → Option Value → Run Writing}
    (h : ∀ type format value, P _ (write type format value)) (program : WriteProgram) :
    P _ (program.run write) := by
  induction program with
  | finish writing => exact hP.pure writing
  | write type format value next ih => exact hP.bind (h type format value) fun writing => ih writing

end Loops

/-! ## Reading

The parts of a step are followed in the order in which they are defined, from a slot to a whole type. -/

section Reading

variable {read : Wiring → FieldFormat → Bytes → Run Reading}

/-- Reading through a slot looks into it first, and an empty one is an answer like others. -/
theorem readSlot (hP : Closed registry version P)
    (h : ∀ wiring format source, P _ (read wiring format source)) (slot : Nat) (format : FieldFormat)
    (source : Bytes) : P _ (readSlot read slot format source) := by
  refine hP.bind (hP.adapterAt slot) fun adapter => ?_
  rcases adapter with e | adapter
  · exact hP.pure _
  · exact h adapter.wiring format source

theorem readBound (hP : Closed registry version P)
    (h : ∀ wiring format source, P _ (read wiring format source)) (bound : BoundField) (source : Bytes) :
    P _ (readBound read bound source) := by
  rw [Telegram.readBound]
  split
  · exact h _ _ source
  · exact hP.readSlot h _ _ source

/-- Reading a type resolves it first. -/
theorem readType (hP : Closed registry version P)
    (h : ∀ wiring format source, P _ (read wiring format source)) (type : TypeExpr) (format : FieldFormat)
    (source : Bytes) : P _ (registry.readType version read type format source) := by
  refine hP.bind (hP.resolve type) fun answer => ?_
  rcases answer with e | slot
  · exact hP.pure _
  · exact hP.map (hP.readSlot h slot format source) _

/-- **One step of reading** has the property, if the calls it makes have it. -/
theorem readStep (hP : Closed registry version P) {read : ReadWith}
    (h : ∀ depth wiring format source, P _ (read depth wiring format source)) (depth : Nat)
    (wiring : Wiring) (format : FieldFormat) (source : Bytes) :
    P _ (registry.readStep version read depth wiring format source) := by
  cases wiring with
  | leaf leaf =>
    cases leaf with
    | scalar s => exact hP.pure _
    | caller adapter => exact hP.readProgram (hP.readType (h depth)) _
  | optional element slot =>
    refine hP.bind (hP.readSlot (h depth) slot format source) fun reading => ?_
    rcases (reading.expect element).result with e | _ | value
    · exact hP.pure _
    · exact hP.pure _
    · exact hP.pure _
  | sequence container element slot =>
    rw [Registry.readStep]
    split
    · exact hP.pure _
    · exact hP.map (hP.readItems (hP.readSlot (h depth) slot format.element) _ _ source) _
  | family name => exact hP.pure _
  | record schema fields =>
    rw [Registry.readStep]
    split
    · exact hP.pure _
    · refine hP.map (hP.readFields (fun reader hreader => ?_) _ source) _
      obtain ⟨bound, -, rfl⟩ := List.mem_map.1 hreader
      exact hP.readBound (h (depth + 1)) bound

end Reading

/-! ## Writing

Writing resolves types also in the middle of a call, for the alternative that a value of a family holds.
That is the third of the four things, and it is why the property has to hold of every resolution and not
only of the first. -/

section Writing

variable {write : Wiring → FieldFormat → Option Value → Run Writing}

/-- Finding the adapter of a value is a resolution and a look into a slot. -/
theorem adapterOf (hP : Closed registry version P) (value : Value) :
    P _ (registry.adapterOf version value) := by
  refine hP.bind (hP.resolve value.type) fun answer => ?_
  rcases answer with e | slot
  · exact hP.pure _
  · exact hP.adapterAt slot

theorem writeType (hP : Closed registry version P)
    (h : ∀ wiring format value, P _ (write wiring format value)) (type : TypeExpr) (format : FieldFormat)
    (value : Option Value) : P _ (registry.writeType version write type format value) := by
  refine hP.bind (hP.resolve type) fun answer => ?_
  rcases answer with e | slot
  · exact hP.pure _
  · refine hP.bind (hP.adapterAt slot) fun adapter => ?_
    rcases adapter with e | adapter
    · exact hP.pure _
    · exact h adapter.wiring format value

/-- Writing where a type is declared looks into the slot of that type, and for some values resolves
another type too. -/
theorem writeDeclared (hP : Closed registry version P)
    (h : ∀ wiring format value, P _ (write wiring format value)) (type : TypeExpr) (slot : Nat)
    (format : FieldFormat) (value : Option Value) :
    P _ (registry.writeDeclared version write type slot format value) := by
  refine hP.bind (hP.adapterAt slot) fun declared => ?_
  rcases declared with e | declared
  · exact hP.pure _
  · rcases value with _ | value
    · exact h declared.wiring format none
    · simp only
      split
      -- an alternative is held, so its adapter is looked for in the middle of the call
      · refine hP.bind (hP.adapterOf value.concrete) fun concrete => ?_
        rcases concrete with e | concrete
        · exact hP.pure _
        · simp only
          split
          · exact h concrete.wiring format _
          · exact h declared.wiring format _
      · exact h declared.wiring format _

theorem writeAlternative (hP : Closed registry version P)
    (h : ∀ wiring format value, P _ (write wiring format value)) (family : TypeExpr)
    (format : FieldFormat) (value : Value) :
    P _ (registry.writeAlternative version write family format value) := by
  rw [Registry.writeAlternative]
  split
  · exact hP.pure _
  · refine hP.bind (hP.adapterOf value.concrete) fun concrete => ?_
    rcases concrete with e | concrete
    · exact hP.pure _
    · exact h concrete.wiring format _

theorem writeField (hP : Closed registry version P)
    (h : ∀ wiring format value, P _ (write wiring format value)) (bound : BoundField) (value : Value) :
    P _ (registry.writeField version write bound value) := by
  rw [Registry.writeField]
  split
  · exact h _ _ _
  · exact hP.writeDeclared h _ _ _ _

theorem writeOwn (hP : Closed registry version P) {write : WriteWith}
    (h : ∀ depth wiring format value, P _ (write depth wiring format value)) (depth : Nat)
    (wiring : Wiring) (format : FieldFormat) (value : Option Value) :
    P _ (registry.writeOwn version write depth wiring format value) := by
  cases wiring with
  | leaf leaf =>
    cases leaf with
    | scalar s => exact hP.pure _
    | caller adapter => exact hP.writeProgram (hP.writeType (h depth)) _
  | optional element slot => exact hP.writeDeclared (h depth) element slot format _
  | sequence container element slot =>
    exact hP.writeItems
      (fun item => hP.writeDeclared (h depth) element slot format.element (some item)) _
  | family name =>
    rcases value with _ | value
    · exact hP.pure _
    · exact hP.writeAlternative (h depth) _ format value
  | record schema fields =>
    rcases value with _ | value
    · exact hP.pure _
    · cases value with
      | record name members =>
        simp only [Registry.writeOwn]
        split
        · exact hP.pure _
        · refine hP.writeFields (fun writer hwriter => ?_) _
          obtain ⟨bound, -, rfl⟩ := List.mem_map.1 hwriter
          exact hP.writeField (h (depth + 1)) bound
      | _ => exact hP.pure _

/-- **One step of writing** has the property, if the calls it makes have it. -/
theorem writeStep (hP : Closed registry version P) {write : WriteWith}
    (h : ∀ depth wiring format value, P _ (write depth wiring format value)) (depth : Nat)
    (wiring : Wiring) (format : FieldFormat) (value : Option Value) :
    P _ (registry.writeStep version write depth wiring format value) := by
  rw [Registry.writeStep]
  split
  · exact hP.writeOwn h depth wiring format value
  · exact hP.pure _

end Writing

end Run.Closed

end Telegram
