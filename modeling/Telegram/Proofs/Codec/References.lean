import Telegram.Proofs.Codec.History

/-!
# What adapters refer to

An adapter refers to others by slot. Whenever one is set to work, be it in the middle of a call in which
further types have been resolved, each of these slots is the cached one of the type that it stands for,
and holds an adapter of that type.

* `Wiring.references` lists the references of an adapter, and `SlotTable.honours` says that a table keeps
  what one of them promises.
* `Registry.readChecked` and `Registry.writeChecked` are reading and writing with a look at the references
  of every adapter before it is set to work. Where one of them is not kept the call breaks off, with no
  answer.
* `Registry.Reached.encodeChecked_answer` and `Registry.Reached.decodeChecked_answer`: no call ever breaks
  off. As the plans that adapters carry out are what the proof is by, it needs no more than one lemma for
  each direction.
-/

namespace Telegram

open Codec Registry

/-! ## References

In a sound table each adapter carries out the plan of its type, and its references are the slots of the
types that the plan needs. That is where it stands in its slot. An adapter at work is a copy, taken from
its slot some time before, and the table may have grown since; but what is cached stays in its slot. -/

/-- The type whose adapter a bound field uses, with the slot that it has for it. -/
def BoundField.references (bound : BoundField) : List (TypeExpr × Nat) :=
  match bound.target with
  | .slot slot => [(bound.field.type, slot)]
  | .own _ => []

/-- The types whose adapters an adapter uses, each with the slot that it has for it. -/
def Wiring.references : Wiring → List (TypeExpr × Nat)
  | .leaf _ | .family _ => []
  | .optional element slot | .sequence _ element slot => [(element, slot)]
  | .record _ fields => fields.flatMap BoundField.references

/-- A field that is bound to a slot is bound to that of its type. -/
theorem Field.Bound.slotOf_of_mem_references {slotOf : TypeExpr → Option Nat} {field : Field}
    {bound : BoundField} (h : field.Bound slotOf bound) :
    ∀ reference ∈ bound.references, slotOf reference.1 = some reference.2 := by
  intro reference hmem
  cases h with
  | own hadapter => cases hmem
  | slot hadapter hslot =>
    obtain rfl := List.mem_singleton.1 hmem
    exact hslot

/-- **A wiring that carries out a plan** refers to each type by the slot that this type has. -/
theorem Plan.Wired.slotOf_of_mem_references {slotOf : TypeExpr → Option Nat} {plan : Plan}
    {wiring : Wiring} (h : plan.Wired slotOf wiring) :
    ∀ reference ∈ wiring.references, slotOf reference.1 = some reference.2 := by
  intro reference hmem
  cases h with
  | leaf l => cases hmem
  | family name => cases hmem
  | optional hslot | sequence container hslot =>
    obtain rfl := List.mem_singleton.1 hmem
    exact hslot
  | record schema hfields =>
    rw [Wiring.references] at hmem
    induction hfields with
    | nil => cases hmem
    | cons hbound _ ih =>
      rw [List.flatMap_cons, List.mem_append] at hmem
      exact hmem.elim (hbound.slotOf_of_mem_references reference) ih

/-- The table keeps what a reference promises: its slot is the one cached for its type, and holds an
adapter of that type. -/
def SlotTable.honours (table : SlotTable) (version : UInt32) (reference : TypeExpr × Nat) : Bool :=
  table.slot? ⟨reference.1, version⟩ = some reference.2 &&
    match table.adapter reference.2 with
    | .ok adapter => adapter.wiring.type = reference.1
    | .error _ => false

/-- A sound table keeps what the references of a wiring promise that carries out a plan. -/
theorem SlotTable.Sound.honours {registry : Registry} {table : SlotTable} (hsound : table.Sound registry)
    {version : UInt32} {plan : Plan} {wiring : Wiring} (h : plan.Wired (table.slotOf version) wiring) :
    wiring.references.all (table.honours version) = true := by
  refine List.all_eq_true.2 fun reference hmem => ?_
  have hslot := h.slotOf_of_mem_references reference hmem
  obtain ⟨adapter, hfilled, plan', hplan, hwired, -⟩ := hsound.served version reference.1 reference.2 hslot
  have hcached : table.slot? ⟨reference.1, version⟩ = some reference.2 := hslot
  have htype : adapter.wiring.type = reference.1 := hwired.type_eq.trans (type_of_plan? hplan)
  simp only [SlotTable.honours, hcached, SlotTable.adapter_eq_ok hfilled, htype, decide_true, Bool.and_self]

/-! ## Calls that look at references first

That references are kept in the middle of a call can not be said of the answer of the call. So the calls
are run once more with a test in every step, and without an answer where the test fails. If the answers
are the same in all cases, the test never failed. -/

namespace Registry

/-- Reads with an adapter, and has no answer as soon as it comes to one with a reference that the table at
hand does not keep. -/
def readChecked (registry : Registry) (version : UInt32) : Nat → ReadWith
  | 0 => fun _ _ _ _ _ => none
  | fuel + 1 => fun depth wiring format source table =>
    if wiring.references.all (table.honours version) then
      registry.readStep version (registry.readChecked version fuel) depth wiring format source table
    else none

/-- Writes with an adapter, and has no answer as soon as it comes to one with a reference that the table
at hand does not keep. -/
def writeChecked (registry : Registry) (version : UInt32) : Nat → WriteWith
  | 0 => fun _ _ _ _ _ => none
  | fuel + 1 => fun depth wiring format value table =>
    if wiring.references.all (table.honours version) then
      registry.writeStep version (registry.writeChecked version fuel) depth wiring format value table
    else none

/-- Reads one value of `type`, with a look at the references of every adapter. -/
def decodeChecked (registry : Registry) (fuel : Nat) (type : TypeExpr) (version : UInt32) (source : Bytes) :
    Run Reading :=
  registry.readType version (registry.readChecked version fuel 0) type {} source

/-- Writes a value as its own type, with a look at the references of every adapter. -/
def encodeChecked (registry : Registry) (fuel : Nat) (value : Value) (version : UInt32) : Run Writing :=
  registry.writeType version (registry.writeChecked version fuel 0) value.type {} (some value)

variable {registry : Registry} {version : UInt32} {table : SlotTable}

/-- Reading with a look at the references goes by plans as well: from a sound table the look finds
nothing. -/
theorem readChecked_matches {Spared : TypeExpr → Prop} (hspared : registry.Spares version Spared) (fuel : Nat) :
    ReadsAlike registry version Spared (registry.readChecked version fuel)
      (registry.readDirect version fuel) := by
  induction fuel with
  | zero => exact fun _ _ _ _ _ _ _ _ => Run.matches_none
  | succ fuel ih =>
    intro table depth plan wiring format source hwithin hwired current hsound hextends
    have hkept := hsound.honours (hwired.mono (hextends.slotOf version))
    have hstep := readStep_matches hspared ih table depth plan wiring format source hwithin hwired
    simp only [readChecked, if_pos hkept]
    exact hstep current hsound hextends

/-- So does writing. -/
theorem writeChecked_matches {Spared : TypeExpr → Prop} (hspared : registry.Spares version Spared) (fuel : Nat) :
    WritesAlike registry version Spared (registry.writeChecked version fuel)
      (registry.writeDirect version fuel) := by
  induction fuel with
  | zero => exact fun _ _ _ _ _ _ _ _ _ => Run.matches_none
  | succ fuel ih =>
    intro table depth plan wiring format value hwithin hvalue hwired current hsound hextends
    have hkept := hsound.honours (hwired.mono (hextends.slotOf version))
    have hstep := writeStep_matches hspared ih table depth plan wiring format value hwithin hvalue hwired
    simp only [writeChecked, if_pos hkept]
    exact hstep current hsound hextends

/-- **In the middle of a call for writing** every reference is kept: the look at them changes no
answer. -/
theorem Reached.encodeChecked_answer (hfactories : registry.factories = []) (h : registry.Reached table) (fuel : Nat)
    (value : Value) (version : UInt32) :
    (registry.encodeChecked fuel value version).answer table = (registry.encodeIn fuel value version).answer table := by
  have hspared : registry.Spares version fun _ => True := spares_all hfactories
  rw [h.encodeIn_answer hfactories]
  exact (writeType_matches hspared (writeChecked_matches hspared fuel) 0 _ _ _ trivial
    value.within_all.mem_some).answer_eq (h.sound hfactories)

/-- **In the middle of a call for reading** every reference is kept as well. -/
theorem Reached.decodeChecked_answer (hfactories : registry.factories = []) (h : registry.Reached table) (fuel : Nat)
    (type : TypeExpr) (version : UInt32) (source : Bytes) :
    (registry.decodeChecked fuel type version source).answer table =
      (registry.decodeIn fuel type version source).answer table := by
  have hspared : registry.Spares version fun _ => True := spares_all hfactories
  rw [h.decodeIn_answer hfactories]
  exact (readType_matches hspared (readChecked_matches hspared fuel) 0 _ _ _ trivial).answer_eq
    (h.sound hfactories)

end Registry

end Telegram
