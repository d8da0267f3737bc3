import Telegram.Proofs.Codec.Closed
import Telegram.Proofs.Codec.Factories

/-!
# Two ways to write a value of a family

What decides how a value of a family is written stands in two places. `Registry.writeDeclared` looks at
the value where it is a field, an element or the content of an optional, and weighs the adapter of the
alternative held against the one declared. The adapter of a family that nobody claims hands every value on
to the alternative's adapter, and weighs nothing.

Both come to the same: `Registry.Reached.written_alike` says so of every value, with all that the call
leaves behind. The value may hold an alternative of any type, also of a family, of a type that nothing
serves, or of its own family, which is an error and no recursion.

* `Run.Keeps` says of a run that it keeps what holds of the slot table. A call keeps what resolutions
  keep, so every history of calls is as good as one of resolutions (`Registry.Reached.of_resolve`), also
  one that ends in the middle of a call (`Registry.Reached.after_writeIn`).
* `SlotTable.Uses` says which slots a type is written with.
-/

namespace Telegram

open Codec

/-! ## What calls keep

A call does nothing to the slot table but have types resolved, so what resolutions keep is kept throughout
a call, and the table in the middle of one is one that some history leads to. This is why the agreement
below can be used for elements: after the first, the table has changed, and it is again such a table. -/

/-- What holds of the slot table before the run holds of the one after it. -/
def Run.Keeps (I : SlotTable → Prop) {α : Type} (run : Run α) : Prop :=
  ∀ table a after, I table → run table = some (a, after) → I after

section Keeps

variable {registry : Registry} {version : UInt32} {I : SlotTable → Prop}

/-- What resolutions keep is kept by all that calls are made of. -/
theorem Run.keeps_closed (hresolve : ∀ type, Run.Keeps I (registry.resolve type version)) :
    Run.Closed registry version fun _ run => run.Keeps I where
  pure a table b after htable hrun := by
    cases hrun
    exact htable
  bind hrun hnext table b after htable hall := by
    obtain ⟨a, middle, hfirst, hrest⟩ := bind_eq_some_iff.1 hall
    exact hnext a middle b after (hrun table a middle htable hfirst) hrest
  adapterAt slot table a after htable hrun := by
    cases hrun
    exact htable
  resolve := hresolve

theorem Registry.readIn_keeps (hresolve : ∀ type, Run.Keeps I (registry.resolve type version))
    (fuel depth : Nat) (wiring : Wiring) (format : FieldFormat) (source : Bytes) :
    (registry.readIn version fuel depth wiring format source).Keeps I := by
  induction fuel generalizing depth wiring format source with
  | zero =>
    intro table a after _ hrun
    cases hrun
  | succ fuel ih => exact (Run.keeps_closed hresolve).readStep ih depth wiring format source

theorem Registry.writeIn_keeps (hresolve : ∀ type, Run.Keeps I (registry.resolve type version))
    (fuel depth : Nat) (wiring : Wiring) (format : FieldFormat) (value : Option Value) :
    (registry.writeIn version fuel depth wiring format value).Keeps I := by
  induction fuel generalizing depth wiring format value with
  | zero =>
    intro table a after _ hrun
    cases hrun
  | succ fuel ih => exact (Run.keeps_closed hresolve).writeStep ih depth wiring format value

/-- **A history of calls is one of resolutions**: what holds at first and is kept by every resolution
holds of all tables that calls lead to. -/
theorem Registry.Reached.of_resolve {table : SlotTable} (hfresh : I {})
    (hresolve : ∀ type version, Run.Keeps I (registry.resolve type version)) (h : registry.Reached table) :
    I table := by
  induction h with
  | fresh => exact hfresh
  | resolve _ hcall ih => exact hresolve _ _ _ _ _ ih hcall
  | @encode _ _ fuel value version _ _ hcall ih =>
    have hclosed := Run.keeps_closed fun type => hresolve type version
    exact hclosed.writeType (registry.writeIn_keeps (fun type => hresolve type version) fuel 0) _ _ _
      _ _ _ ih hcall
  | @decode _ _ fuel type version source _ _ hcall ih =>
    have hclosed := Run.keeps_closed fun type => hresolve type version
    exact hclosed.readType (registry.readIn_keeps (fun type => hresolve type version) fuel 0) _ _ _
      _ _ _ ih hcall

/-- **In the middle of a call** the table is one that calls lead to: writing with any adapter keeps it
so. -/
theorem Registry.Reached.after_writeIn {table after : SlotTable} (h : registry.Reached table)
    {fuel depth : Nat} {wiring : Wiring} {format : FieldFormat} {value : Option Value} {writing : Writing}
    (hrun : registry.writeIn version fuel depth wiring format value table = some (writing, after)) :
    registry.Reached after :=
  registry.writeIn_keeps (fun _ _ _ _ htable hcall => .resolve htable hcall) fuel depth wiring format value
    table writing after h hrun

/-- Reading with any adapter keeps it so as well. -/
theorem Registry.Reached.after_readIn {table after : SlotTable} (h : registry.Reached table)
    {fuel depth : Nat} {wiring : Wiring} {format : FieldFormat} {source : Bytes} {reading : Reading}
    (hrun : registry.readIn version fuel depth wiring format source table = some (reading, after)) :
    registry.Reached after :=
  registry.readIn_keeps (fun _ _ _ _ htable hcall => .resolve htable hcall) fuel depth wiring format source
    table reading after h hrun

/-- Items are written alike by two ways of writing that agree on the tables that the second one keeps
to. -/
theorem writeItems_eq_of_keeps {write write' : Value → Run Writing}
    (heq : ∀ value table, I table → write value table = write' value table)
    (hkeeps : ∀ value, (write' value).Keeps I) (items : List Value) {table : SlotTable}
    (htable : I table) : writeItems write items table = writeItems write' items table := by
  induction items generalizing table with
  | nil => rfl
  | cons item rest ih =>
    rw [writeItems, writeItems]
    cases hrun : write' item table with
    | none => rw [bind_of_eq_none hrun, bind_of_eq_none ((heq item table htable).trans hrun)]
    | some answer =>
      obtain ⟨writing, after⟩ := answer
      rw [bind_of_eq_some hrun, bind_of_eq_some ((heq item table htable).trans hrun)]
      rcases hresult : writing.result with e | _
      · rfl
      · have hrest := ih (hkeeps item table writing after htable hrun)
        simp only
        simp only [bind, StateT.bind, hrest]

end Keeps

/-! ## The slots of a type

A family may be cached in one slot at one version and in another at the next, and an adapter that is
written with it may be cached or not. All that is asked here is that the slot stands for the family
somewhere. -/

/-- The type is cached in the slot, or some adapter writes values of the type with it: as a field, as an
element or as the content of an optional. -/
def SlotTable.Uses (table : SlotTable) (type : TypeExpr) (slot : Nat) : Prop :=
  (∃ version, (⟨type, version⟩, slot) ∈ table.cached) ∨
    ∃ holder adapter, table.adapter holder = .ok adapter ∧ (type, slot) ∈ adapter.wiring.references

/-- An adapter that is found in a slot is there. -/
theorem SlotTable.filled_of_adapter_eq_ok {table : SlotTable} {slot : Nat} {adapter : Adapter}
    (h : table.adapter slot = .ok adapter) : table.slots[slot]? = some (some adapter) := by
  unfold SlotTable.adapter at h
  split at h
  · rename_i heq
    rw [heq, Except.ok.inj h]
  · cases h

/-- **A family that nobody claims is always written with its own adapter.** -/
theorem SlotTable.Unclaimed.holds_of_uses {table : SlotTable} {name : String} (h : table.Unclaimed name)
    {slot : Nat} (huses : table.Uses (.family name) slot) : table.HoldsFamily name slot := by
  rcases huses with ⟨version, hcached⟩ | ⟨holder, adapter, hholder, hmem⟩
  · exact h.cached version slot hcached
  · exact h.referred holder adapter (SlotTable.filled_of_adapter_eq_ok hholder) slot hmem

namespace Registry

variable {registry : Registry} {name : String} {table : SlotTable} {slot : Nat} {version : UInt32}

/-- Resolutions keep the slots of a family that nobody claims. -/
theorem Unclaimed.resolve_keeps (hregistry : registry.Unclaimed name) (slot : Nat) (type : TypeExpr)
    (version : UInt32) :
    Run.Keeps (fun table => table.Unclaimed name ∧ table.HoldsFamily name slot)
      (registry.resolve type version) := by
  intro table answer after ⟨htable, hslot⟩ hrun
  obtain ⟨hafter, hholds⟩ := hregistry.resolve htable hrun
  exact ⟨hafter, hholds slot hslot⟩

/-- After any history of calls, nothing else stands for a family that nobody claims. -/
theorem Reached.unclaimed (hregistry : registry.Unclaimed name) (h : registry.Reached table) :
    table.Unclaimed name :=
  h.of_resolve (SlotTable.unclaimed_empty name) fun _ _ _ _ _ htable hrun =>
    (hregistry.resolve htable hrun).1

/-! ## The two ways

Where the declared adapter is generic, the preference always goes to the alternative. That is the whole
reason why the two ways agree; the rest is to see that they take the same steps with the same fuel. -/

/-- How the adapter of a family writes. -/
theorem writeIn_family (fuel depth : Nat) (format : FieldFormat) (value : Option Value) :
    registry.writeIn version (fuel + 1) depth (.family name) format value =
      match value with
      | none => pure (.done [])
      | some value =>
        if value.type = .family name then
          registry.writeAlternative version (registry.writeIn version fuel depth) (.family name) format value
        else pure (.failed (.typeMismatch (.family name))) := by
  rw [writeIn, writeStep]
  rcases value with _ | value
  · rfl
  · by_cases htype : value.type = .family name <;> simp [htype, Wiring.type, writeOwn]

/-- The adapter of an alternative is always preferred to a generic one. -/
theorem prefersConcrete_generic (origin : Origin) : prefersConcrete .generic origin = true := by
  cases origin <;> rfl

/-- **In a slot with the family's own adapter**, weighing the adapters against each other comes to what
this adapter does. -/
theorem writeDeclared_of_holds (hslot : table.HoldsFamily name slot) (fuel depth : Nat)
    (format : FieldFormat) (value : Option Value) :
    registry.writeDeclared version (registry.writeIn version (fuel + 1) depth) (.family name) slot format
        value table =
      registry.writeIn version (fuel + 2) depth (.family name) format value table := by
  have hadapter : adapterAt slot table = some (.ok ⟨.generic, .family name⟩, table) :=
    congrArg (fun found => some (found, table)) (SlotTable.adapter_eq_ok hslot)
  rw [writeDeclared, bind_of_eq_some hadapter, writeIn_family]
  rcases value with _ | value
  · simp only [writeIn_family]
  · simp only [prefersConcrete_generic, if_true]
    by_cases htype : value.type = .family name
    · by_cases hown : value.concrete.type = .family name
      -- the value holds one of its own family: neither way goes on
      · rw [if_neg fun h => h.2 hown, if_pos htype, writeIn_family]
        simp only [if_pos htype, writeAlternative, if_pos hown]
      · rw [if_pos ⟨htype, hown⟩, if_pos htype, writeAlternative, if_neg hown]
    · rw [if_neg fun h => htype h.1, if_neg htype, writeIn_family]
      simp only [if_neg htype]

/-- **The two ways to write a value of a family agree.** Let a family be claimed by no adapter and no
factory of the caller's. After any history of calls, and so also in the middle of one, every slot that the
family is written with holds the family's own adapter. Writing any value with such a slot, as a field, as
elements or as the content of an optional, has the answer of that adapter: the same bytes, the same
result, and the same slot table afterwards. A value that holds one of its own family is an error, and
takes no fuel. -/
theorem Reached.written_alike (hregistry : registry.Unclaimed name) (h : registry.Reached table)
    (hslot : table.Uses (.family name) slot) (version : UInt32) (fuel depth : Nat) :
    table.adapter slot = .ok ⟨.generic, .family name⟩ ∧
    (∀ format value,
      registry.writeDeclared version (registry.writeIn version (fuel + 1) depth) (.family name) slot format
          value table =
        registry.writeIn version (fuel + 2) depth (.family name) format value table) ∧
    (∀ bound value, bound.field.type = .family name → bound.target = .slot slot →
      registry.writeField version (registry.writeIn version (fuel + 1) depth) bound value table =
        registry.writeIn version (fuel + 2) depth (.family name) bound.field.format (some value) table) ∧
    (∀ format value,
      registry.writeOwn version (registry.writeIn version (fuel + 1)) depth (.optional (.family name) slot)
          format (some (.some (.family name) value)) table =
        registry.writeIn version (fuel + 2) depth (.family name) format (some value) table) ∧
    (∀ container format items,
      registry.writeOwn version (registry.writeIn version (fuel + 1)) depth
          (.sequence container (.family name) slot) format
          (some (.sequence container (.family name) items)) table =
        writeItems (fun item =>
          registry.writeIn version (fuel + 2) depth (.family name) format.element (some item)) items
          table) ∧
    ∀ format value, value.type = .family name → value.concrete.type = .family name →
      registry.writeDeclared version (registry.writeIn version (fuel + 1) depth) (.family name) slot format
          (some value) table =
        some (.failed (.noAdapter (.family name) version), table) := by
  have htable := h.unclaimed hregistry
  have hholds := htable.holds_of_uses hslot
  refine ⟨SlotTable.adapter_eq_ok hholds, writeDeclared_of_holds hholds fuel depth, ?field, ?content,
    ?elements, ?own⟩
  case field =>
    intro bound value htype htarget
    simp only [writeField, htarget, htype]
    exact writeDeclared_of_holds hholds fuel depth _ _
  case content => exact fun format value => writeDeclared_of_holds hholds fuel depth format (some value)
  case elements =>
    -- an element may have further types resolved, which leaves the slot as it is for the next one
    intro container format items
    refine writeItems_eq_of_keeps (I := fun table => table.Unclaimed name ∧ table.HoldsFamily name slot)
      (fun item table hkept => writeDeclared_of_holds hkept.2 fuel depth format.element (some item))
      (fun item => ?_) items ⟨htable, hholds⟩
    exact registry.writeIn_keeps (fun type => hregistry.resolve_keeps slot type version) _ _ _ _ _
  case own =>
    intro format value htype hown
    rw [writeDeclared_of_holds hholds, writeIn_family]
    simp only [if_pos htype, writeAlternative, if_pos hown]
    rfl

/-- Racks with a device, perhaps a second one, and a row of them. A factory has relays resolved before it
passes over a device, and serves marks. -/
def fittings : Registry where
  schemas := [
    { type := .record "relay"
      fields := [
        { name := "port", member := "port", type := .scalar (.int .u8), format := {}, adapter := none }]
      initial := [("port", .int .u8 0)] },
    { type := .record "rack"
      fields := [
        { name := "main", member := "main", type := .family "device", format := {}, adapter := none },
        { name := "spare", member := "spare", type := .optional (.family "device"), format := {},
          adapter := none },
        { name := "row", member := "row", type := .sequence .list (.family "device"),
          format := { length := 2 }, adapter := none }]
      initial := [] }]
  factories := [fun _ type =>
    match type with
    | .family _ => .resolve (.record "relay") fun _ => .finish (.ok none)
    | .foreign "mark" => .finish (.ok (some ⟨.custom, .caller markAdapter⟩))
    | _ => .finish (.ok none)]

/-- A device that holds a gauge, which holds a number. -/
def gaugedDevice : Value :=
  .variant "device" "gauged" (.variant "gauge" "raw" (.int .u8 9))

theorem fittings_unclaimed : fittings.Unclaimed "device" where
  adapter_eq := rfl
  declines factory hfactory version := by
    obtain rfl := List.mem_singleton.1 hfactory
    exact fun answer => rfl

/-- A device with a gauge in it is written alike in both ways, and a device that holds a device by
neither. -/
theorem Reached.written_alike_fittings :
    ∃ slot table, table.slot? ⟨.family "device", 1⟩ = some slot ∧
      (∃ answer, fittings.resolve (.record "rack") 1 {} = some (answer, table)) ∧
      fittings.writeDeclared 1 (fittings.writeIn 1 3 0) (.family "device") slot {} (some gaugedDevice) table =
        fittings.writeIn 1 4 0 (.family "device") {} (some gaugedDevice) table ∧
      ((fittings.writeIn 1 4 0 (.family "device") {} (some gaugedDevice)).answer table).map
        (fun writing => (writing.bytes, writing.result)) = some ([9], .ok ()) ∧
      fittings.writeDeclared 1 (fittings.writeIn 1 3 0) (.family "device") slot {}
          (some (.variant "device" "spare" gaugedDevice)) table =
        some (.failed (.noAdapter (.family "device") 1), table) := by
  have hcached : (fittings.resolve (.record "rack") 1 {}).bind
      (fun found => found.2.slot? ⟨.family "device", 1⟩) = some 1 := by decide +kernel
  obtain ⟨⟨answer, table⟩, hrun, hslot⟩ := Option.bind_eq_some_iff.1 hcached
  have hbytes : (fittings.resolve (.record "rack") 1 {}).bind (fun found =>
      ((fittings.writeIn 1 4 0 (.family "device") {} (some gaugedDevice)).answer found.2).map
        fun writing => (writing.bytes, writing.result)) = some ([9], .ok ()) := by decide +kernel
  rw [hrun] at hbytes
  have hagree := Reached.written_alike fittings_unclaimed (.resolve .fresh hrun)
    (.inl ⟨1, mem_of_lookup_eq_some hslot⟩) 1 2 0
  exact ⟨1, table, hslot, ⟨answer, hrun⟩, hagree.2.1 {} _, hbytes, hagree.2.2.2.2.2 {} _ rfl rfl⟩

end Registry

end Telegram
