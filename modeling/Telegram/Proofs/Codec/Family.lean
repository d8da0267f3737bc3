import Telegram.Proofs.Codec.RoundTrip
import Telegram.Proofs.Codec.Settles

/-!
# Families with an adapter of the caller's

Nothing on the wire tells the alternatives of a family apart. A caller who wants to read them brings an
adapter for the family, which writes a mark of its own. On the reading side this adapter is all there is.
On the writing side it competes with the adapter of the alternative held, and only stays in charge where
that one is generic: the alternative is a record, or a family without an adapter.

* `Registry.writeNeed_family` says which of the two adapters writes.
* `Registry.Undoes` says that an adapter brings a value back, and `Registry.Occurs` where values of its
  family stand in a record: bare, in an optional and in a sequence. `Registry.Occurs.crosses` is about one
  of these.
* `Registry.Houses` is about a record that carries nothing else. `Registry.decode_encode_of_family` is the
  round trip of a whole call, after any history, for alternatives whose own adapters are generic and where
  factories leave the types involved alone.
* `Registry.panels_loses_devices` is about an alternative with an adapter of another kind, and about
  factories that come between: not everything is brought back.
-/

namespace Telegram

open Codec

namespace Registry

/-! ## Which adapter writes

The preference is decided by origins: the adapter of the alternative wins over the declared one if it is
not generic, or if the declared one is. So it takes one look at each of the two plans to know who writes,
and none at what they write. -/

/-- Where the adapter for the type of a value comes from. -/
def originOf (registry : Registry) (version : UInt32) (value : Value) : Run (Except Error Origin) := do
  let adapter ← registry.adapterOf version value
  pure (adapter.map Adapter.origin)

/-- The adapter of its family is left in charge of a value: the alternative it holds is of no type of its
own, or is served by a generic adapter. The second is asked of an empty slot table, as if the alternative
were written first of all. -/
def Defers (registry : Registry) (version : UInt32) (value : Value) : Prop :=
  value.concrete.type = value.type ∨
    (registry.originOf version value.concrete).answer {} = some (.ok .generic)

variable {registry : Registry} {version : UInt32} {adapter : CallerAdapter} {Spared : TypeExpr → Prop}

/-- Where an adapter comes from is told by the plan of its type. -/
theorem originOf_answer (hspared : registry.Spares version Spared) {value : Value} (htype : Spared value.type) :
    (registry.originOf version value).answer {} =
      some ((registry.find version value.type).map Plan.origin) := by
  have hmatches : (registry.originOf version value).Matches registry {}
      (some ((registry.find version value.type).map Plan.origin)) := by
    refine Run.Matches.adapterOf hspared htype (fun e hfind => ?_) fun _ other plan _ hfind _ horigin => ?_
    · rw [hfind]
      exact Run.matches_pure _
    · rw [hfind]
      simp only [Except.map, horigin]
      exact Run.matches_pure _
  exact hmatches.answer_eq (SlotTable.sound_empty registry)

/-- **Who writes a value of a family** that has an adapter of the caller's: this adapter, unless the type
of the alternative held is served by an adapter that is not generic. -/
theorem writeNeed_family {type : TypeExpr} (hadapter : registry.adapter? type = some adapter)
    {value : Value} (htype : value.type = type) (hheld : value.concrete.type ≠ type) {plan : Plan}
    (hfind : registry.find version value.concrete.type = .ok plan)
    (write : Plan → FieldFormat → Option Value → Option Writing) (format : FieldFormat) :
    registry.writeNeed version write type format (some value) =
      if plan.origin = .generic then write (.leaf (.caller adapter)) format (some value)
      else write plan format (some value.concrete) := by
  simp only [writeNeed, plan?_of_adapter? hadapter, if_pos (And.intro htype hheld), hfind]
  by_cases horigin : plan.origin = .generic
  · rw [if_pos horigin, horigin]
    exact if_neg Bool.false_ne_true
  · rw [if_neg horigin, if_pos]
    simp [prefersConcrete, horigin]

/-- **The adapter of the family writes** a value that it is left in charge of, wherever a type is
declared. That type may be another one, and then there is no alternative to weigh. -/
theorem Defers.writeNeed_eq (hspared : registry.Spares version Spared) {value : Value}
    (hvalue : value.Within Spared) (h : registry.Defers version value) {type : TypeExpr}
    (hadapter : registry.adapter? type = some adapter)
    (write : Plan → FieldFormat → Option Value → Option Writing) (format : FieldFormat) :
    registry.writeNeed version write type format (some value) =
      write (.leaf (.caller adapter)) format (some value) := by
  by_cases hheld : value.type = type ∧ value.concrete.type ≠ type
  · obtain ⟨htype, hheld⟩ := hheld
    -- the alternative is of a type of its own, so its adapter is generic
    have horigin := h.resolve_left fun hself => hheld (hself.trans htype)
    rw [originOf_answer hspared (hvalue.concrete_type (htype.symm ▸ hheld))] at horigin
    cases hfind : registry.find version value.concrete.type with
    | error e =>
      rw [hfind] at horigin
      cases horigin
    | ok plan =>
      rw [hfind] at horigin
      have hgeneric : plan.origin = .generic := Except.ok.inj (Option.some.inj horigin)
      rw [writeNeed_family hadapter htype hheld hfind, if_pos hgeneric]
  · simp only [writeNeed, plan?_of_adapter? hadapter, if_neg hheld]

/-! ## One value

Whether an adapter of the caller's is its own inverse is for the caller to say. It is asked of single
values, at a depth and in a format, since the adapter's programs are given both. -/

/-- The adapter brings the value back: what it writes `depth` records deep, it reads again, whatever
follows. The programs of an adapter make requests, so this is said from an empty slot table and with
enough fuel, and carries over to other tables where factories stay out of it. -/
structure Undoes (registry : Registry) (version : UInt32) (adapter : CallerAdapter) (depth : Nat)
    (format : FieldFormat) (value : Value) (bytes : Bytes) : Prop where
  write : Settles (fun fuel =>
    (registry.writeIn version fuel depth (.leaf (.caller adapter)) format (some value)).answer {})
      (.done bytes)
  read : ∀ rest, Settles (fun fuel =>
    (registry.readIn version fuel depth (.leaf (.caller adapter)) format (bytes ++ rest)).answer {})
      (.found value rest)

/-- An adapter writes from an empty slot table what its plan writes. -/
theorem writeIn_caller_answer (hspared : registry.Spares version Spared)
    (hasks : adapter.AsksWithin version Spared) {value : Value} (hvalue : value.Within Spared)
    (fuel depth : Nat) (format : FieldFormat) :
    (registry.writeIn version fuel depth (.leaf (.caller adapter)) format (some value)).answer {} =
      registry.writeDirect version fuel depth (.leaf (.caller adapter)) format (some value) :=
  (writeIn_matches hspared fuel {} depth (.leaf (.caller adapter)) _ format _ hasks hvalue.mem_some
    (.leaf _)).answer_eq (SlotTable.sound_empty registry)

/-- An adapter reads from an empty slot table what its plan reads. -/
theorem readIn_caller_answer (hspared : registry.Spares version Spared)
    (hasks : adapter.AsksWithin version Spared) (fuel depth : Nat) (format : FieldFormat) (source : Bytes) :
    (registry.readIn version fuel depth (.leaf (.caller adapter)) format source).answer {} =
      registry.readDirect version fuel depth (.leaf (.caller adapter)) format source :=
  (readIn_matches hspared fuel {} depth (.leaf (.caller adapter)) _ format source hasks
    (.leaf _)).answer_eq (SlotTable.sound_empty registry)

section Undoes

variable {depth : Nat} {format : FieldFormat} {value : Value} {bytes : Bytes}

/-- In the words of plans, for writing. -/
theorem Undoes.write_direct (hspared : registry.Spares version Spared)
    (hasks : adapter.AsksWithin version Spared) (hvalue : value.Within Spared)
    (h : registry.Undoes version adapter depth format value bytes) :
    Settles (fun fuel =>
      registry.writeDirect version fuel depth (.leaf (.caller adapter)) format (some value)) (.done bytes) :=
  h.write.congr fun fuel => (writeIn_caller_answer hspared hasks hvalue fuel depth format).symm

/-- In the words of plans, for reading. -/
theorem Undoes.read_direct (hspared : registry.Spares version Spared)
    (hasks : adapter.AsksWithin version Spared)
    (h : registry.Undoes version adapter depth format value bytes) (rest : Bytes) :
    Settles (fun fuel =>
      registry.readDirect version fuel depth (.leaf (.caller adapter)) format (bytes ++ rest))
      (.found value rest) :=
  (h.read rest).congr fun fuel => (readIn_caller_answer hspared hasks fuel depth format _).symm

/-- An adapter that asks for nothing has its say, whatever else there is in the registry. -/
theorem undoes_of_finish (htype : value.type = adapter.type)
    (hwrite : adapter.write ⟨version, depth, format⟩ (some value) = .finish (.done bytes))
    (hread : ∀ rest, adapter.read ⟨version, depth, format⟩ (bytes ++ rest) = .finish (.found value rest)) :
    registry.Undoes version adapter depth format value bytes := by
  have hown : (some value).all (fun value => value.type = (Wiring.leaf (.caller adapter)).type) = true :=
    decide_eq_true htype
  refine ⟨.step ?write, fun rest => .step ?read⟩
  case write =>
    simp only [writeIn, writeStep, if_pos hown, writeOwn, hwrite]
    exact .pure _
  case read =>
    simp only [readIn, readStep, hread]
    exact .pure _

/-- An adapter writes nothing but values of its own type. -/
theorem Undoes.type_eq (h : registry.Undoes version adapter depth format value bytes) :
    value.type = adapter.type := by
  obtain ⟨bound, hwrite⟩ := h.write
  have hstep : (registry.writeStep version (registry.writeIn version bound) depth
      (.leaf (.caller adapter)) format (some value)).answer {} = some (.done bytes) :=
    hwrite (bound + 1) (Nat.le_succ _)
  -- a value of another type would be refused, and a refusal is not done
  by_contra hother
  have hrefused : ¬ value.type = (Wiring.leaf (.caller adapter)).type := hother
  simp only [writeStep, Option.all_some, decide_eq_true_eq, if_neg hrefused] at hstep
  cases hstep

end Undoes

/-! ## One occurrence

An occurrence is what is between the record and the value: nothing, an optional, or a sequence. The
adapter is asked for by the type of the family in all three cases, and from there on they have a common
lemma. -/

/-- The value crosses the wire where a field or an element is declared to be of its type: it is written as
`bytes` and read back from them, whatever follows. An empty buffer gives back everything but a
sequence. -/
structure Crosses (registry : Registry) (version : UInt32) (depth : Nat) (format : FieldFormat)
    (value : Value) (bytes : Bytes) : Prop where
  write : Settles (fun fuel =>
    registry.writeNeed version (registry.writeDirect version fuel depth) value.type format (some value))
      (.done bytes)
  read : ∀ rest, (value.type.isSequence = true → bytes ++ rest ≠ []) → Settles (fun fuel =>
    registry.readNeed version (registry.readDirect version fuel depth) value.type format (bytes ++ rest))
      (.found value rest)
  absent : value.type.isSequence = true → Settles (fun fuel =>
    registry.readNeed version (registry.readDirect version fuel depth) value.type format [])
      (.absent [])

section Crosses

variable {depth : Nat} {format : FieldFormat} {value : Value} {bytes : Bytes}

/-- **A value by itself** crosses where the adapter of its family is left in charge and brings it back. -/
theorem Undoes.crosses (hspared : registry.Spares version Spared) {family : String}
    (hfamily : Spared (.family family)) (hadapter : registry.adapter? (.family family) = some adapter)
    (hvalue : value.Within Spared) (hdefers : registry.Defers version value)
    (h : registry.Undoes version adapter depth format value bytes) :
    registry.Crosses version depth format value bytes := by
  have htype : value.type = .family family := h.type_eq.trans (type_of_adapter? hadapter)
  have hasks : adapter.AsksWithin version Spared := hspared.within _ _ hfamily (plan?_of_adapter? hadapter)
  refine ⟨?write, fun rest _ => ?read, ?absent⟩
  case write =>
    refine (h.write_direct hspared hasks hvalue).congr fun fuel => ?_
    rw [htype, hdefers.writeNeed_eq hspared hvalue hadapter]
  case read =>
    refine (h.read_direct hspared hasks rest).congr fun fuel => ?_
    rw [htype, readNeed, plan?_of_adapter? hadapter]
  case absent =>
    intro hsequence
    rw [htype] at hsequence
    cases hsequence

/-- A value that stands for itself crosses as its plan says. -/
theorem crosses_of_plan {plan : Plan} (hplan : registry.plan? version value.type = some plan)
    (hconcrete : value.concrete = value)
    (hwrite : Settles (fun fuel => registry.writeOwnDirect version (registry.writeDirect version fuel) depth
      plan format (some value)) (.done bytes))
    (hread : ∀ rest, (value.type.isSequence = true → bytes ++ rest ≠ []) → Settles (fun fuel =>
      registry.readStepDirect version (registry.readDirect version fuel) depth plan format (bytes ++ rest))
        (.found value rest))
    (habsent : value.type.isSequence = true → Settles (fun fuel =>
      registry.readStepDirect version (registry.readDirect version fuel) depth plan format []) (.absent [])) :
    registry.Crosses version depth format value bytes := by
  have htype : value.type = plan.type := (type_of_plan? hplan).symm
  refine ⟨.step (hwrite.congr fun fuel => ?write), fun rest hsource => .step ((hread rest hsource).congr
    fun fuel => ?read), fun hsequence => .step ((habsent hsequence).congr fun fuel => ?absent)⟩
  case write =>
    simp only [writeNeed, hplan, hconcrete, ne_eq, not_true_eq_false, and_false, if_false, writeDirect,
      writeStepDirect, Option.all_some, decide_eq_true_eq, if_pos htype]
  case read => simp only [readNeed, hplan, readDirect]
  case absent => simp only [readNeed, hplan, readDirect]

/-- **In an optional** a value crosses as it does by itself, as long as it is no sequence, which nothing
at all may spell. -/
theorem crosses_optional (hplain : registry.adapter? (.optional value.type) = none)
    (hsingle : value.type.isSequence = false) (h : registry.Crosses version depth format value bytes) :
    registry.Crosses version depth format (.some value.type value) bytes := by
  have hplan : registry.plan? version (.optional value.type) = some (.optional value.type) :=
    plan?_of_no_adapter? hplain
  refine crosses_of_plan hplan rfl ?write (fun rest _ => ?read) nofun
  case write => exact h.write
  case read =>
    have hread := h.read rest fun hsequence => absurd (hsingle.symm.trans hsequence) Bool.false_ne_true
    refine hread.bind ?_
    rw [expect_found rfl]
    exact .pure _

/-- Elements are spelled one after the other. -/
theorem crosses_items {element : TypeExpr} (hsingle : element.isSequence = false) {items : List Value}
    {pieces : List Bytes} (h : List.Forall₂ (fun item piece => item.type = element ∧
      registry.Crosses version depth format item piece) items pieces) :
    Settles (fun fuel => writeItems (fun item =>
      registry.writeNeed version (registry.writeDirect version fuel depth) element format (some item)) items)
        (.done pieces.flatten) ∧
    ∀ rest, Settles (fun fuel =>
      readItems (registry.readNeed version (registry.readDirect version fuel depth) element format) element
        items.length (pieces.flatten ++ rest)) (.ok items, rest) := by
  induction h with
  | nil => exact ⟨.pure _, fun rest => .pure _⟩
  | @cons item piece items pieces hfirst _ ih =>
    obtain ⟨rfl, hfirst⟩ := hfirst
    obtain ⟨hwrite, hread⟩ := ih
    rw [List.flatten_cons]
    refine ⟨hfirst.write.bind (hwrite.bind (.pure _)), fun rest => ?_⟩
    have hitem := hfirst.read (pieces.flatten ++ rest) fun hsequence =>
      absurd (hsingle.symm.trans hsequence) Bool.false_ne_true
    rw [List.append_assoc]
    refine hitem.bind ?_
    rw [expect_found rfl]
    exact (hread rest).bind (.pure _)

/-- **In a sequence** values cross one after the other, and the reader has to know how many there are:
from the size of an array, or from the length in the format. -/
theorem crosses_sequence {container : Container} {element : TypeExpr}
    (hplain : registry.adapter? (.sequence container element) = none) (hsingle : element.isSequence = false)
    {items : List Value} {pieces : List Bytes} (hcount : items.length = container.size?.getD format.length)
    (h : List.Forall₂ (fun item piece => item.type = element ∧
      registry.Crosses version depth format.element item piece) items pieces) :
    registry.Crosses version depth format (.sequence container element items) pieces.flatten := by
  have hplan : registry.plan? version (.sequence container element) = some (.sequence container element) :=
    plan?_of_no_adapter? hplain
  obtain ⟨hwrite, hread⟩ := crosses_items hsingle h
  refine crosses_of_plan hplan rfl hwrite (fun rest hsource => ?read) fun _ => .pure _
  case read =>
    -- an empty buffer would be an absent sequence, and is excluded
    have hnonempty : ¬ (pieces.flatten ++ rest).isEmpty = true :=
      fun hempty => hsource rfl (List.isEmpty_iff.1 hempty)
    have haccepts : container.accepts items.length = true := by
      cases container <;> simp_all [Container.accepts, Container.size?]
    have hitems := hread rest
    rw [hcount] at hitems
    simp only [readStepDirect, if_neg hnonempty]
    refine hitems.bind ?_
    simp only [Except.map, Container.ofItems?, if_pos haccepts]
    exact .pure _

end Crosses

/-- Where values of the adapter's family stand in the field of a record: bare, in an optional, or in a
sequence that has as many of them as the reader will look for. Optionals and sequences are the built-in
ones. Each of the values is one that `Held` allows. -/
inductive Occurs (registry : Registry) (version : UInt32) (adapter : CallerAdapter) (Held : Value → Prop) :
    FieldFormat → Value → Bytes → Prop where
  | bare {format : FieldFormat} {value : Value} {bytes : Bytes} (hheld : Held value)
      (h : registry.Undoes version adapter 1 format value bytes) :
      Occurs registry version adapter Held format value bytes
  | optional {format : FieldFormat} {content : Value} {bytes : Bytes}
      (hplain : registry.adapter? (.optional adapter.type) = none) (hheld : Held content)
      (h : registry.Undoes version adapter 1 format content bytes) :
      Occurs registry version adapter Held format (.some adapter.type content) bytes
  | sequence {format : FieldFormat} {container : Container} {items : List Value} {pieces : List Bytes}
      (hplain : registry.adapter? (.sequence container adapter.type) = none)
      (hcount : items.length = container.size?.getD format.length)
      (h : List.Forall₂ (fun item piece => Held item ∧
        registry.Undoes version adapter 1 format.element item piece) items pieces) :
      Occurs registry version adapter Held format (.sequence container adapter.type items) pieces.flatten

section Occurs

variable {family : String} {Held : Value → Prop} {format : FieldFormat} {value : Value} {bytes : Bytes}

/-- **Every occurrence** crosses the wire where the adapter is left in charge. -/
theorem Occurs.crosses (hspared : registry.Spares version Spared) (hfamily : Spared (.family family))
    (hadapter : registry.adapter? (.family family) = some adapter) (hvalue : value.Within Spared)
    (h : registry.Occurs version adapter (registry.Defers version) format value bytes) :
    registry.Crosses version 1 format value bytes := by
  have htype : adapter.type = .family family := type_of_adapter? hadapter
  have hsingle : adapter.type.isSequence = false := by
    rw [htype]
    rfl
  cases h with
  | bare hdefers h => exact h.crosses hspared hfamily hadapter hvalue hdefers
  | optional hplain hdefers h =>
    rw [← h.type_eq] at hplain hsingle ⊢
    exact crosses_optional hplain hsingle (h.crosses hspared hfamily hadapter hvalue.content hdefers)
  | sequence hplain hcount h =>
    have hitems := (List.forall₂_and_left _ _).2 ⟨fun _ hmem => hvalue.item hmem, h⟩
    refine crosses_sequence hplain hsingle hcount (hitems.imp ?_)
    rintro item piece ⟨hitem, hdefers, h⟩
    exact ⟨h.type_eq, h.crosses hspared hfamily hadapter hitem hdefers⟩

/-- The type of an occurrence has a plan, and needs no other type than that of the family. -/
theorem Occurs.needs (hadapter : registry.adapter? (.family family) = some adapter)
    (h : registry.Occurs version adapter Held format value bytes) :
    ∃ plan, registry.plan? version value.type = some plan ∧ ∀ need ∈ plan.needs, need = .family family := by
  have htype : adapter.type = .family family := type_of_adapter? hadapter
  cases h with
  | bare _ h =>
    rw [h.type_eq, htype]
    exact ⟨_, plan?_of_adapter? hadapter, nofun⟩
  | optional hplain _ _ =>
    refine ⟨_, plan?_of_no_adapter? hplain, fun need hneed => ?_⟩
    rw [← htype]
    exact List.mem_singleton.1 hneed
  | sequence hplain _ _ =>
    refine ⟨_, plan?_of_no_adapter? hplain, fun need hneed => ?_⟩
    rw [← htype]
    exact List.mem_singleton.1 hneed

end Occurs

/-! ## Records

The loops over fields are those of the round trip of plain records. Only what is known about a single
field differs. -/

/-- What a record needs of a field that is on the wire. -/
structure Conveys (registry : Registry) (version : UInt32) (depth : Nat)
    (initial members : List (String × Value)) (field : Field) (value : Value) (bytes : Bytes) : Prop where
  adapter_eq : field.adapter = none
  member_eq : member? members field.member = some value
  type_eq : value.type = field.type
  crosses : registry.Crosses version depth field.format value bytes
  /-- What an empty buffer does not give back is there from the beginning. -/
  initial_eq : field.type.isSequence = true → bytes = [] →
    member? initial field.member = member? members field.member

section Records

variable {depth : Nat} {initial members : List (String × Value)}

/-- Reading one field brings the members one step further. -/
theorem Conveys.readFields_cons {current : List (String × Value)} {done : List String} {field : Field}
    {value : Value} {bytes : Bytes} (h : registry.Conveys version depth initial members field value bytes)
    (hfilled : Filled initial members done current) (rest : Bytes) :
    ∃ next, Filled initial members (done ++ [field.member]) next ∧
      ∀ {fields : Nat → List (Field × (Bytes → Option Reading))} {answer},
        Settles (fun fuel => readFields (fields fuel) next rest) answer →
          Settles (fun fuel => readFields ((field,
            registry.readFieldDirect version (registry.readDirect version fuel depth) field) :: fields fuel)
              current (bytes ++ rest)) answer := by
  obtain ⟨hadapter, hmember, htype, hcrosses, hinitial⟩ := h
  have hread := hcrosses.read rest
  have habsent := hcrosses.absent
  rw [htype] at hread habsent
  by_cases hnothing : field.type.isSequence = true ∧ bytes ++ rest = []
  · obtain ⟨hsequence, hnil⟩ := hnothing
    obtain ⟨rfl, rfl⟩ := List.append_eq_nil_iff.1 hnil
    refine ⟨current, hfilled.skip (hinitial hsequence rfl), fun hfields => ?_⟩
    simp only [readFields, readFieldDirect, hadapter, List.append_nil]
    exact (habsent hsequence).bind hfields
  · refine ⟨setMember current field.member value, hfilled.set hmember, fun hfields => ?_⟩
    simp only [readFields, readFieldDirect, hadapter]
    refine (hread fun hsequence hnil => hnothing ⟨hsequence, hnil⟩).bind ?_
    simpa only [Reading.found, Field.store, if_pos htype] using hfields

/-- Writing one field puts its bytes in front of those of the fields after it. -/
theorem Conveys.writeFields_cons {field : Field} {value : Value} {bytes others : Bytes}
    (h : registry.Conveys version depth initial members field value bytes)
    {fields : Nat → List (Field × (Value → Option Writing))}
    (hfields : Settles (fun fuel => writeFields members (fields fuel)) (.done others)) :
    Settles (fun fuel => writeFields members ((field,
      registry.writeFieldDirect version (registry.writeDirect version fuel depth) field) :: fields fuel))
        (.done (bytes ++ others)) := by
  obtain ⟨hadapter, hmember, htype, hcrosses, -⟩ := h
  have hwrite := hcrosses.write
  rw [htype] at hwrite
  simp only [writeFields, writeMember, hmember, writeFieldDirect, hadapter]
  exact hwrite.bind (hfields.bind (.pure _))

/-- **The loop over fields** settles in both directions. Reading is said of any members that the fields
before have filled, as these are what the induction goes over. -/
theorem settles_fields {fields : List Field} (h : ∀ field ∈ fields, ∃ value bytes,
      registry.Conveys version depth initial members field value bytes) :
    ∃ bytes,
      Settles (fun fuel => writeFields members (fields.map fun field => (field,
        registry.writeFieldDirect version (registry.writeDirect version fuel depth) field))) (.done bytes) ∧
      ∀ rest done current, Filled initial members done current →
        ∃ final, Filled initial members (done ++ fields.map Field.member) final ∧
          Settles (fun fuel => readFields (fields.map fun field => (field,
            registry.readFieldDirect version (registry.readDirect version fuel depth) field))
              current (bytes ++ rest)) (.ok final, rest) := by
  induction fields with
  | nil =>
    refine ⟨[], .pure _, fun rest done current hfilled => ⟨current, ?_, .pure _⟩⟩
    rwa [List.map_nil, List.append_nil]
  | cons field fields ih =>
    rw [List.forall_mem_cons] at h
    obtain ⟨⟨value, first, hfirst⟩, h⟩ := h
    obtain ⟨others, hwrite, hread⟩ := ih h
    refine ⟨first ++ others, hfirst.writeFields_cons hwrite, fun rest done current hfilled => ?_⟩
    obtain ⟨next, hnext, hfield⟩ := hfirst.readFields_cons hfilled (others ++ rest)
    obtain ⟨final, hfinal, hfields⟩ := hread rest _ next hnext
    refine ⟨final, ?_, ?_⟩
    · rwa [List.append_assoc] at hfinal
    · rw [List.append_assoc]
      exact hfield hfields

end Records

/-- What a field carries in a record of such values. -/
structure Holds (registry : Registry) (version : UInt32) (adapter : CallerAdapter) (Held : Value → Prop)
    (initial members : List (String × Value)) (field : Field) (value : Value) (bytes : Bytes) : Prop where
  adapter_eq : field.adapter = none
  member_eq : member? members field.member = some value
  type_eq : value.type = field.type
  occurs : registry.Occurs version adapter Held field.format value bytes
  /-- What an empty buffer does not give back is there from the beginning. -/
  initial_eq : field.type.isSequence = true → bytes = [] →
    member? initial field.member = member? members field.member

/-- What is carried crosses the wire, where the adapter is left in charge of it. -/
theorem Holds.conveys (hspared : registry.Spares version Spared) {family : String}
    (hfamily : Spared (.family family)) (hadapter : registry.adapter? (.family family) = some adapter)
    {initial members : List (String × Value)} {field : Field} {value : Value} {bytes : Bytes}
    (hvalue : value.Within Spared)
    (h : registry.Holds version adapter (registry.Defers version) initial members field value bytes) :
    registry.Conveys version 1 initial members field value bytes :=
  ⟨h.adapter_eq, h.member_eq, h.type_eq, h.occurs.crosses hspared hfamily hadapter hvalue, h.initial_eq⟩

/-- A record that carries values of one family and nothing else. Its schema serves it, and members that
are not on the wire are as the record begins. -/
structure Houses (registry : Registry) (version : UInt32) (adapter : CallerAdapter) (Held : Value → Prop)
    (name : String) (schema : Schema) (members : List (String × Value)) : Prop where
  plain : registry.adapter? (.record name) = none
  schema_eq : registry.schema? (.record name) = some schema
  names_eq : members.map Prod.fst = schema.initial.map Prod.fst
  nodup : (members.map Prod.fst).Nodup
  carried : ∀ field ∈ schema.fieldsAt version, ∃ value bytes,
    registry.Holds version adapter Held schema.initial members field value bytes
  uncarried : ∀ name, (∀ field ∈ schema.fieldsAt version, field.member ≠ name) →
    member? schema.initial name = member? members name

section Houses

variable {family name : String} {Held : Value → Prop} {schema : Schema} {members : List (String × Value)}

/-- The record is served by its own schema. -/
theorem Houses.plan?_eq (h : registry.Houses version adapter Held name schema members) :
    registry.plan? version (.record name) = some (.record schema (schema.fieldsAt version)) := by
  rw [plan?_of_no_adapter? h.plain, builtinPlan?, h.schema_eq, Option.map_some]

/-- Nothing is missing for the record. -/
theorem Houses.find_eq (hadapter : registry.adapter? (.family family) = some adapter)
    (h : registry.Houses version adapter Held name schema members) :
    registry.find version (.record name) = .ok (.record schema (schema.fieldsAt version)) := by
  refine find_of_plan? (lacking?_eq_none (fun type => type = .record name ∨ type = .family family ∨
    ∃ field ∈ schema.fieldsAt version, type = field.type) ?closed _ _ (.inl rfl)) h.plan?_eq
  -- the types that the record leads to: itself, the family, and those of its fields
  rintro type (rfl | rfl | ⟨field, hfield, rfl⟩) -
  · refine ⟨_, h.plan?_eq, fun need hneed => ?_⟩
    obtain ⟨field, hfield, hneed⟩ := List.mem_flatMap.1 hneed
    obtain ⟨value, bytes, hholds⟩ := h.carried field hfield
    simp only [Field.needs, hholds.adapter_eq, List.mem_singleton] at hneed
    exact .inr (.inr ⟨field, hfield, hneed⟩)
  · exact ⟨_, plan?_of_adapter? hadapter, fun _ hneed => absurd hneed List.not_mem_nil⟩
  · obtain ⟨value, bytes, hholds⟩ := h.carried field hfield
    obtain ⟨plan, hplan, hneeds⟩ := hholds.occurs.needs hadapter
    rw [hholds.type_eq] at hplan
    exact ⟨plan, hplan, fun need hneed => .inr (.inl (hneeds need hneed))⟩

/-- **The plan of the record** writes it as some bytes and reads it from them. -/
theorem Houses.settles (hspared : registry.Spares version Spared) (hdepth : 0 < registry.limits.maxDepth)
    (hfamily : Spared (.family family)) (hadapter : registry.adapter? (.family family) = some adapter)
    (hvalue : (Value.record name members).Within Spared)
    (h : registry.Houses version adapter (registry.Defers version) name schema members) :
    ∃ bytes,
      Settles (fun fuel => registry.writeDirect version fuel 0 (.record schema (schema.fieldsAt version)) {}
        (some (.record name members))) (.done bytes) ∧
      ∀ rest, Settles (fun fuel => registry.readDirect version fuel 0
        (.record schema (schema.fieldsAt version)) {} (bytes ++ rest))
          (.found (.record name members) rest) := by
  have hname : schema.type = .record name := type_of_plan? h.plan?_eq
  have hconveys : ∀ field ∈ schema.fieldsAt version, ∃ value bytes,
      registry.Conveys version 1 schema.initial members field value bytes := by
    intro field hfield
    obtain ⟨value, bytes, hholds⟩ := h.carried field hfield
    have hcarried := hvalue.member (mem_of_lookup_eq_some hholds.member_eq)
    exact ⟨value, bytes, hholds.conveys hspared hfamily hadapter hcarried⟩
  obtain ⟨bytes, hwrite, hread⟩ := settles_fields hconveys
  refine ⟨bytes, .step ?write, fun rest => .step ?read⟩
  case write =>
    have hown : (some (Value.record name members)).all (fun value => value.type =
        (Plan.record schema (schema.fieldsAt version)).type) = true :=
      decide_eq_true hname.symm
    simp only [writeDirect, writeStepDirect, if_pos hown, writeOwnDirect, if_neg (Nat.not_le.2 hdepth)]
    exact hwrite
  case read =>
    have hrecord : ∀ members, schema.record members = .record name members := by
      intro members
      rw [Schema.record, hname]
      rfl
    obtain ⟨final, hfinal, hfields⟩ := hread rest [] _ (.start h.names_eq)
    obtain rfl : final = members := hfinal.eq_members h.nodup h.uncarried
    simp only [readDirect, readStepDirect, if_neg (Nat.not_le.2 hdepth), ← hrecord]
    exact hfields.bind (.pure _)

end Houses

/-! ## Whole calls

What a call leads to is asked to be spared by factories at every version, since the calls before it may
have been at any. What they left in the slot table is then built as the plans say, and so are the adapters
of this call. -/

/-- **Reading undoes writing in a record of a family's values**, if the family has an adapter of the
caller's that brings each of them back, and the alternatives they hold have no adapters of their own but
generic ones. With enough fuel both calls end, and less fuel changes nothing about how they end. Whatever
was called before makes no difference either.

Factories may be there, as long as they leave alone what the record and its values lead to, and calls
before this one have kept to such types. Without factories, these are all types (`Registry.spares_all`)
and all histories (`Registry.Reached.within`). -/
theorem decode_encode_of_family {Spared : UInt32 → TypeExpr → Prop}
    (hspared : ∀ version, registry.Spares version (Spared version)) (hdepth : 0 < registry.limits.maxDepth)
    {family name : String} (hfamily : Spared version (.family family)) (hrecord : Spared version (.record name))
    (hadapter : registry.adapter? (.family family) = some adapter) {schema : Schema}
    {members : List (String × Value)} (hvalue : (Value.record name members).Within (Spared version))
    (h : registry.Houses version adapter (registry.Defers version) name schema members) :
    ∃ bytes, ∀ table, registry.ReachedWithin Spared table →
      (Settles (fun fuel => (registry.encodeIn fuel (.record name members) version).answer table)
        (.done bytes) ∧
      ∀ writing, (registry.encode (.record name members) version).answer table = some writing →
        writing = .done bytes) ∧
      ∀ rest,
        Settles (fun fuel => (registry.decodeIn fuel (.record name) version (bytes ++ rest)).answer table)
          (.found (.record name members) rest) ∧
        ∀ reading, (registry.decode (.record name) version (bytes ++ rest)).answer table = some reading →
          reading = .found (.record name members) rest := by
  obtain ⟨bytes, hwrite, hread⟩ := h.settles (hspared version) hdepth hfamily hadapter hvalue
  have hfind := h.find_eq hadapter
  refine ⟨bytes, fun table htable => ⟨?encode, fun rest => ?decode⟩⟩
  case encode =>
    have hencode : Settles (fun fuel =>
        (registry.encodeIn fuel (.record name members) version).answer table) (.done bytes) := by
      refine hwrite.congr fun fuel => ?_
      rw [htable.encodeIn_answer hspared fuel hrecord hvalue, encodeDirect, writeTypeDirect, Value.type, hfind]
    exact ⟨hencode, fun _ => htable.encode_eq_of_settles hspared hrecord hvalue hencode⟩
  case decode =>
    have hdecode : Settles (fun fuel =>
        (registry.decodeIn fuel (.record name) version (bytes ++ rest)).answer table)
          (.found (.record name members) rest) := by
      have htype : (Value.record name members).type = .record name := rfl
      have hexpected := (hread rest).map (·.expect (.record name))
      rw [expect_found htype] at hexpected
      refine hexpected.congr fun fuel => ?_
      rw [htable.decodeIn_answer hspared fuel hrecord, decodeDirect, readTypeDirect, hfind]
    exact ⟨hdecode, fun _ => htable.decode_eq_of_settles hspared hrecord hdecode⟩

/-! ## Panels of devices

A family with three alternatives, one for each way in which preferences go: one that holds nothing, one
that holds a record, and one that holds a number. The adapter marks each of them with a byte. -/

/-- No device in this place. -/
def idle : Value := .bare "device" "idle"

/-- A relay, which is a record. -/
def relay (port : UInt8) : Value :=
  .variant "device" "relay" (.record "relay" [("port", .int .u8 port.toBitVec)])

/-- A counter, which is a number. -/
def counter (count : UInt8) : Value := .variant "device" "counter" (.int .u8 count.toBitVec)

/-- The values of the family. -/
inductive IsDevice : Value → Prop where
  | idle : IsDevice idle
  | relay (port : UInt8) : IsDevice (relay port)
  | counter (count : UInt8) : IsDevice (counter count)

/-- Marks a device with what it is. -/
def deviceAdapter : CallerAdapter where
  type := .family "device"
  read _ source := .finish (match source with
    | 0 :: rest => .found idle rest
    | 1 :: port :: rest => .found (relay port) rest
    | 2 :: count :: rest => .found (counter count) rest
    | mark :: rest => .failed (.invalidSchema (.reported s!"unknown device {mark}")) rest
    | [] => .absent [])
  write _ value := .finish (match value with
    | some (.bare _ _) => .done [0]
    | some (.variant _ _ (.record _ [(_, .int .u8 port)])) => .done [1, .ofBitVec port]
    | some (.variant _ _ (.int .u8 count)) => .done [2, .ofBitVec count]
    | some _ => .failed (.invalidSchema (.reported "unknown device"))
    | none => .done [])

def portField : Field :=
  { name := "port", member := "port", type := .scalar (.int .u8), format := {}, adapter := none }

def relaySchema : Schema :=
  { type := .record "relay", fields := [portField], initial := [("port", .int .u8 0)] }

def mainField : Field :=
  { name := "main", member := "main", type := .family "device", format := {}, adapter := none }

def spareField : Field :=
  { name := "spare", member := "spare", type := .optional (.family "device"), format := {},
    adapter := none }

def rackField : Field :=
  { name := "rack", member := "rack", type := .sequence .list (.family "device"),
    format := { length := 2 }, adapter := none }

def panelSchema : Schema :=
  { type := .record "panel", fields := [mainField, spareField, rackField],
    initial := [("main", idle), ("spare", .none (.family "device")),
      ("rack", .sequence .list (.family "device") [])] }

/-- Panels carry devices in all three ways. -/
def panels (factories : List Factory) : Registry where
  schemas := [relaySchema, panelSchema]
  adapters := [deviceAdapter]
  factories := factories

/-- The members of a panel. -/
def panel (main spare upper lower : Value) : List (String × Value) :=
  [("main", main), ("spare", .some (.family "device") spare),
    ("rack", .sequence .list (.family "device") [upper, lower])]

variable {factories : List Factory}

/-- The adapter brings every device back, wherever it stands. -/
theorem undoes_device {value : Value} (h : IsDevice value) (depth : Nat) (format : FieldFormat) :
    ∃ bytes, bytes ≠ [] ∧ (panels factories).Undoes 1 deviceAdapter depth format value bytes := by
  cases h with
  | idle => exact ⟨[0], nofun, undoes_of_finish rfl rfl fun _ => rfl⟩
  | relay port => exact ⟨[1, port], nofun, undoes_of_finish rfl rfl fun _ => rfl⟩
  | counter count => exact ⟨[2, count], nofun, undoes_of_finish rfl rfl fun _ => rfl⟩

/-- Every panel of devices is a record of the family's values. -/
theorem houses_panel {Held : Value → Prop} {main spare upper lower : Value}
    (h : ∀ device ∈ [main, spare, upper, lower], IsDevice device ∧ Held device) :
    (panels factories).Houses 1 deviceAdapter Held "panel" panelSchema (panel main spare upper lower) := by
  rw [List.forall_mem_cons, List.forall_mem_cons, List.forall_mem_cons, List.forall_mem_singleton] at h
  obtain ⟨⟨hmain, hmain'⟩, ⟨hspare, hspare'⟩, ⟨hupper, hupper'⟩, hlower, hlower'⟩ := h
  have hfields : panelSchema.fieldsAt 1 = [mainField, spareField, rackField] := rfl
  have hplain : ∀ type, type ≠ .family "device" → (panels factories).adapter? type = none := by
    intro type hne
    simp only [adapter?, panels, List.find?_singleton, deviceAdapter, decide_eq_true_eq, if_neg hne.symm]
  have hschema : (panels factories).schema? (.record "panel") = some panelSchema := rfl
  refine ⟨hplain _ (by decide), hschema, rfl, ?nodup, ?carried, ?uncarried⟩
  case nodup =>
    show ["main", "spare", "rack"].Nodup
    decide
  case carried =>
    have hfamily : main.type = .family "device" := by cases hmain <;> rfl
    obtain ⟨bytes, -, hmain⟩ := undoes_device hmain 1 mainField.format
    obtain ⟨bytes', -, hspare⟩ := undoes_device hspare 1 spareField.format
    obtain ⟨first, hnonempty, hupper⟩ := undoes_device hupper 1 rackField.format.element
    obtain ⟨second, -, hlower⟩ := undoes_device hlower 1 rackField.format.element
    rw [hfields, List.forall_mem_cons, List.forall_mem_cons, List.forall_mem_singleton]
    refine ⟨⟨main, bytes, ?_⟩, ⟨.some (.family "device") spare, bytes', ?_⟩,
      ⟨.sequence .list (.family "device") [upper, lower], [first, second].flatten, ?_⟩⟩
    · exact ⟨rfl, rfl, hfamily, .bare hmain' hmain, fun hsequence => absurd hsequence (by decide)⟩
    · exact ⟨rfl, rfl, rfl, .optional (hplain _ (by decide)) hspare' hspare,
        fun hsequence => absurd hsequence (by decide)⟩
    · refine ⟨rfl, rfl, rfl, .sequence (hplain _ (by decide)) rfl ?_, fun _ hnil => ?_⟩
      · exact .cons ⟨hupper', hupper⟩ (.cons ⟨hlower', hlower⟩ .nil)
      · exact absurd (List.append_eq_nil_iff.1 hnil).1 hnonempty
  case uncarried =>
    intro name hname
    rw [hfields, List.forall_mem_cons, List.forall_mem_cons, List.forall_mem_singleton] at hname
    obtain ⟨hmain, hspare, hrack⟩ := hname
    have hmain' : (name == "main") = false := beq_false_of_ne hmain.symm
    have hspare' : (name == "spare") = false := beq_false_of_ne hspare.symm
    have hrack' : (name == "rack") = false := beq_false_of_ne hrack.symm
    simp only [panelSchema, panel, member?, List.lookup_cons, hmain', hspare', hrack']

/-- A factory that offers one adapter, for the type of its values. -/
def offerFactory (adapter : CallerAdapter) : Factory := fun _ type =>
  .finish (.ok (if type = adapter.type then some ⟨.custom, .caller adapter⟩ else none))

/-- What panels and relays lead to. -/
def panelTypes : List TypeExpr :=
  [.record "panel", .family "device", .optional (.family "device"), .sequence .list (.family "device"),
    .record "relay", .scalar (.int .u8)]

/-- A factory that offers an adapter for another type leaves panels and relays alone. -/
theorem spares_panels (version : UInt32) :
    (panels [offerFactory markAdapter]).Spares version (· ∈ panelTypes) where
  passesOver type htype factory hfactory := by
    obtain rfl := List.mem_singleton.1 hfactory
    have hne : type ≠ markAdapter.type := by
      rintro rfl
      exact absurd htype (by decide)
    rw [offerFactory, if_neg hne]
  within type plan htype hplan := by
    simp only [panelTypes, List.mem_cons, List.not_mem_nil, or_false] at htype
    rcases htype with rfl | rfl | rfl | rfl | rfl | rfl
    all_goals obtain rfl := Option.some.inj hplan
    · intro field hfield
      have hlisted : field ∈ panelSchema.fields := (List.mem_filter.1 hfield).1
      simp only [panelSchema, List.mem_cons, List.not_mem_nil, or_false] at hlisted
      rcases hlisted with rfl | rfl | rfl <;> exact Field.within_of_type rfl (by decide)
    · exact ⟨fun _ _ _ => trivial, fun _ _ _ _ => trivial⟩
    · exact (by decide : TypeExpr.family "device" ∈ panelTypes)
    · exact (by decide : TypeExpr.family "device" ∈ panelTypes)
    · intro field hfield
      have hlisted : field ∈ relaySchema.fields := (List.mem_filter.1 hfield).1
      obtain rfl := List.mem_singleton.1 hlisted
      exact Field.within_of_type rfl (by decide)
    · trivial

/-- A relay leaves the adapter of the family in charge: it is a record. -/
theorem defers_relay (port : UInt8) : (panels [offerFactory markAdapter]).Defers 1 (relay port) := by
  have htype : (relay port).concrete.type ∈ panelTypes :=
    (by decide : TypeExpr.record "relay" ∈ panelTypes)
  refine .inr ?_
  rw [originOf_answer (spares_panels 1) htype]
  show some (((panels [offerFactory markAdapter]).find 1 (.record "relay")).map Plan.origin) = _
  decide +kernel

/-- Relays are brought back from all three kinds of fields, with a factory for another type at hand. -/
theorem decode_encode_panel_of_relays :
    ∃ bytes, Settles (fun fuel => ((panels [offerFactory markAdapter]).encodeIn fuel
        (.record "panel" (panel (relay 7) (relay 8) (relay 9) idle)) 1).answer {}) (.done bytes) ∧
      Settles (fun fuel =>
        ((panels [offerFactory markAdapter]).decodeIn fuel (.record "panel") 1 (bytes ++ [5])).answer {})
          (.found (.record "panel" (panel (relay 7) (relay 8) (relay 9) idle)) [5]) := by
  have hdefers : ∀ device ∈ [relay 7, relay 8, relay 9, idle],
      IsDevice device ∧ (panels [offerFactory markAdapter]).Defers 1 device := by
    rw [List.forall_mem_cons, List.forall_mem_cons, List.forall_mem_cons, List.forall_mem_singleton]
    exact ⟨⟨.relay 7, defers_relay 7⟩, ⟨.relay 8, defers_relay 8⟩, ⟨.relay 9, defers_relay 9⟩,
      .idle, .inl rfl⟩
  have hadapter : (panels [offerFactory markAdapter]).adapter? (.family "device") = some deviceAdapter := rfl
  have halternatives : ∀ type ∈ (Value.record "panel" (panel (relay 7) (relay 8) (relay 9) idle)).alternatives,
      type ∈ panelTypes := by decide +kernel
  obtain ⟨bytes, htransfers⟩ :=
    decode_encode_of_family spares_panels (by decide) (by decide) (by decide) hadapter halternatives
      (houses_panel hdefers)
  obtain ⟨⟨hencode, -⟩, hdecode⟩ := htransfers {} .fresh
  exact ⟨bytes, hencode, (hdecode [5]).1⟩

/-- An adapter for optional devices that writes none of them. -/
def forgetfulAdapter : CallerAdapter where
  type := .optional (.family "device")
  read _ source := .finish (.absent source)
  write _ _ := .finish (.done [])

/-- **Not every device is brought back.** The adapter reads all of them as it writes them, wherever they
stand, and panels are records of devices. Yet a counter is written as the number it holds, without a mark,
and its bytes are not read. And where a factory has taken optional devices over, panels that differ in
theirs are written alike. -/
theorem panels_loses_devices :
    (∀ factories, (panels factories).adapter? (.family "device") = some deviceAdapter ∧
      (∀ device, IsDevice device → ∀ depth format,
        ∃ bytes, (panels factories).Undoes 1 deviceAdapter depth format device bytes) ∧
      ∀ main spare upper lower, (∀ device ∈ [main, spare, upper, lower], IsDevice device) →
        (panels factories).Houses 1 deviceAdapter IsDevice "panel" panelSchema
          (panel main spare upper lower)) ∧
    (((panels []).encode (.record "panel" (panel (counter 44) idle idle idle)) 1).answer {}).map
      (fun writing => (writing.bytes, writing.result)) = some ([44, 0, 0, 0], .ok ()) ∧
    (((panels []).decode (.record "panel") 1 [44, 0, 0, 0]).answer {}).map
      (fun reading => (reading.result.map Option.isSome, reading.rest)) =
        some (.error (.invalidSchema (.reported "unknown device 44")), [0, 0, 0]) ∧
    ∀ spare ∈ [relay 8, relay 9],
      (((panels [offerFactory forgetfulAdapter]).encode (.record "panel" (panel idle spare idle idle)) 1).answer {}).map
        (fun writing => (writing.bytes, writing.result)) = some ([0, 0, 0], .ok ()) := by
  refine ⟨fun factories => ⟨rfl, fun device hdevice depth format => ?undoes, ?houses⟩, ?written, ?read,
    ?alike⟩
  case undoes =>
    obtain ⟨bytes, -, hundoes⟩ := undoes_device hdevice depth format
    exact ⟨bytes, hundoes⟩
  case houses => exact fun _ _ _ _ h => houses_panel fun device hdevice => ⟨h device hdevice, h device hdevice⟩
  case written => decide +kernel
  case read => decide +kernel
  case alike => decide +kernel

end Registry

end Telegram
