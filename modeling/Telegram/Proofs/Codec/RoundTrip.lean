import Mathlib.Algebra.Order.BigOperators.Group.List
import Telegram.Proofs.Codec.Fits

/-!
# Reading undoes writing

In a registry of record schemas alone, a record that fits is written without fail, and reading gives it
back from its bytes and leaves whatever follows them.

* `Registry.Spells` is what is shown of each part of the record: its bytes, and that any fuel from
  `Registry.callDepth` on is enough to write and to read them.
* There is one lemma for each constructor of `Registry.Fits`; the loops over elements and fields come
  first. `Registry.Fits.spells` puts them together by induction.
* `Registry.SchemasOnly.decode_encode_of_fits` is the round trip of a whole call, after any history.

Writing and reading go through the plans of `Registry.writeDirect` and `Registry.readDirect`; that
adapters do the same is the business of `Registry.Reached`.
-/

namespace Telegram

open Codec

namespace Registry

variable {registry : Registry} {version : UInt32}

/-! ## Plans and fuel

With schemas alone there is one plan for each type, and it is the one that is built in. How deep plans
call each other is bounded by the records that may still be entered: each of them leads to the type of one
of its fields, and what that contains is counted by its weight. -/

theorem SchemasOnly.adapter?_eq (hplain : registry.SchemasOnly) (type : TypeExpr) :
    registry.adapter? type = none := by
  rw [adapter?, hplain.adapters_eq, List.find?_nil]

theorem SchemasOnly.plan?_eq (hplain : registry.SchemasOnly) (type : TypeExpr) :
    registry.plan? version type = registry.builtinPlan? version type :=
  plan?_of_no_adapter? (hplain.adapter?_eq type)

theorem SchemasOnly.plan?_record (hplain : registry.SchemasOnly) {name : String} {schema : Schema}
    (hschema : registry.schema? (.record name) = some schema) :
    registry.plan? version (.record name) = some (.record schema (schema.fieldsAt version)) := by
  rw [hplain.plan?_eq, builtinPlan?, hschema, Option.map_some]

section Fields

variable {schema : Schema} {type : TypeExpr} {field : Field}

/-- Every field on the wire is read with the plan of its type. -/
theorem SchemasOnly.readFieldDirect_eq (hplain : registry.SchemasOnly)
    (hschema : registry.schema? type = some schema) (hfield : field ∈ schema.fieldsAt version)
    (read : Plan → FieldFormat → Bytes → Option Reading) :
    registry.readFieldDirect version read field =
      registry.readNeed version read field.type field.format := by
  have hown := hplain.adapter_eq schema (List.mem_of_find?_eq_some hschema) field (List.mem_filter.1 hfield).1
  funext source
  simp only [readFieldDirect, hown]

/-- Every field on the wire is written with the plan of its type, or with that of the alternative held. -/
theorem SchemasOnly.writeFieldDirect_eq (hplain : registry.SchemasOnly)
    (hschema : registry.schema? type = some schema) (hfield : field ∈ schema.fieldsAt version)
    (write : Plan → FieldFormat → Option Value → Option Writing) :
    registry.writeFieldDirect version write field = fun value =>
      registry.writeNeed version write field.type field.format (some value) := by
  have hown := hplain.adapter_eq schema (List.mem_of_find?_eq_some hschema) field (List.mem_filter.1 hfield).1
  funext value
  simp only [writeFieldDirect, hown]

end Fields

/-- How deep plans call each other below a value of the type, `depth` records deep: each record entered
leads to a field type with all that it contains. The bound is generous: every record is taken to contain
as much as all schemas together. It is only needed that there is one, and that entering a record leaves
enough for its fields. -/
def callDepth (registry : Registry) (depth : Nat) (type : TypeExpr) : Nat :=
  type.weight + (registry.limits.maxDepth - depth) * registry.weight

/-- The weight of a registry counts the types of all fields. -/
theorem weight_le_of_mem {schema : Schema} (hschema : schema ∈ registry.schemas) {field : Field}
    (hfield : field ∈ schema.fields) : field.type.weight ≤ registry.weight := by
  rw [weight_eq_sum]
  refine List.single_le_sum (fun _ _ => Nat.zero_le _) _ (List.mem_map.2 ⟨field, ?_, rfl⟩)
  exact List.mem_flatMap.2 ⟨schema, hschema, hfield⟩

/-- A record that is not nested too deep leaves enough fuel for its fields. -/
theorem callDepth_field {depth : Nat} (hdepth : depth < registry.limits.maxDepth) (name : String)
    {schema : Schema} (hschema : schema ∈ registry.schemas) {field : Field}
    (hfield : field ∈ schema.fields) :
    registry.callDepth (depth + 1) field.type + 1 ≤ registry.callDepth depth (.record name) := by
  have hle := weight_le_of_mem hschema hfield
  obtain ⟨left, hleft⟩ : ∃ left, registry.limits.maxDepth - depth = left + 1 :=
    ⟨registry.limits.maxDepth - depth - 1, by omega⟩
  have hnext : registry.limits.maxDepth - (depth + 1) = left := by omega
  simp only [callDepth, hleft, hnext, TypeExpr.weight, Nat.succ_mul]
  omega

theorem weight_pos (type : TypeExpr) : 0 < type.weight := by
  cases type <;> simp [TypeExpr.weight]

/-! ## Spelling a value

The induction needs more than that writing succeeds and reading inverts it. A buffer that has run out
makes a sequence absent, so it has to be known which values take bytes; and the answers have to be there
from an amount of fuel on that does not depend on the bytes. -/

/-- The value is written as `bytes`, and is read back from them. A sequence without any bytes is the one
thing that an empty buffer does not give back. -/
structure Spells (registry : Registry) (version : UInt32) (depth : Nat) (format : FieldFormat)
    (value : Value) (bytes : Bytes) : Prop where
  takes_iff : registry.Takes version format value.type ↔ bytes ≠ []
  write : ∀ fuel, registry.callDepth depth value.type ≤ fuel →
    registry.writeNeed version (registry.writeDirect version fuel depth) value.type format (some value) =
      some (.done bytes)
  read : ∀ fuel rest, registry.callDepth depth value.type ≤ fuel →
    (value.type.isSequence = true → bytes ++ rest ≠ []) →
      registry.readNeed version (registry.readDirect version fuel depth) value.type format
        (bytes ++ rest) = some (.found value rest)

/-- A value that stands for itself is spelled as its plan says, one call deep. -/
theorem spells_of_plan {depth : Nat} {format : FieldFormat} {value : Value} {bytes : Bytes} {plan : Plan}
    (hplan : registry.plan? version value.type = some plan) (hconcrete : value.concrete = value)
    (htakes : registry.Takes version format value.type ↔ bytes ≠ [])
    (hwrite : ∀ fuel, registry.callDepth depth value.type ≤ fuel + 1 →
      registry.writeOwnDirect version (registry.writeDirect version fuel) depth plan format (some value) =
        some (.done bytes))
    (hread : ∀ fuel rest, registry.callDepth depth value.type ≤ fuel + 1 →
      (value.type.isSequence = true → bytes ++ rest ≠ []) →
        registry.readStepDirect version (registry.readDirect version fuel) depth plan format
          (bytes ++ rest) = some (.found value rest)) :
    registry.Spells version depth format value bytes := by
  -- a call spends one unit of fuel, and every type has a positive weight
  have hfuel : ∀ fuel, registry.callDepth depth value.type ≤ fuel → ∃ fuel', fuel = fuel' + 1 := by
    intro fuel hle
    have hpos := weight_pos value.type
    exact ⟨fuel - 1, by rw [callDepth] at hle; omega⟩
  refine ⟨htakes, ?write, ?read⟩
  case write =>
    intro fuel hle
    obtain ⟨fuel, rfl⟩ := hfuel fuel hle
    -- the value is of the type of its plan, and there is no alternative of a family to weigh
    have hown : (some value).all (fun value => value.type = plan.type) = true := by
      simp [type_of_plan? hplan]
    simp only [writeNeed, hplan, hconcrete, ne_eq, not_true_eq_false, and_false, if_false, writeDirect,
      writeStepDirect, if_pos hown]
    exact hwrite fuel hle
  case read =>
    intro fuel rest hle hsequence
    obtain ⟨fuel, rfl⟩ := hfuel fuel hle
    simp only [readNeed, hplan]
    exact hread fuel rest hle hsequence

/-- What is read of a value's own type is as expected. -/
theorem expect_found {value : Value} {type : TypeExpr} (h : value.type = type) (rest : Bytes) :
    (Reading.found value rest).expect type = .found value rest := by
  simp only [Reading.expect, Reading.found, if_pos h]

/-! ## Scalars and optionals

The scalars have been shown to come back in their own modules. An optional adds nothing on the wire: a
value in it is written as it would be without it, and one that is missing is not among the values that
fit. -/

/-- **A scalar that fits** is spelled by the bytes of its own round trip. It always takes some. -/
theorem spells_scalar (hplain : registry.SchemasOnly) {depth : Nat} {format : FieldFormat} {value : Value}
    (h : value.FitsScalar format) : ∃ bytes, registry.Spells version depth format value bytes := by
  obtain ⟨scalar, bytes, htype, hconcrete, hnonempty, hwrite, hread⟩ := Scalar.read_write h
  have hplan : registry.plan? version value.type = some (.leaf (.scalar scalar)) := by
    rw [hplain.plan?_eq, htype]
    rfl
  refine ⟨bytes, spells_of_plan hplan hconcrete ?takes ?write ?read⟩
  case takes => exact ⟨fun _ => hnonempty, fun _ => htype ▸ .scalar format scalar⟩
  case write =>
    intro fuel _
    simp only [writeOwnDirect, hwrite]
  case read =>
    intro fuel rest _ _
    simp only [readStepDirect, hread]

/-- **An optional that holds something** is spelled as its content. The content may be a sequence only if
that takes bytes: from an empty buffer it would be absent, and the optional would be read as holding
nothing. -/
theorem spells_optional (hplain : registry.SchemasOnly) {depth : Nat} {format : FieldFormat}
    {content : Value} {bytes : Bytes}
    (htakes : content.type.isSequence = true → registry.Takes version format content.type)
    (h : registry.Spells version depth format content bytes) :
    registry.Spells version depth format (.some content.type content) bytes := by
  have hplan : registry.plan? version (.optional content.type) = some (.optional content.type) :=
    hplain.plan?_eq _
  have hfuel : ∀ fuel, registry.callDepth depth (.optional content.type) ≤ fuel + 1 →
      registry.callDepth depth content.type ≤ fuel := by
    intro fuel hle
    simp only [callDepth, TypeExpr.weight] at hle ⊢
    omega
  refine spells_of_plan hplan rfl ?takes ?write ?read
  case takes =>
    rw [← h.takes_iff]
    exact ⟨fun hoptional => by cases hoptional; assumption, .optional⟩
  case write =>
    intro fuel hle
    exact h.write fuel (hfuel fuel hle)
  case read =>
    intro fuel rest hle _
    have hread := h.read fuel rest (hfuel fuel hle) fun hsequence => by
      have hnonempty := h.takes_iff.1 (htakes hsequence)
      exact fun hnil => hnonempty (List.append_eq_nil_iff.1 hnil).1
    simp only [readStepDirect, hread, Option.bind_eq_bind, Option.bind_some, expect_found rfl]
    rfl

/-! ## Sequences

The elements of a sequence have one type and one format, and whether a value takes bytes depends on these
alone. So either each of them takes some, or none of them does, and an empty buffer is met at the first
element or never. -/

theorem append_ne_nil_iff {first others : Bytes} : first ++ others ≠ [] ↔ first ≠ [] ∨ others ≠ [] := by
  rw [ne_eq, List.append_eq_nil_iff, not_and_or]

/-- An element that is read goes in front of those that are read after it. -/
theorem readItems_cons {read : Bytes → Option Reading} {element : TypeExpr} {item : Value}
    {items : List Value} {source others rest : Bytes} (hread : read source = some (.found item others))
    (htype : item.type = element)
    (hothers : readItems read element items.length others = some (.ok items, rest)) :
    readItems read element (item :: items).length source = some (.ok (item :: items), rest) := by
  have hrest : (Reading.found item others).rest = others := rfl
  simp only [List.length_cons, readItems, hread, Option.bind_eq_bind, Option.bind_some,
    expect_found htype, hrest, hothers]
  rfl

/-- Elements of one type and format are spelled one after the other. They take bytes all or none, so a
buffer that is not empty before the first is not empty before any of them. -/
theorem spells_items {depth : Nat} {format : FieldFormat} {element : TypeExpr} (items : List Value)
    (htype : ∀ item ∈ items, item.type = element)
    (h : ∀ item ∈ items, ∃ bytes, registry.Spells version depth format item bytes) :
    ∃ bytes, (items ≠ [] ∧ registry.Takes version format element ↔ bytes ≠ []) ∧
      (∀ fuel, registry.callDepth depth element ≤ fuel →
        writeItems (fun item =>
          registry.writeNeed version (registry.writeDirect version fuel depth) element format (some item))
          items = some (.done bytes)) ∧
      ∀ fuel rest, registry.callDepth depth element ≤ fuel → (items ≠ [] → bytes ++ rest ≠ []) →
        readItems (registry.readNeed version (registry.readDirect version fuel depth) element format)
          element items.length (bytes ++ rest) = some (.ok items, rest) := by
  induction items with
  | nil =>
    refine ⟨[], ?_, fun _ _ => rfl, fun _ _ _ _ => rfl⟩
    exact ⟨fun h => absurd rfl h.1, fun h => absurd rfl h⟩
  | cons item items ih =>
    rw [List.forall_mem_cons] at htype h
    obtain ⟨rfl, htype⟩ := htype
    obtain ⟨⟨first, hfirst⟩, h⟩ := h
    obtain ⟨others, htakes, hwrite, hread⟩ := ih htype h
    refine ⟨first ++ others, ?takes, ?write, ?read⟩
    case takes =>
      rw [append_ne_nil_iff, ← htakes, ← hfirst.takes_iff]
      exact ⟨fun h => .inl h.2, fun h => ⟨List.cons_ne_nil _ _, h.elim id And.right⟩⟩
    case write =>
      intro fuel hle
      simp only [writeItems, hfirst.write fuel hle, hwrite fuel hle, Option.bind_eq_bind,
        Option.bind_some, Writing.done]
      rfl
    case read =>
      intro fuel rest hle hsource
      have hsource := hsource (List.cons_ne_nil _ _)
      rw [List.append_assoc] at hsource ⊢
      -- either the other elements take bytes themselves, or this one leaves the buffer as it is
      have hothers : items ≠ [] → others ++ rest ≠ [] := by
        intro hitems
        by_cases hbytes : registry.Takes version format item.type
        · have hnonempty := htakes.1 ⟨hitems, hbytes⟩
          exact fun hnil => hnonempty (List.append_eq_nil_iff.1 hnil).1
        · have hnil : first = [] := by
            by_contra hne
            exact hbytes (hfirst.takes_iff.2 hne)
          rwa [hnil, List.nil_append] at hsource
      exact readItems_cons (hfirst.read fuel (others ++ rest) hle fun _ => hsource) rfl
        (hread fuel rest hle hothers)

/-- **A sequence** is spelled by its elements. Their number does not stand on the wire, so it has to be
the one that the reader goes by: the size of an array, or the length in the format. -/
theorem spells_sequence (hplain : registry.SchemasOnly) {depth : Nat} {format : FieldFormat}
    {container : Container} {element : TypeExpr} {items : List Value}
    (hcount : items.length = container.size?.getD format.length)
    (htype : ∀ item ∈ items, item.type = element)
    (h : ∀ item ∈ items, ∃ bytes, registry.Spells version depth format.element item bytes) :
    ∃ bytes, registry.Spells version depth format (.sequence container element items) bytes := by
  obtain ⟨bytes, htakes, hwrite, hread⟩ := spells_items items htype h
  have hplan : registry.plan? version (.sequence container element) = some (.sequence container element) :=
    hplain.plan?_eq _
  have hfuel : ∀ fuel, registry.callDepth depth (.sequence container element) ≤ fuel + 1 →
      registry.callDepth depth element ≤ fuel := by
    intro fuel hle
    simp only [callDepth, TypeExpr.weight] at hle ⊢
    omega
  refine ⟨bytes, spells_of_plan hplan rfl ?takes ?write ?read⟩
  case takes =>
    rw [← htakes, ne_eq, ← List.length_eq_zero_iff, hcount]
    constructor
    · intro hsequence
      cases hsequence with
      | sequence hcount' helement => exact ⟨hcount', helement⟩
    · rintro ⟨hcount', helement⟩
      exact .sequence hcount' helement
  case write =>
    intro fuel hle
    exact hwrite fuel (hfuel fuel hle)
  case read =>
    intro fuel rest hle hsource
    have hsource := hsource rfl
    -- an empty buffer is excluded, as nothing would be read from it
    have hnonempty : ¬ (bytes ++ rest).isEmpty = true := fun hempty => hsource (List.isEmpty_iff.1 hempty)
    -- an array takes its own number of elements, the other containers any
    have haccepts : container.accepts items.length = true := by
      cases container <;> simp_all [Container.accepts, Container.size?]
    have hitems := hread fuel rest (hfuel fuel hle) fun _ => hsource
    rw [hcount] at hitems
    simp only [readStepDirect, if_neg hnonempty, hitems, Option.bind_eq_bind, Option.bind_some,
      Except.map, Container.ofItems?, if_pos haccepts]
    rfl

/-- A sequence is absent from an empty buffer. -/
theorem readNeed_nil (hplain : registry.SchemasOnly) {depth fuel : Nat} {type : TypeExpr}
    (hsequence : type.isSequence = true) (hle : registry.callDepth depth type ≤ fuel)
    (format : FieldFormat) :
    registry.readNeed version (registry.readDirect version fuel depth) type format [] =
      some (.absent []) := by
  cases type with
  | sequence container element =>
    have hplan : registry.plan? version (.sequence container element) = some (.sequence container element) :=
      hplain.plan?_eq _
    obtain ⟨fuel, rfl⟩ : ∃ fuel', fuel = fuel' + 1 :=
      ⟨fuel - 1, by simp only [callDepth, TypeExpr.weight] at hle; omega⟩
    simp only [readNeed, hplan]
    rfl
  | _ => cases hsequence

/-- What reading gives back: the value, or nothing for a sequence without any bytes. -/
theorem Spells.read_or_absent (hplain : registry.SchemasOnly) {depth fuel : Nat} {format : FieldFormat}
    {value : Value} {bytes : Bytes} (h : registry.Spells version depth format value bytes)
    (hle : registry.callDepth depth value.type ≤ fuel) (rest : Bytes) :
    registry.readNeed version (registry.readDirect version fuel depth) value.type format
        (bytes ++ rest) = some (.found value rest) ∨
      value.type.isSequence = true ∧ ¬ registry.Takes version format value.type ∧
        registry.readNeed version (registry.readDirect version fuel depth) value.type format
          (bytes ++ rest) = some (.absent rest) := by
  by_cases hnothing : value.type.isSequence = true ∧ bytes ++ rest = []
  · obtain ⟨hsequence, hnil⟩ := hnothing
    obtain ⟨rfl, rfl⟩ := List.append_eq_nil_iff.1 hnil
    exact .inr ⟨hsequence, fun htakes => h.takes_iff.1 htakes rfl, readNeed_nil hplain hsequence hle _⟩
  · exact .inl (h.read fuel rest hle fun hsequence hnil => hnothing ⟨hsequence, hnil⟩)

/-! ## Records

A record is read into the members that its schema begins with. On the way some names have been read and
some have not; the former hold what the value has, and the others what the record began with. In the end
every name is of one of the two kinds, and what a member begins with is what the value has where no field
carries it. -/

/-- Members on the way from those that a record begins with to those that it ends with: the names in
`done` have been read. The names themselves stay what they were, in their order, as a value is compared
with its members in order. -/
structure Filled (initial members : List (String × Value)) (done : List String)
    (current : List (String × Value)) : Prop where
  names_eq : current.map Prod.fst = members.map Prod.fst
  read : ∀ name ∈ done, member? current name = member? members name
  unread : ∀ name, name ∉ done → member? current name = member? initial name

section Filled

variable {initial members current : List (String × Value)} {done : List String}

/-- A field that was read replaces the member of its name, which is there as the names have not
changed. -/
theorem Filled.set (h : Filled initial members done current) {name : String} {value : Value}
    (hvalue : member? members name = some value) :
    Filled initial members (done ++ [name]) (setMember current name value) := by
  have hname : name ∈ current.map Prod.fst := by
    rw [h.names_eq]
    exact List.mem_map_of_mem (mem_of_lookup_eq_some hvalue)
  refine ⟨(setMember_names name value).trans h.names_eq, ?read, ?unread⟩
  case read =>
    intro other hother
    by_cases heq : other = name
    · rw [heq, member?_setMember_self hname, hvalue]
    · rw [member?_setMember_of_ne heq]
      refine h.read other ((List.mem_append.1 hother).resolve_right fun hmem => heq ?_)
      exact List.mem_singleton.1 hmem
  case unread =>
    intro other hother
    rw [List.mem_append, List.mem_singleton, not_or] at hother
    rw [member?_setMember_of_ne hother.2, h.unread other hother.1]

/-- Nothing has to be stored where the record begins with the value. -/
theorem Filled.skip (h : Filled initial members done current) {name : String}
    (hsame : member? initial name = member? members name) :
    Filled initial members (done ++ [name]) current := by
  refine ⟨h.names_eq, ?read, ?unread⟩
  case read =>
    intro other hother
    by_cases hmem : other ∈ done
    · exact h.read other hmem
    · obtain rfl := List.mem_singleton.1 ((List.mem_append.1 hother).resolve_left hmem)
      rw [h.unread other hmem, hsame]
  case unread =>
    exact fun other hother => h.unread other fun hmem => hother (List.mem_append_left _ hmem)

/-- Nothing has been read yet. -/
theorem Filled.start (hnames : members.map Prod.fst = initial.map Prod.fst) :
    Filled initial members [] initial :=
  ⟨hnames.symm, fun _ hmem => absurd hmem List.not_mem_nil, fun _ _ => rfl⟩

/-- When all fields have been read, a member is either that of one of them, or as the record begins. -/
theorem Filled.eq_members {fields : List Field}
    (h : Filled initial members (fields.map Field.member) current) (hnodup : (members.map Prod.fst).Nodup)
    (hinitial : ∀ name, (∀ field ∈ fields, field.member ≠ name) →
      member? initial name = member? members name) : current = members := by
  refine members_ext hnodup h.names_eq fun other => ?_
  by_cases hmem : other ∈ fields.map Field.member
  · exact h.read other hmem
  · rw [h.unread other hmem, hinitial other fun field hfield heq => hmem ?_]
    exact List.mem_map.2 ⟨field, hfield, heq⟩

end Filled

/-- What a record needs of a field that is on the wire. -/
structure Carries (registry : Registry) (version : UInt32) (depth : Nat)
    (initial members : List (String × Value)) (field : Field) (value : Value) (bytes : Bytes) : Prop where
  adapter_eq : field.adapter = none
  member_eq : member? members field.member = some value
  type_eq : value.type = field.type
  spells : registry.Spells version depth field.format value bytes
  /-- What may not be found is there from the beginning. -/
  initial_eq : field.type.isSequence = true → ¬ registry.Takes version field.format field.type →
    member? initial field.member = member? members field.member

/-- Reading one field brings the members one step further. -/
theorem Carries.readFields_cons (hplain : registry.SchemasOnly) {depth fuel : Nat}
    {initial members current : List (String × Value)} {done : List String} {field : Field} {value : Value}
    {bytes : Bytes} (h : registry.Carries version depth initial members field value bytes)
    (hle : registry.callDepth depth field.type ≤ fuel) (hfilled : Filled initial members done current)
    (fields : List (Field × (Bytes → Option Reading))) (rest : Bytes) :
    ∃ next, Filled initial members (done ++ [field.member]) next ∧
      readFields ((field, registry.readFieldDirect version (registry.readDirect version fuel depth) field) ::
        fields) current (bytes ++ rest) = readFields fields next rest := by
  obtain ⟨hadapter, hmember, htype, hspells, hinitial⟩ := h
  rw [← htype] at hle hinitial
  -- the value is found and stored, or is not found and is there already
  rcases hspells.read_or_absent hplain hle rest with hread | ⟨hsequence, htakes, hread⟩
  · refine ⟨setMember current field.member value, hfilled.set hmember, ?_⟩
    rw [htype] at hread
    simp only [readFields, readFieldDirect, hadapter, hread, Option.bind_eq_bind, Option.bind_some,
      Reading.found, Field.store, if_pos htype]
  · refine ⟨current, hfilled.skip (hinitial hsequence htakes), ?_⟩
    rw [htype] at hread
    simp only [readFields, readFieldDirect, hadapter, hread, Option.bind_eq_bind, Option.bind_some,
      Reading.absent, Field.store]

/-- Writing one field puts its bytes in front of those of the fields after it. -/
theorem Carries.writeFields_cons {depth fuel : Nat} {initial members : List (String × Value)}
    {field : Field} {value : Value} {bytes others : Bytes}
    (h : registry.Carries version depth initial members field value bytes)
    (hle : registry.callDepth depth field.type ≤ fuel) {fields : List (Field × (Value → Option Writing))}
    (hfields : writeFields members fields = some (.done others)) :
    writeFields members ((field,
      registry.writeFieldDirect version (registry.writeDirect version fuel depth) field) :: fields) =
        some (.done (bytes ++ others)) := by
  obtain ⟨hadapter, hmember, htype, hspells, -⟩ := h
  rw [← htype] at hle
  have hwrite := hspells.write fuel hle
  rw [htype] at hwrite
  simp only [writeFields, writeMember, hmember, writeFieldDirect, hadapter, hwrite, hfields,
    Option.bind_eq_bind, Option.bind_some, Writing.done]
  rfl

/-- Fields are spelled one after the other, and reading them fills in their members. -/
theorem spells_fields (hplain : registry.SchemasOnly) {depth : Nat}
    {initial members : List (String × Value)} (fields : List Field)
    (h : ∀ field ∈ fields, ∃ value bytes,
      registry.Carries version depth initial members field value bytes) :
    ∃ bytes, ((∃ field ∈ fields, registry.Takes version field.format field.type) ↔ bytes ≠ []) ∧
      ∀ fuel, (∀ field ∈ fields, registry.callDepth depth field.type ≤ fuel) →
        writeFields members (fields.map fun field => (field,
          registry.writeFieldDirect version (registry.writeDirect version fuel depth) field)) =
            some (.done bytes) ∧
        ∀ rest done current, Filled initial members done current →
          ∃ final, Filled initial members (done ++ fields.map Field.member) final ∧
            readFields (fields.map fun field => (field,
              registry.readFieldDirect version (registry.readDirect version fuel depth) field))
              current (bytes ++ rest) = some (.ok final, rest) := by
  induction fields with
  | nil =>
    refine ⟨[], by simp, ?_⟩
    intro fuel _
    refine ⟨rfl, fun rest done current hfilled => ⟨current, ?_, rfl⟩⟩
    rwa [List.map_nil, List.append_nil]
  | cons field fields ih =>
    rw [List.forall_mem_cons] at h
    obtain ⟨⟨value, first, hfirst⟩, h⟩ := h
    obtain ⟨others, htakes, hothers⟩ := ih h
    refine ⟨first ++ others, ?takes, ?transfer⟩
    case takes =>
      rw [append_ne_nil_iff, ← htakes, ← hfirst.spells.takes_iff, hfirst.type_eq]
      simp only [List.mem_cons, exists_eq_or_imp]
    case transfer =>
      intro fuel hle
      rw [List.forall_mem_cons] at hle
      obtain ⟨hwrite, hread⟩ := hothers fuel hle.2
      refine ⟨hfirst.writeFields_cons hle.1 hwrite, fun rest done current hfilled => ?_⟩
      obtain ⟨next, hnext, hfield⟩ := hfirst.readFields_cons hplain hle.1 hfilled
        (fields.map fun field => (field,
          registry.readFieldDirect version (registry.readDirect version fuel depth) field))
        (others ++ rest)
      obtain ⟨final, hfinal, hfields⟩ := hread rest _ next hnext
      refine ⟨final, ?_, ?_⟩
      · rwa [List.append_assoc, List.singleton_append] at hfinal
      · rw [List.append_assoc, List.map_cons, hfield, hfields]

/-- **A record** is spelled by its fields, one record deeper. Reading begins with the members of the
schema and ends with those of the value. -/
theorem spells_record (hplain : registry.SchemasOnly) {depth : Nat} (format : FieldFormat) {name : String}
    {schema : Schema} {members : List (String × Value)} (hdepth : depth < registry.limits.maxDepth)
    (hschema : registry.schema? (.record name) = some schema)
    (hnames : members.map Prod.fst = schema.initial.map Prod.fst)
    (hnodup : (members.map Prod.fst).Nodup)
    (hcarries : ∀ field ∈ schema.fieldsAt version, ∃ value bytes,
      registry.Carries version (depth + 1) schema.initial members field value bytes)
    (hinitial : ∀ name, (∀ field ∈ schema.fieldsAt version, field.member ≠ name) →
      member? schema.initial name = member? members name) :
    ∃ bytes, registry.Spells version depth format (.record name members) bytes := by
  obtain ⟨bytes, htakes, htransfer⟩ := spells_fields hplain (schema.fieldsAt version) hcarries
  have hplan : registry.plan? version (.record name) =
      some (.record schema (schema.fieldsAt version)) := hplain.plan?_record hschema
  have hname : schema.type = .record name := type_of_plan? hplan
  -- entering the record leaves enough fuel for each of its fields
  have hfuel : ∀ fuel, registry.callDepth depth (.record name) ≤ fuel + 1 →
      ∀ field ∈ schema.fieldsAt version, registry.callDepth (depth + 1) field.type ≤ fuel := by
    intro fuel hle field hfield
    have hfield' : field ∈ schema.fields := (List.mem_filter.1 hfield).1
    have hless := callDepth_field hdepth name (List.mem_of_find?_eq_some hschema) hfield'
    omega
  refine ⟨bytes, spells_of_plan hplan rfl ?takes ?write ?read⟩
  case takes =>
    rw [← htakes]
    constructor
    · intro hrecord
      cases hrecord with
      | record hschema' hfield h =>
        obtain rfl := Option.some.inj (hschema.symm.trans hschema')
        exact ⟨_, hfield, h⟩
    · rintro ⟨field, hfield, h⟩
      exact .record hschema hfield h
  case write =>
    intro fuel hle
    simp only [writeOwnDirect, if_neg (Nat.not_le.2 hdepth)]
    exact (htransfer fuel (hfuel fuel hle)).1
  case read =>
    intro fuel rest hle _
    obtain ⟨final, hfinal, hread⟩ := (htransfer fuel (hfuel fuel hle)).2 rest [] _ (.start hnames)
    obtain rfl : final = members := hfinal.eq_members hnodup hinitial
    simp only [readStepDirect, if_neg (Nat.not_le.2 hdepth), hread, Option.bind_eq_bind,
      Option.bind_some, Schema.record, hname]
    rfl

/-- **A value that fits is spelled by some bytes.** The induction is on the reasons why it fits, which
follow the value and carry the depth and the format along. -/
theorem Fits.spells (hplain : registry.SchemasOnly) {depth : Nat} {format : FieldFormat} {value : Value}
    (h : registry.Fits version depth format value) :
    ∃ bytes, registry.Spells version depth format value bytes := by
  induction h with
  | scalar h => exact spells_scalar hplain h
  | optional htype htakes _ ih =>
    subst htype
    obtain ⟨bytes, hbytes⟩ := ih
    exact ⟨bytes, spells_optional hplain htakes hbytes⟩
  | sequence hcount htype _ ih => exact spells_sequence hplain hcount htype ih
  | record hdepth hschema hnames hnodup hcarried _ hempty hinitial ih =>
    refine spells_record hplain _ hdepth hschema hnames hnodup (fun field hfield => ?_) hinitial
    -- each field on the wire has a member, which is spelled by the induction hypothesis
    obtain ⟨value, hmember, htype⟩ := hcarried field hfield
    obtain ⟨bytes, hbytes⟩ := ih field hfield value hmember
    have hadapter := hplain.adapter_eq _ (List.mem_of_find?_eq_some hschema) field
      (List.mem_filter.1 hfield).1
    exact ⟨value, bytes, hadapter, hmember, htype, hbytes, hempty field hfield⟩

/-! ## Whole calls

A call finds the plan of a type, is granted fuel, and begins at depth 0. The record is no alternative of a
family, so it is written by the plan of its own type. -/

/-- The fuel of a call is enough for a type at the top that is not heavier than what it was granted
for. -/
theorem callDepth_le_of_weight_le {type : TypeExpr} {weight : Nat}
    (h : type.weight ≤ 2 * (registry.weight + weight) + 64) :
    registry.callDepth 0 type ≤ registry.callFuel weight := by
  have hregistry : registry.weight ≤ 2 * (registry.weight + weight) + 64 := by omega
  calc type.weight + registry.limits.maxDepth * registry.weight
    _ ≤ (2 * (registry.weight + weight) + 64) +
        registry.limits.maxDepth * (2 * (registry.weight + weight) + 64) :=
      Nat.add_le_add h (Nat.mul_le_mul_left _ hregistry)
    _ ≤ (registry.limits.maxDepth + 2) * (2 * (registry.weight + weight) + 64) := by
      rw [Nat.add_mul]
      omega

/-- A record is as light as any type, so every call has fuel for it. -/
theorem callDepth_le_callFuel (name : String) (weight : Nat) :
    registry.callDepth 0 (.record name) ≤ registry.callFuel weight :=
  callDepth_le_of_weight_le (by simp only [TypeExpr.weight]; omega)

/-- A type that can be resolved has a plan. -/
theorem find_of_resolve (hfactories : registry.factories = []) {type : TypeExpr} {slot : Nat}
    (h : Run.answer (registry.resolve type version) {} = some (.ok slot)) :
    ∃ plan, registry.find version type = .ok plan ∧ registry.plan? version type = some plan := by
  obtain ⟨answer, after, hrun, hresolves⟩ :=
    registry.resolve_spec hfactories (SlotTable.sound_empty registry) type version
  have hanswer : answer = .ok slot := by
    rw [Run.answer, hrun] at h
    exact Option.some.inj h
  subst hanswer
  cases hresolves with
  | ok hmissing hsound _ hslot =>
    obtain ⟨adapter, -, plan, hplan, -⟩ := hsound.served version type slot hslot
    exact ⟨plan, find_of_plan? hmissing hplan, hplan⟩

/-- **Reading undoes writing.** In a registry of record schemas alone, a record of a type that can be
resolved, and that fits, is written without fail, and reading its bytes with anything after them gives the
record back and leaves what came after. Whatever was called before makes no difference to either. -/
theorem SchemasOnly.decode_encode_of_fits (hplain : registry.SchemasOnly) {name : String} {value : Value}
    (htype : value.type = .record name) (hfits : registry.Fits version 0 {} value) {slot : Nat}
    (hresolves : Run.answer (registry.resolve (.record name) version) {} = some (.ok slot))
    {table table' : SlotTable} (h : registry.Reached table) (h' : registry.Reached table') :
    ∃ bytes, (registry.encode value version).answer table = some (.done bytes) ∧
      ∀ rest, (registry.decode (.record name) version (bytes ++ rest)).answer table' =
        some (.found value rest) := by
  have hfactories := hplain.factories_eq
  obtain ⟨plan, hfind, hplan⟩ := find_of_resolve hfactories hresolves
  obtain ⟨bytes, hbytes⟩ := hfits.spells hplain
  rw [← htype] at hfind hplan
  refine ⟨bytes, ?encode, fun rest => ?decode⟩
  case encode =>
    -- a record is no alternative of a family, so it is written as what it was declared to be
    have hconcrete : value.concrete.type = value.type := by
      cases value with
      | variant family label content => cases htype
      | _ => rfl
    have hwrite := hbytes.write (registry.callFuel value.weight) (htype ▸ callDepth_le_callFuel name _)
    simp only [writeNeed, hplan, hconcrete, ne_eq, not_true_eq_false, and_false, if_false] at hwrite
    rw [encode, h.encodeIn_answer hfactories, encodeDirect, writeTypeDirect, hfind]
    exact hwrite
  case decode =>
    have hsequence : value.type.isSequence = true → bytes ++ rest ≠ [] := by
      rw [htype]
      intro hsequence
      cases hsequence
    have hread := hbytes.read (registry.callFuel value.type.weight) rest
      (htype ▸ callDepth_le_callFuel name _) hsequence
    simp only [readNeed, hplan] at hread
    rw [← htype, decode, h'.decodeIn_answer hfactories, decodeDirect, readTypeDirect, hfind]
    simp only [hread, Option.map_some, expect_found rfl]

/-- The level of a sample, in tenths. -/
def levelField : Field :=
  { name := "level", member := "level", type := .scalar .decimal,
    format := { length := 2, rule := .divide, offset := 10 }, adapter := none }

/-- The time of a report, counted from 5 in three bytes. -/
def timeField : Field :=
  { name := "time", member := "time", type := .scalar (.int .u32),
    format := { order := .big, length := 3, rule := .add, offset := 5 }, adapter := none }

def titleField : Field :=
  { name := "title", member := "title", type := .scalar .text,
    format := { length := 4, text := .utf8, fill := 0x20 }, adapter := none }

def samplesField : Field :=
  { name := "samples", member := "samples", type := .sequence .list (.record "sample"),
    format := { length := 2 }, adapter := none }

def sampleSchema : Schema :=
  { type := .record "sample", fields := [levelField], initial := [("level", .decimal .zero)] }

def reportSchema : Schema :=
  { type := .record "report", fields := [timeField, titleField, samplesField],
    initial := [("time", .int .u32 0), ("title", .text ""),
      ("samples", .sequence .list (.record "sample") [])] }

/-- Reports with two samples each. -/
def reports : Registry where
  schemas := [sampleSchema, reportSchema]

def sample (tenths : Int64) : Value :=
  .record "sample" [("level", .decimal ⟨tenths, 1, by decide⟩)]

def report : Value :=
  .record "report" [("time", .int .u32 6), ("title", .text "né"),
    ("samples", .sequence .list (.record "sample") [sample 125, sample 7])]

theorem fits_sample {depth : Nat} (hdepth : depth < 64) (format : FieldFormat) {tenths : Int64}
    (hlow : 0 ≤ tenths.toInt) (hhigh : tenths.toInt < 65536) :
    reports.Fits 1 depth format (sample tenths) := by
  have hfields : sampleSchema.fieldsAt 1 = [levelField] := rfl
  have hlevel : Decimal.Fits levelField.format ⟨tenths, 1, by decide⟩ :=
    ⟨2, rfl, hlow, hhigh, .inr ⟨rfl, 1, by decide, by decide, by decide, rfl⟩⟩
  have hschema : reports.schema? (.record "sample") = some sampleSchema := rfl
  refine .record hdepth hschema rfl (List.nodup_singleton _) ?carried ?fits ?empty ?rest
  case carried =>
    rw [hfields, List.forall_mem_singleton]
    exact ⟨_, rfl, rfl⟩
  case fits =>
    rw [hfields, List.forall_mem_singleton]
    intro value hvalue
    obtain rfl := Option.some.inj hvalue
    exact .scalar (.decimal hlevel)
  case empty =>
    rw [hfields, List.forall_mem_singleton]
    exact nofun
  case rest =>
    intro name hname
    rw [hfields, List.forall_mem_singleton] at hname
    have hne : (name == "level") = false := beq_false_of_ne hname.symm
    simp [sampleSchema, member?, List.lookup_cons, hne]

theorem fits_report : reports.Fits 1 0 {} report := by
  have hfields : reportSchema.fieldsAt 1 = [timeField, titleField, samplesField] := rfl
  have hschema : reports.schema? (.record "report") = some reportSchema := by
    simp [schema?, reports, sampleSchema, reportSchema]
  have htime : IntType.Fits .u32 timeField.format 6 := ⟨3, rfl, rfl, by decide⟩
  have htitle : Text.Fits titleField.format "né" := by
    refine ⟨by decide, by decide +kernel, ?_, ?_, by decide +kernel⟩
    · intro c hc
      obtain rfl := Option.some.inj hc
      decide
    · intro c hc
      obtain rfl := Option.some.inj hc
      decide
  have hsamples : reports.Fits 1 1 samplesField.format
      (.sequence .list (.record "sample") [sample 125, sample 7]) := by
    refine .sequence rfl ?_ ?_
    · rw [List.forall_mem_cons, List.forall_mem_singleton]
      exact ⟨rfl, rfl⟩
    · rw [List.forall_mem_cons, List.forall_mem_singleton]
      exact ⟨fits_sample (by decide) _ (by decide) (by decide),
        fits_sample (by decide) _ (by decide) (by decide)⟩
  refine .record (by decide) hschema rfl (by decide +kernel) ?carried ?fits ?empty ?rest
  case carried =>
    rw [hfields, List.forall_mem_cons, List.forall_mem_cons, List.forall_mem_singleton]
    exact ⟨⟨_, rfl, rfl⟩, ⟨_, rfl, rfl⟩, ⟨_, rfl, rfl⟩⟩
  case fits =>
    rw [hfields, List.forall_mem_cons, List.forall_mem_cons, List.forall_mem_singleton]
    refine ⟨fun value hvalue => ?_, fun value hvalue => ?_, fun value hvalue => ?_⟩
    · obtain rfl := Option.some.inj hvalue
      exact .scalar (.int htime)
    · obtain rfl := Option.some.inj hvalue
      exact .scalar (.text htitle)
    · obtain rfl := Option.some.inj hvalue
      exact hsamples
  case empty =>
    rw [hfields, List.forall_mem_cons, List.forall_mem_cons, List.forall_mem_singleton]
    refine ⟨nofun, nofun, fun _ htakes => absurd ?_ htakes⟩
    exact .sequence (by decide) (.record rfl (List.mem_singleton_self levelField) (.scalar _ _))
  case rest =>
    intro name hname
    rw [hfields, List.forall_mem_cons, List.forall_mem_cons, List.forall_mem_singleton] at hname
    obtain ⟨htime, htitle, hsamples⟩ := hname
    have htime' : (name == "time") = false := beq_false_of_ne htime.symm
    have htitle' : (name == "title") = false := beq_false_of_ne htitle.symm
    have hsamples' : (name == "samples") = false := beq_false_of_ne hsamples.symm
    simp only [reportSchema, member?, List.lookup_cons, htime', htitle', hsamples']

/-- A report with two samples is read back from its bytes in front of two more. -/
theorem SchemasOnly.decode_encode_report :
    ∃ bytes, (reports.encode report 1).answer {} = some (.done bytes) ∧
      (reports.decode (.record "report") 1 (bytes ++ [1, 2])).answer {} = some (.found report [1, 2]) := by
  have hplain : reports.SchemasOnly := by
    refine ⟨rfl, rfl, ?_⟩
    simp [reports, sampleSchema, reportSchema, levelField, timeField, titleField, samplesField]
  have hresolves : Run.answer (reports.resolve (.record "report") 1) {} = some (.ok 0) := by
    decide +kernel
  obtain ⟨bytes, hencode, hdecode⟩ :=
    SchemasOnly.decode_encode_of_fits hplain rfl fits_report hresolves .fresh .fresh
  exact ⟨bytes, hencode, hdecode [1, 2]⟩

end Registry

end Telegram
