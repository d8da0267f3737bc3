import Telegram.Proofs.Codec.Dangling
import Telegram.Proofs.Codec.RoundTrip
import Telegram.Proofs.Scalar.Width

/-!
# Layouts of fixed size

Where nothing varies in number, the bytes of a value can be counted before there is a value: scalars with
a width, optionals of these, arrays, and records of such fields.

* `Registry.Fixed` holds of these layouts, each a type in the format it stands in, and `Registry.Sized`
  counts their bytes from the registry, the version and the format alone.
* `Registry.WellTyped` says what a value of a type is, as values do not tell by themselves what they hold.
* `Registry.Sized.writeNeed_takes` and `Registry.Sized.readNeed_takes`: both directions keep to the count.
  They go by the same induction, but share no more than the widths of scalars.
* `Registry.SchemasOnly.transfers_fixed` is about whole calls, after any history.
-/

namespace Telegram

open Codec

namespace Registry

/-! ## Layouts and their sizes

A text without a length is as long as it happens to be, a list has as many elements as the value has, and
a family takes as much as the alternative held. None of these is a layout of fixed size. An optional is
one only over a scalar that has a width, as an absent scalar is written as a default one is, while an
absent array or record is written as nothing.

The size of a record is the sum over the fields on the wire at the version, so a layout is fixed at a
version and not once and for all. The definitions are inductive, because a schema may mention itself: such
a record has no finite size, and is not fixed. -/

/-- A layout of fixed size. A record is one if all its fields on the wire are, in the formats that they
have; the format that the record itself stands in plays no part. -/
inductive Fixed (registry : Registry) (version : UInt32) : FieldFormat → TypeExpr → Prop where
  | scalar {format : FieldFormat} {scalar : Scalar} (h : scalar.IsSized format) :
      Fixed registry version format (.scalar scalar)
  | optional {format : FieldFormat} {scalar : Scalar} (h : scalar.IsSized format) :
      Fixed registry version format (.optional (.scalar scalar))
  | array {format : FieldFormat} {count : Nat} {element : TypeExpr}
      (h : Fixed registry version format.element element) :
      Fixed registry version format (.sequence (.array count) element)
  | record {format : FieldFormat} {name : String} {schema : Schema}
      (hschema : registry.schema? (.record name) = some schema)
      (h : ∀ field ∈ schema.fieldsAt version, Fixed registry version field.format field.type) :
      Fixed registry version format (.record name)

/-- The number of bytes that a layout takes. It is a relation, since the recursion goes through schemas
and may not end; that it is a function on fixed layouts is `Fixed.exists_sized` and `Sized.unique`. -/
inductive Sized (registry : Registry) (version : UInt32) : FieldFormat → TypeExpr → Nat → Prop where
  | scalar {format : FieldFormat} {scalar : Scalar} (h : scalar.IsSized format) :
      Sized registry version format (.scalar scalar) (scalar.width format)
  /-- What stands for an absent scalar is as wide as the scalar. -/
  | optional {format : FieldFormat} {scalar : Scalar} (h : scalar.IsSized format) :
      Sized registry version format (.optional (.scalar scalar)) (scalar.width format)
  | array {format : FieldFormat} {count size : Nat} {element : TypeExpr}
      (h : Sized registry version format.element element size) :
      Sized registry version format (.sequence (.array count) element) (count * size)
  /-- Only the fields on the wire count. -/
  | record {format : FieldFormat} {name : String} {schema : Schema} {sizes : Field → Nat}
      (hschema : registry.schema? (.record name) = some schema)
      (h : ∀ field ∈ schema.fieldsAt version,
        Sized registry version field.format field.type (sizes field)) :
      Sized registry version format (.record name) ((schema.fieldsAt version).map sizes).sum

/-- The value is one of the type: an array has as many elements as its type says, and a record has a
member for every field on the wire. Values carry their types on the outside only, so a sequence may say
that it is an array of three and hold two. -/
inductive WellTyped (registry : Registry) (version : UInt32) : TypeExpr → Value → Prop where
  | scalar {scalar : Scalar} {value : Value} (h : value.type = .scalar scalar) :
      WellTyped registry version (.scalar scalar) value
  | none (element : TypeExpr) : WellTyped registry version (.optional element) (.none element)
  | some {element : TypeExpr} {content : Value} (h : WellTyped registry version element content) :
      WellTyped registry version (.optional element) (.some element content)
  | sequence {container : Container} {element : TypeExpr} {items : List Value}
      (hcount : container.accepts items.length = true)
      (h : ∀ item ∈ items, WellTyped registry version element item) :
      WellTyped registry version (.sequence container element) (.sequence container element items)
  | record {name : String} {schema : Schema} {members : List (String × Value)}
      (hschema : registry.schema? (.record name) = some schema)
      (hcarried : ∀ field ∈ schema.fieldsAt version, ∃ value, member? members field.member = some value)
      (h : ∀ field ∈ schema.fieldsAt version, ∀ value, member? members field.member = some value →
        WellTyped registry version field.type value) :
      WellTyped registry version (.record name) (.record name members)

variable {registry : Registry} {version : UInt32} {format : FieldFormat} {type : TypeExpr} {size : Nat}

/-- **Every fixed layout has a size.** -/
theorem Fixed.exists_sized (h : registry.Fixed version format type) :
    ∃ size, registry.Sized version format type size := by
  induction h with
  | scalar h => exact ⟨_, .scalar h⟩
  | optional h => exact ⟨_, .optional h⟩
  | array _ ih =>
    obtain ⟨size, hsize⟩ := ih
    exact ⟨_, .array hsize⟩
  | @record _ _ schema hschema _ ih =>
    -- the sizes of the fields are chosen together, as there may be any number of fields
    have hsizes : ∀ field, ∃ size, field ∈ schema.fieldsAt version →
        registry.Sized version field.format field.type size := by
      intro field
      by_cases hfield : field ∈ schema.fieldsAt version
      · obtain ⟨size, hsize⟩ := ih field hfield
        exact ⟨size, fun _ => hsize⟩
      · exact ⟨0, fun h => absurd h hfield⟩
    choose sizes hsizes using hsizes
    exact ⟨_, .record hschema hsizes⟩

/-- **A layout has one size.** -/
theorem Sized.unique {size' : Nat} (h : registry.Sized version format type size)
    (h' : registry.Sized version format type size') : size = size' := by
  induction h generalizing size' with
  | scalar | optional =>
    cases h'
    rfl
  | array _ ih =>
    cases h' with
    | array h' => rw [ih h']
  | record hschema _ ih =>
    cases h' with
    | record hschema' h' =>
      obtain rfl := Option.some.inj (hschema.symm.trans hschema')
      rw [List.map_congr_left fun field hfield => ih field hfield (h' field hfield)]

/-- A well-typed value says of itself that it is of the type. -/
theorem WellTyped.type_eq {value : Value} (h : registry.WellTyped version type value) :
    value.type = type := by
  cases h with
  | scalar h => exact h
  | _ => rfl

/-- A well-typed value stands for itself on the wire. -/
theorem WellTyped.concrete_eq {value : Value} (h : registry.WellTyped version type value) :
    value.concrete = value := by
  cases h with
  | scalar h =>
    cases value with
    | variant => cases h
    | _ => rfl
  | _ => rfl

end Registry

/-! ## What a part of a call takes

An error ends a call in either direction, and then nothing is claimed. The one exception is a value of the
wrong type, which makes a record pass over the field and go on. A field that was passed over would leave a
record short without an error, and so it has to be excluded for every part. -/

namespace Codec

/-- Written without an error, it is `size` bytes. It is never passed over as a value of another type. Were
it passed over, the record that it is a field of would be shorter than its size, and have no error to show
for it. -/
structure Writing.Takes (size : Nat) (writing : Writing) : Prop where
  length_eq : writing.result = .ok () → writing.bytes.length = size
  ne_typeMismatch : ∀ expected, writing.result ≠ .error (.typeMismatch expected)

/-- Read without an error, it is the first `size` bytes; and something was read, unless there are none. -/
def Reading.Takes (size : Nat) (source : Bytes) (reading : Reading) : Prop :=
  ∀ value?, reading.result = .ok value? →
    reading.rest = source.drop size ∧ (0 < size → value? ≠ none)

theorem Writing.takes_nil : (Writing.done []).Takes 0 :=
  ⟨fun _ => rfl, fun _ heq => by cases heq⟩

theorem Writing.takes_failed {e : Error} (h : ∀ expected, e ≠ .typeMismatch expected) (size : Nat) :
    (Writing.failed e).Takes size :=
  ⟨fun hok => (by cases hok), fun expected heq => h expected (Except.error.inj heq)⟩

theorem Reading.takes_found {size : Nat} {source rest : Bytes} (value : Value)
    (hrest : rest = source.drop size) : (Reading.found value rest).Takes size source := by
  intro value? hvalue
  cases hvalue
  exact ⟨hrest, fun _ => Option.some_ne_none value⟩

theorem Reading.takes_failed (size : Nat) (source : Bytes) (e : Error) (rest : Bytes) :
    (Reading.failed e rest).Takes size source :=
  fun _ hvalue => by cases hvalue

end Codec

/-! ## Loops

A reading that was not short of bytes takes what its layout says, and leaves the bytes after that. The
hypothesis that there are enough for all elements is handed on from one to the next, less what was
taken. -/

section Loops

/-- Items of one size take as many times that size. An error is the end, and then nothing is claimed. -/
theorem writeItems_takes {write : Value → Option Writing} {size : Nat} (items : List Value)
    (h : ∀ item ∈ items, ∀ writing ∈ write item, writing.Takes size) :
    ∀ writing ∈ writeItems write items, writing.Takes (items.length * size) := by
  induction items with
  | nil =>
    rw [List.length_nil, Nat.zero_mul]
    exact forall_mem_some Writing.takes_nil
  | cons item rest ih =>
    rw [List.forall_mem_cons] at h
    refine forall_mem_bind h.1 fun writing hwriting => ?_
    rcases hresult : writing.result with e | _
    · refine forall_mem_some ⟨fun hok => ?_, hwriting.ne_typeMismatch⟩
      rw [hresult] at hok
      cases hok
    · refine forall_mem_bind (ih h.2) fun others hothers =>
        forall_mem_some ⟨fun hok => ?_, hothers.ne_typeMismatch⟩
      simp only [Writing.after, List.length_append, hwriting.length_eq hresult, hothers.length_eq hok,
        List.length_cons]
      rw [Nat.succ_mul, Nat.add_comm]

/-- Fields that are all there, and none of them passed over. -/
theorem writeFields_takes {members : List (String × Value)} {write : Field → Value → Option Writing}
    {sizes : Field → Nat} (fields : List Field)
    (h : ∀ field ∈ fields, ∃ value, member? members field.member = some value ∧
      ∀ writing ∈ write field value, writing.Takes (sizes field)) :
    ∀ writing ∈ writeFields members (fields.map fun field => (field, write field)),
      writing.Takes (fields.map sizes).sum := by
  induction fields with
  | nil => exact forall_mem_some Writing.takes_nil
  | cons field rest ih =>
    rw [List.forall_mem_cons] at h
    obtain ⟨⟨value, hvalue, hfield⟩, h⟩ := h
    simp only [List.map_cons, writeFields, hvalue, writeMember]
    refine forall_mem_bind hfield fun writing hwriting => ?_
    split
    · rename_i hresult
      refine forall_mem_bind (ih h) fun others hothers =>
        forall_mem_some ⟨fun hok => ?_, hothers.ne_typeMismatch⟩
      simp only [Writing.after, List.length_append, hwriting.length_eq hresult, hothers.length_eq hok,
        List.sum_cons]
    · rename_i hresult
      -- a field that was passed over would leave the record short
      exact absurd hresult (hwriting.ne_typeMismatch _)
    · rename_i hresult
      refine forall_mem_some ⟨fun hok => ?_, hwriting.ne_typeMismatch⟩
      rw [hresult] at hok
      cases hok

/-- **A loop over elements that are all there** takes the bytes of all, and finds all if they take
bytes. -/
theorem readItems_takes {read : Bytes → Option Reading} {size : Nat}
    (h : ∀ source, size ≤ source.length → ∀ reading ∈ read source, reading.Takes size source)
    (element : TypeExpr) (count : Nat) (source : Bytes) (hle : count * size ≤ source.length) :
    ∀ items ∈ readItems read element count source, ∀ found, items.1 = .ok found →
      items.2 = source.drop (count * size) ∧ (0 < size → found.length = count) := by
  induction count generalizing source with
  | zero =>
    refine forall_mem_some fun found hfound => ?_
    cases hfound
    exact ⟨by simp, fun _ => rfl⟩
  | succ count ih =>
    rw [Nat.succ_mul] at hle ⊢
    refine forall_mem_bind (h source (by omega)) fun reading hreading => ?_
    rcases hresult : (reading.expect element).result with e | _ | item
    · exact forall_mem_some fun _ hfound => by cases hfound
    · -- an element is absent only if elements take no bytes
      obtain ⟨hrest, hsome⟩ := hreading none (Reading.result_of_expect hresult)
      have hzero : size = 0 := Nat.eq_zero_of_not_pos fun hpos => hsome hpos rfl
      subst hzero
      refine forall_mem_some fun found _ => ⟨?_, fun hpos => absurd hpos (Nat.lt_irrefl 0)⟩
      simpa using hrest
    · obtain ⟨hrest, -⟩ := hreading (some item) (Reading.result_of_expect hresult)
      have hothers := ih reading.rest (by rw [hrest, List.length_drop]; omega)
      refine forall_mem_bind hothers fun items hitems => forall_mem_some fun found hfound => ?_
      obtain ⟨result, rest⟩ := items
      cases result with
      | error e => cases hfound
      | ok others =>
        cases hfound
        obtain ⟨hdrop, hlength⟩ := hitems others rfl
        refine ⟨?_, fun hpos => congrArg Nat.succ (hlength hpos)⟩
        rw [hrest, List.drop_drop, Nat.add_comm] at hdrop
        exact hdrop

/-- **A loop over fields that are all there** takes the bytes of all, whatever members they are stored
in. -/
theorem readFields_takes {read : Field → Bytes → Option Reading} {sizes : Field → Nat}
    (fields : List Field)
    (h : ∀ field ∈ fields, ∀ source, sizes field ≤ source.length →
      ∀ reading ∈ read field source, reading.Takes (sizes field) source)
    (members : List (String × Value)) (source : Bytes) (hle : (fields.map sizes).sum ≤ source.length) :
    ∀ answer ∈ readFields (fields.map fun field => (field, read field)) members source,
      ∀ final, answer.1 = .ok final → answer.2 = source.drop (fields.map sizes).sum := by
  induction fields generalizing members source with
  | nil => exact forall_mem_some fun _ _ => rfl
  | cons field rest ih =>
    rw [List.forall_mem_cons] at h
    simp only [List.map_cons, List.sum_cons] at hle ⊢
    refine forall_mem_bind (h.1 source (by omega)) fun reading hreading => ?_
    rcases hresult : reading.result with e | value?
    · exact forall_mem_some fun _ hfinal => by cases hfinal
    · obtain ⟨hrest, -⟩ := hreading value? hresult
      intro answer hanswer final hfinal
      have hdrop := ih h.2 _ reading.rest (by rw [hrest, List.length_drop]; omega) answer hanswer final hfinal
      rwa [hrest, List.drop_drop] at hdrop

end Loops

/-! ## Calls by plans

Both directions are by induction on the layout and not on the fuel. The first lemmas of this part see to
that: what holds of one step at any fuel holds of every call. -/

namespace Registry

variable {registry : Registry} {version : UInt32} {format : FieldFormat} {type : TypeExpr} {size : Nat}

/-- A value that stands for itself is written by the plan of its type. -/
theorem writeNeed_of_concrete {write : Plan → FieldFormat → Option Value → Option Writing} {plan : Plan}
    {value : Value} (hplan : registry.plan? version type = some plan) (hconcrete : value.concrete = value) :
    registry.writeNeed version write type format (some value) = write plan format (some value) := by
  have hno : ¬ (value.type = type ∧ value.type ≠ type) := fun h => h.2 h.1
  simp only [writeNeed, hplan, hconcrete, if_neg hno]

theorem readNeed_of_plan {read : Plan → FieldFormat → Bytes → Option Reading} {plan : Plan} {source : Bytes}
    (hplan : registry.plan? version type = some plan) :
    registry.readNeed version read type format source = read plan format source := by
  simp only [readNeed, hplan]

/-- What holds of the writings of a plan's own values, at any fuel, holds of all its writings. -/
theorem forall_mem_writeDirect {P : Writing → Prop} {depth : Nat} {plan : Plan} {value? : Option Value}
    (htype : ∀ value ∈ value?, value.type = plan.type)
    (h : ∀ fuel, ∀ writing ∈ registry.writeOwnDirect version (registry.writeDirect version fuel) depth plan
      format value?, P writing) (fuel : Nat) :
    ∀ writing ∈ registry.writeDirect version fuel depth plan format value?, P writing := by
  cases fuel with
  | zero => exact fun _ hnone => absurd hnone (Option.not_mem_none _)
  | succ fuel =>
    have hown : value?.all (fun value => value.type = plan.type) = true := by
      cases value? with
      | none => rfl
      | some value => exact decide_eq_true (htype value rfl)
    simp only [writeDirect, writeStepDirect, if_pos hown]
    exact h fuel

/-- The same where a type is declared: a well-typed value is written by the plan of that type. -/
theorem forall_mem_writeNeed {P : Writing → Prop} {depth : Nat} {plan : Plan} {value : Value}
    (hvalue : registry.WellTyped version type value) (hplan : registry.plan? version type = some plan)
    (h : ∀ fuel, ∀ writing ∈ registry.writeOwnDirect version (registry.writeDirect version fuel) depth plan
      format (some value), P writing) (fuel : Nat) :
    ∀ writing ∈ registry.writeNeed version (registry.writeDirect version fuel depth) type format
      (some value), P writing := by
  rw [writeNeed_of_concrete hplan hvalue.concrete_eq]
  refine forall_mem_writeDirect (fun content hcontent => ?_) h fuel
  obtain rfl := Option.some.inj hcontent
  rw [hvalue.type_eq, type_of_plan? hplan]

/-- What holds of the readings of one step, at any fuel, holds of all readings. -/
theorem forall_mem_readNeed {P : Reading → Prop} {depth : Nat} {plan : Plan} {source : Bytes}
    (hplan : registry.plan? version type = some plan)
    (h : ∀ fuel, ∀ reading ∈ registry.readStepDirect version (registry.readDirect version fuel) depth plan
      format source, P reading) (fuel : Nat) :
    ∀ reading ∈ registry.readNeed version (registry.readDirect version fuel depth) type format source,
      P reading := by
  rw [readNeed_of_plan hplan]
  cases fuel with
  | zero => exact fun _ hnone => absurd hnone (Option.not_mem_none _)
  | succ fuel => exact h fuel

/-! ### Writing

The induction is on the reasons for the size, which follow the layout. A value of the type has the parts
that the layout has, so each part is written at its own size. -/

/-- A scalar is written at its width, also where there is no value. -/
theorem writeDirect_scalar_takes {scalar : Scalar} (hsized : scalar.IsSized format) (depth : Nat)
    {value? : Option Value} (htype : ∀ value ∈ value?, value.type = .scalar scalar) (fuel : Nat) :
    ∀ writing ∈ registry.writeDirect version fuel depth (.leaf (.scalar scalar)) format value?,
      writing.Takes (scalar.width format) :=
  forall_mem_writeDirect htype (fun _ => forall_mem_some
    ⟨Scalar.length_write hsized value?, Scalar.write_ne_typeMismatch value?⟩) fuel

/-- An absent scalar is written as wide as one that is there. -/
theorem writeNeed_optional_takes (hplain : registry.SchemasOnly) {scalar : Scalar}
    (hsized : scalar.IsSized format) (depth : Nat) {content? : Option Value}
    (hcontent : ∀ content ∈ content?, registry.WellTyped version (.scalar scalar) content) (fuel : Nat) :
    ∀ writing ∈ registry.writeNeed version (registry.writeDirect version fuel depth) (.scalar scalar) format
      content?, writing.Takes (scalar.width format) := by
  have hplan : registry.plan? version (.scalar scalar) = some (.leaf (.scalar scalar)) :=
    hplain.plan?_eq _
  cases content? with
  | none =>
    simp only [writeNeed, hplan]
    exact writeDirect_scalar_takes hsized depth (fun _ hnone => absurd hnone (Option.not_mem_none _)) fuel
  | some content =>
    have htyped := hcontent content rfl
    rw [writeNeed_of_concrete hplan htyped.concrete_eq]
    refine writeDirect_scalar_takes hsized depth (fun value hvalue => ?_) fuel
    obtain rfl := Option.some.inj hvalue
    exact htyped.type_eq

/-- **What is written keeps to the size of its layout.** -/
theorem Sized.writeNeed_takes (hplain : registry.SchemasOnly)
    (h : registry.Sized version format type size) :
    ∀ (fuel depth : Nat) (value : Value), registry.WellTyped version type value →
      ∀ writing ∈ registry.writeNeed version (registry.writeDirect version fuel depth) type format
        (some value), writing.Takes size := by
  induction h with
  | scalar hsized =>
    intro fuel depth value hvalue
    refine writeNeed_optional_takes hplain hsized depth (fun content hcontent => ?_) fuel
    obtain rfl := Option.some.inj hcontent
    exact hvalue
  | optional hsized =>
    intro fuel depth value hvalue
    refine forall_mem_writeNeed hvalue (hplain.plan?_eq _) (fun fuel => ?_) fuel
    refine writeNeed_optional_takes hplain hsized depth (fun content hcontent => ?_) fuel
    cases hvalue with
    | none element => cases hcontent
    | some h =>
      obtain rfl := Option.some.inj hcontent
      exact h
  | array _ ih =>
    intro fuel depth value hvalue
    refine forall_mem_writeNeed hvalue (hplain.plan?_eq _) (fun fuel => ?_) fuel
    cases hvalue with
    | sequence hcount hitems =>
      obtain rfl := of_decide_eq_true hcount
      exact writeItems_takes _ fun item hitem => ih fuel depth item (hitems item hitem)
  | @record format name schema sizes hschema _ ih =>
    intro fuel depth value hvalue
    have hplan : registry.plan? version (.record name) =
        some (.record schema (schema.fieldsAt version)) := hplain.plan?_record hschema
    refine forall_mem_writeNeed hvalue hplan (fun fuel => ?_) fuel
    cases hvalue with
    | @record _ _ members hschema' hcarried hmembers =>
      obtain rfl := Option.some.inj (hschema.symm.trans hschema')
      simp only [writeOwnDirect]
      split
      · exact forall_mem_some (Writing.takes_failed (by simp) _)
      · refine writeFields_takes _ fun field hfield => ?_
        obtain ⟨content, hcontent⟩ := hcarried field hfield
        rw [hplain.writeFieldDirect_eq hschema hfield]
        exact ⟨content, hcontent, ih field hfield fuel (depth + 1) content
          (hmembers field hfield content hcontent)⟩

/-! ### Reading

A buffer that is long enough for the whole is long enough for each part, when its turn comes, since the
parts before it have taken no more than their sizes. -/

/-- A scalar is read at its width from a buffer that holds so many bytes. -/
theorem readNeed_scalar_takes (hplain : registry.SchemasOnly) {scalar : Scalar}
    (hsized : scalar.IsSized format) (depth : Nat) {source : Bytes}
    (hle : scalar.width format ≤ source.length) (fuel : Nat) :
    ∀ reading ∈ registry.readNeed version (registry.readDirect version fuel depth) (.scalar scalar) format
      source, reading.Takes (scalar.width format) source := by
  obtain ⟨hrest, hsome⟩ := Scalar.read_of_width_le hsized hle
  refine forall_mem_readNeed (hplain.plan?_eq _) (fun _ => forall_mem_some fun value? hvalue => ?_) fuel
  refine ⟨hrest, fun _ => ?_⟩
  rintro rfl
  exact hsome hvalue

/-- **What is read keeps to the size of its layout**, whatever the bytes are. -/
theorem Sized.readNeed_takes (hplain : registry.SchemasOnly)
    (h : registry.Sized version format type size) :
    ∀ (fuel depth : Nat) (source : Bytes), size ≤ source.length →
      ∀ reading ∈ registry.readNeed version (registry.readDirect version fuel depth) type format source,
        reading.Takes size source := by
  induction h with
  | scalar hsized =>
    intro fuel depth source hle
    exact readNeed_scalar_takes hplain hsized depth hle fuel
  | @optional format scalar hsized =>
    intro fuel depth source hle
    refine forall_mem_readNeed (hplain.plan?_eq _) (fun fuel => ?_) fuel
    refine forall_mem_bind (readNeed_scalar_takes hplain hsized depth hle fuel) fun reading hreading => ?_
    rcases hresult : (reading.expect (.scalar scalar)).result with e | _ | content
    · exact forall_mem_some (Reading.takes_failed _ _ _ _)
    · exact forall_mem_some (Reading.takes_found _ (hreading _ (Reading.result_of_expect hresult)).1)
    · exact forall_mem_some (Reading.takes_found _ (hreading _ (Reading.result_of_expect hresult)).1)
  | @array format count size element _ ih =>
    intro fuel depth source hle
    refine forall_mem_readNeed (hplain.plan?_eq _) (fun fuel => ?_) fuel
    simp only [readStepDirect]
    split
    · -- a buffer with nothing in it has room for no bytes only
      rename_i hempty
      obtain rfl := List.isEmpty_iff.1 hempty
      have hzero : count * size = 0 := Nat.le_zero.1 hle
      exact forall_mem_some fun value? _ => ⟨by rw [hzero]; rfl, fun hpos => by omega⟩
    · refine forall_mem_bind (readItems_takes (ih fuel depth) element count source hle) fun items hitems =>
        forall_mem_some fun value? hvalue => ?_
      obtain ⟨result, rest⟩ := items
      cases result with
      | error e => cases hvalue
      | ok found =>
        obtain ⟨hrest, hlength⟩ := hitems found rfl
        refine ⟨hrest, fun hpos => ?_⟩
        have hcount : (Container.array count).accepts found.length = true :=
          decide_eq_true (hlength (Nat.pos_of_mul_pos_left hpos)).symm
        cases hvalue
        simp [Container.ofItems?, hcount]
  | @record format name schema sizes hschema _ ih =>
    intro fuel depth source hle
    have hplan : registry.plan? version (.record name) =
        some (.record schema (schema.fieldsAt version)) := hplain.plan?_record hschema
    refine forall_mem_readNeed hplan (fun fuel => ?_) fuel
    simp only [readStepDirect]
    split
    · exact forall_mem_some (Reading.takes_failed _ _ _ _)
    · have hfield : ∀ field ∈ schema.fieldsAt version, ∀ source, sizes field ≤ source.length →
          ∀ reading ∈ registry.readFieldDirect version (registry.readDirect version fuel (depth + 1)) field
            source, reading.Takes (sizes field) source := by
        intro field hfield source hle
        rw [hplain.readFieldDirect_eq hschema hfield]
        exact ih field hfield fuel (depth + 1) source hle
      refine forall_mem_bind (readFields_takes _ hfield schema.initial source hle) fun members hmembers =>
        forall_mem_some fun value? hvalue => ?_
      obtain ⟨result, rest⟩ := members
      cases result with
      | error e => cases hvalue
      | ok final => exact Reading.takes_found _ (hmembers final rfl) value? hvalue

/-! ### Types that have to be found first

A call begins with a resolution. If it fails there is an error, of which nothing is claimed, and if it
succeeds the plan is the one that the size was told by. -/

/-- A type that can not be resolved writes nothing, and that is an error. -/
theorem Sized.writeTypeDirect_takes (hplain : registry.SchemasOnly)
    (h : registry.Sized version format type size) (fuel depth : Nat) {value : Value}
    (hvalue : registry.WellTyped version type value) :
    ∀ writing ∈ registry.writeTypeDirect version (registry.writeDirect version fuel depth) type format
      (some value), writing.Takes size := by
  unfold writeTypeDirect
  split
  · rename_i e hfind
    obtain ⟨missing, rfl⟩ := find_error hfind
    exact forall_mem_some (Writing.takes_failed (by simp) _)
  · rename_i plan hfind
    have hneed := h.writeNeed_takes hplain fuel depth value hvalue
    rwa [writeNeed_of_concrete (plan?_of_find hfind) hvalue.concrete_eq] at hneed

/-- A type that can not be resolved reads nothing. What comes back of another type is an error too. -/
theorem Sized.readTypeDirect_takes (hplain : registry.SchemasOnly)
    (h : registry.Sized version format type size) (fuel depth : Nat) {source : Bytes}
    (hle : size ≤ source.length) :
    ∀ reading ∈ registry.readTypeDirect version (registry.readDirect version fuel depth) type format source,
      reading.Takes size source := by
  unfold readTypeDirect
  split
  · exact forall_mem_some (Reading.takes_failed _ _ _ _)
  · rename_i plan hfind
    have hneed := h.readNeed_takes hplain fuel depth source hle
    rw [readNeed_of_plan (plan?_of_find hfind)] at hneed
    intro reading hreading value? hvalue
    obtain ⟨inner, hinner, rfl⟩ := Option.map_eq_some_iff.1 hreading
    rw [Reading.rest_expect]
    exact hneed inner hinner value? (Reading.result_of_expect hvalue)

/-! ## Whole calls

What plans take is what calls take, after any history and at any depth, as the calls answer what the plans
say. -/

/-- **A layout of fixed size takes that size in both directions.** In a registry of record schemas alone,
the size is told by the registry, the version, the type and the format it stands in, before any value or
buffer is there, and after any history of calls:

* every value of the type that is written without an error is written as so many bytes;
* from every buffer that holds so many bytes, whatever they are, a reading without an error takes so many
  off the front.

The format is the default one where a value stands by itself, and that of its field inside a record. -/
theorem SchemasOnly.transfers_fixed (hplain : registry.SchemasOnly)
    (h : registry.Fixed version format type) :
    ∃ size, registry.Sized version format type size ∧ ∀ table, registry.Reached table →
      (∀ fuel depth value writing, registry.WellTyped version type value →
        (registry.writeType version (registry.writeIn version fuel depth) type format (some value)).answer
          table = some writing →
        writing.result = .ok () → writing.bytes.length = size) ∧
      (∀ fuel depth source reading value?, size ≤ source.length →
        (registry.readType version (registry.readIn version fuel depth) type format source).answer table =
          some reading →
        reading.result = .ok value? → reading.rest = source.drop size) ∧
      (format = {} →
        (∀ value writing, registry.WellTyped version type value →
          (registry.encode value version).answer table = some writing →
          writing.result = .ok () → writing.bytes.length = size) ∧
        ∀ source reading value?, size ≤ source.length →
          (registry.decode type version source).answer table = some reading →
          reading.result = .ok value? → reading.rest = source.drop size) := by
  obtain ⟨size, hsize⟩ := h.exists_sized
  refine ⟨size, hsize, fun table hreached => ?_⟩
  have hspared : registry.Spares version fun _ => True := spares_all hplain.factories_eq
  have hsound := hreached.sound hplain.factories_eq
  have hwrite : ∀ fuel depth value writing, registry.WellTyped version type value →
      (registry.writeType version (registry.writeIn version fuel depth) type format (some value)).answer
        table = some writing →
      writing.result = .ok () → writing.bytes.length = size := by
    intro fuel depth value writing hvalue hcall
    rw [(writeType_matches hspared (writeIn_matches hspared fuel) depth type format
      (some value) trivial value.within_all.mem_some).answer_eq hsound] at hcall
    exact (hsize.writeTypeDirect_takes hplain fuel depth hvalue writing hcall).length_eq
  have hread : ∀ fuel depth source reading value?, size ≤ source.length →
      (registry.readType version (registry.readIn version fuel depth) type format source).answer table =
        some reading →
      reading.result = .ok value? → reading.rest = source.drop size := by
    intro fuel depth source reading value? hle hcall hresult
    rw [(readType_matches hspared (readIn_matches hspared fuel) depth type format source trivial).answer_eq
      hsound] at hcall
    exact (hsize.readTypeDirect_takes hplain fuel depth hle reading hcall value? hresult).1
  refine ⟨hwrite, hread, ?_⟩
  rintro rfl
  refine ⟨fun value writing hvalue hcall => ?_, fun source reading value? hle hcall => ?_⟩
  · obtain rfl := hvalue.type_eq
    exact hwrite _ 0 value writing hvalue hcall
  · exact hread _ 0 source reading value? hle hcall

/-- A code that may be absent, in three bytes. -/
def codeField : Field :=
  { name := "code", member := "code", type := .optional (.scalar (.int .u32)), format := { length := 3 },
    adapter := none }

/-- Two labels of five bytes each. -/
def labelsField : Field :=
  { name := "labels", member := "labels", type := .sequence (.array 2) (.scalar .text),
    format := { elementLength := 5, text := .utf8 }, adapter := none }

/-- A number that later versions carry. -/
def serialField : Field :=
  { name := "serial", member := "serial", type := .scalar (.int .u64), format := { minVersion := 2 },
    adapter := none }

def boardSchema : Schema :=
  { type := .record "board", fields := [codeField, labelsField, serialField],
    initial := [("code", .none (.scalar (.int .u32))),
      ("labels", .sequence (.array 2) (.scalar .text) [.text "", .text ""]), ("serial", .int .u64 0)] }

def boards : Registry where
  schemas := [boardSchema]

/-- A board without a code, with one label that is short and one that is cut inside a character. -/
def board : Value :=
  .record "board" [("code", .none (.scalar (.int .u32))),
    ("labels", .sequence (.array 2) (.scalar .text) [.text "é", .text "abcdé"]), ("serial", .int .u64 9)]

/-- At version 1 a board is written as 13 bytes, and 13 of 15 arbitrary bytes are read for one. -/
theorem SchemasOnly.transfers_fixed_board :
    ∃ writing reading, (boards.encode board 1).answer {} = some writing ∧ writing.bytes.length = 13 ∧
      (boards.decode (.record "board") 1 (List.replicate 15 0xFF)).answer {} = some reading ∧
        reading.rest = [0xFF, 0xFF] := by
  have hplain : boards.SchemasOnly := by
    refine ⟨rfl, rfl, ?_⟩
    simp [boards, boardSchema, codeField, labelsField, serialField]
  have hfields : boardSchema.fieldsAt 1 = [codeField, labelsField] := rfl
  have hfixed : boards.Fixed 1 {} (.record "board") := by
    have hschema : boards.schema? (.record "board") = some boardSchema := rfl
    refine .record hschema ?_
    rw [hfields, List.forall_mem_cons, List.forall_mem_singleton]
    exact ⟨.optional (by simp [Scalar.IsSized]), .array (.scalar fun _ => by decide)⟩
  have htyped : boards.WellTyped 1 (.record "board") board := by
    have hschema : boards.schema? (.record "board") = some boardSchema := rfl
    refine .record hschema ?_ ?_
    · rw [hfields, List.forall_mem_cons, List.forall_mem_singleton]
      exact ⟨⟨_, rfl⟩, ⟨_, rfl⟩⟩
    · rw [hfields, List.forall_mem_cons, List.forall_mem_singleton]
      refine ⟨fun value hvalue => ?_, fun value hvalue => ?_⟩
      · obtain rfl := Option.some.inj hvalue
        exact .none _
      · obtain rfl := Option.some.inj hvalue
        refine .sequence rfl ?_
        rw [List.forall_mem_cons, List.forall_mem_singleton]
        exact ⟨.scalar rfl, .scalar rfl⟩
  have hencode : ((boards.encode board 1).answer {}).map
      (fun writing => (writing.result, writing.bytes.length)) = some (.ok (), 13) := by decide +kernel
  have hdecode : ((boards.decode (.record "board") 1 (List.replicate 15 0xFF)).answer {}).map
      (fun reading => reading.result.map fun _ => ()) = some (.ok ()) := by decide +kernel
  obtain ⟨writing, hwriting, hwritten⟩ := Option.map_eq_some_iff.1 hencode
  obtain ⟨hok, hlength⟩ := Prod.ext_iff.1 hwritten
  obtain ⟨reading, hreading, hread⟩ := Option.map_eq_some_iff.1 hdecode
  obtain ⟨size, -, hcalls⟩ := hplain.transfers_fixed hfixed
  obtain ⟨hwrites, hreads⟩ := (hcalls {} .fresh).2.2 rfl
  -- what is written gives the size away, and reading takes as much
  have hsize : 13 = size := hlength.symm.trans (hwrites board writing htyped hwriting hok)
  subst hsize
  refine ⟨writing, reading, hwriting, hlength, hreading, ?_⟩
  cases hresult : reading.result with
  | error e =>
    rw [hresult] at hread
    cases hread
  | ok value? => exact hreads _ reading value? (by decide) hreading hresult

end Registry

end Telegram
