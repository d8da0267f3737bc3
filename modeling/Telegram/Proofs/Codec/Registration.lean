import Telegram.Proofs.Codec.Watched

/-!
# What registration checks of a container field

Registration looks at the outermost shape of a field: at the number of elements that a list or a deque
asks for, and at texts that are the elements of a sequence. The format goes further down, to whatever is
inside. This module finds the fields that pass registration and still come to a reading of the kind that
it refuses.

* `TypeExpr.counts` lists the numbers of elements that lists and deques are read with, and
  `Field.uncheckedCounts` those of them that registration does not see.
  `Registry.Accepted.avoids_exceeding_iff`: a field stays below the limit on sequences exactly when these
  do.
* `TypeExpr.repeatsText` says that a text is repeated, at any depth, and `TypeExpr.nestsText` that this is
  further down than registration looks. `Registry.Accepted.avoids_unsizedText_iff`: a field comes to a
  text in a sequence that takes the rest of the buffer exactly when it nests one and gives no length.

What a field comes to is `Registry.Avoids`.
-/

namespace Telegram

open Codec

/-! ## Numbers of elements

The format goes down to the inside of a list or a deque with the length of elements as its length. So the
number of elements that an inner list is read with is one of two numbers in the format, and registration
compares only the first of them with the limit, and only where a sequence stands outermost. -/

/-- A list or a deque is read, and more elements are asked for than the limit. -/
def Visit.exceeds (limit : Nat) (visit : Visit) : Bool :=
  match visit.type with
  | .sequence container _ => container.size?.isNone && limit < visit.format.length
  | _ => false

/-- The numbers of elements that the lists and deques of a type are read with. -/
def TypeExpr.counts : TypeExpr → FieldFormat → List Nat
  | .optional element, format => element.counts format
  | .sequence container element, format =>
    (if container.size?.isNone then [format.length] else []) ++
      if container.size?.getD format.length = 0 then [] else element.counts format.element
  | _, _ => []

/-- The numbers of elements below the outermost container. The outermost number is the one that
registration compares with the limit; these it does not come to. -/
def Field.uncheckedCounts (field : Field) : List Nat :=
  match field.type with
  | .optional element => element.counts field.format
  | .sequence container element =>
    if container.size?.getD field.format.length = 0 then [] else element.counts field.format.element
  | _ => []

/-- No reading exceeds the limit when no number of elements does. -/
theorem TypeExpr.forall_visits_exceeds_iff (limit : Nat) (type : TypeExpr) :
    ∀ (inSequence : Bool) (format : FieldFormat),
      (∀ visit ∈ type.visits inSequence format, visit.exceeds limit = false) ↔
        ∀ count ∈ type.counts format, count ≤ limit := by
  induction type with
  | scalar | foreign | record | family => simp [visits, counts, Visit.exceeds]
  | optional element ih =>
    intro inSequence format
    rw [visits, List.forall_mem_cons, ih, counts]
    exact and_iff_right rfl
  | sequence container element ih =>
    intro inSequence format
    have hself : Visit.exceeds limit ⟨inSequence, .sequence container element, format⟩ = false ↔
        ∀ count ∈ (if container.size?.isNone then [format.length] else []), count ≤ limit := by
      cases hsize : container.size? <;> simp [Visit.exceeds, hsize]
    rw [visits, List.forall_mem_cons, counts, List.forall_mem_append, hself]
    by_cases hcount : container.size?.getD format.length = 0
    · rw [if_pos hcount, if_pos hcount]
      exact and_congr_right fun _ => iff_of_true (List.forall_mem_nil _) (List.forall_mem_nil _)
    · rw [if_neg hcount, if_neg hcount, ih]

/-! ## Texts in sequences

A text without a length takes what is left of the buffer. By itself that is a way to read a last field; as
an element it leaves nothing to those after it. Whether it has a length depends on how many sequences are
around it: the first hands down the length of elements where there is one, and what is handed down is then
handed on. -/

/-- A text in a sequence is read without a length, and takes the rest of the buffer. -/
def Visit.isUnsizedText (visit : Visit) : Bool :=
  visit.inSequence && visit.type = .scalar .text && visit.format.length = 0

/-- A text is an element of an array, at whatever depth below optionals and other arrays. -/
def TypeExpr.repeatsText : TypeExpr → Bool
  | .optional element => element.repeatsText
  | .sequence (.array (_ + 1)) element => element.holdsText || element.repeatsText
  | _ => false

/-- A text is an element of an array below the outermost container. -/
def TypeExpr.nestsText : TypeExpr → Bool
  | .optional element | .sequence (.array (_ + 1)) element => element.repeatsText
  | _ => false

theorem FieldFormat.element_length_eq_zero_iff (format : FieldFormat) :
    format.element.length = 0 ↔ format.length = 0 ∧ format.elementLength = 0 := by
  unfold element
  split
  · rename_i hpos
    exact ⟨fun h => absurd h (Nat.ne_of_gt hpos), fun h => absurd h.2 (Nat.ne_of_gt hpos)⟩
  · rename_i hzero
    exact ⟨fun h => ⟨h, Nat.eq_zero_of_not_pos hzero⟩, fun h => h.1⟩

theorem FieldFormat.element_eq_self {format : FieldFormat} (h : format.elementLength = 0) :
    format.element = format := by
  rw [element, h, if_neg (Nat.lt_irrefl 0)]

/-- Where a length is handed down, no text below takes the rest of the buffer. -/
theorem TypeExpr.forall_visits_sized (type : TypeExpr) :
    ∀ (inSequence : Bool) (format : FieldFormat), (inSequence = true → format.length ≠ 0) →
      format.element.length ≠ 0 →
        ∀ visit ∈ type.visits inSequence format, visit.isUnsizedText = false := by
  induction type with
  | scalar | foreign | record | family =>
    intro inSequence format hlength _
    refine List.forall_mem_singleton.2 ?_
    rw [Visit.isUnsizedText]
    cases inSequence with
    | false => rfl
    | true => simp [hlength rfl]
  | optional element ih =>
    intro inSequence format hlength hbelow
    rw [visits, List.forall_mem_cons]
    exact ⟨by simp [Visit.isUnsizedText], ih inSequence format hlength hbelow⟩
  | sequence container element ih =>
    intro inSequence format hlength hbelow
    rw [visits, List.forall_mem_cons]
    refine ⟨by simp [Visit.isUnsizedText], ?_⟩
    split
    · exact List.forall_mem_nil _
    · refine ih true format.element (fun _ => hbelow) fun hzero => hbelow ?_
      exact ((format.element.element_length_eq_zero_iff).1 hzero).1

/-- Where no length is given at all, the texts that take the rest of the buffer are those that are
repeated, and inside a sequence also those that are not. -/
theorem TypeExpr.forall_visits_unsized_iff {format : FieldFormat} (hlength : format.length = 0)
    (helement : format.elementLength = 0) (type : TypeExpr) : ∀ inSequence : Bool,
      (∀ visit ∈ type.visits inSequence format, visit.isUnsizedText = false) ↔
        (inSequence && type.holdsText) = false ∧ type.repeatsText = false := by
  have hself := FieldFormat.element_eq_self helement
  induction type with
  | scalar s => cases s <;> simp [visits, holdsText, repeatsText, Visit.isUnsizedText, hlength]
  | foreign | record | family => simp [visits, holdsText, repeatsText, Visit.isUnsizedText]
  | optional element ih =>
    intro inSequence
    rw [visits, List.forall_mem_cons, ih, holdsText, repeatsText]
    exact and_iff_right (by simp [Visit.isUnsizedText])
  | sequence container element ih =>
    intro inSequence
    have hhead : Visit.isUnsizedText ⟨inSequence, .sequence container element, format⟩ = false := by
      simp [Visit.isUnsizedText]
    rw [visits, List.forall_mem_cons, and_iff_right hhead, hself]
    -- a list or a deque without a length has no elements, nor has an empty array
    cases container with
    | list | deque => simp [Container.size?, hlength, holdsText, repeatsText]
    | array size =>
      cases size with
      | zero => simp [Container.size?, holdsText, repeatsText]
      | succ size => simp [Container.size?, holdsText, repeatsText, ih]

/-! ## What registration lets pass

A registered field has no fault in its outermost shape. What is listed for the field is what is listed for
that shape and what is listed below it, so the first part of the list is taken care of and the second is
what remains. -/

namespace Field

variable {field : Field} {record : TypeExpr} {maxLength : Nat}

/-- **A registered field** has no fault of any of the three kinds. -/
theorem fault?_eq_none_iff :
    field.fault? record maxLength = none ↔
      field.format.fault? = none ∧ field.lengthFault? maxLength = none ∧
        field.repeatsUnsizedText = false := by
  simp only [fault?, Option.map_eq_none_iff, Option.orElse_eq_none]
  cases field.repeatsUnsizedText <;> simp

/-- The outermost list or deque of a registered field is within the limit. -/
theorem length_le_of_lengthFault? (h : field.lengthFault? maxLength = none) {container : Container}
    {element : TypeExpr} (htype : field.type = .sequence container element)
    (hsize : container.size? = none) : field.format.length ≤ maxLength := by
  simp only [lengthFault?, htype, hsize] at h
  by_contra hlong
  rw [if_pos (Nat.lt_of_not_le hlong)] at h
  cases h

/-- Registration sees the outermost number of elements, and no other. -/
theorem forall_counts_iff (h : field.lengthFault? maxLength = none) :
    (∀ count ∈ field.type.counts field.format, count ≤ maxLength) ↔
      ∀ count ∈ field.uncheckedCounts, count ≤ maxLength := by
  rw [uncheckedCounts]
  cases htype : field.type with
  | scalar | foreign | record | family | optional => rfl
  | sequence container element =>
    have houter : ∀ count ∈ (if container.size?.isNone then [field.format.length] else []),
        count ≤ maxLength := by
      split
      · rename_i hsize
        exact List.forall_mem_singleton.2
          (length_le_of_lengthFault? h htype (Option.isNone_iff_eq_none.1 hsize))
      · exact List.forall_mem_nil _
    rw [TypeExpr.counts, List.forall_mem_append]
    exact and_iff_right houter

/-- Registration sees the text that is an element of the outermost sequence, and no other. -/
theorem repeatsText_eq_nestsText (h : field.repeatsUnsizedText = false) (hlength : field.format.length = 0)
    (helement : field.format.elementLength = 0) : field.type.repeatsText = field.type.nestsText := by
  have hzero := (field.format.element_length_eq_zero_iff).2 ⟨hlength, helement⟩
  cases htype : field.type with
  | scalar | foreign | record | family | optional => rfl
  | sequence container element =>
    cases container with
    | list | deque => rfl
    | array size =>
      cases size with
      | zero => rfl
      | succ size =>
        have hsingle : element.holdsText = false := by
          simpa [repeatsUnsizedText, htype, Container.size?, hzero] using h
        simp only [TypeExpr.repeatsText, TypeExpr.nestsText, hsingle, Bool.false_or]

end Field

/-! ## Whole registries

Four fields show all that can happen: a nested list within the limit and an optional one beyond it, texts
with a length for elements and texts without. -/

namespace Registry

variable {registry : Registry} {version : UInt32}

/-- Lists of deques, two by two. -/
def rowsField : Field :=
  { name := "rows", member := "rows", type := .sequence .list (.sequence .deque (.scalar (.int .u8))),
    format := { length := 2 }, adapter := none }

/-- A list of three that may be left out. -/
def marksField : Field :=
  { name := "marks", member := "marks", type := .optional (.sequence .list (.scalar (.int .u8))),
    format := { length := 3 }, adapter := none }

/-- Pairs of texts with three bytes each. -/
def tagsField : Field :=
  { name := "tags", member := "tags",
    type := .sequence (.array 2) (.optional (.sequence (.array 2) (.scalar .text))),
    format := { elementLength := 3 }, adapter := none }

/-- A pair of texts without a length that may be left out. -/
def namesField : Field :=
  { name := "names", member := "names", type := .optional (.sequence (.array 2) (.scalar .text)),
    format := {}, adapter := none }

def sheetSchema : Schema :=
  { type := .record "sheet", fields := [rowsField, marksField, tagsField, namesField], initial := [] }

/-- Sheets, in a registry that allows two elements in a sequence. -/
def sheets : Registry where
  limits := { maxSequence := 2 }
  schemas := [sheetSchema]

/-- All four fields pass registration. -/
theorem accepted_sheets : sheets.Accepted := by
  have hadd : addSchema { limits := { maxSequence := 2 } } sheetSchema = .ok sheets := rfl
  refine .addSchema (.start _) ?_ hadd
  simp only [sheetSchema, List.forall_mem_cons]
  exact ⟨rfl, rfl, rfl, rfl, nofun⟩

/-- What registration found out about a field of a registry of accepted schemas. -/
theorem Accepted.field (haccepted : registry.Accepted) {schema : Schema}
    (hschema : schema ∈ registry.schemas) {field : Field} (hfield : field ∈ schema.fields) :
    field.adapter = none ∧ field.lengthFault? registry.limits.maxSequence = none ∧
      field.repeatsUnsizedText = false := by
  have hfault := haccepted.schema_fault? schema hschema
  obtain ⟨-, hlength, htext⟩ := Field.fault?_eq_none_iff.1 (List.findSome?_eq_none_iff.1 hfault field hfield)
  exact ⟨haccepted.schemasOnly.adapter_eq schema hschema field hfield, hlength, htext⟩

/-- **Which fields stay below the limit on sequences.** A field of an accepted schema never reads a list
or a deque that asks for more elements than the registry allows, exactly when this is so of those below
its outermost container. -/
theorem Accepted.avoids_exceeding_iff (haccepted : registry.Accepted) {schema : Schema}
    (hschema : schema ∈ registry.schemas) {field : Field} (hfield : field ∈ schema.fields) {slot : Nat}
    (hresolves : Run.answer (registry.resolve field.type version) {} = some (.ok slot)) :
    registry.Avoids version (Visit.exceeds registry.limits.maxSequence) field ↔
      ∀ count ∈ field.uncheckedCounts, count ≤ registry.limits.maxSequence := by
  obtain ⟨hown, hlength, -⟩ := haccepted.field hschema hfield
  rw [haccepted.schemasOnly.avoids_iff hown hresolves, TypeExpr.forall_visits_exceeds_iff,
    Field.forall_counts_iff hlength]

/-- Both lengths of the rows are the one that registration looks at. -/
theorem Accepted.avoids_exceeding_rows : sheets.Avoids 1 (Visit.exceeds 2) rowsField := by
  have hresolves : Run.answer (sheets.resolve rowsField.type 1) {} = some (.ok 0) := by decide +kernel
  exact (accepted_sheets.avoids_exceeding_iff (List.mem_singleton_self sheetSchema)
    List.mem_cons_self hresolves).2 (by decide)

/-- **An accepted field beyond the limit**: registration does not look behind the optional, and reading
the field asks for three elements where two are allowed. -/
theorem accepted_not_avoids_exceeding :
    sheets.Accepted ∧ marksField ∈ sheetSchema.fields ∧
      ¬ sheets.Avoids 1 (Visit.exceeds sheets.limits.maxSequence) marksField := by
  have hresolves : Run.answer (sheets.resolve marksField.type 1) {} = some (.ok 0) := by decide +kernel
  refine ⟨accepted_sheets, List.mem_cons_of_mem _ List.mem_cons_self, ?_⟩
  rw [accepted_sheets.schemasOnly.avoids_iff rfl hresolves]
  decide

/-- **Which fields never read a text without a length inside a sequence.** A field of an accepted schema
comes to such a text exactly when it gives no length, neither for itself nor for elements, and has an
array with texts in it below its outermost container. -/
theorem Accepted.avoids_unsizedText_iff (haccepted : registry.Accepted) {schema : Schema}
    (hschema : schema ∈ registry.schemas) {field : Field} (hfield : field ∈ schema.fields) {slot : Nat}
    (hresolves : Run.answer (registry.resolve field.type version) {} = some (.ok slot)) :
    registry.Avoids version Visit.isUnsizedText field ↔
      ¬ (field.format.length = 0 ∧ field.format.elementLength = 0 ∧ field.type.nestsText = true) := by
  obtain ⟨hown, -, htext⟩ := haccepted.field hschema hfield
  rw [haccepted.schemasOnly.avoids_iff hown hresolves]
  by_cases hzero : field.format.element.length = 0
  · obtain ⟨hlength, helement⟩ := (field.format.element_length_eq_zero_iff).1 hzero
    rw [TypeExpr.forall_visits_unsized_iff hlength helement, Bool.false_and, and_iff_right rfl,
      Field.repeatsText_eq_nestsText htext hlength helement]
    simp [hlength, helement]
  · refine iff_of_true (field.type.forall_visits_sized false field.format nofun hzero) fun h => hzero ?_
    exact (field.format.element_length_eq_zero_iff).2 ⟨h.1, h.2.1⟩

/-- A length for elements reaches the texts of the tags. -/
theorem Accepted.avoids_unsizedText_tags : sheets.Avoids 1 Visit.isUnsizedText tagsField := by
  have hresolves : Run.answer (sheets.resolve tagsField.type 1) {} = some (.ok 0) := by decide +kernel
  exact (accepted_sheets.avoids_unsizedText_iff (List.mem_singleton_self sheetSchema)
    (List.mem_cons_of_mem _ (List.mem_cons_of_mem _ List.mem_cons_self)) hresolves).2 (by decide)

/-- **An accepted field whose first text takes the whole buffer**: registration does not look behind the
optional. -/
theorem accepted_not_avoids_unsizedText :
    sheets.Accepted ∧ namesField ∈ sheetSchema.fields ∧
      ¬ sheets.Avoids 1 Visit.isUnsizedText namesField := by
  have hresolves : Run.answer (sheets.resolve namesField.type 1) {} = some (.ok 0) := by decide +kernel
  refine ⟨accepted_sheets, List.mem_of_getElem? (i := 3) rfl, ?_⟩
  rw [accepted_sheets.schemasOnly.avoids_iff rfl hresolves]
  decide

end Registry

end Telegram
