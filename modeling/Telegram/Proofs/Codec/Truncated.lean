import Telegram.Proofs.Codec.Hostile
import Telegram.Proofs.Scalar.Width

/-!
# Records that are cut short

A record whose fields are scalars of known widths is read field by field. A field that the buffer is too
short for is passed over and keeps what the record begins with, but the bytes stay, and the next field is
tried on them. So a record that is cut short is read in two parts: the fields that lie inside what is left
of it, and those beyond, which are offered the bytes of the field that was cut.

* `Field.size` is the width of a scalar field, and `Field.IsFixed` says that it is known and not 0. Such a
  field takes exactly its bytes, and what it reads from them depends on nothing behind them
  (`Field.IsFixed.exists_readScalar_eq`).
* `readScalars` reads such fields one after the other. There is a lemma for the fields inside
  (`exists_readScalars_eq`), one for those beyond (`readScalars_of_lt`, `exists_readScalars_suffix`), and
  one for the members that no field touches (`member?_readScalars`).
* `Registry.Accepted.decode_prefix` puts them together. The fields beyond are left alone exactly when none
  of them is narrow enough for the bytes that remain.
-/

namespace Telegram

open Codec

/-! ## One field

There are two cases, and the bytes decide between them by their number alone. If there are enough, the
field is read and its bytes are gone. If there are too few, the field is absent, and the buffer stays. The
second is what sends the bytes of a field that was cut on to the next one. -/

/-- A scalar is read without an error in a format that can be applied. -/
theorem Scalar.exists_result_eq (scalar : Scalar) {format : FieldFormat} (hformat : format.fault? = none)
    (source : Bytes) : ∃ value?, (scalar.read format source).result = .ok value? := by
  -- the one error that is possible names the limit on nesting, and a scalar has none
  have hzero := scalar.read_safe hformat 0 source
  have hone := scalar.read_safe hformat 1 source
  generalize scalar.read format source = reading at hzero hone
  obtain ⟨result, rest⟩ := reading
  cases hzero with
  | ok => exact ⟨_, rfl⟩
  | tooDeep => cases hone

namespace Field

/-- The bytes that a scalar field takes. It is 0 where they are not known beforehand. -/
def size (field : Field) : Nat :=
  match field.type with
  | .scalar scalar => scalar.width field.format
  | _ => 0

/-- Reads a scalar field. -/
def readScalar (field : Field) (source : Bytes) : Reading :=
  match field.type with
  | .scalar scalar => scalar.read field.format source
  | _ => .absent source

/-- A scalar field of known width, in a format that can be applied. Such a field is absent exactly if
fewer bytes are left than it takes, and it leaves them where they are. -/
structure IsFixed (field : Field) : Prop where
  size_pos : 0 < field.size
  fault?_eq : field.format.fault? = none

variable {field : Field}

/-- Fields without a type of their own have no size. -/
theorem exists_scalar_of_size_pos (h : 0 < field.size) :
    ∃ scalar : Scalar, field.type = .scalar scalar ∧ field.size = scalar.width field.format ∧
      scalar.IsSized field.format ∧ ∀ source, field.readScalar source = scalar.read field.format source := by
  unfold size at h ⊢
  unfold readScalar
  cases htype : field.type with
  | scalar scalar =>
    simp only [htype] at h ⊢
    refine ⟨scalar, rfl, rfl, ?_, fun _ => rfl⟩
    rintro rfl
    exact Nat.ne_of_gt h
  | _ =>
    simp only [htype] at h
    exact absurd h (Nat.lt_irrefl 0)

/-- A field that the buffer is too short for leaves it as it is. -/
theorem readScalar_of_lt {source : Bytes} (hlt : source.length < field.size) :
    field.readScalar source = .absent source := by
  obtain ⟨scalar, -, hsize, -, hread⟩ := exists_scalar_of_size_pos (Nat.zero_lt_of_lt hlt)
  rw [hread]
  exact Scalar.read_of_lt_width (hsize ▸ hlt)

/-- **A field takes its own bytes**, and what it reads from them depends on nothing behind them. -/
theorem IsFixed.exists_readScalar_eq (h : field.IsFixed) {front : Bytes}
    (hfront : front.length = field.size) :
    ∃ value : Value, value.type = field.type ∧
      ∀ rest, field.readScalar (front ++ rest) = .found value rest := by
  obtain ⟨scalar, htype, hsize, hsized, hread⟩ := exists_scalar_of_size_pos h.size_pos
  rw [hsize] at hfront
  obtain ⟨value?, hresult⟩ := scalar.exists_result_eq h.fault?_eq front
  obtain ⟨-, hsome⟩ := Scalar.read_of_width_le hsized (Nat.le_of_eq hfront.symm)
  cases value? with
  | none => exact absurd hresult hsome
  | some value =>
    refine ⟨value, by rw [htype, Scalar.type_of_read hresult], fun rest => ?_⟩
    have hlonger : scalar.width field.format ≤ (front ++ rest).length := by
      rw [List.length_append]
      omega
    have hvalue := Scalar.result_read_append hsized (Nat.le_of_eq hfront.symm) rest
    obtain ⟨hrest, -⟩ := Scalar.read_of_width_le hsized hlonger
    rw [hresult] at hvalue
    rw [List.drop_left' hfront] at hrest
    calc field.readScalar (front ++ rest)
      _ = ⟨(scalar.read field.format (front ++ rest)).result,
          (scalar.read field.format (front ++ rest)).rest⟩ := hread _
      _ = .found value rest := by rw [hvalue, hrest, Reading.found]

end Field

/-! ## Many fields

The loop of the codec is specialised to scalars first, where neither fuel nor a slot table plays a part.
Everything about fields inside and beyond is said of this loop. -/

/-- Reads scalar fields one after the other. -/
def readScalars (fields : List Field) (members : List (String × Value)) (source : Bytes) :
    Option (Except Error (List (String × Value)) × Bytes) :=
  readFields (fields.map fun field => (field, fun source => some (field.readScalar source))) members source

section Fields

variable {field : Field} {fields inside beyond : List Field} {members mid : List (String × Value)}
  {source left : Bytes}

/-- A field that is too wide is passed over, and the next is offered the same bytes. -/
theorem readScalars_cons_of_lt (hlt : source.length < field.size) :
    readScalars (field :: fields) members source = readScalars fields members source := by
  simp only [readScalars, List.map_cons, readFields, Field.readScalar_of_lt hlt, Reading.absent,
    Option.bind_eq_bind, Option.bind_some, Field.store]

/-- A field that is found becomes a member, and the next one goes on behind it. -/
theorem readScalars_cons_of_found {value : Value} (htype : value.type = field.type)
    (hread : field.readScalar source = .found value left) :
    readScalars (field :: fields) members source =
      readScalars fields (setMember members field.member value) left := by
  simp only [readScalars, List.map_cons, readFields, hread, Reading.found, Option.bind_eq_bind,
    Option.bind_some, Field.store, if_pos htype]

/-- Fields are read where those before them stop. -/
theorem readScalars_append (h : readScalars inside members source = some (.ok mid, left)) :
    readScalars (inside ++ beyond) members source = readScalars beyond mid left := by
  induction inside generalizing members source with
  | nil =>
    cases h
    rfl
  | cons field fields ih =>
    simp only [readScalars, List.cons_append, List.map_cons, readFields, Option.bind_eq_bind,
      Option.bind_some] at h ih ⊢
    split at h
    · cases h
    · exact ih h

/-- **Fields whose bytes are all there** are read the same, whatever comes after them. -/
theorem exists_readScalars_eq (h : ∀ field ∈ fields, field.IsFixed) (members : List (String × Value))
    {front : Bytes} (hfront : front.length = (fields.map Field.size).sum) :
    ∃ final, ∀ rest, readScalars fields members (front ++ rest) = some (.ok final, rest) := by
  induction fields generalizing members front with
  | nil =>
    obtain rfl := List.length_eq_zero_iff.1 hfront
    exact ⟨members, fun _ => rfl⟩
  | cons field fields ih =>
    rw [List.forall_mem_cons] at h
    rw [List.map_cons, List.sum_cons] at hfront
    have hfirst : (front.take field.size).length = field.size := by
      rw [List.length_take]
      omega
    have hothers : (front.drop field.size).length = (fields.map Field.size).sum := by
      rw [List.length_drop]
      omega
    obtain ⟨value, htype, hread⟩ := h.1.exists_readScalar_eq hfirst
    obtain ⟨final, hfinal⟩ := ih h.2 (setMember members field.member value) hothers
    refine ⟨final, fun rest => ?_⟩
    rw [← hfinal rest, ← readScalars_cons_of_found htype (hread _), ← List.append_assoc,
      List.take_append_drop]

/-- **Fields that are all too wide** take nothing and change nothing. -/
theorem readScalars_of_lt (h : ∀ field ∈ fields, source.length < field.size) :
    readScalars fields members source = some (.ok members, source) := by
  induction fields with
  | nil => rfl
  | cons field fields ih =>
    rw [List.forall_mem_cons] at h
    rw [readScalars_cons_of_lt h.1, ih h.2]

/-- Fields are read from any bytes, and take some of them unless they are all too wide. -/
theorem exists_readScalars_suffix (h : ∀ field ∈ fields, field.IsFixed)
    (members : List (String × Value)) (source : Bytes) :
    ∃ final unread, readScalars fields members source = some (.ok final, unread) ∧
      unread.length ≤ source.length ∧
        (unread.length = source.length → ∀ field ∈ fields, source.length < field.size) := by
  induction fields generalizing members source with
  | nil => exact ⟨members, source, rfl, Nat.le_refl _, fun _ => nofun⟩
  | cons field fields ih =>
    rw [List.forall_mem_cons] at h
    -- a field that is passed over leaves all, and one that is read takes at least one byte
    by_cases hlt : source.length < field.size
    · obtain ⟨final, unread, hread, hle, hall⟩ := ih h.2 members source
      rw [readScalars_cons_of_lt hlt]
      exact ⟨final, unread, hread, hle, fun heq => List.forall_mem_cons.2 ⟨hlt, hall heq⟩⟩
    · have hfirst : (source.take field.size).length = field.size := by
        rw [List.length_take]
        omega
      obtain ⟨value, htype, hfound⟩ := h.1.exists_readScalar_eq hfirst
      have htaken := hfound (source.drop field.size)
      rw [List.take_append_drop] at htaken
      obtain ⟨final, unread, hread, hle, -⟩ :=
        ih h.2 (setMember members field.member value) (source.drop field.size)
      rw [List.length_drop] at hle
      have hpos := h.1.size_pos
      rw [readScalars_cons_of_found htype htaken]
      exact ⟨final, unread, hread, by omega, fun heq => by omega⟩

/-- Storing one member leaves the others. -/
theorem member?_store {name : String} (hname : name ≠ field.member) (value? : Option Value) :
    member? (field.store members value?) name = member? members name := by
  cases value? with
  | none => rfl
  | some value =>
    rw [Field.store]
    split
    · exact member?_setMember_of_ne hname value
    · rfl

/-- A member that none of the fields carries is left as it was. -/
theorem member?_readScalars {final : List (String × Value)} {unread : Bytes}
    (h : readScalars fields members source = some (.ok final, unread)) {name : String}
    (hname : name ∉ fields.map Field.member) : member? final name = member? members name := by
  induction fields generalizing members source with
  | nil =>
    cases h
    rfl
  | cons field fields ih =>
    rw [List.map_cons, List.mem_cons, not_or] at hname
    simp only [readScalars, List.map_cons, readFields, Option.bind_eq_bind, Option.bind_some] at h ih
    split at h
    · cases h
    · rw [ih h hname.2, member?_store hname.1]

end Fields

/-! ## Records

A record of scalars is read by its plan, and the plan reads each field as the scalar it is. So a whole
call is a reading of scalars, from the members that the schema begins with. -/

namespace Registry

variable {registry : Registry} {version : UInt32} {table table' : SlotTable} {name : String}
  {schema : Schema}

/-- A field of known width is read by its type's plan as the scalar that it is. -/
theorem SchemasOnly.readFieldDirect_eq_readScalar (hplain : registry.SchemasOnly)
    (hschema : registry.schema? (.record name) = some schema) {field : Field}
    (hfield : field ∈ schema.fieldsAt version) (hsize : 0 < field.size) (fuel depth : Nat) :
    registry.readFieldDirect version (registry.readDirect version (fuel + 1) depth) field =
      fun source => some (field.readScalar source) := by
  obtain ⟨scalar, htype, -, -, hread⟩ := Field.exists_scalar_of_size_pos hsize
  rw [hplain.readFieldDirect_eq hschema hfield]
  funext source
  rw [hread]
  simp only [readNeed, hplain.plan?_eq, htype, builtinPlan?]
  rfl

/-- There is fuel for the record and for its fields, which go no deeper. -/
theorem exists_callFuel_eq (registry : Registry) (weight : Nat) :
    ∃ fuel, registry.callFuel weight = fuel + 2 := by
  have hle : 2 ≤ (registry.limits.maxDepth + 2) * (2 * (registry.weight + weight) + 64) :=
    Nat.le_trans (Nat.le_add_left 2 _) (Nat.le_mul_of_pos_right _ (Nat.succ_pos _))
  exact ⟨registry.callFuel weight - 2, by rw [callFuel]; omega⟩

/-- **A record of scalars is read field by field.** -/
theorem SchemasOnly.decode_eq_readScalars (hplain : registry.SchemasOnly)
    (hschema : registry.schema? (.record name) = some schema)
    (hsizes : ∀ field ∈ schema.fieldsAt version, 0 < field.size) (hdepth : 0 < registry.limits.maxDepth)
    {plan : Plan} (hfind : registry.find version (.record name) = .ok plan) (h : registry.Reached table)
    (source : Bytes) :
    (registry.decode (.record name) version source).answer table =
      (readScalars (schema.fieldsAt version) schema.initial source).map fun answer =>
        ⟨answer.1.map fun members => some (schema.record members), answer.2⟩ := by
  have hplan := plan?_of_find hfind
  obtain rfl := Option.some.inj ((hplain.plan?_record hschema).symm.trans hplan)
  have hname : schema.type = .record name := type_of_plan? hplan
  obtain ⟨fuel, hfuel⟩ := registry.exists_callFuel_eq (TypeExpr.record name).weight
  have hreaders : (schema.fieldsAt version).map (fun field =>
      (field, registry.readFieldDirect version (registry.readDirect version (fuel + 1) (0 + 1)) field)) =
        (schema.fieldsAt version).map fun field => (field, fun source => some (field.readScalar source)) :=
    List.map_congr_left fun field hfield => by
      rw [hplain.readFieldDirect_eq_readScalar hschema hfield (hsizes field hfield)]
  rw [decode, h.decodeIn_answer hplain.factories_eq, decodeDirect, readTypeDirect, hfind, hfuel]
  simp only [readDirect, readStepDirect, if_neg (Nat.not_le.2 hdepth)]
  simp only [readDirect] at hreaders
  rw [hreaders, ← readScalars]
  cases readScalars (schema.fieldsAt version) schema.initial source with
  | none => rfl
  | some answer =>
    obtain ⟨result, rest⟩ := answer
    cases result with
    | error e => rfl
    | ok members =>
      have htype : (schema.record members).type = .record name := by rw [Schema.record, hname]; rfl
      exact congrArg some (expect_found htype rest)

/-- A record that is read has a plan, and records may be nested at all. -/
theorem SchemasOnly.find_of_decode (hplain : registry.SchemasOnly)
    (hschema : registry.schema? (.record name) = some schema) (h : registry.Reached table) {source rest : Bytes}
    {value : Value}
    (hread : (registry.decode (.record name) version source).answer table = some (.found value rest)) :
    (∃ plan, registry.find version (.record name) = .ok plan) ∧ 0 < registry.limits.maxDepth := by
  rw [decode, h.decodeIn_answer hplain.factories_eq, decodeDirect, readTypeDirect] at hread
  cases hfind : registry.find version (.record name) with
  | error e =>
    rw [hfind] at hread
    cases hread
  | ok plan =>
    refine ⟨⟨plan, rfl⟩, Nat.pos_of_ne_zero fun hzero => ?_⟩
    obtain rfl := Option.some.inj ((hplain.plan?_record hschema).symm.trans (plan?_of_find hfind))
    obtain ⟨fuel, hfuel⟩ := registry.exists_callFuel_eq (TypeExpr.record name).weight
    simp only [hfind, hfuel, readDirect, readStepDirect, hzero, Nat.le_refl, if_true] at hread
    cases hread

/-- Of a record of scalars that was read, the members are what its fields are read as. -/
theorem SchemasOnly.readScalars_of_decode (hplain : registry.SchemasOnly)
    (hschema : registry.schema? (.record name) = some schema)
    (hsizes : ∀ field ∈ schema.fieldsAt version, 0 < field.size) (h : registry.Reached table)
    {source rest : Bytes} {members : List (String × Value)}
    (hread : (registry.decode (.record name) version source).answer table =
      some (.found (schema.record members) rest)) :
    readScalars (schema.fieldsAt version) schema.initial source = some (.ok members, rest) := by
  obtain ⟨⟨plan, hfind⟩, hdepth⟩ := hplain.find_of_decode hschema h hread
  rw [hplain.decode_eq_readScalars hschema hsizes hdepth hfind h] at hread
  obtain ⟨⟨result, rest'⟩, hanswer, hrecord⟩ := Option.map_eq_some_iff.1 hread
  cases result with
  | error e => cases hrecord
  | ok final =>
    cases hrecord
    exact hanswer

/-- In an accepted schema, a scalar field of known width can be read. -/
theorem Accepted.isFixed (haccepted : registry.Accepted)
    (hschema : registry.schema? (.record name) = some schema) {field : Field}
    (hfield : field ∈ schema.fieldsAt version) (hsize : 0 < field.size) : field.IsFixed where
  size_pos := hsize
  fault?_eq :=
    haccepted.schemas.2 schema (List.mem_of_find?_eq_some hschema) field (List.mem_filter.1 hfield).1

/-- **Reading a record that is cut short.** In a registry of accepted schemas, let every field of a record
be a scalar of known width, let each carry a member of its own, and let some bytes be read for such a
record, for instance those that it was written as. Then from every front part of these bytes a record is
read too:

* the fields that lie inside the front part have the same members;
* what stays unread are the bytes behind those fields, all of them, exactly when each field beyond is
  wider than they are;
* in that case, every other member is what the record begins with.

Where a field beyond is narrow enough, it takes bytes that belong to the field that was cut. -/
theorem Accepted.decode_prefix (haccepted : registry.Accepted)
    (hschema : registry.schema? (.record name) = some schema)
    (hsizes : ∀ field ∈ schema.fieldsAt version, 0 < field.size)
    (hnodup : ((schema.fieldsAt version).map Field.member).Nodup)
    (h : registry.Reached table) (h' : registry.Reached table') {bytes front rest : Bytes}
    {members : List (String × Value)}
    (hread : (registry.decode (.record name) version bytes).answer table =
      some (.found (schema.record members) rest))
    (hstart : front <+: bytes) {inside beyond : List Field}
    (hfields : schema.fieldsAt version = inside ++ beyond)
    (hinside : (inside.map Field.size).sum ≤ front.length) :
    let left := front.drop (inside.map Field.size).sum
    ∃ found unread, (registry.decode (.record name) version front).answer table' =
        some (.found (schema.record found) unread) ∧
      (∀ field ∈ inside, member? found field.member = member? members field.member) ∧
      (unread = left ↔ ∀ field ∈ beyond, left.length < field.size) ∧
      ((∀ field ∈ beyond, left.length < field.size) → ∀ other, other ∉ inside.map Field.member →
        member? found other = member? schema.initial other) := by
  intro left
  have hplain := haccepted.schemasOnly
  obtain ⟨⟨plan, hfind⟩, hdepth⟩ := hplain.find_of_decode hschema h hread
  have hfixed : ∀ field ∈ inside ++ beyond, field.IsFixed := by
    intro field hfield
    rw [← hfields] at hfield
    exact haccepted.isFixed hschema hfield (hsizes field hfield)
  rw [List.forall_mem_append] at hfixed
  -- both buffers begin with the bytes of the fields inside, and are read alike that far
  obtain ⟨more, rfl⟩ := hstart
  have hsplit : front.take (inside.map Field.size).sum ++ left = front := List.take_append_drop _ _
  have hlength : (front.take (inside.map Field.size).sum).length = (inside.map Field.size).sum := by
    rw [List.length_take, Nat.min_eq_left hinside]
  obtain ⟨mid, hmid⟩ := exists_readScalars_eq hfixed.1 schema.initial hlength
  have hwhole : readScalars beyond mid (left ++ more) = some (.ok members, rest) := by
    have hfull := hplain.readScalars_of_decode hschema hsizes h hread
    rwa [hfields, ← hsplit, List.append_assoc, readScalars_append (hmid _)] at hfull
  -- what the fields beyond do with the bytes that are left of the front part
  obtain ⟨found, unread, hcut, -, hnarrow⟩ := exists_readScalars_suffix hfixed.2 mid left
  refine ⟨found, unread, ?_, ?_, ⟨?_, ?_⟩, ?_⟩
  · rw [hplain.decode_eq_readScalars hschema hsizes hdepth hfind h', hfields, ← hsplit,
      readScalars_append (hmid _), hcut]
    rfl
  · intro field hfield
    have hbeyond : field.member ∉ beyond.map Field.member := by
      rw [hfields, List.map_append] at hnodup
      exact fun hmem => (List.disjoint_of_nodup_append hnodup) (List.mem_map_of_mem hfield) hmem
    rw [member?_readScalars hcut hbeyond, member?_readScalars hwhole hbeyond]
  · rintro rfl
    exact hnarrow rfl
  · intro hwide
    rw [readScalars_of_lt hwide] at hcut
    cases hcut
    rfl
  · intro hwide other hother
    rw [readScalars_of_lt hwide] at hcut
    cases hcut
    exact member?_readScalars (hmid []) hother

/-- Two bytes. -/
def wideField : Field :=
  { name := "wide", member := "wide", type := .scalar (.int .u16), format := {}, adapter := none }

/-- One byte. -/
def narrowField : Field :=
  { name := "narrow", member := "narrow", type := .scalar (.int .u8), format := {}, adapter := none }

def pairSchema : Schema :=
  { type := .record "pair", fields := [wideField, narrowField],
    initial := [("wide", .int .u16 0), ("narrow", .int .u8 0)] }

def pairs : Registry where
  schemas := [pairSchema]

def pair : Value :=
  pairSchema.record [("wide", .int .u16 513), ("narrow", .int .u8 3)]

theorem accepted_pairs : pairs.Accepted := by
  have hadd : addSchema {} pairSchema = .ok pairs := rfl
  refine .addSchema (.start _) ?_ hadd
  rw [pairSchema, List.forall_mem_cons, List.forall_mem_singleton]
  exact ⟨rfl, rfl⟩

/-- Pairs are read field by field. -/
theorem decode_pairs (source : Bytes) :
    (pairs.decode (.record "pair") 1 source).answer {} =
      (readScalars [wideField, narrowField] pairSchema.initial source).map fun answer =>
        ⟨answer.1.map fun members => some (pairSchema.record members), answer.2⟩ := by
  have hplain := accepted_pairs.schemasOnly
  have hschema : pairs.schema? (.record "pair") = some pairSchema := rfl
  have hsizes : ∀ field ∈ pairSchema.fieldsAt 1, 0 < field.size := by decide
  have hresolves : Run.answer (pairs.resolve (.record "pair") 1) {} = some (.ok 0) := by decide +kernel
  obtain ⟨plan, hfind, -⟩ := find_of_resolve hplain.factories_eq hresolves
  exact hplain.decode_eq_readScalars hschema hsizes (by decide) hfind .fresh source

/-- A pair that lost its last byte keeps the first member, and begins with the second. -/
theorem Accepted.decode_prefix_pair :
    ∃ found unread, (pairs.decode (.record "pair") 1 [1, 2]).answer {} =
        some (.found (pairSchema.record found) unread) ∧
      member? found "wide" = some (.int .u16 513) ∧ unread = [] ∧
        member? found "narrow" = some (.int .u8 0) := by
  have hread : (pairs.decode (.record "pair") 1 [1, 2, 3]).answer {} = some (.found pair []) := by
    rw [decode_pairs]
    rfl
  have hstart : [1, 2] <+: ([1, 2, 3] : Bytes) := ⟨[3], rfl⟩
  have hschema : pairs.schema? (.record "pair") = some pairSchema := rfl
  have hfields : pairSchema.fieldsAt 1 = [wideField] ++ [narrowField] := rfl
  obtain ⟨found, unread, hcut, hinside, hrest, hbeyond⟩ :=
    accepted_pairs.decode_prefix hschema (by decide) (by decide) .fresh .fresh hread hstart hfields (by decide)
  refine ⟨found, unread, hcut, ?_, hrest.2 (by decide), hbeyond (by decide) "narrow" (by decide)⟩
  exact hinside wideField List.mem_cons_self

/-- **A cut record with a wrong member**: of a pair that is written as three bytes and read back from
them, only the first byte is left, which is the first byte of the wide field. It is read as the narrow
one. -/
theorem decode_prefix_takes_foreign_byte :
    pairs.Accepted ∧ (pairs.encode pair 1).answer {} = some (.done [1, 2, 3]) ∧
      (pairs.decode (.record "pair") 1 [1, 2, 3]).answer {} = some (.found pair []) ∧
      (pairs.decode (.record "pair") 1 [1]).answer {} =
        some (.found (pairSchema.record [("wide", .int .u16 0), ("narrow", .int .u8 1)]) []) ∧
      member? pairSchema.initial "narrow" = some (.int .u8 0) := by
  refine ⟨accepted_pairs, ?_, ?_, ?_, rfl⟩
  · have hencode : ((pairs.encode pair 1).answer {}).map
        (fun writing => (writing.bytes, writing.result)) = some ([1, 2, 3], .ok ()) := by decide +kernel
    obtain ⟨⟨bytes, result⟩, hwriting, hparts⟩ := Option.map_eq_some_iff.1 hencode
    cases hparts
    exact hwriting
  · rw [decode_pairs]
    rfl
  · rw [decode_pairs]
    rfl

end Registry

end Telegram
