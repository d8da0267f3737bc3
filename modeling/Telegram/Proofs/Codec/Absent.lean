import Telegram.Proofs.Codec.Dangling
import Telegram.Proofs.Codec.RoundTrip
import Telegram.Proofs.Scalar.Width

/-!
# Absent values

A buffer may end before a value is complete. Then the value is absent, and who has more bytes later would
append them and read again. That works as long as the buffer has stayed as it was. With arrays it may not:
of one that is cut short, the elements in front of the cut are taken off the buffer and lost.

* `readItems_of_stays` and `first_absent_of_stays` are about elements that leave the buffer as it is: if
  the first does, all do.
* `Registry.SchemasOnly.readDirect_suffix`: what is left unread is the end of the buffer, whatever is
  read.
* `Registry.AbsentBy` are the ways to be absent. `TypeExpr.firstScalar?` is the scalar that arrays begin
  with, and its format in there.
* `Registry.SchemasOnly.absent_leaves_source_iff` puts this together, after any history. An absent array
  has left the buffer as it is exactly if not even its first scalar was complete.
  `Registry.absent_loses_elements` is one that has not.
-/

namespace Telegram

open Codec

/-! ## Loops

An array is read element by element from what the element before has left. If the first element takes no
bytes, the second finds the same buffer and has the same answer, and so on. So an array that leaves the
buffer as it was has either read nothing but such elements, or stopped at the first. -/

section Loops

variable {read : Bytes → Option Reading} {element : TypeExpr} {source rest : Bytes}

/-- An element that leaves the buffer as it is can be read from it again and again. -/
theorem readItems_of_found_stays {reading : Reading} (hread : read source = some reading) {item : Value}
    (hitem : (reading.expect element).result = .ok (some item)) (hstays : reading.rest = source)
    (count : Nat) :
    readItems read element count source = some (.ok (List.replicate count item), source) := by
  -- each element finds the buffer that the first one found
  induction count with
  | zero => rfl
  | succ count ih =>
    simp only [readItems, Option.bind_eq_bind, hread, Option.bind_some, hitem, hstays, ih]
    rfl

/-- **If the first element leaves the buffer as it is, all do.** -/
theorem readItems_of_stays (h : ∀ reading ∈ read source, reading.rest = source) {count : Nat}
    {items : Except Error (List Value)} (hitems : readItems read element count source = some (items, rest)) :
    rest = source := by
  cases count with
  | zero =>
    obtain ⟨-, rfl⟩ := Prod.mk.inj (Option.some.inj hitems)
    rfl
  | succ count =>
    obtain ⟨reading, hread, hnext⟩ := Option.bind_eq_some_iff.1 hitems
    have hstays := h reading hread
    rcases hresult : (reading.expect element).result with e | _ | item
    · rw [hresult] at hnext
      obtain ⟨-, rfl⟩ := Prod.mk.inj (Option.some.inj hnext)
      exact hstays
    · rw [hresult] at hnext
      obtain ⟨-, rfl⟩ := Prod.mk.inj (Option.some.inj hnext)
      exact hstays
    · rw [readItems_of_found_stays hread hresult hstays] at hitems
      obtain ⟨-, rfl⟩ := Prod.mk.inj (Option.some.inj hitems)
      rfl

/-- What elements leave is the end of the buffer, if that is what each of them leaves. -/
theorem readItems_suffix (h : ∀ source, ∀ reading ∈ read source, reading.rest <:+ source) (count : Nat)
    (source : Bytes) : ∀ items ∈ readItems read element count source, items.2 <:+ source := by
  induction count generalizing source with
  | zero => exact forall_mem_some (List.suffix_refl _)
  | succ count ih =>
    refine forall_mem_bind (h source) fun reading hreading => ?_
    rcases (reading.expect element).result with e | _ | item
    · exact forall_mem_some hreading
    · exact forall_mem_some hreading
    · exact forall_mem_bind (ih reading.rest) fun items hitems => forall_mem_some (hitems.trans hreading)

/-- What fields leave is the end of the buffer, if that is what each of them leaves. -/
theorem readFields_suffix {readers : List (Field × (Bytes → Option Reading))}
    (h : ∀ reader ∈ readers, ∀ source, ∀ reading ∈ reader.2 source, reading.rest <:+ source)
    (members : List (String × Value)) (source : Bytes) :
    ∀ answer ∈ readFields readers members source, answer.2 <:+ source := by
  induction readers generalizing members source with
  | nil => exact forall_mem_some (List.suffix_refl _)
  | cons reader others ih =>
    obtain ⟨field, read⟩ := reader
    rw [List.forall_mem_cons] at h
    refine forall_mem_bind (h.1 source) fun reading hreading => ?_
    rcases reading.result with e | value
    · exact forall_mem_some hreading
    · exact fun answer hanswer => (ih h.2 _ _ answer hanswer).trans hreading

/-- **Elements that are cut short and leave the buffer as it is** were cut at the first. -/
theorem first_absent_of_stays (h : ∀ source, ∀ reading ∈ read source, reading.rest <:+ source) {count : Nat}
    {items : List Value} (hitems : readItems read element count source = some (.ok items, source))
    (hshort : items.length ≠ count) : read source = some (.absent source) := by
  cases count with
  | zero =>
    obtain ⟨heq, -⟩ := Prod.mk.inj (Option.some.inj hitems)
    obtain rfl := Except.ok.inj heq
    exact absurd rfl hshort
  | succ count =>
    obtain ⟨reading, hread, hnext⟩ := Option.bind_eq_some_iff.1 hitems
    rcases hresult : (reading.expect element).result with e | _ | item
    · rw [hresult] at hnext
      cases hnext
    · rw [hresult] at hnext
      obtain ⟨-, hrest⟩ := Prod.mk.inj (Option.some.inj hnext)
      rw [hread, ← hrest, Reading.absent, ← Reading.result_of_expect hresult]
    · -- the element is found, and so it leaves less: otherwise all elements would have been found
      refine absurd ?_ hshort
      rw [hresult] at hnext
      obtain ⟨⟨others, left⟩, hothers, hpure⟩ := Option.bind_eq_some_iff.1 hnext
      obtain ⟨-, rfl⟩ := Prod.mk.inj (Option.some.inj hpure)
      have hless : left <:+ reading.rest := readItems_suffix h count reading.rest _ hothers
      have hstays : reading.rest = left := (h left reading hread).eq_of_length_le hless.length_le
      rw [readItems_of_found_stays hread hresult hstays] at hitems
      obtain ⟨heq, -⟩ := Prod.mk.inj (Option.some.inj hitems)
      rw [← Except.ok.inj heq, List.length_replicate]

end Loops

/-! ## Scalars

A scalar looks at how many bytes there are before it takes any, so an absent one has left all of them. -/

namespace Scalar

variable {scalar : Scalar} {format : FieldFormat} {source : Bytes}

/-- **A scalar is absent exactly if the buffer is too short for it.** -/
theorem read_absent_iff : (scalar.read format source).result = .ok none ↔ source.length < scalar.width format := by
  refine ⟨fun h => Nat.lt_of_not_le fun hle => ?_, fun hlt => by rw [read_of_lt_width hlt, Reading.absent]⟩
  by_cases hsized : scalar.IsSized format
  · exact (read_of_width_le hsized hle).2 h
  · -- a text without a length takes what there is
    obtain ⟨rfl, hlength⟩ := Classical.not_imp.1 hsized
    rw [read, Text.read, if_pos (not_not.1 hlength)] at h
    cases h

/-- Whatever a scalar takes, it takes from the front. -/
theorem rest_read_suffix (scalar : Scalar) (format : FieldFormat) (source : Bytes) :
    (scalar.read format source).rest <:+ source := by
  by_cases hlt : source.length < scalar.width format
  · rw [read_of_lt_width hlt]
    exact List.suffix_refl _
  · by_cases hsized : scalar.IsSized format
    · rw [(read_of_width_le hsized (Nat.not_lt.1 hlt)).1]
      exact List.drop_suffix _ _
    · obtain ⟨rfl, hlength⟩ := Classical.not_imp.1 hsized
      rw [read, Text.read, if_pos (not_not.1 hlength)]
      exact List.nil_suffix

end Scalar

/-! ## Reading by plans

Lists and deques are never absent unless the buffer is empty: they are what was found, however little. An
optional is there in any case, and holds nothing where its content is absent. A record is there as well,
with members as in the beginning. What remains are scalars and arrays, and arrays of these. -/

/-- Only arrays do not take any number of elements. -/
theorem Container.exists_of_ofItems?_eq_none {container : Container} {element : TypeExpr} {items : List Value}
    (h : container.ofItems? element items = none) :
    ∃ size, container = .array size ∧ items.length ≠ size := by
  unfold ofItems? at h
  split at h
  · cases h
  · rename_i hrefused
    cases container with
    | array size => exact ⟨size, rfl, fun hlength => hrefused (by simp [accepts, size?, hlength])⟩
    | _ => exact absurd rfl hrefused

namespace TypeExpr

/-- The type is an array. -/
def isArray : TypeExpr → Bool
  | .sequence (.array _) _ => true
  | _ => false

/-- The scalar that a value of the type begins with, and its format, where only arrays are in between. -/
def firstScalar? : TypeExpr → FieldFormat → Option (Scalar × FieldFormat)
  | .scalar s, format => some (s, format)
  | .sequence (.array _) element, format => element.firstScalar? format.element
  | _, _ => none

end TypeExpr

namespace Registry

variable {registry : Registry} {version : UInt32} {fuel depth : Nat} {type : TypeExpr} {plan : Plan}
  {format : FieldFormat} {source rest : Bytes}

/-- Every way of reading with a plan leaves the end of the buffer. Nothing is put back that was not there,
also where the value is refused afterwards. -/
def LeavesSuffix (registry : Registry) (version : UInt32) (read : ReadPlan) : Prop :=
  ∀ depth (type : TypeExpr) (plan : Plan) (format : FieldFormat) (source : Bytes),
    registry.plan? version type = some plan →
      ∀ reading ∈ read depth plan format source, reading.rest <:+ source

/-- A type without a plan takes nothing. -/
theorem LeavesSuffix.readNeed {read : ReadPlan} (h : registry.LeavesSuffix version read) (depth : Nat)
    (type : TypeExpr) (format : FieldFormat) (source : Bytes) :
    ∀ reading ∈ registry.readNeed version (read depth) type format source, reading.rest <:+ source := by
  rw [Registry.readNeed]
  split
  · exact h depth type _ format source ‹_›
  · exact forall_mem_some (List.suffix_refl _)

/-- One step of reading leaves the end of the buffer, if the calls it makes do. -/
theorem SchemasOnly.readStepDirect_suffix (hplain : registry.SchemasOnly) {read : ReadPlan}
    (h : registry.LeavesSuffix version read) :
    registry.LeavesSuffix version (registry.readStepDirect version read) := by
  intro depth type plan format source hplan
  rw [hplain.plan?_eq] at hplan
  cases type with
  | foreign name => cases hplan
  | scalar s =>
    obtain rfl := Option.some.inj hplan
    exact forall_mem_some (s.rest_read_suffix format source)
  | family name =>
    obtain rfl := Option.some.inj hplan
    exact forall_mem_some (List.suffix_refl _)
  | optional element =>
    obtain rfl := Option.some.inj hplan
    refine forall_mem_bind (h.readNeed depth element format source) fun reading hreading => ?_
    rcases (reading.expect element).result with e | _ | value
    · exact forall_mem_some hreading
    · exact forall_mem_some hreading
    · exact forall_mem_some hreading
  | sequence container element =>
    obtain rfl := Option.some.inj hplan
    simp only [readStepDirect]
    split
    · exact forall_mem_some (List.suffix_refl _)
    · exact forall_mem_bind (readItems_suffix (h.readNeed depth element format.element) _ source)
        fun items hitems => forall_mem_some hitems
  | record name =>
    obtain ⟨schema, hschema, rfl⟩ := Option.map_eq_some_iff.1 hplan
    simp only [readStepDirect]
    split
    · exact forall_mem_some (List.suffix_refl _)
    · refine forall_mem_bind (readFields_suffix ?_ schema.initial source) fun members hmembers =>
        forall_mem_some hmembers
      intro reader hreader
      obtain ⟨field, hfield, rfl⟩ := List.mem_map.1 hreader
      simp only [hplain.readFieldDirect_eq hschema hfield]
      exact h.readNeed (depth + 1) field.type field.format

/-- **What is left unread is the end of the buffer**, with any fuel. -/
theorem SchemasOnly.readDirect_suffix (hplain : registry.SchemasOnly) (fuel : Nat) :
    registry.LeavesSuffix version (registry.readDirect version fuel) := by
  induction fuel with
  | zero =>
    intro depth type plan format source _ reading hreading
    cases hreading
  | succ fuel ih => exact hplain.readStepDirect_suffix ih

/-- **A buffer that is too short for the first scalar stays as it is**, whatever is read. -/
theorem SchemasOnly.readNeed_stays (hplain : registry.SchemasOnly) (hnonempty : source ≠ []) {scalar : Scalar}
    {inner : FieldFormat} (hfirst : type.firstScalar? format = some (scalar, inner))
    (hshort : source.length < scalar.width inner) :
    ∀ reading ∈ registry.readNeed version (registry.readDirect version fuel depth) type format source,
      reading.rest = source := by
  -- only arrays lead from the type to its first scalar
  induction type generalizing format fuel with
  | scalar s =>
    obtain ⟨rfl, rfl⟩ := Prod.mk.inj (Option.some.inj hfirst)
    rw [readNeed, hplain.plan?_eq]
    cases fuel with
    | zero =>
      intro reading hreading
      cases hreading
    | succ fuel =>
      refine forall_mem_some ?_
      rw [Scalar.read_of_lt_width hshort]
      rfl
  | sequence container element ih =>
    cases container with
    | array size =>
      rw [readNeed, hplain.plan?_eq]
      cases fuel with
      | zero =>
        intro reading hreading
        cases hreading
      | succ fuel =>
        intro reading hreading
        simp only [builtinPlan?, readDirect, readStepDirect] at hreading
        rw [if_neg (by simpa using hnonempty)] at hreading
        obtain ⟨⟨items, rest⟩, hitems, hpure⟩ := Option.bind_eq_some_iff.1 hreading
        obtain rfl := Option.some.inj hpure
        exact readItems_of_stays (ih hfirst) hitems
    | _ => cases hfirst
  | _ => cases hfirst

/-- How a value came to be absent. The constructors say what was found in the buffer and what is left of
it. Only the last of them may leave less than it found. -/
inductive AbsentBy (registry : Registry) (version : UInt32) (depth : Nat) :
    TypeExpr → FieldFormat → Bytes → Bytes → Prop where
  /-- The buffer is too short for a scalar. -/
  | scalar {scalar : Scalar} {format : FieldFormat} {source : Bytes}
      (hshort : source.length < scalar.width format) :
      AbsentBy registry version depth (.scalar scalar) format source source
  /-- The buffer is empty where a sequence begins. -/
  | empty {container : Container} {element : TypeExpr} {format : FieldFormat} :
      AbsentBy registry version depth (.sequence container element) format [] []
  /-- An array was cut short. -/
  | cut {fuel size : Nat} {element : TypeExpr} {format : FieldFormat} {source rest : Bytes}
      {items : List Value} (hnonempty : source ≠ [])
      (hitems : readItems (registry.readNeed version (registry.readDirect version fuel depth) element
        format.element) element size source = some (.ok items, rest))
      (hshort : items.length ≠ size) :
      AbsentBy registry version depth (.sequence (.array size) element) format source rest

/-- **There are three ways to be absent.** An optional or a record never is. -/
theorem SchemasOnly.absentBy (hplain : registry.SchemasOnly)
    (h : registry.readNeed version (registry.readDirect version fuel depth) type format source =
      some (.absent rest)) : registry.AbsentBy version depth type format source rest := by
  cases hplan : registry.plan? version type with
  | none =>
    rw [readNeed, hplan] at h
    cases h
  | some plan =>
    rw [readNeed, hplan] at h
    cases fuel with
    | zero => cases h
    | succ fuel =>
      rw [hplain.plan?_eq] at hplan
      cases type with
      | foreign name => cases hplan
      | family name =>
        obtain rfl := Option.some.inj hplan
        cases h
      | scalar s =>
        obtain rfl := Option.some.inj hplan
        have hread : s.read format source = .absent rest := Option.some.inj h
        have hshort := Scalar.read_absent_iff.1 (congrArg Reading.result hread)
        rw [Scalar.read_of_lt_width hshort] at hread
        obtain rfl : source = rest := congrArg Reading.rest hread
        exact .scalar hshort
      | optional element =>
        obtain rfl := Option.some.inj hplan
        obtain ⟨reading, -, hpure⟩ := Option.bind_eq_some_iff.1 h
        rcases hresult : (reading.expect element).result with e | _ | value <;>
          rw [hresult] at hpure <;> cases hpure
      | record name =>
        obtain ⟨schema, -, rfl⟩ := Option.map_eq_some_iff.1 hplan
        simp only [readDirect, readStepDirect] at h
        split at h
        · cases h
        · obtain ⟨⟨members, left⟩, -, hpure⟩ := Option.bind_eq_some_iff.1 h
          cases members <;> cases hpure
      | sequence container element =>
        obtain rfl := Option.some.inj hplan
        simp only [readDirect, readStepDirect] at h
        split at h
        · rename_i hempty
          obtain rfl := List.isEmpty_iff.1 hempty
          cases h
          exact .empty
        · rename_i hempty
          obtain ⟨⟨items, left⟩, hitems, hpure⟩ := Option.bind_eq_some_iff.1 h
          obtain ⟨hnone, rfl⟩ := Reading.mk.inj (Option.some.inj hpure)
          cases items with
          | error e => cases hnone
          | ok items =>
            obtain ⟨size, rfl, hshort⟩ := Container.exists_of_ofItems?_eq_none (Except.ok.inj hnone)
            exact .cut (fun h => hempty (List.isEmpty_iff.2 h)) hitems hshort

/-- **An absent value that leaves the buffer as it is** found it too short for its first scalar. -/
theorem SchemasOnly.firstScalar?_of_stays (hplain : registry.SchemasOnly) (hnonempty : source ≠ [])
    (habsent : registry.readNeed version (registry.readDirect version fuel depth) type format source =
      some (.absent source)) :
    ∃ scalar inner, type.firstScalar? format = some (scalar, inner) ∧ source.length < scalar.width inner := by
  induction type generalizing format fuel with
  | sequence container element ih =>
    cases hplain.absentBy habsent with
    | empty => exact absurd rfl hnonempty
    | cut _ hitems hshort =>
      exact ih (first_absent_of_stays ((hplain.readDirect_suffix _).readNeed depth element _) hitems hshort)
  | scalar s =>
    cases hplain.absentBy habsent with
    | scalar hshort => exact ⟨_, _, rfl, hshort⟩
  | _ => cases hplain.absentBy habsent

/-- Only arrays that are cut short are absent and leave less of the buffer. -/
theorem SchemasOnly.stays_of_not_isArray (hplain : registry.SchemasOnly) (harray : type.isArray = false)
    (habsent : registry.readNeed version (registry.readDirect version fuel depth) type format source =
      some (.absent rest)) : rest = source := by
  cases hplain.absentBy habsent with
  | scalar => rfl
  | empty => rfl
  | cut => cases harray

/-- A value is absent after any history exactly if its plan finds it so. -/
theorem SchemasOnly.readNeed_of_absent (hplain : registry.SchemasOnly) {table : SlotTable}
    (h : registry.Reached table)
    (habsent : (registry.readType version (registry.readIn version fuel depth) type format source).answer
      table = some (.absent rest)) :
    registry.readNeed version (registry.readDirect version fuel depth) type format source =
      some (.absent rest) := by
  have hspared : registry.Spares version fun _ => True := spares_all hplain.factories_eq
  rw [(readType_matches hspared (readIn_matches hspared fuel) depth type format source trivial).answer_eq
    (h.sound hplain.factories_eq), readTypeDirect] at habsent
  cases hfind : registry.find version type with
  | error e =>
    rw [hfind] at habsent
    cases habsent
  | ok plan =>
    rw [hfind] at habsent
    obtain ⟨⟨result, left⟩, hread, hexpect⟩ := Option.map_eq_some_iff.1 habsent
    obtain rfl : result = .ok none := Reading.result_of_expect (congrArg Reading.result hexpect)
    obtain rfl : left = rest := congrArg Reading.rest hexpect
    rw [readNeed, plan?_of_find hfind]
    exact hread

/-- **An absent value consumes nothing, unless it is an array.** In a registry of record schemas, after
any history, let reading a value of some type answer that it is absent. What is left is then the end of
the buffer, and it is all of the buffer if the type is no array. For an array it is all of it exactly if
the buffer is empty or too short for the scalar that the array begins with. -/
theorem SchemasOnly.absent_leaves_source_iff (hplain : registry.SchemasOnly) {table : SlotTable}
    (h : registry.Reached table)
    (habsent : (registry.readType version (registry.readIn version fuel depth) type format source).answer
      table = some (.absent rest)) :
    rest <:+ source ∧ (type.isArray = false → rest = source) ∧
      (rest = source ↔ source = [] ∨ ∃ scalar inner, type.firstScalar? format = some (scalar, inner) ∧
        source.length < scalar.width inner) := by
  have hneed := hplain.readNeed_of_absent h habsent
  have hsuffix : rest <:+ source :=
    (hplain.readDirect_suffix fuel).readNeed depth type format source _ hneed
  refine ⟨hsuffix, fun harray => hplain.stays_of_not_isArray harray hneed, ?_, ?_⟩
  · rintro rfl
    exact or_iff_not_imp_left.2 fun hnonempty => hplain.firstScalar?_of_stays hnonempty hneed
  · rintro (rfl | ⟨scalar, inner, hfirst, hshort⟩)
    · exact List.suffix_nil.1 hsuffix
    · by_cases hempty : source = []
      · rw [hempty] at hsuffix ⊢
        exact List.suffix_nil.1 hsuffix
      · exact hplain.readNeed_stays hempty hfirst hshort _ hneed

/-- What an answer is, by whether it holds a value and what it leaves. -/
theorem eq_absent_of_map {answer : Option Reading}
    (h : answer.map (fun reading => (reading.result.map Option.isSome, reading.rest)) =
      some (.ok false, rest)) : answer = some (.absent rest) := by
  obtain ⟨⟨result, left⟩, rfl, hpair⟩ := Option.map_eq_some_iff.1 h
  obtain ⟨hresult, rfl⟩ := Prod.mk.inj hpair
  rcases result with e | _ | value
  · cases hresult
  · rfl
  · cases hresult

/-- A grid of numbers that is cut within its first number stays in the buffer, and one that is cut later
does not. -/
theorem SchemasOnly.absent_leaves_source_iff_of_grid :
    let grid : TypeExpr := .sequence (.array 2) (.sequence (.array 2) (.scalar (.int .u16)))
    let Short (length : Nat) := ∃ scalar inner, grid.firstScalar? {} = some (scalar, inner) ∧
      length < scalar.width inner
    ((({} : Registry).decode grid 1 [1]).answer {} = some (.absent [1]) ∧ Short 1) ∧
      (({} : Registry).decode grid 1 [1, 2, 3]).answer {} = some (.absent [3]) ∧ ¬ Short 3 := by
  intro grid Short
  have hplain : ({} : Registry).SchemasOnly := ⟨rfl, rfl, nofun⟩
  have hone : (({} : Registry).decode grid 1 [1]).answer {} = some (.absent [1]) :=
    eq_absent_of_map (by decide +kernel)
  have hthree : (({} : Registry).decode grid 1 [1, 2, 3]).answer {} = some (.absent [3]) :=
    eq_absent_of_map (by decide +kernel)
  obtain ⟨-, -, hkeeps⟩ := hplain.absent_leaves_source_iff .fresh hone
  obtain ⟨-, -, hloses⟩ := hplain.absent_leaves_source_iff .fresh hthree
  refine ⟨⟨hone, (hkeeps.1 rfl).resolve_left nofun⟩, hthree, fun hshort => ?_⟩
  exact absurd (hloses.2 (.inr hshort)) (by decide)

/-- **An array that is absent can not be read again.** From a pair of numbers that lacks its last byte the
first number is gone. With that byte behind what was left there is still no pair, though the four bytes
are one. -/
theorem absent_loses_elements :
    let pair : TypeExpr := .sequence (.array 2) (.scalar (.int .u16))
    let read (source : Bytes) := ((({} : Registry).decode pair 1 source).answer {}).map
      fun reading => (reading.result.map Option.isSome, reading.rest)
    read [1, 2, 3] = some (.ok false, [3]) ∧ read ([3] ++ [4]) = some (.ok false, []) ∧
      read ([1, 2, 3] ++ [4]) = some (.ok true, []) := by
  decide +kernel

end Registry

end Telegram
