import Telegram.Proofs.Codec.Cutoff
import Telegram.Proofs.Scalar.Width

/-!
# How deep a value nests

Writing a value enters its records, and what they contain, one inside the other. How deep that goes can be
told from the value and the schemas alone, and the limit on nesting is compared with nothing else.

* `Registry.descent` follows what is written: the members that fields carry, what an optional or an
  alternative of a family holds, and the items of a sequence. A value of the wrong type ends the way down,
  and what comes behind it in a sequence is not reached. `Registry.nesting` is the longest chain of
  records on the way.
* `Descent.Ends` ties the outcome of a writing to the descent. There is one lemma for each loop, one for
  each step, and `Registry.SchemasOnly.writesEnd` closes the recursion by induction on fuel.
* `Registry.SchemasOnly.limit_only_cuts_off` is about whole calls under two limits, after any histories.

That the limit only cuts off is one half. The other half says when it does, and for this there must be a
way to measure a value that does not run the codec.
-/

namespace Telegram

open Codec

/-! ## The records that are entered

The descent goes where writing goes, and stops where writing stops. If it counted every record in a value
it would count too many: members that no field carries are never entered, and neither is what comes behind
an item that is refused. -/

/-- How far down the records of a value are entered. A value of the wrong type is not entered, and what
comes after it in a sequence is not either. So the depth and the refusal have to be followed together. -/
structure Descent where
  /-- The longest chain of records, one inside the other. -/
  records : Nat
  /-- The way ends at a value of the wrong type. -/
  refused : Bool
  deriving DecidableEq, Repr

namespace Descent

/-- No record, and nothing wrong. -/
def leaf : Descent :=
  ⟨0, false⟩

/-- A value of the wrong type. -/
def wrong : Descent :=
  ⟨0, true⟩

/-- One way down and then another, unless the first ends at a value of the wrong type. The second way
is not taken after that, and what would have been entered on it does not count. -/
def andThen (first second : Descent) : Descent :=
  if first.refused then first else ⟨max first.records second.records, second.refused⟩

end Descent

namespace Registry

mutual

/-- How far down the records of a value are entered when it is written. -/
def descent (registry : Registry) (version : UInt32) : Value → Descent
  | .some element content =>
    if content.type = element then registry.descent version content else .wrong
  | .sequence _ element items => registry.descentItems version element items
  | .variant _ _ content => registry.descent version content
  | .record name members =>
    match registry.schema? (.record name) with
    | some schema => ⟨registry.deepestMember version (schema.fieldsAt version) members + 1, false⟩
    | none => .leaf
  | _ => .leaf

/-- The items of a sequence are entered one after the other, up to the first that is refused. -/
def descentItems (registry : Registry) (version : UInt32) (element : TypeExpr) : List Value → Descent
  | [] => .leaf
  | item :: rest =>
    (if item.type = element then registry.descent version item else .wrong).andThen
      (registry.descentItems version element rest)

/-- The longest chain of records in a member that one of the fields carries. Of two members of one name
the first is meant. -/
def deepestMember (registry : Registry) (version : UInt32) (fields : List Field) :
    List (String × Value) → Nat
  | [] => 0
  | (name, value) :: rest =>
    max
      (if fields.any fun field => field.member = name ∧ field.type = value.type then
        (registry.descent version value).records else 0)
      (registry.deepestMember version (fields.filter fun field => field.member ≠ name) rest)

end

/-- The longest chain of records that are entered one inside the other. -/
def nesting (registry : Registry) (version : UInt32) (value : Value) : Nat :=
  (registry.descent version value).records

variable {registry : Registry} {version : UInt32}

/-- Members are looked up from the front, so the first of a name is the one that counts. -/
theorem member?_cons_of_eq {name key : String} (hname : key = name) (value : Value)
    (rest : List (String × Value)) : member? ((name, value) :: rest) key = some value := by
  rw [member?, List.lookup_cons, beq_iff_eq.2 hname]

theorem member?_cons_of_ne {name key : String} (hname : key ≠ name) (value : Value)
    (rest : List (String × Value)) : member? ((name, value) :: rest) key = member? rest key := by
  rw [member?, List.lookup_cons, beq_eq_false_iff_ne.2 hname, member?]

/-- What a field carries is entered no deeper than the deepest member. -/
theorem deepestMember_le_iff (fields : List Field) (members : List (String × Value)) (bound : Nat) :
    registry.deepestMember version fields members ≤ bound ↔
      ∀ field ∈ fields, ∀ value, member? members field.member = some value → value.type = field.type →
        (registry.descent version value).records ≤ bound := by
  induction members generalizing fields with
  | nil => simp [deepestMember, member?]
  | cons first rest ih =>
    obtain ⟨name, value⟩ := first
    simp only [deepestMember, Nat.max_le, ih, List.mem_filter, decide_eq_true_eq]
    -- the members are gone through one by one, and the fields of a name are used up by its first member
    constructor
    · rintro ⟨hfirst, hrest⟩ field hfield found hfound htype
      by_cases hname : field.member = name
      · rw [member?_cons_of_eq hname] at hfound
        obtain rfl := Option.some.inj hfound
        rwa [if_pos] at hfirst
        simpa using ⟨field, hfield, hname, htype.symm⟩
      · rw [member?_cons_of_ne hname] at hfound
        exact hrest field ⟨hfield, hname⟩ found hfound htype
    · intro hall
      constructor
      · split
        · rename_i hany
          obtain ⟨field, hfield, hcarries⟩ := List.any_eq_true.1 hany
          obtain ⟨hname, htype⟩ := of_decide_eq_true hcarries
          exact hall field hfield value (member?_cons_of_eq hname _ _) htype.symm
        · exact Nat.zero_le _
      · rintro field ⟨hfield, hname⟩ found hfound htype
        exact hall field hfield found ((member?_cons_of_ne hname _ _).trans hfound) htype

/-- How far down a value is entered where a type is declared. -/
def carried (registry : Registry) (version : UInt32) (type : TypeExpr) : Option Value → Descent
  | none => .leaf
  | some value => if value.type = type then registry.descent version value else .wrong

end Registry

/-! ## What a part of a writing comes to

An error of another kind may end a writing before it has gone as deep as the descent. So the outcomes are
related to the descent only where they have to do with nesting or with types: a success has been all the
way, and a complaint of the limit is justified. -/

/-- Writing a value that is entered so far down, `depth` records deep: it succeeds, it is refused for its
type, or it is cut off by the limit, which is for good reason. Or something else is wrong. -/
inductive Descent.Ends (limit depth : Nat) (descent : Descent) : Except Error Unit → Prop where
  | done (hwhole : descent.refused = false) (hle : depth + descent.records ≤ limit) :
      Ends limit depth descent (.ok ())
  | refused (hrefused : descent.refused = true) (hle : depth + descent.records ≤ limit)
      (expected : TypeExpr) : Ends limit depth descent (.error (.typeMismatch expected))
  | cut (hlt : limit < depth + descent.records) : Ends limit depth descent (.error (.tooDeep limit))
  | failed {e : Error} (htype : ∀ expected, e ≠ .typeMismatch expected) (hdepth : ∀ n, e ≠ .tooDeep n) :
      Ends limit depth descent (.error e)

namespace Descent

variable {limit depth : Nat} {first second : Descent}

theorem ends_leaf (hdepth : depth ≤ limit) : Ends limit depth .leaf (.ok ()) :=
  .done rfl hdepth

theorem ends_wrong (hdepth : depth ≤ limit) (expected : TypeExpr) :
    Ends limit depth .wrong (.error (.typeMismatch expected)) :=
  .refused rfl hdepth expected

theorem ends_noAdapter (type : TypeExpr) (version : UInt32) (descent : Descent) :
    Ends limit depth descent (.error (.noAdapter type version)) :=
  .failed nofun nofun

/-- An error is the end, whatever would have come next. -/
theorem Ends.andThen_of_error {e : Error} (h : first.Ends limit depth (.error e)) (second : Descent) :
    (first.andThen second).Ends limit depth (.error e) := by
  cases h with
  | refused hrefused hle expected =>
    rw [andThen, if_pos hrefused]
    exact .refused hrefused hle expected
  | failed htype hdepth => exact .failed htype hdepth
  | cut hlt =>
    refine .cut (Nat.lt_of_lt_of_le hlt (Nat.add_le_add_left ?_ depth))
    rw [andThen]
    split
    · exact Nat.le_refl _
    · exact Nat.le_max_left _ _

/-- After a success the next part decides. -/
theorem Ends.andThen_of_ok (h : first.Ends limit depth (.ok ())) {result : Except Error Unit}
    (hsecond : second.Ends limit depth result) : (first.andThen second).Ends limit depth result := by
  cases h with
  | done hwhole hle =>
    have hthen : first.andThen second = ⟨max first.records second.records, second.refused⟩ := by
      rw [andThen, hwhole, if_neg Bool.false_ne_true]
    rw [hthen]
    cases hsecond with
    | done hwhole' hle' =>
      have hboth : depth + max first.records second.records ≤ limit := by omega
      exact .done hwhole' hboth
    | refused hrefused hle' expected =>
      have hboth : depth + max first.records second.records ≤ limit := by omega
      apply Ends.refused
      · exact hrefused
      · exact hboth
    | cut hlt =>
      have hboth : limit < depth + max first.records second.records := by omega
      exact .cut hboth
    | failed htype hdepth => exact .failed htype hdepth

end Descent

/-! ## Scalars

Among the errors of scalars there is no complaint of the limit and none of a wrong type, so both kinds
come from what encloses them. -/

/-- A text has errors of its own, about digits and about characters. -/
theorem Text.stored_ne_tooDeep (kind : TextKind) (text : String) (room : Option Nat) (limit : Nat) :
    stored kind text room ≠ .error (.tooDeep limit) := by
  cases kind with
  | bcd =>
    simp only [stored]
    split <;> simp
  | utf8 => simp [stored]
  | ascii =>
    simp only [stored]
    split <;> simp

theorem Scalar.write_ne_tooDeep (scalar : Scalar) (format : FieldFormat) (value : Option Value)
    (limit : Nat) : (scalar.write format value).result ≠ .error (.tooDeep limit) := by
  cases scalar with
  | int type =>
    simp only [write, IntType.write]
    split <;> simp [Writing.done]
  | bool => simp [write, writeBool, Writing.done]
  | decimal =>
    simp only [write, Decimal.write]
    split <;> simp [Writing.done]
  | text =>
    simp only [write, Text.write]
    split
    · simp [Writing.done]
    · split
      · rename_i hstored
        intro heq
        rw [Except.error.inj heq] at hstored
        exact Text.stored_ne_tooDeep _ _ _ _ hstored
      · simp [Writing.done]

/-- A scalar enters no record. -/
theorem Scalar.write_ends {limit depth : Nat} (hdepth : depth ≤ limit) (scalar : Scalar)
    (format : FieldFormat) (value : Option Value) :
    Descent.leaf.Ends limit depth (scalar.write format value).result := by
  cases hresult : (scalar.write format value).result with
  | ok _ => exact Descent.ends_leaf hdepth
  | error e =>
    refine .failed ?type ?deep
    case type =>
      rintro expected rfl
      exact Scalar.write_ne_typeMismatch value expected hresult
    case deep =>
      rintro n rfl
      exact Scalar.write_ne_tooDeep scalar format value n hresult

/-! ## Loops

In a sequence the first refusal is the end. Among the fields of a record a refusal is passed over, so all
members that are carried count for the descent, the refused ones with as much as was entered in them. -/

namespace Registry

variable {registry : Registry} {version : UInt32} {limit depth : Nat}

/-- **A loop over items** comes to what the descent through them says: the first error is the end, and
what is behind it is not entered. -/
theorem writeItems_ends (hdepth : depth ≤ limit) {write : Value → Option Writing} {element : TypeExpr}
    (h : ∀ item, ∀ writing ∈ write item,
      (registry.carried version element (some item)).Ends limit depth writing.result) (items : List Value) :
    ∀ writing ∈ writeItems write items,
      (registry.descentItems version element items).Ends limit depth writing.result := by
  induction items with
  | nil => exact forall_mem_some (Descent.ends_leaf hdepth)
  | cons item rest ih =>
    refine forall_mem_bind (h item) fun writing hwriting => ?_
    rw [descentItems]
    cases hresult : writing.result with
    | error e =>
      rw [hresult] at hwriting
      exact forall_mem_some (hresult ▸ hwriting.andThen_of_error _)
    | ok _ =>
      rw [hresult] at hwriting
      exact forall_mem_bind ih fun others hothers => forall_mem_some (hwriting.andThen_of_ok hothers)

/-- What writing the fields comes to. Fields whose value is refused are passed over. Where
a value is refused further down only, its records count as far as they were entered. -/
inductive FieldsEnd (registry : Registry) (version : UInt32) (limit depth : Nat)
    (members : List (String × Value)) (fields : List Field) : Except Error Unit → Prop where
  | done (hall : ∀ field ∈ fields, ∀ value, member? members field.member = some value →
        value.type = field.type → depth + (registry.descent version value).records ≤ limit) :
      FieldsEnd registry version limit depth members fields (.ok ())
  | cut {field : Field} (hfield : field ∈ fields) {value : Value}
      (hvalue : member? members field.member = some value) (htype : value.type = field.type)
      (hlt : limit < depth + (registry.descent version value).records) :
      FieldsEnd registry version limit depth members fields (.error (.tooDeep limit))
  | failed {e : Error} (htype : ∀ expected, e ≠ .typeMismatch expected) (hdepth : ∀ n, e ≠ .tooDeep n) :
      FieldsEnd registry version limit depth members fields (.error e)

/-- A field whose value is within the limit leaves it to the others. -/
theorem FieldsEnd.cons {members : List (String × Value)} {field : Field} {rest : List Field}
    {result : Except Error Unit}
    (hfield : ∀ value, member? members field.member = some value → value.type = field.type →
      depth + (registry.descent version value).records ≤ limit)
    (h : registry.FieldsEnd version limit depth members rest result) :
    registry.FieldsEnd version limit depth members (field :: rest) result := by
  cases h with
  | done hall => exact .done (List.forall_mem_cons.2 ⟨hfield, hall⟩)
  | cut hmem hvalue htype hlt => exact .cut (List.mem_cons_of_mem field hmem) hvalue htype hlt
  | failed htype hdeep => exact .failed htype hdeep

theorem carried_of_type {type : TypeExpr} {value : Value} (htype : value.type = type) :
    registry.carried version type (some value) = registry.descent version value :=
  if_pos htype

/-- **A loop over fields** ends well if every member that is carried is within the limit, refused ones
included. It is cut off only by one that is not. -/
theorem writeFields_ends (hdepth : depth ≤ limit) {members : List (String × Value)}
    {write : Field → Value → Option Writing} {fields : List Field}
    (h : ∀ field ∈ fields, ∀ value, ∀ writing ∈ write field value,
      (registry.carried version field.type (some value)).Ends limit depth writing.result) :
    ∀ writing ∈ writeFields members (fields.map fun field => (field, write field)),
      registry.FieldsEnd version limit depth members fields writing.result := by
  induction fields with
  | nil => exact forall_mem_some (.done nofun)
  | cons field rest ih =>
    rw [List.forall_mem_cons] at h
    obtain ⟨hfield, hrest⟩ := h
    -- the others are written as well, if this one is within the limit
    have hothers (bytes : Bytes) (hle : ∀ value, member? members field.member = some value →
        value.type = field.type → depth + (registry.descent version value).records ≤ limit) :
        ∀ writing ∈ (writeFields members (rest.map fun field => (field, write field)) >>= fun others =>
          some (others.after bytes)),
          registry.FieldsEnd version limit depth members (field :: rest) writing.result :=
      forall_mem_bind (ih hrest) fun others hend => forall_mem_some (hend.cons hle)
    simp only [List.map_cons, writeFields]
    cases hvalue : member? members field.member with
    | none => exact hothers [] fun _ hfound => absurd (hvalue.symm.trans hfound) (Option.some_ne_none _).symm
    | some value =>
      refine forall_mem_bind (hfield value) fun writing hwriting => ?_
      have hle (hwithin : depth + (registry.carried version field.type (some value)).records ≤ limit) :
          ∀ found, member? members field.member = some found → found.type = field.type →
            depth + (registry.descent version found).records ≤ limit := by
        intro found hfound htype
        obtain rfl := Option.some.inj (hvalue.symm.trans hfound)
        rwa [carried_of_type htype] at hwithin
      cases hresult : writing.result with
      | ok _ =>
        rw [hresult] at hwriting
        cases hwriting with
        | done _ hwithin => exact hothers _ (hle hwithin)
      | error e =>
        rw [hresult] at hwriting
        cases hwriting with
        | refused _ hwithin expected => exact hothers _ (hle hwithin)
        | cut hlt =>
          have htype : value.type = field.type := by
            by_contra htype
            rw [carried, if_neg htype] at hlt
            exact absurd hdepth (Nat.not_le_of_lt hlt)
          rw [carried_of_type htype] at hlt
          refine forall_mem_some ?_
          rw [hresult]
          exact .cut List.mem_cons_self hvalue htype hlt
        | failed htype hdeep =>
          cases e with
          | typeMismatch expected => exact absurd rfl (htype expected)
          | _ =>
            refine forall_mem_some ?_
            rw [hresult]
            exact .failed htype hdeep

/-- A record is entered one deeper than the deepest of the members that its fields carry. -/
theorem FieldsEnd.record (hdepth : depth < limit) {members : List (String × Value)} {fields : List Field}
    {result : Except Error Unit}
    (h : registry.FieldsEnd version limit (depth + 1) members fields result) :
    Descent.Ends limit depth ⟨registry.deepestMember version fields members + 1, false⟩ result := by
  cases h with
  | done hall =>
    have hdeepest : registry.deepestMember version fields members ≤ limit - (depth + 1) := by
      rw [deepestMember_le_iff]
      intro field hfield value hvalue htype
      have hle := hall field hfield value hvalue htype
      omega
    have hwithin : depth + (registry.deepestMember version fields members + 1) ≤ limit := by omega
    exact .done rfl hwithin
  | @cut field hfield value hvalue htype hlt =>
    have hdeepest : (registry.descent version value).records ≤ registry.deepestMember version fields members :=
      (deepestMember_le_iff fields members _).1 (Nat.le_refl _) field hfield value hvalue htype
    have hbeyond : limit < depth + (registry.deepestMember version fields members + 1) := by omega
    exact .cut hbeyond
  | failed htype hdeep => exact .failed htype hdeep

/-! ## The steps

The recursion is the one of writing by plans. There is no induction on the value, as the fuel bounds
everything, and an answer that has not come says nothing. -/

/-- Writing by the plan of any type ends as the descent of the value says. -/
def WritesEnd (registry : Registry) (version : UInt32) (write : WritePlan) : Prop :=
  ∀ depth type plan format value, registry.plan? version type = some plan →
    depth ≤ registry.limits.maxDepth → ∀ writing ∈ write depth plan format value,
      (registry.carried version type value).Ends registry.limits.maxDepth depth writing.result

section Writing

variable {write : WritePlan}

theorem WritesEnd.writeTypeDirect (h : registry.WritesEnd version write)
    (hdepth : depth ≤ registry.limits.maxDepth) (type : TypeExpr) (format : FieldFormat)
    (value : Option Value) :
    ∀ writing ∈ registry.writeTypeDirect version (write depth) type format value,
      (registry.carried version type value).Ends registry.limits.maxDepth depth writing.result := by
  simp only [Registry.writeTypeDirect]
  cases hfind : registry.find version type with
  | error e =>
    obtain ⟨missing, rfl⟩ := find_error hfind
    exact forall_mem_some (Descent.ends_noAdapter _ _ _)
  | ok plan => exact h depth type plan format value (plan?_of_find hfind) hdepth

/-- What a value of a family wraps is entered in its place. -/
theorem descent_concrete {value : Value} {type : TypeExpr} (htype : value.type = type)
    (hconcrete : value.concrete.type ≠ type) :
    registry.carried version value.concrete.type (some value.concrete) =
      registry.carried version type (some value) := by
  rw [carried_of_type htype, carried_of_type rfl]
  cases value with
  | variant family label content => rw [Value.concrete, descent]
  | _ => exact absurd htype hconcrete

/-- Where a type is declared, the value is written by that type or by the one that stands for it. Both
enter the same records. -/
theorem WritesEnd.writeNeed (h : registry.WritesEnd version write)
    (hdepth : depth ≤ registry.limits.maxDepth) (type : TypeExpr) (format : FieldFormat)
    (value : Option Value) :
    ∀ writing ∈ registry.writeNeed version (write depth) type format value,
      (registry.carried version type value).Ends registry.limits.maxDepth depth writing.result := by
  simp only [Registry.writeNeed]
  cases hplan : registry.plan? version type with
  | none => exact forall_mem_some (Descent.ends_noAdapter _ _ _)
  | some declared =>
    have hdeclared (value : Option Value) := h depth type declared format value hplan hdepth
    cases value with
    | none => exact hdeclared none
    | some value =>
      simp only
      split
      · rename_i hfamily
        cases hfind : registry.find version value.concrete.type with
        | error e =>
          obtain ⟨missing, rfl⟩ := find_error hfind
          exact forall_mem_some (Descent.ends_noAdapter _ _ _)
        | ok concrete =>
          simp only
          split
          · rw [← descent_concrete hfamily.1 hfamily.2]
            exact h depth _ concrete format (some value.concrete) (plan?_of_find hfind) hdepth
          · exact hdeclared (some value)
      · exact hdeclared (some value)

/-- **One step of writing** ends as the descent says, if the calls it makes do. -/
theorem WritesEnd.writeOwnDirect (hplain : registry.SchemasOnly) (h : registry.WritesEnd version write)
    (hdepth : depth ≤ registry.limits.maxDepth) {type : TypeExpr} {plan : Plan} (format : FieldFormat)
    {value : Option Value} (hplan : registry.plan? version type = some plan)
    (htype : ∀ content ∈ value, content.type = type) :
    ∀ writing ∈ registry.writeOwnDirect version write depth plan format value,
      (registry.carried version type value).Ends registry.limits.maxDepth depth writing.result := by
  rw [hplain.plan?_eq] at hplan
  cases type with
  | foreign name => cases hplan
  | scalar s =>
    obtain rfl := Option.some.inj hplan
    have hleaf : registry.carried version (.scalar s) value = .leaf := by
      cases value with
      | none => rfl
      | some value =>
        rw [carried_of_type (htype value rfl)]
        cases value <;> first | rfl | cases htype _ rfl
    rw [hleaf]
    exact forall_mem_some (s.write_ends hdepth format value)
  | optional element =>
    obtain rfl := Option.some.inj hplan
    rcases value with _ | value
    · exact h.writeNeed hdepth element format none
    · have hvalue := htype value rfl
      rw [carried_of_type hvalue]
      cases value with
      | none inner => exact h.writeNeed hdepth element format none
      | some inner content =>
        obtain rfl := TypeExpr.optional.inj hvalue
        rw [descent]
        exact h.writeNeed hdepth inner format (some content)
      | _ => cases hvalue
  | sequence container element =>
    obtain rfl := Option.some.inj hplan
    have hitems := writeItems_ends hdepth fun item =>
      h.writeNeed hdepth element format.element (some item)
    rcases value with _ | value
    · exact hitems []
    · have hvalue := htype value rfl
      rw [carried_of_type hvalue]
      cases value with
      | sequence inner other items =>
        obtain ⟨rfl, rfl⟩ := TypeExpr.sequence.inj hvalue
        rw [descent]
        exact hitems items
      | _ => cases hvalue
  | family name =>
    obtain rfl := Option.some.inj hplan
    rcases value with _ | value
    · exact forall_mem_some (Descent.ends_leaf hdepth)
    · simp only [Registry.writeOwnDirect, writeAlternativeDirect]
      split
      · exact forall_mem_some (Descent.ends_noAdapter _ _ _)
      · rename_i hconcrete
        rw [← descent_concrete (htype value rfl) hconcrete]
        exact h.writeTypeDirect hdepth _ format (some value.concrete)
  | record name =>
    obtain ⟨schema, hschema, rfl⟩ := Option.map_eq_some_iff.1 hplan
    rcases value with _ | value
    · exact forall_mem_some (Descent.ends_leaf hdepth)
    · have hvalue := htype value rfl
      rw [carried_of_type hvalue]
      cases value with
      | record other members =>
        obtain rfl := TypeExpr.record.inj hvalue
        simp only [descent, hschema, Registry.writeOwnDirect]
        split
        · rename_i hfull
          refine forall_mem_some (.cut ?_)
          simp only
          omega
        · rename_i hroom
          have hdeeper : depth < registry.limits.maxDepth := Nat.lt_of_not_le hroom
          intro writing hwriting
          refine (writeFields_ends hdeeper (fun field hfield value => ?_) writing hwriting).record hdeeper
          rw [hplain.writeFieldDirect_eq hschema hfield]
          exact h.writeNeed hdeeper field.type field.format (some value)
      | _ => cases hvalue

/-- **Writing ends as the descent says**, with any fuel. -/
theorem SchemasOnly.writesEnd (hplain : registry.SchemasOnly) (fuel : Nat) :
    registry.WritesEnd version (registry.writeDirect version fuel) := by
  induction fuel with
  | zero =>
    intro depth type plan format value _ _ writing hwriting
    cases hwriting
  | succ fuel ih =>
    intro depth type plan format value hplan hdepth
    have htype := type_of_plan? hplan
    simp only [writeDirect, writeStepDirect, htype]
    split
    · rename_i hown
      refine ih.writeOwnDirect hplain hdepth format hplan fun content hcontent => ?_
      obtain rfl := hcontent
      exact of_decide_eq_true hown
    · rename_i hother
      cases value with
      | none => exact absurd rfl hother
      | some value =>
        have hwrong : value.type ≠ type := fun h => hother (decide_eq_true h)
        rw [carried, if_neg hwrong]
        exact forall_mem_some (Descent.ends_wrong hdepth type)

/-- A call begins outside any record. -/
theorem SchemasOnly.encodeDirect_ends (hplain : registry.SchemasOnly) (fuel : Nat) (value : Value) :
    ∀ writing ∈ registry.encodeDirect fuel value version,
      (registry.descent version value).Ends registry.limits.maxDepth 0 writing.result := by
  have hwrites : registry.WritesEnd version (registry.writeDirect version fuel) := hplain.writesEnd fuel
  have hends := hwrites.writeTypeDirect (Nat.zero_le _) value.type {} (some value)
  rwa [carried_of_type rfl] at hends

end Writing

/-! ## Whole calls

The descent is a matter of the schemas, so it is the same under every limit, and two calls under different
limits are measured by one number. -/

mutual

/-- What is entered is a matter of the schemas, not of the limit. -/
theorem descent_withDepth (limit : Nat) (value : Value) :
    (registry.withDepth limit).descent version value = registry.descent version value := by
  cases value with
  | some element content => simp only [descent, descent_withDepth limit content]
  | sequence container element items => simp only [descent, descentItems_withDepth limit element items]
  | variant family label content => simp only [descent, descent_withDepth limit content]
  | record name members =>
    have hschema : (registry.withDepth limit).schema? (.record name) = registry.schema? (.record name) := rfl
    simp only [descent, hschema, deepestMember_withDepth limit _ members]
  | _ => rfl

theorem descentItems_withDepth (limit : Nat) (element : TypeExpr) (items : List Value) :
    (registry.withDepth limit).descentItems version element items =
      registry.descentItems version element items := by
  cases items with
  | nil => rfl
  | cons item rest =>
    simp only [descentItems, descent_withDepth limit item, descentItems_withDepth limit element rest]

theorem deepestMember_withDepth (limit : Nat) (fields : List Field) (members : List (String × Value)) :
    (registry.withDepth limit).deepestMember version fields members =
      registry.deepestMember version fields members := by
  match members with
  | [] => rfl
  | (name, value) :: rest =>
    simp only [deepestMember, descent_withDepth limit value, deepestMember_withDepth limit _ rest]

end

/-- Writing under a limit has an answer, which ends as the descent of the value says. -/
theorem SchemasOnly.encode_ends (hplain : registry.SchemasOnly) {limit : Nat} {table : SlotTable}
    (h : (registry.withDepth limit).Reached table) (value : Value) (version : UInt32) :
    ∃ writing, ((registry.withDepth limit).encode value version).answer table = some writing ∧
      (registry.descent version value).Ends limit 0 writing.result := by
  have hlimited := hplain.withDepth limit
  obtain ⟨writing, hwriting⟩ := hlimited.encode_answered h value version
  have hanswer : ((registry.withDepth limit).encode value version).answer table = some writing :=
    hwriting _ (Nat.le_refl _)
  refine ⟨writing, hanswer, ?_⟩
  rw [encode, h.encodeIn_answer hlimited.factories_eq] at hanswer
  have hends := hlimited.encodeDirect_ends _ value writing hanswer
  rwa [descent_withDepth] at hends

/-- A value that is written under some limit is entered all the way, and no deeper than that limit. -/
theorem SchemasOnly.nesting_of_encode_ok (hplain : registry.SchemasOnly) {limit : Nat} {table : SlotTable}
    (h : (registry.withDepth limit).Reached table) {value : Value} {writing : Writing}
    (hanswer : ((registry.withDepth limit).encode value version).answer table = some writing)
    (hok : writing.result = .ok ()) :
    (registry.descent version value).refused = false ∧ registry.nesting version value ≤ limit := by
  obtain ⟨found, hfound, hends⟩ := hplain.encode_ends h value version
  obtain rfl := Option.some.inj (hanswer.symm.trans hfound)
  rw [hok] at hends
  cases hends with
  | done hwhole hle => exact ⟨hwhole, Nat.zero_add (registry.nesting version value) ▸ hle⟩

/-- **The limit alone decides** about a value that can be written under some limit: where it is not cut
off, it is written the same. -/
theorem SchemasOnly.encode_of_ok (hplain : registry.SchemasOnly) {limit limit' : Nat}
    {table table' : SlotTable} (h : (registry.withDepth limit).Reached table)
    (h' : (registry.withDepth limit').Reached table') {value : Value} {writing : Writing}
    (hanswer : ((registry.withDepth limit).encode value version).answer table = some writing)
    (hok : writing.result = .ok ()) :
    ∃ writing', ((registry.withDepth limit').encode value version).answer table' = some writing' ∧
      (registry.nesting version value ≤ limit' → writing' = writing) ∧
      (limit' < registry.nesting version value → writing'.result = .error (.tooDeep limit')) := by
  obtain ⟨writing', hanswer', hends⟩ := hplain.encode_ends h' value version
  obtain ⟨hwhole, hle⟩ := hplain.nesting_of_encode_ok h hanswer hok
  -- neither call is cut off unless the second one is, so the greater limit repeats the answer of the
  -- smaller
  have hsame (hkept : ¬ TooDeep limit' writing'.result) : writing' = writing := by
    rcases Nat.le_total limit limit' with hle | hle
    · have hnot : ¬ TooDeep limit writing.result := by simp [TooDeep, hok]
      have hmore := hplain.encode_unless hle h h' value writing hanswer hnot
      exact Option.some.inj (hanswer'.symm.trans hmore)
    · have hmore := hplain.encode_unless hle h' h value writing' hanswer' hkept
      exact Option.some.inj (hmore.symm.trans hanswer)
  refine ⟨writing', hanswer', ?_⟩
  generalize hresult : writing'.result = result at hends
  cases hends with
  | done _ hwithin =>
    have hnot : ¬ TooDeep limit' writing'.result := by simp [TooDeep, hresult]
    rw [Nat.zero_add] at hwithin
    exact ⟨fun _ => hsame hnot, fun hlt => absurd hwithin (Nat.not_le_of_lt hlt)⟩
  | refused hrefused _ _ => exact absurd (hwhole.symm.trans hrefused) Bool.false_ne_true
  | cut hlt =>
    rw [Nat.zero_add] at hlt
    exact ⟨fun hwithin => absurd hwithin (Nat.not_le_of_lt hlt), fun _ => rfl⟩
  | failed _ hdeep =>
    have hnot : ¬ TooDeep limit' writing'.result := by
      rw [hresult]
      exact fun hcut => hdeep limit' (Except.error.inj hcut)
    rw [hsame hnot, hok] at hresult
    cases hresult

/-- **The limit on nesting only cuts off.** In a registry of record schemas alone, under two limits on how
deep records may be nested and after any two histories of calls:

1. reading has an answer under the smaller limit, and if that is not that records are nested too deep, it
is the answer under the greater limit, with the same bytes left unread; 2. so has writing, with the same
bytes; 3. a value that is written without fail under some limit is written under another one, in the same
way, if and only if no chain of its records that are entered one inside the other is longer than that
limit. Otherwise the limit is what is reported. -/
theorem SchemasOnly.limit_only_cuts_off (hplain : registry.SchemasOnly) (version : UInt32) :
    (∀ {shallow deep : Nat}, shallow ≤ deep → ∀ {table table' : SlotTable},
      (registry.withDepth shallow).Reached table → (registry.withDepth deep).Reached table' →
        (∀ type source, ∃ reading,
          ((registry.withDepth shallow).decode type version source).answer table = some reading ∧
            (reading.result ≠ .error (.tooDeep shallow) →
              ((registry.withDepth deep).decode type version source).answer table' = some reading)) ∧
        ∀ value, ∃ writing,
          ((registry.withDepth shallow).encode value version).answer table = some writing ∧
            (writing.result ≠ .error (.tooDeep shallow) →
              ((registry.withDepth deep).encode value version).answer table' = some writing)) ∧
    ∀ {limit limit' : Nat} {table table' : SlotTable},
      (registry.withDepth limit).Reached table → (registry.withDepth limit').Reached table' →
        ∀ value writing, ((registry.withDepth limit).encode value version).answer table = some writing →
          writing.result = .ok () →
            ∃ writing', ((registry.withDepth limit').encode value version).answer table' = some writing' ∧
              (writing'.result = .ok () ↔ registry.nesting version value ≤ limit') ∧
              (writing'.result = .ok () → writing' = writing) ∧
              (¬ registry.nesting version value ≤ limit' → writing'.result = .error (.tooDeep limit')) := by
  constructor
  · intro shallow deep hle table table' h h'
    constructor
    · intro type source
      obtain ⟨reading, hreading⟩ := (hplain.withDepth shallow).decode_answered h type version source
      have hanswer := hreading _ (Nat.le_refl _)
      exact ⟨reading, hanswer, hplain.decode_unless hle h h' type source reading hanswer⟩
    · intro value
      obtain ⟨writing, hanswer, -⟩ := hplain.encode_ends h value version
      exact ⟨writing, hanswer, hplain.encode_unless hle h h' value writing hanswer⟩
  · intro limit limit' table table' h h' value writing hanswer hok
    obtain ⟨writing', hanswer', hsame, hcut⟩ := hplain.encode_of_ok h h' hanswer hok
    refine ⟨writing', hanswer', ⟨fun hok' => ?_, fun hle => ?_⟩, fun hok' => ?_, fun hlt => ?_⟩
    · by_contra hlt
      rw [hcut (Nat.lt_of_not_le hlt)] at hok'
      cases hok'
    · rw [hsame hle, hok]
    · exact hsame (hplain.nesting_of_encode_ok h' hanswer' hok').2
    · exact hcut (Nat.lt_of_not_le hlt)

def tipField : Field :=
  { name := "tip", member := "tip", type := .optional (.record "branch"), format := {}, adapter := none }

def twigsField : Field :=
  { name := "twigs", member := "twigs", type := .sequence .list (.record "branch"), format := { length := 1 },
    adapter := none }

def graftField : Field :=
  { name := "graft", member := "graft", type := .family "graft", format := {}, adapter := none }

/-- Branches that contain themselves in every way that there is. -/
def branches : Registry where
  schemas := [{ type := .record "branch", fields := [tipField, twigsField, graftField], initial := [] }]

/-- Four branches, one inside the other: in an optional, in a sequence and in an alternative of a
family. -/
def nestedBranches : Value :=
  .record "branch" [("tip", .some (.record "branch")
    (.record "branch" [("twigs", .sequence .list (.record "branch")
      [.record "branch" [("graft", .variant "graft" "branch" (.record "branch" []))]])]))]

/-- Four branches are written under a limit of four; a limit of three cuts them off. -/
theorem SchemasOnly.limit_only_cuts_off_branches :
    branches.SchemasOnly ∧ branches.nesting 1 nestedBranches = 4 ∧
      ∃ writing, ((branches.withDepth 4).encode nestedBranches 1).answer {} = some writing ∧
        writing.result = .ok () ∧
        ((branches.withDepth 9).encode nestedBranches 1).answer {} = some writing ∧
        ∃ writing', ((branches.withDepth 3).encode nestedBranches 1).answer {} = some writing' ∧
          writing'.result = .error (.tooDeep 3) := by
  have hplain : branches.SchemasOnly := ⟨rfl, rfl, by decide⟩
  have hnesting : branches.nesting 1 nestedBranches = 4 := by decide +kernel
  have hresult : (((branches.withDepth 4).encode nestedBranches 1).answer {}).map Writing.result =
      some (.ok ()) := by decide +kernel
  obtain ⟨hmore, hless⟩ := hplain.limit_only_cuts_off 1
  obtain ⟨writing, hanswer, hdeep⟩ := (hmore (show 4 ≤ 9 by decide) .fresh .fresh).2 nestedBranches
  rw [hanswer] at hresult
  have hok : writing.result = .ok () := Option.some.inj hresult
  have hfresh : (branches.withDepth 3).Reached {} := .fresh
  obtain ⟨writing', hanswer', -, -, hcut⟩ := hless .fresh hfresh nestedBranches writing hanswer hok
  refine ⟨hplain, hnesting, writing, hanswer, hok, hdeep (by simp [hok]), writing', hanswer', hcut ?_⟩
  rw [hnesting]
  decide

end Registry

end Telegram
