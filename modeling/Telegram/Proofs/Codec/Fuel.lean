import Telegram.Proofs.Codec.RoundTrip

/-!
# Enough fuel

In a registry of record schemas alone every call has an answer, and more fuel gives the same one. Reading
is bounded by the type and by how deep records may be nested, whatever the bytes are; writing is bounded
by the value, whatever the registry holds.

* `Answered` says that a computation with fuel has one answer from some amount of it on. It has a rule for
  `pure`, one for `bind` and one for spending a unit of fuel, and a lemma for each loop.
* `Registry.SchemasOnly.readNeed_answered` and `Registry.SchemasOnly.writeNeed_answered` are the
  recursions, by induction on the amount.
* `Registry.SchemasOnly.decode_answered` and `Registry.SchemasOnly.encode_answered` are whole calls, after
  any history.

The two bounds are unlike each other because the two directions are driven by different things. Reading
follows the type, and a type that contains itself is stopped by the limit on nesting alone. Writing
follows the value, which is finite by itself.
-/

namespace Telegram

open Codec

/-! ## One answer from some fuel on

An answer at one amount of fuel is not enough to compose. The parts of a computation need different
amounts, and all are run with the same; so each must be known to give the same answer with more than it
needs. -/

/-- From `bound` on, all fuel gives the same answer. There is an answer, that is to say, and it has
nothing to do with the fuel. -/
def Answered {α : Type} (bound : Nat) (run : Nat → Option α) : Prop :=
  ∃ a, ∀ fuel, bound ≤ fuel → run fuel = some a

namespace Answered

variable {α β : Type} {bound : Nat} {run : Nat → Option α}

theorem pure (bound : Nat) (a : α) : Answered bound fun _ => some a :=
  ⟨a, fun _ _ => rfl⟩

/-- The second part may depend on the answer of the first, but the bound must serve for all answers. -/
theorem bind (h : Answered bound run) {next : Nat → α → Option β}
    (hnext : ∀ a, Answered bound fun fuel => next fuel a) :
    Answered bound fun fuel => run fuel >>= next fuel := by
  obtain ⟨a, ha⟩ := h
  obtain ⟨b, hb⟩ := hnext a
  refine ⟨b, fun fuel hle => ?_⟩
  simp only [ha fuel hle, Option.bind_eq_bind, Option.bind_some, hb fuel hle]

/-- An answer that is put into another form. -/
theorem map (h : Answered bound run) (f : α → β) : Answered bound fun fuel => (run fuel).map f := by
  obtain ⟨a, ha⟩ := h
  exact ⟨f a, fun fuel hle => by simp only [ha fuel hle, Option.map_some]⟩

/-- A call spends one unit of fuel. -/
theorem step (h : Answered bound fun fuel => run (fuel + 1)) : Answered (bound + 1) run := by
  obtain ⟨a, ha⟩ := h
  refine ⟨a, fun fuel hle => ?_⟩
  obtain ⟨fuel, rfl⟩ : ∃ fuel', fuel = fuel' + 1 := ⟨fuel - 1, by omega⟩
  exact ha fuel (Nat.le_of_succ_le_succ hle)

/-- Computations that are equal at every amount of fuel have the same answer, also when each begins to
answer at an amount of its own. -/
theorem agree (h : Answered bound run) {bound' : Nat} {run' : Nat → Option α} (h' : Answered bound' run')
    (heq : ∀ fuel, run fuel = run' fuel) : ∃ a, run bound = some a ∧ run' bound' = some a := by
  obtain ⟨a, ha⟩ := h
  obtain ⟨b, hb⟩ := h'
  have hsame : some a = some b := by
    rw [← ha (max bound bound') (Nat.le_max_left ..), heq, hb _ (Nat.le_max_right ..)]
  exact ⟨a, ha bound (Nat.le_refl _), hsame ▸ hb bound' (Nat.le_refl _)⟩

/-! ## The loops

All iterations are run with the fuel that the loop was given. A loop over a list asks for the bound only
of what is in the list, which is what makes it serve for writing, where the bound comes from the items
themselves. -/

/-- A loop needs no more fuel than one iteration: fuel is how deep calls are nested and not how many there
are. -/
theorem readItems {read : Nat → Bytes → Option Reading}
    (h : ∀ source, Answered bound fun fuel => read fuel source) (element : TypeExpr) (count : Nat)
    (source : Bytes) : Answered bound fun fuel => Telegram.readItems (read fuel) element count source := by
  induction count generalizing source with
  | zero => exact pure bound _
  | succ count ih =>
    refine (h source).bind fun reading => ?_
    rcases (reading.expect element).result with e | _ | item
    · exact pure bound _
    · exact pure bound _
    · exact (ih reading.rest).bind fun items => pure bound _

theorem readFields {read : Nat → Field → Bytes → Option Reading} {fields : List Field}
    (h : ∀ field ∈ fields, ∀ source, Answered bound fun fuel => read fuel field source)
    (members : List (String × Value)) (source : Bytes) :
    Answered bound fun fuel =>
      Telegram.readFields (fields.map fun field => (field, read fuel field)) members source := by
  induction fields generalizing members source with
  | nil => exact pure bound _
  | cons field rest ih =>
    rw [List.forall_mem_cons] at h
    refine (h.1 source).bind fun reading => ?_
    rcases reading.result with e | value
    · exact pure bound _
    · exact ih h.2 _ _

theorem writeItems {write : Nat → Value → Option Writing} {items : List Value}
    (h : ∀ item ∈ items, Answered bound fun fuel => write fuel item) :
    Answered bound fun fuel => Telegram.writeItems (write fuel) items := by
  induction items with
  | nil => exact pure bound _
  | cons item rest ih =>
    rw [List.forall_mem_cons] at h
    refine h.1.bind fun writing => ?_
    rcases writing.result with e | _
    · exact pure bound _
    · exact (ih h.2).bind fun others => pure bound _

theorem writeFields {write : Nat → Field → Value → Option Writing} {members : List (String × Value)}
    {fields : List Field} (h : ∀ field ∈ fields, ∀ value, member? members field.member = some value →
      Answered bound fun fuel => write fuel field value) :
    Answered bound fun fuel =>
      Telegram.writeFields members (fields.map fun field => (field, write fuel field)) := by
  induction fields with
  | nil => exact pure bound _
  | cons field rest ih =>
    rw [List.forall_mem_cons] at h
    have hmember : Answered bound fun fuel =>
        writeMember (write fuel field) (member? members field.member) := by
      cases hvalue : member? members field.member with
      | none => exact pure bound _
      | some value => exact h.1 value hvalue
    refine hmember.bind fun writing => ?_
    have hrest := (ih h.2).bind fun others => pure bound (others.after writing.bytes)
    rcases writing.result with e | _
    · cases e with
      | typeMismatch expected => exact hrest
      | _ => exact pure bound _
    · exact hrest

end Answered

namespace Registry

variable {registry : Registry} {version : UInt32} {bound : Nat}

/-! ## Reading

The bound is that of `Registry.callDepth`: what the type contains, and as much again as any field can
contain for each record that may still be entered. -/

/-- **Reading is bounded by the type**, and by how deep records may still be nested. What the bytes are
makes no difference. -/
theorem SchemasOnly.readNeed_answered (hplain : registry.SchemasOnly) (bound : Nat) :
    ∀ (depth : Nat) (type : TypeExpr) (format : FieldFormat) (source : Bytes),
      registry.callDepth depth type ≤ bound →
      Answered bound fun fuel =>
        registry.readNeed version (registry.readDirect version fuel depth) type format source := by
  induction bound with
  | zero =>
    intro depth type format source hle
    have hpos := weight_pos type
    rw [callDepth] at hle
    omega
  | succ bound ih =>
    intro depth type format source hle
    simp only [readNeed, hplain.plan?_eq]
    cases type with
    | scalar s => exact .step (.pure bound _)
    | foreign name => exact .pure _ _
    | family name => exact .step (.pure bound _)
    | optional element =>
      have helement : registry.callDepth depth element ≤ bound := by
        simp only [callDepth, TypeExpr.weight] at hle ⊢
        omega
      refine .step ((ih depth element format source helement).bind fun reading => ?_)
      rcases (reading.expect element).result with e | _ | value <;> exact .pure bound _
    | sequence container element =>
      have helement : registry.callDepth depth element ≤ bound := by
        simp only [callDepth, TypeExpr.weight] at hle ⊢
        omega
      refine .step ?_
      simp only [builtinPlan?, readDirect, readStepDirect]
      split
      · exact .pure bound _
      · exact (Answered.readItems (fun source => ih depth element format.element source helement)
          element _ source).bind fun items => .pure bound _
    | record name =>
      cases hschema : registry.schema? (.record name) with
      | none =>
        simp only [builtinPlan?, hschema]
        exact .pure _ _
      | some schema =>
        simp only [builtinPlan?, hschema, Option.map_some]
        refine .step ?_
        simp only [readDirect, readStepDirect]
        by_cases hdepth : registry.limits.maxDepth ≤ depth
        · simp only [if_pos hdepth]
          exact .pure bound _
        · simp only [if_neg hdepth]
          refine (Answered.readFields (fun field hfield source => ?_) schema.initial source).bind
            fun members => .pure bound _
          have hfuel := callDepth_field (Nat.not_le.1 hdepth) name (List.mem_of_find?_eq_some hschema)
            (List.mem_filter.1 hfield).1
          simp only [hplain.readFieldDirect_eq hschema hfield]
          exact ih (depth + 1) field.type field.format source (by omega)

/-- A call is granted enough fuel for its type. -/
theorem SchemasOnly.decodeDirect_answered (hplain : registry.SchemasOnly) (type : TypeExpr)
    (version : UInt32) (source : Bytes) :
    Answered (registry.callFuel type.weight) fun fuel =>
      registry.decodeDirect fuel type version source := by
  simp only [decodeDirect, readTypeDirect]
  cases hfind : registry.find version type with
  | error e => exact .pure _ _
  | ok plan =>
    have hread : Answered (registry.callFuel type.weight) fun fuel =>
        registry.readNeed version (registry.readDirect version fuel 0) type {} source :=
      hplain.readNeed_answered _ 0 type {} source (callDepth_le_of_weight_le (by omega))
    simp only [readNeed, plan?_of_find hfind] at hread
    exact hread.map _

/-! ## Writing

Each call writes something smaller than the call that made it, with two exceptions. An absent value is
handed down to the element of an optional, where the type becomes smaller. A value of a family is handed
to the plan of what it stands for, and that is smaller as well, as it has lost its wrapping. -/

/-- How deep plans call each other while a value of a type is written. An absent value is handed down to
the type's element, and no further than that. -/
def writeDepth (type : TypeExpr) : Option Value → Nat
  | some value => value.weight
  | none => type.weight

/-- An item is lighter than the sequence that it stands in. -/
theorem weight_le_of_mem_items {items : List Value} {item : Value} (h : item ∈ items) :
    item.weight ≤ Value.weightList items := by
  induction items with
  | nil => cases h
  | cons first rest ih =>
    rw [Value.weightList]
    rcases List.mem_cons.1 h with rfl | h
    · exact Nat.le_add_right _ _
    · exact (ih h).trans (Nat.le_add_left _ _)

/-- So is a member than its record. -/
theorem weight_le_of_member? {members : List (String × Value)} {name : String} {value : Value}
    (h : member? members name = some value) : value.weight ≤ Value.weightMembers members := by
  have hmem : (name, value) ∈ members := mem_of_lookup_eq_some h
  clear h
  induction members with
  | nil => cases hmem
  | cons first rest ih =>
    rw [Value.weightMembers]
    rcases List.mem_cons.1 hmem with rfl | hmem
    · exact Nat.le_add_right _ _
    · exact (ih hmem).trans (Nat.le_add_left _ _)

theorem value_weight_pos (value : Value) : 0 < value.weight := by
  cases value <;> simp [Value.weight]

theorem writeDepth_pos (type : TypeExpr) (value : Option Value) : 0 < writeDepth type value := by
  cases value with
  | none => exact weight_pos type
  | some value => exact value_weight_pos value

theorem weight_concrete_le (value : Value) : value.concrete.weight ≤ value.weight := by
  cases value <;> simp [Value.concrete, Value.weight]

/-- A value that stands for one of its family is smaller than what it stands for. -/
theorem weight_concrete_lt {value : Value} {name : String} (htype : value.type = .family name)
    (h : value.concrete.type ≠ .family name) : value.concrete.weight < value.weight := by
  cases value with
  | variant family label content => simp [Value.concrete, Value.weight]
  | bare family label => exact absurd htype h
  | _ => cases htype

/-- Writing by the plan of any type has an answer. -/
def WritesAnswered (registry : Registry) (version : UInt32) (bound : Nat) : Prop :=
  ∀ (depth : Nat) (type : TypeExpr) (plan : Plan) (format : FieldFormat) (value : Option Value),
    registry.plan? version type = some plan → writeDepth type value ≤ bound →
      Answered bound fun fuel => registry.writeDirect version fuel depth plan format value

section Writing

theorem WritesAnswered.writeTypeDirect (h : registry.WritesAnswered version bound) (depth : Nat)
    (type : TypeExpr) (format : FieldFormat) (value : Option Value) (hle : writeDepth type value ≤ bound) :
    Answered bound fun fuel =>
      registry.writeTypeDirect version (registry.writeDirect version fuel depth) type format value := by
  simp only [Registry.writeTypeDirect]
  cases hfind : registry.find version type with
  | error e => exact .pure _ _
  | ok plan => exact h depth type plan format value (plan?_of_find hfind) hle

/-- A value that stands for an alternative of a family is handed on to the plan of that alternative, and
is no heavier than it was. -/
theorem WritesAnswered.writeNeed (h : registry.WritesAnswered version bound) (depth : Nat)
    (type : TypeExpr) (format : FieldFormat) (value : Option Value) (hle : writeDepth type value ≤ bound) :
    Answered bound fun fuel =>
      registry.writeNeed version (registry.writeDirect version fuel depth) type format value := by
  simp only [Registry.writeNeed]
  cases hplan : registry.plan? version type with
  | none => exact .pure _ _
  | some declared =>
    have hdeclared := h depth type declared format value hplan hle
    cases value with
    | none => exact hdeclared
    | some value =>
      simp only
      split
      · cases hfind : registry.find version value.concrete.type with
        | error e => exact .pure _ _
        | ok concrete =>
          simp only
          split
          · exact h depth _ concrete format (some value.concrete) (plan?_of_find hfind)
              ((weight_concrete_le value).trans hle)
          · exact hdeclared
      · exact hdeclared

/-- A plan writes a value of its own type, if the calls below it have answers. -/
theorem WritesAnswered.writeOwnDirect (hplain : registry.SchemasOnly)
    (h : registry.WritesAnswered version bound) (depth : Nat) {type : TypeExpr} {plan : Plan}
    (format : FieldFormat) {value : Option Value} (hplan : registry.plan? version type = some plan)
    (htype : ∀ content ∈ value, content.type = type) (hle : writeDepth type value ≤ bound + 1) :
    Answered bound fun fuel =>
      registry.writeOwnDirect version (registry.writeDirect version fuel) depth plan format value := by
  rw [hplain.plan?_eq] at hplan
  cases type with
  | foreign name => cases hplan
  | scalar s =>
    obtain rfl := Option.some.inj hplan
    exact .pure _ _
  | optional element =>
    obtain rfl := Option.some.inj hplan
    refine h.writeNeed depth element format _ ?_
    rcases value with _ | value
    · simpa [writeDepth, TypeExpr.weight] using hle
    · have hvalue := htype value rfl
      cases value with
      | none inner =>
        obtain rfl := TypeExpr.optional.inj hvalue
        simpa [writeDepth, Value.weight] using hle
      | some inner content =>
        simp only [writeDepth, Value.weight] at hle ⊢
        omega
      | _ => cases hvalue
  | sequence container element =>
    obtain rfl := Option.some.inj hplan
    refine Answered.writeItems fun item hitem => h.writeNeed depth element format.element (some item) ?_
    rcases value with _ | value
    · cases hitem
    · cases value with
      | sequence inner other items =>
        have hitems : item.weight ≤ Value.weightList items := weight_le_of_mem_items hitem
        simp only [writeDepth, Value.weight] at hle ⊢
        omega
      | _ => cases hitem
  | family name =>
    obtain rfl := Option.some.inj hplan
    rcases value with _ | value
    · exact .pure _ _
    · simp only [Registry.writeOwnDirect, writeAlternativeDirect]
      split
      · exact .pure _ _
      · rename_i hconcrete
        have hless := weight_concrete_lt (htype value rfl) hconcrete
        refine h.writeTypeDirect depth _ format (some value.concrete) ?_
        simp only [writeDepth] at hle ⊢
        omega
  | record name =>
    obtain ⟨schema, hschema, rfl⟩ := Option.map_eq_some_iff.1 hplan
    rcases value with _ | value
    · exact .pure _ _
    · cases value with
      | record other members =>
        simp only [Registry.writeOwnDirect]
        split
        · exact .pure _ _
        · refine Answered.writeFields fun field hfield value hvalue => ?_
          have hmember := weight_le_of_member? hvalue
          simp only [hplain.writeFieldDirect_eq hschema hfield]
          refine h.writeNeed (depth + 1) field.type field.format (some value) ?_
          simp only [writeDepth, Value.weight] at hle ⊢
          omega
      | _ => exact .pure _ _

/-- **Writing is bounded by the value.** -/
theorem SchemasOnly.writesAnswered (hplain : registry.SchemasOnly) (bound : Nat) :
    registry.WritesAnswered version bound := by
  induction bound with
  | zero =>
    intro depth type plan format value hplan hle
    exact absurd (writeDepth_pos type value) (Nat.not_lt.2 hle)
  | succ bound ih =>
    intro depth type plan format value hplan hle
    refine .step ?_
    simp only [writeDirect, writeStepDirect]
    split
    · rename_i hown
      refine ih.writeOwnDirect hplain depth format hplan (fun content hcontent => ?_) hle
      obtain rfl := hcontent
      rw [← type_of_plan? hplan]
      exact of_decide_eq_true hown
    · exact .pure _ _

end Writing

/-- A call is granted enough fuel for its value. -/
theorem SchemasOnly.encodeDirect_answered (hplain : registry.SchemasOnly) (value : Value)
    (version : UInt32) :
    Answered (registry.callFuel value.weight) fun fuel => registry.encodeDirect fuel value version := by
  have hle : value.weight ≤ registry.callFuel value.weight := by
    rw [callFuel]
    exact (show value.weight ≤ 2 * (registry.weight + value.weight) + 64 by omega).trans
      (Nat.le_mul_of_pos_left _ (Nat.succ_pos _))
  exact (hplain.writesAnswered _).writeTypeDirect 0 value.type {} (some value) hle

/-! ## Whole calls

`Registry.callFuel` is computed from the weight of what is transferred and from that of the registry, and
it covers the bounds of both directions. -/

variable {table : SlotTable}

/-- **Reading always has an answer**, whatever the type and the bytes are, and all fuel from that of a
call on gives the same one. -/
theorem SchemasOnly.decode_answered (hplain : registry.SchemasOnly) (h : registry.Reached table)
    (type : TypeExpr) (version : UInt32) (source : Bytes) :
    Answered (registry.callFuel type.weight) fun fuel =>
      (registry.decodeIn fuel type version source).answer table := by
  simp only [h.decodeIn_answer hplain.factories_eq]
  exact hplain.decodeDirect_answered type version source

/-- **Writing always has an answer**, whatever the value is, and all fuel from that of a call on gives the
same one. -/
theorem SchemasOnly.encode_answered (hplain : registry.SchemasOnly) (h : registry.Reached table)
    (value : Value) (version : UInt32) :
    Answered (registry.callFuel value.weight) fun fuel =>
      (registry.encodeIn fuel value version).answer table := by
  simp only [h.encodeIn_answer hplain.factories_eq]
  exact hplain.encodeDirect_answered value version

end Registry

end Telegram
