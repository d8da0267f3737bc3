import Telegram.Proofs.Codec.History

/-!
# Answers that stay

Fuel bounds how deep adapters call each other, and has no other part in a call: where a call has an
answer, more fuel gives the same one. So what a call *settles* on is a matter of the registry and the
bytes alone, whichever adapters callers have brought.

* `Persists` compares two computations, of which the second has more fuel. It has rules for `pure` and for
  `bind`, a lemma for each loop and one for each step, parametric in the calls that the step makes.
* `Registry.readDirect_persists` and `Registry.writeDirect_persists` close the recursion by induction on
  fuel.
* `Settles` says which answer there is from some fuel on, where `Answered` says from which fuel on there
  is one. It has the same rules, and no other answer is ever given (`Settles.eq_of_persists`).
-/

namespace Telegram

open Codec

/-! ## The same answer with more fuel

A computation that has run out of fuel has no answer, and then nothing is claimed. So this is a comparison
in one direction, and it has no side condition about how much fuel there is. -/

/-- Whatever the first computation answers, the second one answers too. More fuel does this to a call: it
can give an answer where there was none, and changes none that there was. -/
def Persists {α : Type} (first second : Option α) : Prop :=
  ∀ a, first = some a → second = some a

namespace Persists

variable {α β : Type} {first second : Option α}

theorem refl (first : Option α) : Persists first first :=
  fun _ h => h

theorem of_none (second : Option α) : Persists none second :=
  nofun

theorem bind (h : Persists first second) {next next' : α → Option β}
    (hnext : ∀ a, Persists (next a) (next' a)) : Persists (first >>= next) (second >>= next') := by
  intro b hb
  obtain ⟨a, hfirst, hb⟩ := Option.bind_eq_some_iff.1 hb
  exact Option.bind_eq_some_iff.2 ⟨a, h a hfirst, hnext a b hb⟩

/-- An answer that is put into another form. -/
theorem map (h : Persists first second) (f : α → β) : Persists (first.map f) (second.map f) := by
  intro b hb
  obtain ⟨a, hfirst, hb⟩ := Option.map_eq_some_iff.1 hb
  exact Option.map_eq_some_iff.2 ⟨a, h a hfirst, hb⟩

/-! ## The loops

In a loop every iteration is run with the fuel that the loop has. If one of them is not answered, neither
is the loop, so each iteration is compared by itself and the rest by the induction hypothesis. -/

theorem readItems {read read' : Bytes → Option Reading}
    (h : ∀ source, Persists (read source) (read' source)) (element : TypeExpr) (count : Nat) (source : Bytes) :
    Persists (Telegram.readItems read element count source)
      (Telegram.readItems read' element count source) := by
  induction count generalizing source with
  | zero => exact refl _
  | succ count ih =>
    refine (h source).bind fun reading => ?_
    rcases (reading.expect element).result with e | _ | item
    · exact refl _
    · exact refl _
    · exact (ih reading.rest).bind fun _ => refl _

theorem readFields {read read' : Field → Bytes → Option Reading}
    (h : ∀ field source, Persists (read field source) (read' field source)) (fields : List Field)
    (members : List (String × Value)) (source : Bytes) :
    Persists (Telegram.readFields (fields.map fun field => (field, read field)) members source)
      (Telegram.readFields (fields.map fun field => (field, read' field)) members source) := by
  induction fields generalizing members source with
  | nil => exact refl _
  | cons field rest ih =>
    refine (h field source).bind fun reading => ?_
    rcases reading.result with e | value
    · exact refl _
    · exact ih _ _

/-- A caller's program is a tree of requests. Each answer selects a branch, and equal answers select equal
branches. -/
theorem runRead {read read' : TypeExpr → FieldFormat → Bytes → Option Reading}
    (h : ∀ type format source, Persists (read type format source) (read' type format source))
    (program : ReadProgram) : Persists (program.run read) (program.run read') := by
  induction program with
  | finish reading => exact refl _
  | read type format source next ih => exact (h type format source).bind fun reading => ih reading

theorem writeItems {write write' : Value → Option Writing}
    (h : ∀ value, Persists (write value) (write' value)) (items : List Value) :
    Persists (Telegram.writeItems write items) (Telegram.writeItems write' items) := by
  induction items with
  | nil => exact refl _
  | cons item rest ih =>
    refine (h item).bind fun writing => ?_
    rcases writing.result with e | _
    · exact refl _
    · exact ih.bind fun _ => refl _

theorem writeFields {write write' : Field → Value → Option Writing}
    (h : ∀ field value, Persists (write field value) (write' field value))
    (members : List (String × Value)) (fields : List Field) :
    Persists (Telegram.writeFields members (fields.map fun field => (field, write field)))
      (Telegram.writeFields members (fields.map fun field => (field, write' field))) := by
  induction fields with
  | nil => exact refl _
  | cons field rest ih =>
    have hmember : Persists (writeMember (write field) (member? members field.member))
        (writeMember (write' field) (member? members field.member)) := by
      cases member? members field.member with
      | none => exact refl _
      | some value => exact h field value
    refine hmember.bind fun writing => ?_
    have hrest := ih.bind fun others => refl (some (others.after writing.bytes))
    rcases writing.result with e | _
    -- a value of the wrong type lets the others go on, any other error is the end
    · cases e with
      | typeMismatch expected => exact hrest
      | _ => exact refl _
    · exact hrest

theorem runWrite {write write' : TypeExpr → FieldFormat → Option Value → Option Writing}
    (h : ∀ type format value, Persists (write type format value) (write' type format value))
    (program : WriteProgram) : Persists (program.run write) (program.run write') := by
  induction program with
  | finish writing => exact refl _
  | write type format value next ih => exact (h type format value).bind fun writing => ih writing

end Persists

/-! ## The steps

A step is compared under the assumption that its calls compare. The two ways of calling are parameters,
and it is only in the last lemmas of this part that they become the recursion at two amounts of fuel. -/

namespace Registry

variable {registry : Registry} {version : UInt32}

section Reading

variable {read read' : Plan → FieldFormat → Bytes → Option Reading}

/-- A type without a plan is an error with any fuel, and one with a plan is read by it. -/
theorem readNeed_persists
    (h : ∀ plan format source, Persists (read plan format source) (read' plan format source))
    (type : TypeExpr) (format : FieldFormat) (source : Bytes) :
    Persists (registry.readNeed version read type format source)
      (registry.readNeed version read' type format source) := by
  simp only [readNeed]
  split
  · exact h _ _ _
  · exact .refl _

theorem readFieldDirect_persists
    (h : ∀ plan format source, Persists (read plan format source) (read' plan format source))
    (field : Field) (source : Bytes) :
    Persists (registry.readFieldDirect version read field source)
      (registry.readFieldDirect version read' field source) := by
  simp only [readFieldDirect]
  split
  · exact h _ _ _
  · exact readNeed_persists h _ _ _

theorem readTypeDirect_persists
    (h : ∀ plan format source, Persists (read plan format source) (read' plan format source))
    (type : TypeExpr) (format : FieldFormat) (source : Bytes) :
    Persists (registry.readTypeDirect version read type format source)
      (registry.readTypeDirect version read' type format source) := by
  simp only [readTypeDirect]
  split
  · exact .refl _
  · exact (h _ _ _).map _

end Reading

/-- **One step of reading** is answered the same, if the calls it makes are. What a step does apart from
its calls does not look at the fuel. -/
theorem readStepDirect_persists {read read' : ReadPlan}
    (h : ∀ depth plan format source,
      Persists (read depth plan format source) (read' depth plan format source))
    (depth : Nat) (plan : Plan) (format : FieldFormat) (source : Bytes) :
    Persists (registry.readStepDirect version read depth plan format source)
      (registry.readStepDirect version read' depth plan format source) := by
  cases plan with
  | leaf leaf =>
    cases leaf with
    | scalar s => exact .refl _
    | caller adapter => exact Persists.runRead (readTypeDirect_persists (h depth)) _
  | optional element =>
    refine (readNeed_persists (h depth) element format source).bind fun reading => ?_
    exact .refl _
  | sequence container element =>
    simp only [readStepDirect]
    split
    · exact .refl _
    · exact (Persists.readItems (readNeed_persists (h depth) element format.element) _ _ _).bind
        fun _ => .refl _
  | family name => exact .refl _
  | record schema fields =>
    simp only [readStepDirect]
    split
    · exact .refl _
    · exact (Persists.readFields (readFieldDirect_persists (h (depth + 1))) _ _ _).bind fun _ => .refl _

/-- **More fuel reads the same.** The two amounts are taken down together, one unit for each call, until
the smaller one is used up; then there is no answer to compare. -/
theorem readDirect_persists {fuel fuel' : Nat} (hle : fuel ≤ fuel') (depth : Nat) (plan : Plan)
    (format : FieldFormat) (source : Bytes) :
    Persists (registry.readDirect version fuel depth plan format source)
      (registry.readDirect version fuel' depth plan format source) := by
  induction fuel generalizing fuel' depth plan format source with
  | zero => exact .of_none _
  | succ fuel ih =>
    obtain ⟨fuel', rfl⟩ : ∃ more, fuel' = more + 1 := ⟨fuel' - 1, by omega⟩
    exact readStepDirect_persists (ih (Nat.le_of_succ_le_succ hle)) depth plan format source

section Writing

variable {write write' : Plan → FieldFormat → Option Value → Option Writing}

theorem writeTypeDirect_persists
    (h : ∀ plan format value, Persists (write plan format value) (write' plan format value))
    (type : TypeExpr) (format : FieldFormat) (value : Option Value) :
    Persists (registry.writeTypeDirect version write type format value)
      (registry.writeTypeDirect version write' type format value) := by
  simp only [writeTypeDirect]
  split
  · exact .refl _
  · exact h _ _ _

theorem writeNeed_persists
    (h : ∀ plan format value, Persists (write plan format value) (write' plan format value))
    (type : TypeExpr) (format : FieldFormat) (value : Option Value) :
    Persists (registry.writeNeed version write type format value)
      (registry.writeNeed version write' type format value) := by
  -- whether the alternative or the declared type writes does not depend on fuel either
  simp only [writeNeed]
  cases registry.plan? version type with
  | none => exact .refl _
  | some declared =>
    cases value with
    | none => exact h _ _ _
    | some value =>
      simp only
      split
      · cases registry.find version value.concrete.type with
        | error e => exact .refl _
        | ok concrete =>
          simp only
          split
          · exact h _ _ _
          · exact h _ _ _
      · exact h _ _ _

theorem writeAlternativeDirect_persists
    (h : ∀ plan format value, Persists (write plan format value) (write' plan format value))
    (family : TypeExpr) (format : FieldFormat) (value : Value) :
    Persists (registry.writeAlternativeDirect version write family format value)
      (registry.writeAlternativeDirect version write' family format value) := by
  simp only [writeAlternativeDirect]
  split
  · exact .refl _
  · exact writeTypeDirect_persists h _ _ _

theorem writeFieldDirect_persists
    (h : ∀ plan format value, Persists (write plan format value) (write' plan format value))
    (field : Field) (value : Value) :
    Persists (registry.writeFieldDirect version write field value)
      (registry.writeFieldDirect version write' field value) := by
  simp only [writeFieldDirect]
  split
  · exact h _ _ _
  · exact writeNeed_persists h _ _ _

end Writing

/-- **One step of writing** is answered the same, if the calls it makes are. -/
theorem writeStepDirect_persists {write write' : WritePlan}
    (h : ∀ depth plan format value,
      Persists (write depth plan format value) (write' depth plan format value))
    (depth : Nat) (plan : Plan) (format : FieldFormat) (value : Option Value) :
    Persists (registry.writeStepDirect version write depth plan format value)
      (registry.writeStepDirect version write' depth plan format value) := by
  rw [writeStepDirect, writeStepDirect]
  split
  · cases plan with
    | leaf leaf =>
      cases leaf with
      | scalar s => exact .refl _
      | caller adapter => exact Persists.runWrite (writeTypeDirect_persists (h depth)) _
    | optional element => exact writeNeed_persists (h depth) _ _ _
    | sequence container element =>
      exact Persists.writeItems (fun item => writeNeed_persists (h depth) _ _ _) _
    | family name =>
      cases value with
      | none => exact .refl _
      | some value => exact writeAlternativeDirect_persists (h depth) _ _ _
    | record schema fields =>
      simp only [writeOwnDirect]
      split
      · split
        · exact .refl _
        · exact Persists.writeFields (writeFieldDirect_persists (h (depth + 1))) _ _
      · exact .refl _
  · exact .refl _

/-- **More fuel writes the same.** -/
theorem writeDirect_persists {fuel fuel' : Nat} (hle : fuel ≤ fuel') (depth : Nat) (plan : Plan)
    (format : FieldFormat) (value : Option Value) :
    Persists (registry.writeDirect version fuel depth plan format value)
      (registry.writeDirect version fuel' depth plan format value) := by
  induction fuel generalizing fuel' depth plan format value with
  | zero => exact .of_none _
  | succ fuel ih =>
    obtain ⟨fuel', rfl⟩ : ∃ more, fuel' = more + 1 := ⟨fuel' - 1, by omega⟩
    exact writeStepDirect_persists (ih (Nat.le_of_succ_le_succ hle)) depth plan format value

end Registry

/-! ## What a call settles on

To compute what a call settles on, one goes through the step and settles each part. There may be a
different amount of fuel from which each of them is settled, and the greatest of these is enough for the
whole. -/

/-- From some fuel on, the answer is `a`. In contrast to `Answered` it is not said how much is needed.
Callers' programs may ask for as much as they like, so there is no bound that could be computed from a
type or a value. -/
def Settles {α : Type} (run : Nat → Option α) (a : α) : Prop :=
  ∃ bound, ∀ fuel, bound ≤ fuel → run fuel = some a

namespace Settles

variable {α β : Type} {run : Nat → Option α} {a : α}

theorem pure (a : α) : Settles (fun _ => some a) a :=
  ⟨0, fun _ _ => rfl⟩

theorem bind (h : Settles run a) {next : Nat → α → Option β} {b : β}
    (hnext : Settles (fun fuel => next fuel a) b) : Settles (fun fuel => run fuel >>= next fuel) b := by
  obtain ⟨bound, hrun⟩ := h
  obtain ⟨bound', hnext⟩ := hnext
  refine ⟨max bound bound', fun fuel hle => ?_⟩
  rw [Nat.max_le] at hle
  simp only [hrun fuel hle.1, Option.bind_eq_bind, Option.bind_some, hnext fuel hle.2]

/-- An answer that is put into another form. -/
theorem map (h : Settles run a) (f : α → β) : Settles (fun fuel => (run fuel).map f) (f a) := by
  obtain ⟨bound, hrun⟩ := h
  exact ⟨bound, fun fuel hle => by simp only [hrun fuel hle, Option.map_some]⟩

/-- A call spends one unit of fuel. -/
theorem step (h : Settles (fun fuel => run (fuel + 1)) a) : Settles run a := by
  obtain ⟨bound, hrun⟩ := h
  refine ⟨bound + 1, fun fuel hle => ?_⟩
  obtain ⟨fuel, rfl⟩ : ∃ fuel', fuel = fuel' + 1 := ⟨fuel - 1, by omega⟩
  exact hrun fuel (Nat.le_of_succ_le_succ hle)

theorem congr {run' : Nat → Option α} (h : Settles run' a) (heq : ∀ fuel, run fuel = run' fuel) :
    Settles run a := by
  obtain ⟨bound, hrun⟩ := h
  exact ⟨bound, fun fuel hle => (heq fuel).trans (hrun fuel hle)⟩

/-- **Where answers stay, there is only the one**: less fuel gives it too, or none. The two are brought
together at an amount that is enough for both. -/
theorem eq_of_persists (h : Settles run a)
    (hpersists : ∀ fuel fuel', fuel ≤ fuel' → Persists (run fuel) (run fuel')) {fuel : Nat} {b : α}
    (hanswer : run fuel = some b) : b = a := by
  obtain ⟨bound, hrun⟩ := h
  have hlater := hpersists fuel (max fuel bound) (Nat.le_max_left ..) b hanswer
  rw [hrun _ (Nat.le_max_right ..)] at hlater
  exact (Option.some.inj hlater).symm

end Settles

namespace Registry

variable {registry : Registry} {version : UInt32} {table : SlotTable}

/-- **What a record is written as** does not depend on the fuel that a whole call is given. The fuel of a
call is computed from what is written, and is not always enough where callers' adapters are involved. If
it is, it gives what all greater amounts give. -/
theorem ReachedWithin.encode_eq_of_settles {Spared : UInt32 → TypeExpr → Prop}
    (hspared : ∀ version, registry.Spares version (Spared version)) (h : registry.ReachedWithin Spared table)
    {value : Value} (htype : Spared version value.type) (hvalue : value.Within (Spared version))
    {writing writing' : Writing}
    (hsettles : Settles (fun fuel => (registry.encodeIn fuel value version).answer table) writing)
    (hanswer : (registry.encode value version).answer table = some writing') : writing' = writing := by
  refine hsettles.eq_of_persists (fun fuel fuel' hle => ?_) hanswer
  rw [h.encodeIn_answer hspared fuel htype hvalue, h.encodeIn_answer hspared fuel' htype hvalue]
  exact writeTypeDirect_persists (writeDirect_persists hle 0) _ _ _

/-- **What is read** does not depend on the fuel that a whole call is given. -/
theorem ReachedWithin.decode_eq_of_settles {Spared : UInt32 → TypeExpr → Prop}
    (hspared : ∀ version, registry.Spares version (Spared version)) (h : registry.ReachedWithin Spared table)
    {type : TypeExpr} (htype : Spared version type) {source : Bytes} {reading reading' : Reading}
    (hsettles : Settles (fun fuel => (registry.decodeIn fuel type version source).answer table) reading)
    (hanswer : (registry.decode type version source).answer table = some reading') : reading' = reading := by
  refine hsettles.eq_of_persists (fun fuel fuel' hle => ?_) hanswer
  rw [h.decodeIn_answer hspared fuel htype, h.decodeIn_answer hspared fuel' htype]
  exact readTypeDirect_persists (readDirect_persists hle 0) _ _ _

end Registry

end Telegram
