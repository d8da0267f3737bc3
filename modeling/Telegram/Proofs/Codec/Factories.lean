import Telegram.Proofs.Codec.Complete
import Telegram.Proofs.Codec.Unclaimed

/-!
# Resolutions that ask factories

A factory may have any types resolved before it offers an adapter or passes, and it is told whether each
of them could be. So the parts of a resolution run in an order that the registry does not fix, and some of
them fail without the whole of it failing. What all of them keep is that a family that nobody claims is
left to the adapter of the alternative held.

* `Resolving.Ensures` is the contract of a part of a resolution, with rules for `pure` and for `bind`.
  There is one lemma for each part, and `Registry.resolveIn_ensures` closes the recursion.
* `Registry.Unclaimed.resolve` is about whole resolutions.

The contract of resolutions without factories says what the answer is. This one can not: what a factory
does depends on what it is told, and the programs are not restricted in any way. It only speaks of the
family's own slot.
-/

namespace Telegram

open Codec

/-! ## The contract

There is no claim that a part has an answer, since a factory may send a resolution round in circles until
the fuel is used up. What is claimed of an answer is threaded through the parts by means of
`Resolution.Leads`: what a later part relies on has not been undone in between. -/

section Ensures

variable {registry : Registry} {name : String} {version : UInt32} {base : SlotTable} {r : Resolution}
variable {α β : Type} {resolve : Resolve}

/-- Whenever this part of a resolution has an answer, the answer is good, and nothing but the family's own
adapter stands for the family. -/
def Resolving.Ensures (name : String) (base : SlotTable) (r : Resolution) (Good : Resolution → α → Prop)
    (run : Resolving α) : Prop :=
  ∀ a r', run r = some (a, r') → r'.Unclaimed name base ∧ r.Leads name r' ∧ Good r' a

/-- A way of asking for types never answers with another slot than it should. -/
def Resolve.Ensures (name : String) (base : SlotTable) (resolve : Resolve) : Prop :=
  ∀ type r, r.Unclaimed name base → (resolve type).Ensures name base r
    fun r' answer => ∀ slot, answer = .ok slot → r'.Serves name type slot

namespace Resolving

variable {Good : Resolution → α → Prop} {Good' : Resolution → β → Prop} {run : Resolving α}

theorem ensures_pure (h : r.Unclaimed name base) {a : α} (hgood : Good r a) :
    Ensures name base r Good (pure a) := by
  intro b r' hrun
  cases hrun
  exact ⟨h, .refl r, hgood⟩

/-- Two parts one after the other. -/
theorem Ensures.bind (h : run.Ensures name base r Good) {next : α → Resolving β}
    (hnext : ∀ r' a, r'.Unclaimed name base → r.Leads name r' → Good r' a →
      (next a).Ensures name base r' Good') :
    Ensures name base r Good' (run >>= next) := by
  intro b r'' hrun
  obtain ⟨a, r', hfirst, hrest⟩ := bind_eq_some_iff.1 hrun
  obtain ⟨hunclaimed, hleads, hgood⟩ := h a r' hfirst
  obtain ⟨hunclaimed', hleads', hgood'⟩ := hnext r' a hunclaimed hleads hgood b r'' hrest
  exact ⟨hunclaimed', hleads.trans hleads', hgood'⟩

/-- An answer that is put into another form. -/
theorem Ensures.map (h : run.Ensures name base r Good) {f : α → β}
    (hgood : ∀ r' a, Good r' a → Good' r' (f a)) :
    Ensures name base r Good' (do
      let a ← run
      pure (f a)) :=
  h.bind fun r' a hunclaimed _ ha => ensures_pure hunclaimed (hgood r' a ha)

end Resolving

/-- What comes of mapping an answer comes of an answer. -/
theorem exists_of_map_eq_ok {answer : Except Error α} {f : α → β} {b : β} (h : answer.map f = .ok b) :
    ∃ a, answer = .ok a ∧ f a = b := by
  cases answer with
  | error e => cases h
  | ok a => exact ⟨a, rfl, Except.ok.inj h⟩

/-! ## Building one adapter

The library's own adapter for the family is built without asking for any type, and so it can not fail.
Everything else may, and then the type is left without an adapter. -/

/-- A factory's program offers adapters without references, and none at all if it declines. -/
theorem runBindProgram_ensures (hresolve : resolve.Ensures name base) (program : BindProgram)
    (h : r.Unclaimed name base) :
    (program.run resolve).Ensures name base r fun _ answer =>
      (∀ adapter : Adapter, answer = .ok (some adapter) → adapter.wiring.references = []) ∧
        (program.Declines → answer = .ok none) := by
  induction program generalizing r with
  | finish offer =>
    refine Resolving.ensures_pure h ⟨?_, ?_⟩
    · intro adapter hanswer
      obtain ⟨offer?, -, hoffer⟩ := exists_of_map_eq_ok hanswer
      obtain ⟨offer, -, rfl⟩ := Option.map_eq_some_iff.1 hoffer
      rfl
    · intro hdeclines
      obtain rfl : offer = .ok none := hdeclines
      rfl
  | resolve type next ih =>
    refine (hresolve type r h).bind fun r' answer h' _ _ => ?_
    intro found r'' hrun
    obtain ⟨hunclaimed, hleads, hreferences, hdeclines⟩ := ih _ h' found r'' hrun
    exact ⟨hunclaimed, hleads, hreferences, fun hall => hdeclines (hall _)⟩

/-- So do factories that are asked one after the other. -/
theorem askFactories_ensures (hresolve : resolve.Ensures name base) (type : TypeExpr)
    (factories : List Factory) (h : r.Unclaimed name base) :
    (askFactories resolve version type factories).Ensures name base r fun _ answer =>
      (∀ adapter : Adapter, answer = .ok (some adapter) → adapter.wiring.references = []) ∧
        ((∀ factory ∈ factories, (factory version type).Declines) → answer = .ok none) := by
  induction factories generalizing r with
  | nil => exact Resolving.ensures_pure h ⟨nofun, fun _ => rfl⟩
  | cons factory rest ih =>
    refine (runBindProgram_ensures hresolve (factory version type) h).bind
      fun r' answer h' _ hanswer => ?_
    obtain ⟨hreferences, hdeclines⟩ := hanswer
    rcases answer with e | _ | adapter
    · refine Resolving.ensures_pure h' ⟨nofun, fun hall => ?_⟩
      cases hdeclines (hall factory (List.mem_cons_self ..))
    · intro found r'' hrun
      obtain ⟨hunclaimed, hleads, hfound, hnone⟩ := ih h' found r'' hrun
      exact ⟨hunclaimed, hleads, hfound,
        fun hall => hnone fun other hmem => hall other (List.mem_cons_of_mem _ hmem)⟩
    · refine Resolving.ensures_pure h' ⟨hreferences, fun hall => ?_⟩
      cases hdeclines (hall factory (List.mem_cons_self ..))

/-- Finding the adapter of a field. -/
theorem bindTarget_ensures (hresolve : resolve.Ensures name base) (field : Field)
    (h : r.Unclaimed name base) :
    (bindTarget resolve field).Ensures name base r fun r' answer => ∀ target, answer = .ok target →
      ∀ reference ∈ BoundField.references ⟨field, target⟩, r'.Serves name reference.1 reference.2 := by
  cases hadapter : field.adapter with
  | some adapter =>
    simp only [bindTarget, hadapter]
    refine Resolving.ensures_pure h fun target hanswer reference hmem => ?_
    obtain rfl := Except.ok.inj hanswer
    cases hmem
  | none =>
    simp only [bindTarget, hadapter]
    refine (hresolve field.type r h).map fun r' answer hanswer target htarget reference hmem => ?_
    obtain ⟨slot, hslot, rfl⟩ := exists_of_map_eq_ok htarget
    obtain rfl := List.mem_singleton.1 hmem
    exact hanswer slot hslot

/-- Finding the adapters of the fields. -/
theorem bindFields_ensures (hresolve : resolve.Ensures name base) (fields : List Field)
    (h : r.Unclaimed name base) :
    (bindFields resolve fields).Ensures name base r fun r' answer => ∀ bounds, answer = .ok bounds →
      ∀ reference ∈ bounds.flatMap BoundField.references,
        r'.Serves name reference.1 reference.2 := by
  induction fields generalizing r with
  | nil =>
    refine Resolving.ensures_pure h fun bounds hanswer reference hmem => ?_
    obtain rfl := Except.ok.inj hanswer
    cases hmem
  | cons field rest ih =>
    refine (bindTarget_ensures hresolve field h).bind fun r' answer h' _ htarget => ?_
    rcases answer with e | target
    · exact Resolving.ensures_pure h' nofun
    · intro answer' r'' hrun
      obtain ⟨bounds?, r₁, hrest, hmap⟩ := bind_eq_some_iff.1 hrun
      obtain ⟨hunclaimed, hleads, hbounds⟩ := ih h' bounds? r₁ hrest
      cases hmap
      refine ⟨hunclaimed, hleads, fun all hall reference hmem => ?_⟩
      obtain ⟨bounds, hbounds', rfl⟩ := exists_of_map_eq_ok hall
      rw [List.flatMap_cons, List.mem_append] at hmem
      rcases hmem with hfirst | hlater
      · exact hleads.serves (htarget target rfl reference hfirst)
      · exact hbounds bounds hbounds' reference hlater

/-- Building an adapter that comes with the library. -/
theorem Registry.createBuiltin_ensures (hresolve : resolve.Ensures name base) (type : TypeExpr)
    (h : r.Unclaimed name base) :
    (registry.createBuiltin resolve version type).Ensures name base r
      fun r' created => r'.Builds name type created := by
  cases type with
  | scalar s => exact Resolving.ensures_pure h (Resolution.builds_alone (by simp) rfl)
  | foreign other => exact Resolving.ensures_pure h (Resolution.builds_nothing (by simp) (by simp))
  | optional element | sequence container element =>
    refine (hresolve element r h).map fun r' answer hanswer => ⟨fun adapter hcreated => ?_, ?_⟩
    · obtain ⟨slot, hslot, hwired⟩ := exists_of_map_eq_ok hcreated
      obtain rfl := Option.some.inj hwired
      intro reference hmem
      obtain rfl := List.mem_singleton.1 hmem
      exact hanswer slot hslot
    · simp
  | family other =>
    refine Resolving.ensures_pure h ⟨fun adapter hcreated reference hmem => ?_, fun htype => ?_⟩
    · obtain rfl := Option.some.inj (Except.ok.inj hcreated)
      cases hmem
    · rw [TypeExpr.family.inj htype]
  | record other =>
    cases hschema : registry.schema? (.record other) with
    | none =>
      simp only [createBuiltin, hschema]
      exact Resolving.ensures_pure h (Resolution.builds_nothing (by simp) (by simp))
    | some schema =>
      simp only [createBuiltin, hschema]
      refine (bindFields_ensures hresolve _ h).map fun r' answer hanswer =>
        ⟨fun adapter hcreated => ?_, ?_⟩
      · obtain ⟨bounds, hbounds, hwired⟩ := exists_of_map_eq_ok hcreated
        obtain rfl := Option.some.inj hwired
        exact hanswer bounds hbounds
      · simp

/-- **Building an adapter** gives it the family's own slot wherever it needs one, and the family itself is
left to the library. -/
theorem Registry.create_ensures (hregistry : registry.Unclaimed name) (hresolve : resolve.Ensures name base)
    (type : TypeExpr) (h : r.Unclaimed name base) :
    (registry.create resolve version type).Ensures name base r
      fun r' created => r'.Builds name type created := by
  cases hadapter : registry.adapter? type with
  | some adapter =>
    have hne : type ≠ .family name := by
      rintro rfl
      rw [hregistry.adapter_eq] at hadapter
      cases hadapter
    simp only [create, hadapter]
    exact Resolving.ensures_pure h (Resolution.builds_alone hne rfl)
  | none =>
    simp only [create, hadapter]
    refine (askFactories_ensures hresolve type registry.factories h).bind
      fun r' answer h' _ hanswer => ?_
    obtain ⟨hreferences, hdeclines⟩ := hanswer
    -- a factory that has an answer of its own was asked for another type
    have hne (hother : answer ≠ .ok none) : type ≠ .family name := by
      rintro rfl
      exact hother (hdeclines fun factory hfactory => hregistry.declines factory hfactory version)
    rcases answer with e | _ | adapter
    · exact Resolving.ensures_pure h' (Resolution.builds_nothing (hne (by simp)) (by simp))
    · exact createBuiltin_ensures hresolve type h'
    · exact Resolving.ensures_pure h' (Resolution.builds_alone (hne (by simp)) (hreferences adapter rfl))

/-! ## The recursion

Fuel is all that bounds it. The induction has nothing to say about which types are in flight, other than
that a type is not entered a second time below itself. -/

/-- **The recursion** never answers with another slot than it should, also after parts of it have
failed. -/
theorem Registry.resolveIn_ensures (hregistry : registry.Unclaimed name) (hbase : base.Unclaimed name)
    (fuel : Nat) : (registry.resolveIn version fuel).Ensures name base := by
  induction fuel with
  | zero =>
    intro type r _ answer r' hrun
    cases hrun
  | succ fuel ih =>
    intro type r h answer r' hrun
    cases hslot : r.slot? version type with
    | some slot =>
      rw [resolveIn_of_slot? hslot] at hrun
      cases hrun
      refine ⟨h, .refl r, fun other hanswer => ?_⟩
      obtain rfl := Except.ok.inj hanswer
      exact h.serves_of_slot? hbase hslot
    | none =>
      obtain ⟨created, r₁, hcreate, hconclude⟩ := exists_create_of_resolveIn hslot hrun
      obtain ⟨henter, hholds⟩ := h.enter type
      obtain ⟨h₁, hleads, hbuilds⟩ := create_ensures hregistry ih type henter created r₁ hcreate
      have hfresh : type ∉ r.inFlight.map Prod.fst := by
        simp only [Resolution.slot?, Option.orElse_eq_orElse, Option.orElse_eq_or,
          Option.or_eq_none_iff] at hslot
        exact lookup_eq_none_iff_not_mem.1 hslot.2.2
      have hreserved : (r.enter type).1 ∈ r₁.reserved :=
        hleads.reserved _ (List.mem_append_right _ (List.mem_singleton_self _))
      obtain ⟨hunclaimed, hleads', hserves⟩ :=
        h₁.conclude hleads.inFlight_eq hfresh hreserved hbuilds hconclude
      refine ⟨hunclaimed, ⟨hleads'.inFlight_eq, ?_, ?_⟩, hserves⟩
      · exact fun slot hmem => hleads'.reserved slot (hleads.reserved slot (List.mem_append_left _ hmem))
      · exact fun slot hslot => hleads'.holds slot (hleads.holds slot (hholds slot hslot))

end Ensures

/-! ## Whole resolutions

A resolution ends with nothing in flight, whatever failed on the way. Then nothing waits for the family's
adapter any more, and what is published or given back does no harm. -/

namespace Registry

variable {registry : Registry} {name : String} {table table' : SlotTable}

/-- **A whole resolution**, whether or not it succeeds, leaves the family to the adapter of the
alternative held, and leaves the slots that hold the family's adapter alone. -/
theorem Unclaimed.resolve (hregistry : registry.Unclaimed name) (h : table.Unclaimed name)
    {type : TypeExpr} {version : UInt32} {answer : Except Error Nat}
    (hrun : registry.resolve type version table = some (answer, table')) :
    table'.Unclaimed name ∧ ∀ slot, table.HoldsFamily name slot → table'.HoldsFamily name slot := by
  unfold Registry.resolve at hrun
  split at hrun
  · cases hrun
    exact ⟨h, fun _ hslot => hslot⟩
  · have hensures : (registry.resolveIn version (registry.resolveFuel type)).Ensures name table :=
      resolveIn_ensures hregistry h _
    have hstart := hensures type { table } (Resolution.unclaimed_start h)
    split at hrun
    · cases hrun
    · rename_i slot r hresolve
      cases hrun
      obtain ⟨hunclaimed, hleads, -⟩ := hstart _ _ hresolve
      refine ⟨hunclaimed.publish h hleads.inFlight_eq, fun other hslot => ?_⟩
      rw [SlotTable.HoldsFamily, Resolution.publish,
        (SlotTable.publish_foldl_spec version r.resolved r.table).1]
      exact hleads.holds other hslot
    · rename_i e r hresolve
      cases hrun
      obtain ⟨hunclaimed, -, -⟩ := hstart _ _ hresolve
      exact ⟨hunclaimed.abandon h, fun other hslot =>
        (hunclaimed.abandon_slots (hunclaimed.holds hslot).1).trans hslot⟩

end Registry

end Telegram
