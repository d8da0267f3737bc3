import Telegram.Proofs.Codec.Dangling

/-!
# Families that nobody claims

A family for which callers brought no adapter, and which every factory passes over, is served by the
adapter that hands each value on to the adapter of the alternative held. Here is what it means that
nothing else ever stands in its place: each slot that the family is cached in, and each slot that an
adapter has for it, holds that adapter.

Factories are allowed here, and they may go on after a request of theirs has failed. Then a slot may be
reserved and never filled, so these tables are not sound in the sense of `SlotTable.Sound`. The family's
own slot is not one of those: building its adapter can not fail.

* `Registry.Unclaimed` is the assumption on a registry, `SlotTable.Unclaimed` what it comes to for a
  table, and `Resolution.Unclaimed` what holds in the middle of a resolution, where a slot may still be
  waiting for the family's adapter.
* A resolution moves by entering types and by concluding them: `Resolution.Unclaimed.enter` and
  `Resolution.Unclaimed.conclude`.
* In the end it is published or abandoned: `Resolution.Unclaimed.publish` and
  `Resolution.Unclaimed.abandon`.
-/

namespace Telegram

open Codec

/-! ## The assumption

A factory that has nothing to offer for the family may still ask for other types before it says so, and
what it asks for is resolved. It is only its final word that is restricted. -/

/-- The program has no adapter to offer, whatever it is told about the types that it asks for. -/
def Codec.BindProgram.Declines : BindProgram → Prop
  | .finish offer => offer = .ok none
  | .resolve _ next => ∀ answer, (next answer).Declines

/-- Callers brought no adapter for the family, and none of their factories has one to offer. The factories
may serve any other type, and may ask for types before they pass over the family. -/
structure Registry.Unclaimed (registry : Registry) (name : String) : Prop where
  adapter_eq : registry.adapter? (.family name) = none
  declines : ∀ factory ∈ registry.factories, ∀ version, (factory version (.family name)).Declines

/-! ## Slot tables

A slot that was reserved for a type whose building failed inside a request of a factory stays behind: it
is neither filled nor free, and belongs to nothing. Such slots are lost. They do no harm, but they have to
be accounted for, as the bookkeeping of resolutions says of every slot that is empty and not free that the
resolution has reserved it. -/

namespace SlotTable

/-- The slot holds the adapter of a family that has none of the caller's. -/
def HoldsFamily (table : SlotTable) (name : String) (slot : Nat) : Prop :=
  table.slots[slot]? = some (some ⟨.generic, .family name⟩)

/-- Whatever stands for the family in the table is the adapter of a family that nobody claims. Both the
cache and the references of adapters are looked at, since a value may be written by way of either. -/
structure Unclaimed (name : String) (table : SlotTable) : Prop where
  free_nodup : table.free.Nodup
  empty_of_free : ∀ slot ∈ table.free, table.slots[slot]? = some none
  cached : ∀ version slot, (⟨.family name, version⟩, slot) ∈ table.cached → table.HoldsFamily name slot
  referred : ∀ (slot : Nat) (adapter : Adapter), table.slots[slot]? = some (some adapter) →
    ∀ target, (.family name, target) ∈ adapter.wiring.references → table.HoldsFamily name target

theorem unclaimed_empty (name : String) : Unclaimed name {} where
  free_nodup := List.nodup_nil
  empty_of_free _ h := absurd h List.not_mem_nil
  cached _ _ h := absurd h List.not_mem_nil
  referred slot _ h := by simp at h

/-- The slot is empty, and is not among the free ones. -/
def isLost (table : SlotTable) (slot : Nat) : Bool :=
  match table.slots[slot]? with
  | some none => slot ∉ table.free
  | _ => false

/-- The slots that were reserved once and neither filled nor given back. -/
def lost (table : SlotTable) : List Nat :=
  (List.range table.slots.length).filter table.isLost

theorem isLost_iff {table : SlotTable} {slot : Nat} :
    table.isLost slot = true ↔ table.slots[slot]? = some none ∧ slot ∉ table.free := by
  unfold isLost
  split
  · rename_i hempty
    simp [hempty]
  · rename_i hempty
    exact ⟨nofun, fun h => absurd h.1 hempty⟩

theorem mem_lost_iff {table : SlotTable} {slot : Nat} :
    slot ∈ table.lost ↔ table.slots[slot]? = some none ∧ slot ∉ table.free := by
  rw [lost, List.mem_filter, List.mem_range, isLost_iff]
  exact ⟨And.right, fun h => ⟨(List.getElem?_eq_some_iff.1 h.1).1, h⟩⟩

/-- What filling a slot does: the slot was empty and holds the adapter, and no other slot has changed. The
condition is on both tables, so that it can be used from either side. -/
structure Fills (before : SlotTable) (slot : Nat) (adapter : Adapter) (after : SlotTable) : Prop where
  eq_set : after = { before with slots := before.slots.set slot (some adapter) }
  empty : before.slots[slot]? = some none
  filled : after.slots[slot]? = some (some adapter)
  other : ∀ other, other ≠ slot → after.slots[other]? = before.slots[other]?

theorem fills_of_fill? {before after : SlotTable} {slot : Nat} {adapter : Adapter}
    (h : before.fill? slot adapter = some after) : before.Fills slot adapter after := by
  unfold fill? at h
  split at h
  · rename_i hempty
    obtain rfl := Option.some.inj h
    exact ⟨rfl, hempty, List.getElem?_set_self (List.getElem?_eq_some_iff.1 hempty).1,
      fun other hne => List.getElem?_set_ne hne.symm⟩
  · cases h

/-- Filling a slot leaves the family's adapter where it is. -/
theorem Fills.holdsFamily {before after : SlotTable} {slot : Nat} {adapter : Adapter} {name : String}
    (h : before.Fills slot adapter after) {other : Nat} (hother : before.HoldsFamily name other) :
    after.HoldsFamily name other := by
  have hne : other ≠ slot := by
    rintro rfl
    cases h.empty.symm.trans hother
  exact (h.other other hne).trans hother

/-- Reserving a slot leaves the family's adapter where it is. -/
theorem Reserves.holdsFamily {before after : SlotTable} {slot : Nat} {name : String}
    (h : before.Reserves slot after) {other : Nat} (hother : before.HoldsFamily name other) :
    after.HoldsFamily name other := by
  have hne : other ≠ slot := by
    rintro rfl
    exact h.vacant _ hother
  exact (h.other other hne).trans hother

/-- Publishing caches nothing but what is published, and does nothing to the slots. -/
theorem publish_foldl_spec (version : UInt32) (entries : List (TypeExpr × Nat)) (table : SlotTable) :
    let after := entries.foldl (fun table (type, slot) => table.publish ⟨type, version⟩ slot) table
    after.slots = table.slots ∧ after.free = table.free ∧ ∀ key slot, (key, slot) ∈ after.cached →
      (key, slot) ∈ table.cached ∨ (key.type, slot) ∈ entries := by
  induction entries generalizing table with
  | nil => exact ⟨rfl, rfl, fun _ _ h => .inl h⟩
  | cons entry rest ih =>
    obtain ⟨type, slot⟩ := entry
    obtain ⟨hslots, hfree, hcached⟩ := ih (table.publish ⟨type, version⟩ slot)
    have hfirst : (table.publish ⟨type, version⟩ slot).slots = table.slots ∧
        (table.publish ⟨type, version⟩ slot).free = table.free ∧
        ∀ entry ∈ (table.publish ⟨type, version⟩ slot).cached,
          entry ∈ table.cached ∨ entry = (⟨type, version⟩, slot) := by
      unfold publish
      split
      · exact ⟨rfl, rfl, fun _ h => .inl h⟩
      · exact ⟨rfl, rfl, fun _ h => (List.mem_cons.1 h).symm⟩
    refine ⟨hslots.trans hfirst.1, hfree.trans hfirst.2.1, fun key other hmem => ?_⟩
    rcases hcached key other hmem with hbefore | hrest
    · rcases hfirst.2.2 _ hbefore with hold | heq
      · exact .inl hold
      · obtain ⟨rfl, rfl⟩ := Prod.mk.inj heq
        exact .inr (List.mem_cons_self ..)
    · exact .inr (List.mem_cons_of_mem _ hrest)

end SlotTable

/-! ## In the middle of a resolution

An adapter may be given the family's slot before the family's own adapter stands in it, in a cycle. So
what is kept is that the slot holds this adapter or is waiting for it; and whoever waits is in flight and
will be served. -/

namespace Resolution

/-- The resolution as if it had reserved further slots before. This is how lost slots of earlier
resolutions are made to fit: they are taken for reserved ones that are never filled. -/
def besides (lost : List Nat) (r : Resolution) : Resolution :=
  { r with reserved := lost ++ r.reserved }

/-- An adapter may use the slot for the type: if the type is the family, the slot holds the family's
adapter or is waiting for it. -/
def Serves (r : Resolution) (name : String) (type : TypeExpr) (slot : Nat) : Prop :=
  type = .family name → r.table.HoldsFamily name slot ∨ (type, slot) ∈ r.inFlight

/-- What holds in the middle of a resolution that began with the table `base`. -/
structure Unclaimed (name : String) (base : SlotTable) (r : Resolution) : Prop where
  allocated : (r.besides base.lost).Allocated base
  kept : ∀ slot, slot ∉ r.reserved → r.table.slots[slot]? = base.slots[slot]?
  resolved : ∀ slot, (.family name, slot) ∈ r.resolved → r.table.HoldsFamily name slot
  referred : ∀ (slot : Nat) (adapter : Adapter), r.table.slots[slot]? = some (some adapter) →
    ∀ reference ∈ adapter.wiring.references, r.Serves name reference.1 reference.2

/-- What a part of a resolution leaves as it was. -/
structure Leads (name : String) (before after : Resolution) : Prop where
  inFlight_eq : after.inFlight = before.inFlight
  reserved : ∀ slot ∈ before.reserved, slot ∈ after.reserved
  holds : ∀ slot, before.table.HoldsFamily name slot → after.table.HoldsFamily name slot

variable {name : String} {version : UInt32} {base : SlotTable} {r r' r'' : Resolution}

theorem Leads.refl (r : Resolution) : r.Leads name r :=
  ⟨rfl, fun _ h => h, fun _ h => h⟩

theorem Leads.trans (h : r.Leads name r') (h' : r'.Leads name r'') : r.Leads name r'' :=
  ⟨h'.inFlight_eq.trans h.inFlight_eq, fun slot hmem => h'.reserved slot (h.reserved slot hmem),
    fun slot hholds => h'.holds slot (h.holds slot hholds)⟩

/-- A slot that may be used may still be used afterwards. -/
theorem Leads.serves (h : r.Leads name r') {type : TypeExpr} {slot : Nat}
    (hserves : r.Serves name type slot) : r'.Serves name type slot := by
  intro htype
  rw [h.inFlight_eq]
  exact (hserves htype).imp_left (h.holds slot)

/-- Slots that were lost before the resolution began make no difference to what it does. -/
theorem allocated_besides_lost (hfree : base.free.Nodup)
    (hempty : ∀ slot ∈ base.free, base.slots[slot]? = some none) :
    Allocated base (besides base.lost { table := base }) := by
  have hreserved : (besides base.lost { table := base }).reserved = base.lost := List.append_nil _
  constructor
  case cached_eq => rfl
  case nodup =>
    rw [hreserved]
    exact List.nodup_append'.2 ⟨List.nodup_range.filter _, hfree, fun slot hlost hmem =>
      (SlotTable.mem_lost_iff.1 hlost).2 hmem⟩
  case reserved_lt =>
    intro slot hlost
    rw [hreserved, SlotTable.mem_lost_iff] at hlost
    exact (List.getElem?_eq_some_iff.1 hlost.1).1
  case vacant =>
    intro slot hlost adapter hfilled
    rw [hreserved, SlotTable.mem_lost_iff] at hlost
    cases hlost.1.symm.trans hfilled
  case kept => exact fun _ _ => rfl
  case empty_of_free => exact hempty
  case accounted =>
    intro slot hslot
    rw [hreserved, SlotTable.mem_lost_iff]
    exact (em (slot ∈ base.free)).symm.imp_left fun hnotin => ⟨hslot, hnotin⟩

/-- A resolution begins with nothing in flight, so all that stands for the family is in the table. -/
theorem unclaimed_start (hbase : base.Unclaimed name) : Unclaimed name base { table := base } where
  allocated := allocated_besides_lost hbase.free_nodup hbase.empty_of_free
  kept _ _ := rfl
  resolved _ h := absurd h List.not_mem_nil
  referred slot adapter hfilled reference hmem htype := by
    obtain ⟨type, target⟩ := reference
    obtain rfl : type = .family name := htype
    exact .inl (hbase.referred slot adapter hfilled target hmem)

/-- A slot that held the family's adapter at the start is not reserved, and holds it still. -/
theorem Unclaimed.holds (h : r.Unclaimed name base) {slot : Nat} (hslot : base.HoldsFamily name slot) :
    slot ∉ r.reserved ∧ r.table.HoldsFamily name slot := by
  have hnotin : slot ∉ r.reserved :=
    fun hmem => h.allocated.vacant slot (List.mem_append_right _ hmem) _ hslot
  exact ⟨hnotin, (h.kept slot hnotin).trans hslot⟩

/-- A type that has a slot may be referred to by it. -/
theorem Unclaimed.serves_of_slot? (hbase : base.Unclaimed name) (h : r.Unclaimed name base)
    {type : TypeExpr} {slot : Nat} (hslot : r.slot? version type = some slot) :
    r.Serves name type slot := by
  rintro rfl
  simp only [slot?, Option.orElse_eq_orElse, Option.orElse_eq_or] at hslot
  rcases Option.or_eq_some_iff.1 hslot with hcached | ⟨-, hlisted⟩
  · have hmem := mem_of_lookup_eq_some hcached
    rw [show r.table.cached = base.cached from h.allocated.cached_eq] at hmem
    exact .inl (h.holds (hbase.cached version slot hmem)).2
  · rcases Option.or_eq_some_iff.1 hlisted with hresolved | ⟨-, hflying⟩
    · exact .inl (h.resolved slot (mem_of_lookup_eq_some hresolved))
    · exact .inr (mem_of_lookup_eq_some hflying)

/-- Entering a type is not concerned with slots that were lost before. -/
theorem enter_besides (lost : List Nat) (r : Resolution) (type : TypeExpr) :
    (r.besides lost).enter type = ((r.enter type).1, (r.enter type).2.besides lost) := by
  simp [enter, besides, List.append_assoc]

/-- **Entering a type** reserves a slot that nothing stands in. -/
theorem Unclaimed.enter (h : r.Unclaimed name base) (type : TypeExpr) :
    (r.enter type).2.Unclaimed name base ∧
      ∀ slot, r.table.HoldsFamily name slot → (r.enter type).2.table.HoldsFamily name slot := by
  have hreserves : r.table.Reserves (r.enter type).1 (r.enter type).2.table := h.allocated.reserves type
  refine ⟨⟨?allocated, ?kept, ?resolved, ?referred⟩, fun slot => hreserves.holdsFamily⟩
  case allocated =>
    have hallocated := h.allocated.enter type
    rwa [enter_besides] at hallocated
  case kept =>
    intro slot hslot
    obtain ⟨hold, hnew⟩ := not_or.1 (mt List.mem_append.2 hslot)
    rw [hreserves.other slot fun heq => hnew (List.mem_singleton.2 heq), h.kept slot hold]
  case resolved => exact fun slot hmem => hreserves.holdsFamily (h.resolved slot hmem)
  case referred =>
    intro slot adapter hfilled reference hmem htype
    have hne : slot ≠ (r.enter type).1 := by
      rintro rfl
      cases hreserves.empty.symm.trans hfilled
    rw [hreserves.other slot hne] at hfilled
    exact (h.referred slot adapter hfilled reference hmem htype).imp hreserves.holdsFamily
      (List.mem_cons_of_mem _)

/-- Giving up on another type than the family leaves nothing waiting for the family's adapter in vain. -/
theorem Unclaimed.leave (h : r.Unclaimed name base) {type : TypeExpr} (hne : type ≠ .family name) :
    (r.leave type).Unclaimed name base := by
  refine ⟨h.allocated.leave type, h.kept, h.resolved, ?_⟩
  intro slot adapter hfilled reference hmem htype
  refine (h.referred slot adapter hfilled reference hmem htype).imp_right fun hflying => ?_
  refine List.mem_filter.2 ⟨hflying, decide_eq_true fun heq => hne ?_⟩
  exact heq.symm.trans htype

/-- What the building of an adapter comes to: the slots that the adapter has for the family may be used
for it, and the family's own adapter is always built. -/
structure Builds (name : String) (type : TypeExpr) (r : Resolution)
    (created : Except Error (Option Adapter)) : Prop where
  wired : ∀ adapter : Adapter, created = .ok (some adapter) →
    ∀ reference ∈ adapter.wiring.references, r.Serves name reference.1 reference.2
  family : type = .family name → created = .ok (some ⟨.generic, .family name⟩)

/-- Another type than the family may be left without an adapter. -/
theorem builds_nothing {type : TypeExpr} (hne : type ≠ .family name)
    {created : Except Error (Option Adapter)}
    (hnothing : ∀ adapter : Adapter, created ≠ .ok (some adapter)) : r.Builds name type created :=
  ⟨fun adapter hcreated => absurd hcreated (hnothing adapter), fun htype => absurd htype hne⟩

/-- An adapter that refers to no slot is as good as any for another type than the family. -/
theorem builds_alone {type : TypeExpr} (hne : type ≠ .family name) {adapter : Adapter}
    (hreferences : adapter.wiring.references = []) : r.Builds name type (.ok (some adapter)) := by
  refine ⟨fun built hcreated reference hmem => ?_, fun htype => absurd htype hne⟩
  obtain rfl := Option.some.inj (Except.ok.inj hcreated)
  rw [hreferences] at hmem
  cases hmem

/-- **Settling a type** puts its adapter into the slot that waits for it. -/
theorem Unclaimed.settle (h : r.Unclaimed name base) {type : TypeExpr} {slot : Nat} {adapter : Adapter}
    {inFlight : List (TypeExpr × Nat)} (hinFlight : r.inFlight = (type, slot) :: inFlight)
    (hfresh : type ∉ inFlight.map Prod.fst) (hreserved : slot ∈ r.reserved)
    (hbuilds : r.Builds name type (.ok (some adapter)))
    (hsettle : (r.leave type).settle? type slot adapter = some r') :
    r'.Unclaimed name base ∧ ({ r with inFlight } : Resolution).Leads name r' ∧
      r'.Serves name type slot := by
  rw [leave_of_cons hinFlight hfresh] at hsettle
  obtain ⟨table, hfill, rfl⟩ := Option.map_eq_some_iff.1 hsettle
  have hfills : r.table.Fills slot adapter table := SlotTable.fills_of_fill? hfill
  have hown : type = .family name → table.HoldsFamily name slot := by
    intro htype
    obtain rfl := Option.some.inj (Except.ok.inj (hbuilds.family htype))
    exact hfills.filled
  -- what was waiting for this slot finds the adapter in it, and what was waiting for another still waits
  have hserves : ∀ other target, r.Serves name other target → other = .family name →
      table.HoldsFamily name target ∨ (other, target) ∈ inFlight := by
    intro other target hserved htype
    rcases hserved htype with hholds | hflying
    · exact .inl (hfills.holdsFamily hholds)
    · rw [hinFlight] at hflying
      rcases List.mem_cons.1 hflying with heq | hold
      · obtain ⟨rfl, rfl⟩ := Prod.mk.inj heq
        exact .inl (hown htype)
      · exact .inr hold
  refine ⟨⟨?allocated, ?kept, ?resolved, ?referred⟩,
    ⟨rfl, fun _ hmem => hmem, fun _ => hfills.holdsFamily⟩, fun htype => .inl (hown htype)⟩
  case allocated =>
    obtain rfl := hfills.eq_set
    exact h.allocated.fill (List.mem_append_right _ hreserved) adapter inFlight ((type, slot) :: r.resolved)
  case kept =>
    intro other hnotin
    have hne : other ≠ slot := fun heq => hnotin (heq ▸ hreserved)
    exact (hfills.other other hne).trans (h.kept other hnotin)
  case resolved =>
    intro other hmem
    rcases List.mem_cons.1 hmem with heq | hold
    · obtain ⟨rfl, rfl⟩ := Prod.mk.inj heq
      exact hown rfl
    · exact hfills.holdsFamily (h.resolved other hold)
  case referred =>
    intro other found hfilled reference hmem htype
    by_cases heq : other = slot
    · subst heq
      obtain rfl := Option.some.inj (Option.some.inj (hfills.filled.symm.trans hfilled))
      exact hserves _ _ (hbuilds.wired _ rfl reference hmem) htype
    · have hbefore : r.table.slots[other]? = some (some found) := (hfills.other other heq).symm.trans hfilled
      exact hserves _ _ (h.referred other found hbefore reference hmem) htype

/-- **Concluding a type**, whether or not its adapter could be built. -/
theorem Unclaimed.conclude (h : r.Unclaimed name base) {type : TypeExpr} {slot : Nat}
    {inFlight : List (TypeExpr × Nat)} (hinFlight : r.inFlight = (type, slot) :: inFlight)
    (hfresh : type ∉ inFlight.map Prod.fst) (hreserved : slot ∈ r.reserved)
    {created : Except Error (Option Adapter)} (hbuilds : r.Builds name type created)
    {answer : Except Error Nat} (hconclude : r.conclude version type slot created = some (answer, r')) :
    r'.Unclaimed name base ∧ ({ r with inFlight } : Resolution).Leads name r' ∧
      ∀ slot, answer = .ok slot → r'.Serves name type slot := by
  have hgivenUp (hother : created ≠ .ok (some ⟨.generic, .family name⟩)) :
      (r.leave type).Unclaimed name base ∧ ({ r with inFlight } : Resolution).Leads name (r.leave type) := by
    refine ⟨h.leave fun htype => hother (hbuilds.family htype), ?_⟩
    rw [leave_of_cons hinFlight hfresh]
    exact .refl _
  match created with
  | .error e =>
    cases hconclude
    exact ⟨(hgivenUp (by simp)).1, (hgivenUp (by simp)).2, by simp⟩
  | .ok none =>
    cases hconclude
    exact ⟨(hgivenUp (by simp)).1, (hgivenUp (by simp)).2, by simp⟩
  | .ok (some adapter) =>
    obtain ⟨settled, hsettle, heq⟩ := Option.map_eq_some_iff.1 hconclude
    cases heq
    obtain ⟨hunclaimed, hleads, hserves⟩ := h.settle hinFlight hfresh hreserved hbuilds hsettle
    refine ⟨hunclaimed, hleads, fun other hanswer => ?_⟩
    obtain rfl := Except.ok.inj hanswer
    exact hserves

/-! ## The end of a resolution

When nothing is in flight any more, nothing waits. Publishing then caches the family in a slot that holds
its adapter, and giving up releases slots that nothing outside the resolution knows of. -/

/-- When nothing is waiting any more, what has been built can be published. -/
theorem Unclaimed.publish (hbase : base.Unclaimed name) (h : r.Unclaimed name base)
    (hinFlight : r.inFlight = []) : (r.publish version).Unclaimed name := by
  obtain ⟨hslots, hfree, hcached⟩ := SlotTable.publish_foldl_spec version r.resolved r.table
  rw [← Resolution.publish] at hslots hfree hcached
  constructor
  case free_nodup =>
    rw [hfree]
    exact (List.nodup_append.1 h.allocated.nodup).2.1
  case empty_of_free =>
    intro slot hmem
    rw [hslots]
    exact h.allocated.empty_of_free slot (hfree ▸ hmem)
  case cached =>
    intro other slot hmem
    rw [SlotTable.HoldsFamily, hslots]
    rcases hcached _ slot hmem with hbefore | hbuilt
    · rw [show r.table.cached = base.cached from h.allocated.cached_eq] at hbefore
      exact (h.holds (hbase.cached other slot hbefore)).2
    · exact h.resolved slot hbuilt
  case referred =>
    intro slot adapter hfilled target hmem
    rw [hslots] at hfilled
    rw [SlotTable.HoldsFamily, hslots]
    rcases h.referred slot adapter hfilled _ hmem rfl with hholds | hflying
    · exact hholds
    · rw [hinFlight] at hflying
      cases hflying

theorem Unclaimed.reserved_lt (h : r.Unclaimed name base) :
    ∀ slot ∈ r.reserved, slot < r.table.slots.length :=
  fun slot hmem => h.allocated.reserved_lt slot (List.mem_append_right _ hmem)

/-- A slot that is not given back holds what it held at the start. -/
theorem Unclaimed.abandon_slots (h : r.Unclaimed name base) {slot : Nat} (hslot : slot ∉ r.reserved) :
    r.abandon.slots[slot]? = base.slots[slot]? := by
  rw [abandon, SlotTable.release_foldl_slots _ _ h.reserved_lt, if_neg hslot, h.kept slot hslot]

/-- **Giving the slots back** takes none from the family. -/
theorem Unclaimed.abandon (hbase : base.Unclaimed name) (h : r.Unclaimed name base) :
    r.abandon.Unclaimed name := by
  have hreleased : ∀ slot ∈ r.reserved, r.abandon.slots[slot]? = some none := by
    intro slot hmem
    rw [Resolution.abandon, SlotTable.release_foldl_slots _ _ h.reserved_lt, if_pos hmem]
  have hcached : r.abandon.cached = base.cached := by
    rw [Resolution.abandon, SlotTable.release_foldl_cached]
    exact h.allocated.cached_eq
  have hfree : r.abandon.free = r.reserved.reverse ++ r.table.free :=
    SlotTable.release_foldl_free _ _
  have hholds : ∀ slot, base.HoldsFamily name slot → r.abandon.HoldsFamily name slot :=
    fun slot hslot => (h.abandon_slots (h.holds hslot).1).trans hslot
  have hnodup : (r.reserved ++ r.table.free).Nodup := by
    have hall := h.allocated.nodup
    rw [besides, List.append_assoc] at hall
    exact (List.nodup_append.1 hall).2.1
  constructor
  case free_nodup =>
    rw [hfree]
    exact (List.Perm.append_right _ (List.reverse_perm _)).nodup_iff.2 hnodup
  case empty_of_free =>
    intro slot hmem
    by_cases hreserved : slot ∈ r.reserved
    · exact hreleased slot hreserved
    · rw [hfree, List.mem_append, List.mem_reverse] at hmem
      rw [h.abandon_slots hreserved, ← h.kept slot hreserved]
      exact h.allocated.empty_of_free slot (hmem.resolve_left hreserved)
  case cached =>
    intro other slot hmem
    exact hholds slot (hbase.cached other slot (hcached ▸ hmem))
  case referred =>
    intro slot adapter hfilled target hmem
    have hreserved : slot ∉ r.reserved := by
      intro hreserved
      cases (hreleased slot hreserved).symm.trans hfilled
    rw [h.abandon_slots hreserved] at hfilled
    exact hholds target (hbase.referred slot adapter hfilled target hmem)

end Resolution

end Telegram
