import Telegram.Proofs.Registry.Sound

/-!
# A resolution under way

What holds in the middle of a resolution that began at a sound table `base`:

* `Resolution.Allocated` is about the slots alone: those that the resolution reserved were free or did
  not exist, none is reserved twice, and no other slot has changed. It is all that giving the slots back
  needs (`Resolution.Allocated.abandon_sound`).
* `Resolution.Valid` adds who the reserved slots belong to. The slot of a type whose adapter is being
  built is empty; the slot of a type that has been built holds an adapter for that type, which may refer
  to slots that are still empty. Once nothing is being built any more no such slot is left, and the
  resolution can be published (`Resolution.Valid.publish_sound`).

Between the two ends a resolution moves by `Resolution.enter`, and by `Resolution.leave` followed by
`Resolution.settle?`; each keeps the invariant.
-/

namespace Telegram

open Codec

namespace Resolution

/-! ## The slots

Most of what has to be shown about a resolution is that it does no damage, and for that it does not matter
which types the slots are for. Four lists divide the slots of the table among them: the cached and the
free ones of the table at the start, and of the free ones or of new ones those that have been reserved
since. That a reserved slot is never one of the cached ones is what lets a resolution give everything
back. -/

/-- What a resolution has done to the slots of the table it began with.

It compares the table under way with the one at the start and not with the one before the last step, since
giving up goes back to the start at once. Reserved slots may be empty or filled by now. Either way they
were not filled at the start (`vacant`), and so what was cached at the start is still in its place
(`kept`). -/
structure Allocated (base : SlotTable) (r : Resolution) : Prop where
  /-- Nothing is cached before the resolution has succeeded. -/
  cached_eq : r.table.cached = base.cached
  /-- No slot is reserved twice, or free while it is reserved. -/
  nodup : (r.reserved ++ r.table.free).Nodup
  reserved_lt : ∀ slot ∈ r.reserved, slot < r.table.slots.length
  /-- Only empty slots are reserved. -/
  vacant : ∀ slot ∈ r.reserved, ∀ adapter, base.slots[slot]? ≠ some (some adapter)
  /-- No other slot has changed. -/
  kept : ∀ slot, slot ∉ r.reserved → r.table.slots[slot]? = base.slots[slot]?
  empty_of_free : ∀ slot ∈ r.table.free, r.table.slots[slot]? = some none
  /-- An empty slot is free or reserved. -/
  accounted : ∀ slot, r.table.slots[slot]? = some none → slot ∈ r.reserved ∨ slot ∈ r.table.free

variable {registry : Registry} {version : UInt32} {base : SlotTable} {r : Resolution}

theorem allocated_start (hbase : base.Sound registry) : Allocated base { table := base } where
  cached_eq := rfl
  nodup := hbase.free_nodup
  reserved_lt := fun _ h => absurd h List.not_mem_nil
  vacant := fun _ h => absurd h List.not_mem_nil
  kept := fun _ _ => rfl
  empty_of_free slot hfree := (hbase.empty_iff_free slot).2 hfree
  accounted slot hempty := .inr ((hbase.empty_iff_free slot).1 hempty)

/-- A slot that is cached at the start is never reserved. -/
theorem Allocated.not_mem_reserved (h : r.Allocated base) (hbase : base.Sound registry)
    {type : TypeExpr} {slot : Nat} (hslot : base.slotOf version type = some slot) :
    slot ∉ r.reserved := by
  intro hmem
  obtain ⟨adapter, hfilled, -⟩ := hbase.served version type slot hslot
  exact h.vacant slot hmem adapter hfilled

/-- A resolution that gives its slots back leaves what was cached alone. -/
theorem Allocated.abandon_extends (h : r.Allocated base) (hbase : base.Sound registry) :
    base.Extends r.abandon := by
  intro key slot hslot
  have hmem := h.not_mem_reserved hbase hslot
  constructor
  · rw [SlotTable.slot?, abandon, SlotTable.release_foldl_cached, h.cached_eq]
    exact hslot
  · rw [abandon, SlotTable.release_foldl_slots _ _ h.reserved_lt, if_neg hmem, h.kept slot hmem]

/-- **Giving the slots back restores a sound table**, whatever the resolution had got to. -/
theorem Allocated.abandon_sound (h : r.Allocated base) (hbase : base.Sound registry) :
    r.abandon.Sound registry := by
  have hcached : r.abandon.cached = base.cached := by
    rw [abandon, SlotTable.release_foldl_cached, h.cached_eq]
  have hfree : r.abandon.free = r.reserved.reverse ++ r.table.free :=
    SlotTable.release_foldl_free _ _
  have hslots : ∀ slot, r.abandon.slots[slot]? =
      if slot ∈ r.reserved then some none else r.table.slots[slot]? :=
    SlotTable.release_foldl_slots _ _ h.reserved_lt
  have hslotOf : ∀ version, r.abandon.slotOf version = base.slotOf version := by
    intro version
    funext type
    rw [SlotTable.slotOf, SlotTable.slot?, hcached]
    rfl
  constructor
  case keys_nodup => exact hcached ▸ hbase.keys_nodup
  case slots_nodup => exact hcached ▸ hbase.slots_nodup
  case free_nodup =>
    rw [hfree]
    exact (List.Perm.append_right _ (List.reverse_perm _)).nodup_iff.2 h.nodup
  case empty_iff_free =>
    -- a reserved slot is emptied and freed at once, and nothing changes about the others
    intro slot
    rw [hslots, hfree, List.mem_append, List.mem_reverse]
    split
    · rename_i hmem
      exact ⟨fun _ => .inl hmem, fun _ => rfl⟩
    · rename_i hmem
      exact ⟨h.accounted slot, fun hor => h.empty_of_free slot (hor.resolve_left hmem)⟩
  case cached_of_filled =>
    intro slot adapter hfilled
    rw [hslots] at hfilled
    split at hfilled
    · cases hfilled
    · rename_i hmem
      rw [h.kept slot hmem] at hfilled
      exact hcached ▸ hbase.cached_of_filled slot adapter hfilled
  case served =>
    intro version type slot hslot
    rw [hslotOf] at hslot
    obtain ⟨adapter, hfilled, hserves⟩ := hbase.served version type slot hslot
    have hkept := (h.abandon_extends hbase _ slot hslot).2
    exact ⟨adapter, hkept.trans hfilled, hslotOf version ▸ hserves⟩

/-- What entering a type does to the slot table. -/
theorem Allocated.reserves (h : r.Allocated base) (type : TypeExpr) :
    r.table.Reserves (r.enter type).1 (r.enter type).2.table :=
  SlotTable.reserves_reserve h.empty_of_free

/-- The slot that is reserved next was not reserved before. -/
theorem Allocated.enter_not_mem (h : r.Allocated base) (type : TypeExpr) :
    (r.enter type).1 ∉ r.reserved := by
  intro hmem
  rcases (h.reserves type).taken with hfree | ⟨-, -, hslot⟩
  · have hdisjoint := (List.nodup_append.1 h.nodup).2.2 _ hmem (r.enter type).1
    exact hdisjoint (hfree ▸ List.mem_cons_self ..) rfl
  · exact Nat.lt_irrefl _ (hslot ▸ h.reserved_lt _ hmem)

/-- Entering a type keeps the slots in order. -/
theorem Allocated.enter (h : r.Allocated base) (type : TypeExpr) :
    (r.enter type).2.Allocated base := by
  have hreserves := h.reserves type
  have hnotin := h.enter_not_mem type
  have hmem : ∀ {slot}, slot ∈ (r.enter type).2.reserved ↔ slot ∈ r.reserved ∨ slot = (r.enter type).1 := by
    intro slot
    exact List.mem_append.trans (or_congr_right List.mem_singleton)
  -- the slot is the first of the free ones, or a new one when there is none: `taken` tells the two apart
  constructor
  case cached_eq => exact hreserves.cached_eq.trans h.cached_eq
  case nodup =>
    change ((r.reserved ++ [(r.enter type).1]) ++ (r.enter type).2.table.free).Nodup
    rw [List.append_assoc, List.singleton_append]
    rcases hreserves.taken with hfree | ⟨hnone, hnone', -⟩
    · exact hfree ▸ h.nodup
    · have hnodup := h.nodup
      rw [hnone, List.append_nil] at hnodup
      rw [hnone']
      exact List.nodup_append.2 ⟨hnodup, List.nodup_singleton _, fun slot hslot other hother heq =>
        hnotin (List.mem_singleton.1 hother ▸ heq ▸ hslot)⟩
  case reserved_lt =>
    intro slot hslot
    rcases hmem.1 hslot with hold | rfl
    · exact Nat.lt_of_lt_of_le (h.reserved_lt slot hold) hreserves.length_le
    · exact (List.getElem?_eq_some_iff.1 hreserves.empty).1
  case vacant =>
    intro slot hslot
    rcases hmem.1 hslot with hold | rfl
    · exact h.vacant slot hold
    · rw [← h.kept _ hnotin]
      exact hreserves.vacant
  case kept =>
    intro slot hslot
    rw [hmem, not_or] at hslot
    rw [hreserves.other slot hslot.2, h.kept slot hslot.1]
  case empty_of_free =>
    intro slot hfree
    rcases hreserves.taken with hbefore | ⟨-, hafter, -⟩
    · have hne : slot ≠ (r.enter type).1 := by
        rintro rfl
        have hnodup := (List.nodup_append.1 h.nodup).2.1
        rw [hbefore, List.nodup_cons] at hnodup
        exact hnodup.1 hfree
      rw [hreserves.other slot hne]
      exact h.empty_of_free slot (hbefore ▸ List.mem_cons_of_mem _ hfree)
    · rw [hafter] at hfree
      cases hfree
  case accounted =>
    intro slot hempty
    rw [hmem]
    by_cases heq : slot = (r.enter type).1
    · exact .inl (.inr heq)
    · rw [hreserves.other slot heq] at hempty
      rcases h.accounted slot hempty with hold | hfree
      · exact .inl (.inl hold)
      · rcases hreserves.taken with hbefore | ⟨hbefore, -, -⟩
        · exact .inr ((List.mem_cons.1 (hbefore ▸ hfree)).resolve_left heq)
        · rw [hbefore] at hfree
          cases hfree

/-- Taking a type off the list of those in flight does nothing to the slots. -/
theorem Allocated.leave (h : r.Allocated base) (type : TypeExpr) : (r.leave type).Allocated base :=
  ⟨h.cached_eq, h.nodup, h.reserved_lt, h.vacant, h.kept, h.empty_of_free, h.accounted⟩

/-! ## The types

A reserved slot is reserved for some type. The types whose adapters are being built and those whose
adapters have been built are on two lists, and a type goes from the one to the other when it is settled.
Taken together, the two lists say whose each reserved slot is.

What can be relied on differs between them. An adapter that has been built may refer to slots of either
list, and those of the first are still empty. Its references become good when the recursion comes back to
the type at which it was entered, and the invariant is stated so that this needs no proof of its own:
references are to *types that have slots*, and settling a type does not change which slot it has. -/

/-- Each reserved slot belongs to one type, which has no other slot. The types are those in flight and
those that are resolved already. This is why no slot is filled twice, and none is left empty when all goes
well. -/
structure Owned (version : UInt32) (base : SlotTable) (r : Resolution) : Prop
    extends Allocated base r where
  /-- The order in which slots were reserved is not that in which types were entered and left. -/
  owned : r.reserved.Perm ((r.inFlight ++ r.resolved).map Prod.snd)
  types_nodup : ((r.inFlight ++ r.resolved).map Prod.fst).Nodup
  uncached : ∀ entry ∈ r.inFlight ++ r.resolved, base.slotOf version entry.1 = none

/-- What holds of a resolution that has not failed.

The slot of a type in flight is still empty. That is what makes it impossible to fill a slot twice, and it
is the only reason why `Resolution.settle?` has an answer. The slot of a type that has been built holds an
adapter that carries out the plan of the type, by way of the slots that types have *in this resolution*:
those cached at the start, those built since, and those in flight.

A resolution that has failed somewhere below is not valid any more. An adapter built on the way may refer
to the slot of a type that was given up. All slots are then released, so `Resolution.Allocated` is enough.
-/
structure Valid (registry : Registry) (version : UInt32) (base : SlotTable) (r : Resolution) : Prop
    extends Owned version base r where
  /-- The slot of a type that is being built waits for its adapter. -/
  empty_of_inFlight : ∀ entry ∈ r.inFlight, r.table.slots[entry.2]? = some none
  /-- The slot of a type that has been built holds the adapter that its plan asks for. -/
  served : ∀ entry ∈ r.resolved, ∃ adapter, r.table.slots[entry.2]? = some (some adapter) ∧
    registry.Serves (r.slot? version) version entry.1 adapter

theorem valid_start (hbase : base.Sound registry) : Valid registry version base { table := base } where
  toAllocated := allocated_start hbase
  owned := List.Perm.refl _
  types_nodup := List.nodup_nil
  uncached := fun _ h => absurd h List.not_mem_nil
  empty_of_inFlight := fun _ h => absurd h List.not_mem_nil
  served := fun _ h => absurd h List.not_mem_nil

theorem Owned.slots_nodup (h : r.Owned version base) :
    ((r.inFlight ++ r.resolved).map Prod.snd).Nodup :=
  h.owned.nodup_iff.1 (List.nodup_append.1 h.nodup).1

/-- **Where a type's slot comes from**: from the table at the start, or from the resolution. -/
theorem Owned.slot?_eq_some_iff (h : r.Owned version base) {type : TypeExpr} {slot : Nat} :
    r.slot? version type = some slot ↔
      base.slotOf version type = some slot ∨ (type, slot) ∈ r.inFlight ++ r.resolved := by
  have hbase : r.table.slot? ⟨type, version⟩ = base.slotOf version type := by
    rw [SlotTable.slot?, h.cached_eq]
    rfl
  have hlists : (r.resolved.lookup type).or (r.inFlight.lookup type) = some slot ↔
      (type, slot) ∈ r.inFlight ++ r.resolved := by
    have hnodup : ((r.resolved ++ r.inFlight).map Prod.fst).Nodup :=
      (List.perm_append_comm.map Prod.fst).nodup_iff.1 h.types_nodup
    rw [← List.lookup_append, List.perm_append_comm.mem_iff]
    exact ⟨mem_of_lookup_eq_some, lookup_eq_some_of_mem hnodup⟩
  rw [slot?, hbase]
  cases hcached : base.slotOf version type with
  | none => simpa using hlists
  | some cached =>
    have hnotin : ∀ slot, (type, slot) ∉ r.inFlight ++ r.resolved := by
      intro slot hmem
      have hnone := h.uncached _ hmem
      rw [hcached] at hnone
      cases hnone
    simp [hnotin]

/-- A type without a slot is neither cached nor built nor being built. -/
theorem Owned.not_mem_of_slot?_eq_none (h : r.Owned version base) {type : TypeExpr}
    (hnone : r.slot? version type = none) :
    base.slotOf version type = none ∧ type ∉ (r.inFlight ++ r.resolved).map Prod.fst := by
  have hno : ∀ slot, r.slot? version type ≠ some slot := by simp [hnone]
  simp only [ne_eq, h.slot?_eq_some_iff, not_or] at hno
  constructor
  · cases hcached : base.slotOf version type with
    | none => rfl
    | some slot => exact absurd hcached (hno slot).1
  · intro hmem
    obtain ⟨⟨other, slot⟩, hentry, rfl⟩ := List.mem_map.1 hmem
    exact (hno slot).2 hentry

/-- What a resolution has given slots to keeps them when more types are listed. -/
theorem Owned.slot?_mono {r' : Resolution} (h : r.Owned version base) (h' : r'.Owned version base)
    (hmem : ∀ entry ∈ r.inFlight ++ r.resolved, entry ∈ r'.inFlight ++ r'.resolved) :
    ∀ type slot, r.slot? version type = some slot → r'.slot? version type = some slot := by
  intro type slot hslot
  rw [h.slot?_eq_some_iff] at hslot
  exact h'.slot?_eq_some_iff.2 (hslot.imp_right (hmem _))

/-! ## Entering a type

The type gets a slot of its own before anything is known about its adapter, so that whatever needs it in
the meantime has something to refer to. -/

theorem Owned.enter (h : r.Owned version base) {type : TypeExpr}
    (hnone : r.slot? version type = none) : (r.enter type).2.Owned version base := by
  obtain ⟨hcached, hfresh⟩ := h.not_mem_of_slot?_eq_none hnone
  refine ⟨h.toAllocated.enter type, ?owned, ?types, ?uncached⟩
  case owned =>
    change (r.reserved ++ [(r.enter type).1]).Perm (_ :: (r.inFlight ++ r.resolved).map Prod.snd)
    exact (List.perm_append_singleton _ _).trans (h.owned.cons _)
  case types => exact List.nodup_cons.2 ⟨hfresh, h.types_nodup⟩
  case uncached =>
    intro entry hentry
    rcases List.mem_cons.1 hentry with rfl | hold
    · exact hcached
    · exact h.uncached entry hold

theorem Valid.slot?_enter (h : r.Valid registry version base) {type : TypeExpr}
    (hnone : r.slot? version type = none) :
    ∀ other slot, r.slot? version other = some slot →
      (r.enter type).2.slot? version other = some slot :=
  h.toOwned.slot?_mono (h.toOwned.enter hnone) fun _ hentry => List.mem_cons_of_mem _ hentry

/-- **Entering a type** whose adapter has to be built. -/
theorem Valid.enter (h : r.Valid registry version base) {type : TypeExpr}
    (hnone : r.slot? version type = none) : (r.enter type).2.Valid registry version base := by
  have hreserves := h.reserves type
  have hnotin := h.enter_not_mem type
  have hother : ∀ entry ∈ r.inFlight ++ r.resolved, entry.2 ≠ (r.enter type).1 := by
    intro entry hentry heq
    exact hnotin (heq ▸ h.owned.mem_iff.2 (List.mem_map_of_mem hentry))
  refine ⟨h.toOwned.enter hnone, ?empty, ?served⟩
  case empty =>
    intro entry hentry
    rcases List.mem_cons.1 hentry with rfl | hold
    · exact hreserves.empty
    · rw [hreserves.other _ (hother entry (List.mem_append_left _ hold))]
      exact h.empty_of_inFlight entry hold
  case served =>
    intro entry hentry
    obtain ⟨adapter, hfilled, hserves⟩ := h.served entry hentry
    refine ⟨adapter, ?_, hserves.mono (h.slot?_enter hnone)⟩
    rw [hreserves.other _ (hother entry (List.mem_append_right _ hentry)), hfilled]

/-! ## Settling a type

Settling undoes entering as far as the lists of types go: the type was put in front of those in flight,
all that came after it has been settled or given up, and so it stands in front again. Only its own slot
changes. -/

/-- A type that is no longer being built is taken off the list, and only it. -/
theorem leave_of_cons {type : TypeExpr} {slot : Nat} {inFlight : List (TypeExpr × Nat)}
    (hinFlight : r.inFlight = (type, slot) :: inFlight) (hfresh : type ∉ inFlight.map Prod.fst) :
    r.leave type = { r with inFlight } := by
  have hkept : inFlight.filter (fun entry => entry.1 ≠ type) = inFlight := by
    refine List.filter_eq_self.2 fun entry hentry => ?_
    simp only [ne_eq, decide_eq_true_eq]
    exact fun heq => hfresh (heq ▸ List.mem_map_of_mem hentry)
  rw [leave, hinFlight, List.filter_cons_of_neg (by simp), hkept]

/-- Filling a reserved slot keeps the slots in order. -/
theorem Allocated.fill (h : r.Allocated base) {slot : Nat} (hslot : slot ∈ r.reserved)
    (adapter : Adapter) (inFlight resolved : List (TypeExpr × Nat)) :
    Allocated base { r with
      table := { r.table with slots := r.table.slots.set slot (some adapter) }, inFlight, resolved } := by
  refine ⟨h.cached_eq, h.nodup, ?lt, h.vacant, ?kept, ?empty, ?accounted⟩
  case lt =>
    intro other hother
    exact Nat.lt_of_lt_of_eq (h.reserved_lt other hother) List.length_set.symm
  case kept =>
    intro other hother
    have hne : slot ≠ other := fun heq => hother (heq ▸ hslot)
    exact (List.getElem?_set_ne hne).trans (h.kept other hother)
  case empty =>
    intro other hother
    have hne : slot ≠ other := (List.nodup_append.1 h.nodup).2.2 slot hslot other hother
    exact (List.getElem?_set_ne hne).trans (h.empty_of_free other hother)
  case accounted =>
    intro other hother
    by_cases heq : slot = other
    · exact .inl (heq ▸ hslot)
    · exact h.accounted other ((List.getElem?_set_ne heq).symm.trans hother)

/-- **Settling a type** whose adapter has been built: the slot it was entered with is still empty, and the
type has the same slot as before. -/
theorem Valid.settle (h : r.Valid registry version base) {type : TypeExpr} {slot : Nat}
    {inFlight : List (TypeExpr × Nat)} (hinFlight : r.inFlight = (type, slot) :: inFlight)
    {adapter : Adapter} (hserves : registry.Serves (r.slot? version) version type adapter) :
    ∃ r', (r.leave type).settle? type slot adapter = some r' ∧ r'.Valid registry version base ∧
      r'.inFlight = inFlight ∧ r'.slot? version = r.slot? version := by
  have hlisted : (type, slot) ∈ r.inFlight := hinFlight ▸ List.mem_cons_self ..
  have hempty : r.table.slots[slot]? = some none := h.empty_of_inFlight _ hlisted
  have hreserved : slot ∈ r.reserved :=
    h.owned.mem_iff.2 (List.mem_map.2 ⟨_, List.mem_append_left _ hlisted, rfl⟩)
  -- the type goes from one list to the other, and both lists together keep their entries
  have hmoved : (inFlight ++ (type, slot) :: r.resolved).Perm (r.inFlight ++ r.resolved) := by
    rw [hinFlight]
    exact List.perm_middle
  have hother : ∀ entry ∈ inFlight ++ r.resolved, slot ≠ entry.2 := by
    intro entry hentry heq
    have hnodup := (hmoved.map Prod.snd).nodup_iff.2 h.slots_nodup
    rw [List.map_append, List.map_cons, List.nodup_middle, List.nodup_cons, ← List.map_append] at hnodup
    exact hnodup.1 (List.mem_map.2 ⟨entry, hentry, heq.symm⟩)
  have hfresh : type ∉ inFlight.map Prod.fst := by
    have hnodup := h.types_nodup
    rw [hinFlight, List.cons_append, List.map_cons, List.nodup_cons, List.map_append] at hnodup
    exact fun hmem => hnodup.1 (List.mem_append_left _ hmem)
  -- the table after the slot is filled; what is found in it is what was found before
  let r' : Resolution := { r with
    table := { r.table with slots := r.table.slots.set slot (some adapter) }
    inFlight
    resolved := (type, slot) :: r.resolved }
  have howned : r'.Owned version base :=
    ⟨h.toAllocated.fill hreserved adapter inFlight _, h.owned.trans (hmoved.map Prod.snd).symm,
      (hmoved.map Prod.fst).nodup_iff.2 h.types_nodup,
      fun entry hentry => h.uncached entry (hmoved.mem_iff.1 hentry)⟩
  have hslot? : r'.slot? version = r.slot? version := by
    funext other
    refine Option.ext fun found => ?_
    rw [howned.slot?_eq_some_iff, h.slot?_eq_some_iff]
    exact or_congr_right hmoved.mem_iff
  refine ⟨r', ?settled, ⟨howned, ?empty, ?served⟩, rfl, hslot?⟩
  case settled =>
    rw [leave_of_cons hinFlight hfresh, settle?, SlotTable.fill?]
    simp only [hempty]
    rfl
  case empty =>
    intro entry hentry
    have hne := hother entry (List.mem_append_left _ hentry)
    have hentry' : entry ∈ r.inFlight := hinFlight ▸ List.mem_cons_of_mem _ hentry
    exact (List.getElem?_set_ne hne).trans (h.empty_of_inFlight entry hentry')
  case served =>
    intro entry hentry
    rw [hslot?]
    rcases List.mem_cons.1 hentry with rfl | hold
    · exact ⟨adapter, List.getElem?_set_self (List.getElem?_eq_some_iff.1 hempty).1, hserves⟩
    · obtain ⟨other, hfilled, hserved⟩ := h.served entry hold
      have hne := hother entry (List.mem_append_right _ hold)
      exact ⟨other, (List.getElem?_set_ne hne).trans hfilled, hserved⟩

/-! ## Publishing

With nothing left in flight, the lists of types say that every reserved slot is filled, and each reference
is to a type that is cached from now on. This is the point at which an adapter that was built with
references to empty slots turns out to be right. -/

/-- What is cached after publishing: what was cached at the start, and what has been built. -/
theorem Owned.publish_eq (h : r.Owned version base) :
    r.publish version =
      { r.table with
        cached := (r.resolved.map fun entry => (⟨entry.1, version⟩, entry.2)).reverse ++ base.cached } := by
  have hnodup : (r.resolved.map Prod.fst).Nodup := by
    have hnodup := h.types_nodup
    rw [List.map_append] at hnodup
    exact (List.nodup_append.1 hnodup).2.1
  have hfresh : ∀ entry ∈ r.resolved, r.table.slotOf version entry.1 = none := by
    intro entry hentry
    rw [SlotTable.slotOf, SlotTable.slot?, h.cached_eq]
    exact h.uncached entry (List.mem_append_right _ hentry)
  rw [publish, SlotTable.publish_foldl version _ _ hnodup hfresh, h.cached_eq]

theorem Owned.mem_publish (h : r.Owned version base) {key : Key} {slot : Nat} :
    (key, slot) ∈ (r.publish version).cached ↔
      key.version = version ∧ (key.type, slot) ∈ r.resolved ∨ (key, slot) ∈ base.cached := by
  rw [h.publish_eq, List.mem_append, List.mem_reverse, List.mem_map]
  refine or_congr_left ⟨?_, ?_⟩
  · rintro ⟨entry, hentry, heq⟩
    obtain ⟨rfl, rfl⟩ := Prod.mk.inj heq
    exact ⟨rfl, hentry⟩
  · rintro ⟨rfl, hentry⟩
    exact ⟨_, hentry, rfl⟩

theorem Owned.publish_keys_nodup (h : r.Owned version base) (hbase : base.Sound registry) :
    ((r.publish version).cached.map Prod.fst).Nodup := by
  have hnodup := h.types_nodup
  rw [List.map_append] at hnodup
  have hbuilt : (r.resolved.map fun entry => (⟨entry.1, version⟩ : Key)).Nodup := by
    have hinj : Function.Injective fun type => (⟨type, version⟩ : Key) :=
      fun _ _ heq => congrArg Key.type heq
    have hmapped := (List.nodup_append.1 hnodup).2.1.map hinj
    rwa [List.map_map] at hmapped
  rw [h.publish_eq, List.map_append, List.map_reverse, List.map_map]
  refine List.nodup_append.2 ⟨List.nodup_reverse.2 hbuilt, hbase.keys_nodup, ?_⟩
  rintro key hkey other hother rfl
  obtain ⟨entry, hentry, rfl⟩ := List.mem_map.1 (List.mem_reverse.1 hkey)
  exact lookup_eq_none_iff_not_mem.1 (h.uncached entry (List.mem_append_right _ hentry)) hother

theorem Owned.publish_slots_nodup (h : r.Owned version base) (hbase : base.Sound registry) :
    ((r.publish version).cached.map Prod.snd).Nodup := by
  have hnodup := h.slots_nodup
  rw [List.map_append] at hnodup
  rw [h.publish_eq, List.map_append, List.map_reverse, List.map_map]
  refine List.nodup_append.2
    ⟨List.nodup_reverse.2 (List.nodup_append.1 hnodup).2.1, hbase.slots_nodup, ?_⟩
  rintro slot hslot other hother rfl
  obtain ⟨entry, hentry, rfl⟩ := List.mem_map.1 (List.mem_reverse.1 hslot)
  -- a slot that was cached before is filled, and one that was reserved since is not
  obtain ⟨adapter, hfilled⟩ := hbase.filled_of_mem hother
  have hreserved := h.owned.mem_iff.2 (List.mem_map_of_mem (List.mem_append_right r.inFlight hentry))
  exact h.vacant _ hreserved adapter hfilled

/-- Publishing changes which types are found, and by no more than what has been built. -/
theorem Owned.publish_slotOf (h : r.Owned version base) (hbase : base.Sound registry)
    {other : UInt32} {type : TypeExpr} {slot : Nat} :
    (r.publish version).slotOf other type = some slot ↔
      other = version ∧ (type, slot) ∈ r.resolved ∨ base.slotOf other type = some slot := by
  rw [SlotTable.slotOf_eq_some_iff (h.publish_keys_nodup hbase),
    SlotTable.slotOf_eq_some_iff hbase.keys_nodup, h.mem_publish]

theorem Owned.publish_extends (h : r.Owned version base) (hbase : base.Sound registry) :
    base.Extends (r.publish version) := by
  intro key slot hslot
  refine ⟨(h.publish_slotOf hbase).2 (.inr hslot), ?_⟩
  rw [h.publish_eq]
  exact h.kept slot (h.not_mem_reserved hbase hslot)

/-- Once nothing is being built any more, publishing makes every slot of the resolution known. -/
theorem Owned.publish_slotOf_eq (h : r.Owned version base) (hbase : base.Sound registry)
    (hdone : r.inFlight = []) : (r.publish version).slotOf version = r.slot? version := by
  funext type
  refine Option.ext fun slot => ?_
  rw [h.publish_slotOf hbase, h.slot?_eq_some_iff, hdone, List.nil_append, or_comm]
  exact or_congr_right (and_iff_right rfl)

/-- **Publishing a resolution restores a sound table**, once nothing is being built any more. -/
theorem Valid.publish_sound (h : r.Valid registry version base) (hbase : base.Sound registry)
    (hdone : r.inFlight = []) : (r.publish version).Sound registry := by
  have howned : ∀ slot, slot ∈ r.reserved → ∃ type, (type, slot) ∈ r.resolved := by
    intro slot hslot
    obtain ⟨⟨type, slot⟩, hentry, rfl⟩ := List.mem_map.1 (h.owned.mem_iff.1 hslot)
    rw [hdone, List.nil_append] at hentry
    exact ⟨type, hentry⟩
  have hslots : (r.publish version).slots = r.table.slots := by rw [h.publish_eq]
  have hfree : (r.publish version).free = r.table.free := by rw [h.publish_eq]
  refine ⟨h.publish_keys_nodup hbase, h.publish_slots_nodup hbase, ?free, ?empty, ?filled, ?served⟩
  case free => exact hfree ▸ (List.nodup_append.1 h.nodup).2.1
  case empty =>
    -- what was reserved has been resolved, so it is filled, and an empty slot is a free one
    intro slot
    rw [hslots, hfree]
    refine ⟨fun hempty => (h.accounted slot hempty).resolve_left fun hreserved => ?_,
      h.empty_of_free slot⟩
    obtain ⟨type, hentry⟩ := howned slot hreserved
    obtain ⟨adapter, hfilled, -⟩ := h.served _ hentry
    rw [hempty] at hfilled
    cases hfilled
  case filled =>
    intro slot adapter hfilled
    rw [hslots] at hfilled
    by_cases hreserved : slot ∈ r.reserved
    · obtain ⟨type, hentry⟩ := howned slot hreserved
      exact List.mem_map.2 ⟨(⟨type, version⟩, slot), h.mem_publish.2 (.inl ⟨rfl, hentry⟩), rfl⟩
    · rw [h.kept slot hreserved] at hfilled
      obtain ⟨entry, hentry, rfl⟩ := List.mem_map.1 (hbase.cached_of_filled slot adapter hfilled)
      exact List.mem_map.2 ⟨entry, h.mem_publish.2 (.inr hentry), rfl⟩
  case served =>
    intro other type slot hslot
    rcases (h.publish_slotOf hbase).1 hslot with ⟨rfl, hentry⟩ | hold
    · rw [hslots, h.publish_slotOf_eq hbase hdone]
      exact h.served _ hentry
    · obtain ⟨adapter, hfilled, hserves⟩ := hbase.served other type slot hold
      have hextends := h.publish_extends hbase
      exact ⟨adapter, (hextends _ slot hold).2.trans hfilled, hserves.mono (hextends.slotOf other)⟩

end Resolution

end Telegram
