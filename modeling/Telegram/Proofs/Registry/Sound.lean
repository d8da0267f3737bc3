import Mathlib.Data.List.Nodup
import Telegram.Proofs.Registry.Plan

/-!
# Sound slot tables

`SlotTable.Sound` is what holds of a slot table between two calls. Every slot is in one of two
situations:

* it is **filled**, and then it is the cached slot of one type at one version, and holds the adapter that
  the registry has for that type, with references to slots that are cached at the same version;
* it is **empty**, and then it is free, once.

`SlotTable.Extends` is how a table may change: what is cached stays cached, in a slot that is not touched
again. The rest of this file says what the operations of a table do to its slots.
-/

namespace Telegram

open Codec

/-! ## Association lists

The cache is an association list, and looking a key up in it says more than that an entry is there: the
entry has to be the first with its key. Where no key is repeated the two come to the same, and the
invariants below are stated of entries. -/

/-- In a list without repeated keys, an entry is what its key is looked up to. -/
theorem lookup_eq_some_of_mem {α β : Type} [DecidableEq α] {entries : List (α × β)}
    (hnodup : (entries.map Prod.fst).Nodup) {key : α} {value : β} (hmem : (key, value) ∈ entries) :
    entries.lookup key = some value := by
  induction entries with
  | nil => cases hmem
  | cons entry rest ih =>
    obtain ⟨other, stored⟩ := entry
    rw [List.map_cons, List.nodup_cons] at hnodup
    rcases List.mem_cons.1 hmem with heq | hrest
    · obtain ⟨rfl, rfl⟩ := Prod.mk.inj heq
      exact List.lookup_cons_self
    · have hne : key ≠ other := by
        rintro rfl
        exact hnodup.1 (List.mem_map.2 ⟨_, hrest, rfl⟩)
      rw [List.lookup_cons, beq_false_of_ne hne]
      exact ih hnodup.2 hrest

theorem mem_of_lookup_eq_some {α β : Type} [DecidableEq α] {entries : List (α × β)} {key : α}
    {value : β} (hlookup : entries.lookup key = some value) : (key, value) ∈ entries := by
  obtain ⟨front, back, rfl, -⟩ := List.lookup_eq_some_iff.1 hlookup
  exact List.mem_append_right _ (List.mem_cons_self ..)

theorem lookup_eq_none_iff_not_mem {α β : Type} [DecidableEq α] {entries : List (α × β)} {key : α} :
    entries.lookup key = none ↔ key ∉ entries.map Prod.fst := by
  simp only [List.lookup_eq_none_iff, bne_iff_ne, List.mem_map, not_exists, not_and]
  exact ⟨fun h entry hmem heq => h entry hmem heq.symm, fun h entry hmem heq => h entry hmem heq.symm⟩

/-! ## The invariant

A resolution hands out the slot of a type before there is anything in it, and it may fail after that. What
it leaves behind has to be a table that the next call can rely on without knowing any of this. So the
invariant says nothing of how a table came about. It says of each slot which of two things it is, and of
each cached type that its adapter is the right one. -/

namespace SlotTable

/-- The slots that types have at a version. -/
def slotOf (table : SlotTable) (version : UInt32) (type : TypeExpr) : Option Nat :=
  table.slot? ⟨type, version⟩

/-- What holds of a slot table between two calls.

Slots are either free or cached. The empty ones are exactly those on the list of free slots, which has
none of them twice, so that no slot is ever lost and none is handed out for two types. The filled ones are
exactly those that are cached, each for one type at one version.

The last condition is what callers of a resolution are after. A cached type is served by the adapter that
its plan asks for, and the slots that this adapter refers to are themselves cached, at the same version.
There is no order in this: the adapters of a recursive type refer to each other, and are all right
together. -/
structure Sound (registry : Registry) (table : SlotTable) : Prop where
  /-- No type has two slots at one version. -/
  keys_nodup : (table.cached.map Prod.fst).Nodup
  /-- No slot is that of two types. -/
  slots_nodup : (table.cached.map Prod.snd).Nodup
  free_nodup : table.free.Nodup
  empty_iff_free : ∀ slot, table.slots[slot]? = some none ↔ slot ∈ table.free
  /-- Every filled slot can be found again. -/
  cached_of_filled : ∀ slot adapter, table.slots[slot]? = some (some adapter) →
    slot ∈ table.cached.map Prod.snd
  /-- The adapter of a cached type carries the plan of that type out, by way of the slots of this table.
  -/
  served : ∀ version type slot, table.slotOf version type = some slot →
    ∃ adapter, table.slots[slot]? = some (some adapter) ∧
      registry.Serves (table.slotOf version) version type adapter

/-- Where no key is cached twice, what is cached is what is found. -/
theorem slotOf_eq_some_iff {table : SlotTable} (hnodup : (table.cached.map Prod.fst).Nodup)
    {version : UInt32} {type : TypeExpr} {slot : Nat} :
    table.slotOf version type = some slot ↔ (⟨type, version⟩, slot) ∈ table.cached :=
  ⟨mem_of_lookup_eq_some, lookup_eq_some_of_mem hnodup⟩

/-- A slot that is cached is filled. -/
theorem Sound.filled_of_mem {registry : Registry} {table : SlotTable} (h : table.Sound registry)
    {slot : Nat} (hmem : slot ∈ table.cached.map Prod.snd) :
    ∃ adapter, table.slots[slot]? = some (some adapter) := by
  obtain ⟨⟨⟨type, version⟩, slot⟩, hentry, rfl⟩ := List.mem_map.1 hmem
  obtain ⟨adapter, hfilled, -⟩ := h.served version type slot ((slotOf_eq_some_iff h.keys_nodup).2 hentry)
  exact ⟨adapter, hfilled⟩

/-- A table without any slot is sound. -/
theorem sound_empty (registry : Registry) : Sound registry {} where
  keys_nodup := List.nodup_nil
  slots_nodup := List.nodup_nil
  free_nodup := List.nodup_nil
  empty_iff_free slot := by simp
  cached_of_filled slot adapter hfilled := by simp at hfilled
  served version type slot hslot := by cases hslot

/-- Where a slot is filled, that is the adapter in it. -/
theorem adapter_eq_ok {table : SlotTable} {slot : Nat} {adapter : Adapter}
    (hfilled : table.slots[slot]? = some (some adapter)) : table.adapter slot = .ok adapter := by
  rw [SlotTable.adapter, hfilled]

/-- Every cached type stays cached in its slot, and the slot keeps its adapter.

This is why a call may go on with a slot that it was given earlier, after other types have been resolved
in between. Nothing is said of empty slots: those come and go with resolutions that fail. -/
def Extends (before after : SlotTable) : Prop :=
  ∀ key slot, before.slot? key = some slot →
    after.slot? key = some slot ∧ after.slots[slot]? = before.slots[slot]?

theorem Extends.refl (table : SlotTable) : table.Extends table :=
  fun _ _ hslot => ⟨hslot, rfl⟩

theorem Extends.trans {first second third : SlotTable} (h : first.Extends second)
    (h' : second.Extends third) : first.Extends third := by
  intro key slot hslot
  obtain ⟨hsecond, hkept⟩ := h key slot hslot
  obtain ⟨hthird, hkept'⟩ := h' key slot hsecond
  exact ⟨hthird, hkept'.trans hkept⟩

theorem Extends.slotOf {before after : SlotTable} (h : before.Extends after) (version : UInt32) :
    ∀ type slot, before.slotOf version type = some slot → after.slotOf version type = some slot :=
  fun _ slot hslot => (h _ slot hslot).1

/-! ## Reserving a slot

A slot is reserved by taking the first of the free ones, and by growing the table only when there is none.
The two cases differ in what becomes of the list of free slots and of the length of the table. For
everything else they are alike, and `SlotTable.Reserves` is what they have in common. -/

/-- What reserving a slot does: an empty slot is taken off the free ones, or appended when none is free.
Which of the two it was is of no account to what is done with the slot. -/
structure Reserves (before : SlotTable) (slot : Nat) (after : SlotTable) : Prop where
  cached_eq : after.cached = before.cached
  empty : after.slots[slot]? = some none
  /-- No adapter has been in the slot. There may have been no such slot. -/
  vacant : ∀ adapter, before.slots[slot]? ≠ some (some adapter)
  other : ∀ other, other ≠ slot → after.slots[other]? = before.slots[other]?
  taken : before.free = slot :: after.free ∨
    before.free = [] ∧ after.free = [] ∧ slot = before.slots.length

theorem reserves_reserve {table : SlotTable}
    (hempty : ∀ slot ∈ table.free, table.slots[slot]? = some none) :
    table.Reserves table.reserve.1 table.reserve.2 := by
  cases hfree : table.free with
  | cons slot free =>
    have hreserve : table.reserve = (slot, { table with free }) := by rw [reserve, hfree]
    have hslot := hempty slot (hfree ▸ List.mem_cons_self ..)
    rw [hreserve]
    refine ⟨rfl, hslot, ?_, fun _ _ => rfl, .inl hfree⟩
    simp [hslot]
  | nil =>
    have hreserve : table.reserve =
        (table.slots.length, { table with slots := table.slots ++ [none] }) := by
      rw [reserve, hfree]
    rw [hreserve]
    refine ⟨rfl, List.getElem?_concat_length, ?_, ?_, .inr ⟨hfree, hfree, rfl⟩⟩
    · simp
    · intro other hne
      rcases Nat.lt_or_gt_of_ne hne with hlt | hgt
      · exact List.getElem?_append_left hlt
      · rw [List.getElem?_eq_none (by simp; omega), List.getElem?_eq_none (by omega)]

theorem Reserves.length_le {before after : SlotTable} {slot : Nat}
    (h : before.Reserves slot after) : before.slots.length ≤ after.slots.length := by
  by_contra hlt
  have hne : after.slots.length ≠ slot := by
    intro heq
    have hempty := h.empty
    rw [← heq, List.getElem?_eq_none (Nat.le_refl _)] at hempty
    cases hempty
  have hother := h.other _ hne
  rw [List.getElem?_eq_none (Nat.le_refl _), eq_comm, List.getElem?_eq_none_iff] at hother
  exact hlt hother

/-! ## Releasing slots

A resolution that fails releases all that it has reserved, one slot after the other. As releasing a slot
only touches that slot, the order shows in the list of free slots alone. -/

theorem release_foldl_cached (released : List Nat) (table : SlotTable) :
    (released.foldl release table).cached = table.cached := by
  induction released generalizing table with
  | nil => rfl
  | cons slot rest ih => exact ih (table.release slot)

theorem release_foldl_free (released : List Nat) (table : SlotTable) :
    (released.foldl release table).free = released.reverse ++ table.free := by
  induction released generalizing table with
  | nil => rfl
  | cons slot rest ih =>
    rw [List.foldl_cons, ih, release, List.reverse_cons, List.append_assoc]
    rfl

/-- Releasing empties the released slots. -/
theorem release_foldl_slots (released : List Nat) (table : SlotTable)
    (hrange : ∀ slot ∈ released, slot < table.slots.length) (slot : Nat) :
    (released.foldl release table).slots[slot]? =
      if slot ∈ released then some none else table.slots[slot]? := by
  induction released generalizing table with
  | nil => rw [List.foldl_nil, if_neg List.not_mem_nil]
  | cons first rest ih =>
    have hlength : (table.release first).slots.length = table.slots.length := List.length_set ..
    rw [List.foldl_cons, ih (table.release first)
      (fun other hmem => hlength ▸ hrange other (List.mem_cons_of_mem _ hmem))]
    by_cases hrest : slot ∈ rest
    · rw [if_pos hrest, if_pos (List.mem_cons_of_mem _ hrest)]
    · rw [if_neg hrest, release]
      by_cases hfirst : first = slot
      · subst hfirst
        rw [if_pos (List.mem_cons_self ..),
          List.getElem?_set_self (hrange first (List.mem_cons_self ..))]
      · rw [List.getElem?_set_ne hfirst, if_neg]
        exact fun hmem => (List.mem_cons.1 hmem).elim (fun h => hfirst h.symm) hrest

/-! ## Publishing slots

A resolution that succeeds publishes what it has built, one type after the other. A type that has a slot
already would be passed over; the types of one resolution are new and differ from each other, so all of
them go in. -/

/-- Publishing types that have no slot yet puts them in front of what is cached. -/
theorem publish_foldl (version : UInt32) (entries : List (TypeExpr × Nat)) (table : SlotTable)
    (hnodup : (entries.map Prod.fst).Nodup)
    (hfresh : ∀ entry ∈ entries, table.slotOf version entry.1 = none) :
    entries.foldl (fun table (type, slot) => table.publish ⟨type, version⟩ slot) table =
      { table with
        cached := (entries.map fun entry => (⟨entry.1, version⟩, entry.2)).reverse ++ table.cached } := by
  induction entries generalizing table with
  | nil => rfl
  | cons entry rest ih =>
    obtain ⟨type, slot⟩ := entry
    rw [List.map_cons, List.nodup_cons] at hnodup
    have hfirst : table.slot? ⟨type, version⟩ = none := hfresh _ (List.mem_cons_self ..)
    have hpublish : table.publish ⟨type, version⟩ slot =
        { table with cached := (⟨type, version⟩, slot) :: table.cached } := by
      rw [publish, hfirst]
    rw [List.foldl_cons]
    change rest.foldl _ (table.publish ⟨type, version⟩ slot) = _
    rw [hpublish, ih _ hnodup.2]
    · simp
    -- the types differ, so the later ones are still without a slot when the first has been given one
    · intro other hmem
      have hne : (⟨other.1, version⟩ : Key) ≠ ⟨type, version⟩ := by
        intro heq
        have heq' : other.1 = type := congrArg Key.type heq
        exact hnodup.1 (List.mem_map.2 ⟨other, hmem, heq'⟩)
      rw [slotOf, slot?, List.lookup_cons, beq_false_of_ne hne]
      exact hfresh other (List.mem_cons_of_mem _ hmem)

end SlotTable

end Telegram
