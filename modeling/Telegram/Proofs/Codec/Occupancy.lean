import Mathlib.Logic.Relation
import Telegram.Proofs.Codec.History
import Telegram.Proofs.Codec.Total

/-!
# How slots are used

After any history of calls, every slot of the table is in use for one type at one version, or lies empty
and is free once. Slots are neither lost nor handed out twice, also not by resolutions that failed half
way.

* `SlotTable.Occupied` and `SlotTable.Vacant` are the two situations of a slot. They are what
  `SlotTable.Sound` comes to, slot by slot (`SlotTable.Sound.occupied_or_vacant`), and counting them gives
  the size of the table (`SlotTable.Sound.length_slots`).
* `Registry.Later` relates two tables with calls between them. What is cached stays in its slot, with its
  adapter (`Registry.Later.reached_extends`).
* `Registry.Reached.slots_accounted` is all of it for the tables that histories lead to, and that none of
  the calls fails to fill a slot that it reserved.

All of this is in the invariant of slot tables already, in the form in which the induction needs it. Here
it is turned into what one would ask of a table when looking at it.
-/

namespace Telegram

open Codec

/-! ## One slot

That a slot is in one situation or the other is not by definition. A slot could be filled and free, or
empty and cached, or empty and forgotten, and the invariant excludes each of these. -/

namespace SlotTable

/-- The slot holds an adapter, for one type at one version, and is not free. That there is one such type
and no second is what lets an adapter refer to others by slot. -/
structure Occupied (table : SlotTable) (slot : Nat) : Prop where
  filled : ∃ adapter, table.slots[slot]? = some (some adapter)
  named : ∃! key, table.slot? key = some slot
  not_free : slot ∉ table.free

/-- The slot is empty and free once, and nothing is cached in it. Once, since a slot that were free twice
would be reserved for two types. -/
structure Vacant (table : SlotTable) (slot : Nat) : Prop where
  empty : table.slots[slot]? = some none
  free_once : table.free.count slot = 1
  unnamed : ∀ key, table.slot? key ≠ some slot

variable {registry : Registry} {table : SlotTable}

theorem Occupied.not_vacant {slot : Nat} (h : table.Occupied slot) : ¬ table.Vacant slot := by
  intro hvacant
  obtain ⟨adapter, hfilled⟩ := h.filled
  rw [hvacant.empty] at hfilled
  cases hfilled

/-- A slot with an adapter belongs to one type at one version. -/
theorem Sound.occupied (h : table.Sound registry) {slot : Nat} {adapter : Adapter}
    (hfilled : table.slots[slot]? = some (some adapter)) : table.Occupied slot := by
  refine ⟨⟨adapter, hfilled⟩, ?named, ?free⟩
  case named =>
    obtain ⟨⟨key, slot⟩, hentry, rfl⟩ := List.mem_map.1 (h.cached_of_filled slot adapter hfilled)
    refine ⟨key, lookup_eq_some_of_mem h.keys_nodup hentry, fun other hother => ?_⟩
    have hother' := mem_of_lookup_eq_some hother
    exact congrArg Prod.fst (List.inj_on_of_nodup_map h.slots_nodup hother' hentry rfl)
  case free =>
    intro hfree
    rw [(h.empty_iff_free slot).2 hfree] at hfilled
    cases hfilled

/-- A slot without an adapter is free. -/
theorem Sound.vacant (h : table.Sound registry) {slot : Nat} (hempty : table.slots[slot]? = some none) :
    table.Vacant slot := by
  refine ⟨hempty, ?once, ?unnamed⟩
  case once => exact List.count_eq_one_of_mem h.free_nodup ((h.empty_iff_free slot).1 hempty)
  case unnamed =>
    intro key hkey
    obtain ⟨adapter, hfilled⟩ :=
      h.filled_of_mem (List.mem_map.2 ⟨(key, slot), mem_of_lookup_eq_some hkey, rfl⟩)
    rw [hempty] at hfilled
    cases hfilled

/-- **Every slot is in one of the two situations**, and not in both. -/
theorem Sound.occupied_or_vacant (h : table.Sound registry) {slot : Nat}
    (hslot : slot < table.slots.length) : Xor (table.Occupied slot) (table.Vacant slot) := by
  cases hcontent : table.slots[slot]? with
  | none => exact absurd hslot (Nat.not_lt.2 (List.getElem?_eq_none_iff.1 hcontent))
  | some content =>
    cases content with
    | some adapter => exact .inl ⟨h.occupied hcontent, (h.occupied hcontent).not_vacant⟩
    | none => exact .inr ⟨h.vacant hcontent, fun hoccupied => hoccupied.not_vacant (h.vacant hcontent)⟩

/-! ## All slots

No slot is both cached and free, so the two lists side by side are the slots of the table in another
order. -/

/-- The cached slots and the free ones are the slots of the table. -/
theorem Sound.mem_cached_or_free (h : table.Sound registry) {slot : Nat} :
    slot ∈ table.cached.map Prod.snd ++ table.free ↔ slot < table.slots.length := by
  rw [List.mem_append]
  constructor
  · rintro (hcached | hfree)
    · obtain ⟨adapter, hfilled⟩ := h.filled_of_mem hcached
      exact (List.getElem?_eq_some_iff.1 hfilled).1
    · exact (List.getElem?_eq_some_iff.1 ((h.empty_iff_free slot).2 hfree)).1
  · intro hslot
    cases hcontent : table.slots[slot] with
    | none => exact .inr ((h.empty_iff_free slot).1 (List.getElem?_eq_some_iff.2 ⟨hslot, hcontent⟩))
    | some adapter =>
      exact .inl (h.cached_of_filled slot adapter (List.getElem?_eq_some_iff.2 ⟨hslot, hcontent⟩))

/-- No slot is both cached and free, nor either of them twice. -/
theorem Sound.cached_append_free_nodup (h : table.Sound registry) :
    (table.cached.map Prod.snd ++ table.free).Nodup := by
  refine List.nodup_append'.2 ⟨h.slots_nodup, h.free_nodup, fun slot hcached hfree => ?_⟩
  obtain ⟨adapter, hfilled⟩ := h.filled_of_mem hcached
  exact (h.occupied hfilled).not_free hfree

/-- **There are as many slots as types that have one and slots that are free.** -/
theorem Sound.length_slots (h : table.Sound registry) :
    table.slots.length = table.cached.length + table.free.length := by
  have hperm : (table.cached.map Prod.snd ++ table.free).Perm (List.range table.slots.length) :=
    (List.perm_ext_iff_of_nodup h.cached_append_free_nodup List.nodup_range).2 fun slot => by
      rw [h.mem_cached_or_free, List.mem_range]
  have hlength := hperm.length_eq
  rw [List.length_append, List.length_map, List.length_range] at hlength
  exact hlength.symm

end SlotTable

/-! ## One table after another

Calls are related with their tables only, and what they read or wrote is left out. A later table has more
cached and never less, and this is what makes a slot that was once answered good for ever. -/

namespace Registry

/-- A call that was answered took the table from `before` to `after`. -/
inductive Call (registry : Registry) (before after : SlotTable) : Prop where
  | resolve {type : TypeExpr} {version : UInt32} {answer : Except Error Nat}
      (hcall : registry.resolve type version before = some (answer, after))
  | encode {fuel : Nat} {value : Value} {version : UInt32} {writing : Writing}
      (hcall : registry.encodeIn fuel value version before = some (writing, after))
  | decode {fuel : Nat} {type : TypeExpr} {version : UInt32} {source : Bytes} {reading : Reading}
      (hcall : registry.decodeIn fuel type version source before = some (reading, after))

/-- Calls take the first table to the second. -/
def Later (registry : Registry) : SlotTable → SlotTable → Prop :=
  Relation.ReflTransGen registry.Call

variable {registry : Registry} {before after table : SlotTable}

theorem Reached.call (h : registry.Reached before) (hcall : registry.Call before after) :
    registry.Reached after := by
  cases hcall with
  | resolve hcall => exact .resolve h hcall
  | encode hcall => exact .encode h hcall
  | decode hcall => exact .decode h hcall

/-- A call leaves what is cached in its slot. -/
theorem Call.table_extends (hfactories : registry.factories = []) (hsound : before.Sound registry)
    (h : registry.Call before after) : before.Extends after := by
  cases h with
  | @resolve type version _ hcall =>
    obtain ⟨answer, table', hrun, hresolves⟩ := registry.resolve_spec hfactories hsound type version
    rw [hrun] at hcall
    cases hcall
    exact hresolves.keeps.2
  | encode hcall =>
    exact ((encodeIn_matches (spares_all hfactories) _ trivial (Value.within_all _)).keeps hsound hcall).2
  | decode hcall => exact ((decodeIn_matches (spares_all hfactories) _ trivial _).keeps hsound hcall).2

/-- Tables that calls lead to from one of a history are of a history as well, and extend that one. -/
theorem Later.reached_extends (hfactories : registry.factories = []) (hreached : registry.Reached before)
    (h : registry.Later before after) : registry.Reached after ∧ before.Extends after := by
  induction h with
  | refl => exact ⟨hreached, .refl before⟩
  | tail _ hcall ih =>
    obtain ⟨hmiddle, hextends⟩ := ih
    exact ⟨hmiddle.call hcall, hextends.trans (hcall.table_extends hfactories (hmiddle.sound hfactories))⟩

/-- A type that is cached is answered with its slot, and nothing changes. -/
theorem resolve_of_slot? {type : TypeExpr} {version : UInt32} {slot : Nat}
    (h : table.slot? ⟨type, version⟩ = some slot) :
    registry.resolve type version table = some (.ok slot, table) := by
  rw [resolve, h]

/-- A type that has been resolved is cached. -/
theorem slot?_of_resolve (hfactories : registry.factories = []) (hsound : before.Sound registry)
    {type : TypeExpr} {version : UInt32} {slot : Nat}
    (h : registry.resolve type version before = some (.ok slot, after)) :
    after.slot? ⟨type, version⟩ = some slot := by
  obtain ⟨answer, table', hrun, hresolves⟩ := registry.resolve_spec hfactories hsound type version
  rw [h] at hrun
  cases hrun
  cases hresolves with
  | ok _ _ _ hslot => exact hslot

/-- **What was resolved stays**: whatever calls come after, the type is answered with the same slot, and
the slot holds the same adapter. -/
theorem Reached.resolved_stays (hfactories : registry.factories = []) (h : registry.Reached before)
    {type : TypeExpr} {version : UInt32} {slot : Nat}
    (hcall : registry.resolve type version before = some (.ok slot, after)) :
    ∃ adapter, after.adapter slot = .ok adapter ∧ ∀ later, registry.Later after later →
      registry.resolve type version later = some (.ok slot, later) ∧ later.adapter slot = .ok adapter := by
  have hreached : registry.Reached after := .resolve h hcall
  have hslot := slot?_of_resolve hfactories (h.sound hfactories) hcall
  obtain ⟨adapter, hfilled, -⟩ := (hreached.sound hfactories).served version type slot hslot
  refine ⟨adapter, SlotTable.adapter_eq_ok hfilled, fun later hlater => ?_⟩
  obtain ⟨-, hextends⟩ := hlater.reached_extends hfactories hreached
  obtain ⟨hcached, hkept⟩ := hextends _ slot hslot
  exact ⟨resolve_of_slot? hcached, SlotTable.adapter_eq_ok (hkept.trans hfilled)⟩

/-- **Slots are accounted for.** Take any table that a history of calls leads to.

* Every slot is occupied, for one type at one version, or vacant, and free once. No type is cached twice
  at a version, and there are as many slots as cached types and free slots together.
* No slot is ever filled twice: every resolution has an answer, and writing and reading have one as soon
  as the calls deeper than their fuel have one.
* A type that has been resolved is answered with the same slot after any further calls, and the slot holds
  the same adapter. -/
theorem Reached.slots_accounted (hfactories : registry.factories = []) (h : registry.Reached table) :
    ((∀ slot < table.slots.length, Xor (table.Occupied slot) (table.Vacant slot)) ∧
      (table.cached.map Prod.fst).Nodup ∧
      table.slots.length = table.cached.length + table.free.length) ∧
    ((∀ type version, (registry.resolve type version table).isSome) ∧
      (∀ deeper fuel value version, WritesTotally registry deeper →
        (registry.encodeOver deeper fuel value version table).isSome) ∧
      ∀ deeper fuel type version source, ReadsTotally registry deeper →
        (registry.decodeOver deeper fuel type version source table).isSome) ∧
    ∀ type version slot after, registry.resolve type version table = some (.ok slot, after) →
      ∃ adapter, after.adapter slot = .ok adapter ∧ ∀ later, registry.Later after later →
        registry.resolve type version later = some (.ok slot, later) ∧
          later.adapter slot = .ok adapter := by
  have hsound := h.sound hfactories
  have hanswered : ∀ {α : Type} {run : Run α}, run.Total registry → (run table).isSome := by
    intro α run htotal
    obtain ⟨a, after, hrun, -⟩ := htotal table hsound
    rw [hrun]
    rfl
  refine ⟨⟨fun slot hslot => hsound.occupied_or_vacant hslot, hsound.keys_nodup, hsound.length_slots⟩,
    ⟨fun type version => hanswered (Run.resolve_total hfactories type version), ?encode, ?decode⟩,
    fun type version slot after => h.resolved_stays hfactories⟩
  case encode =>
    exact fun deeper fuel value version hdeeper =>
      hanswered (encodeOver_total hfactories hdeeper fuel value version)
  case decode =>
    exact fun deeper fuel type version source hdeeper =>
      hanswered (decodeOver_total hfactories hdeeper fuel type version source)

/-- A failed resolution frees the slots it reserved, and the next one takes them from the top. Writing is
answered after it, here with nothing written for what is nested more than three calls deep. -/
theorem Reached.slots_accounted_routes :
    ∃ failed table,
      routes.resolve (.record "route") 1 {} = some (.error (.noAdapter (.foreign "port") 1), failed) ∧
      routes.resolve (.record "hop") 1 failed = some (.ok 5, table) ∧
      (table.slots.length = 6 ∧ table.cached.map Prod.snd = [4, 3, 2, 5] ∧ table.free = [1, 0]) ∧
      (table.Occupied 5 ∧ table.Vacant 0) ∧
      (routes.encodeOver (fun _ _ _ _ => pure (.done [])) 3 twoHops 1 table).isSome ∧
      ∀ later, routes.Later table later → routes.resolve (.record "hop") 1 later = some (.ok 5, later) := by
  have hcalls : ((routes.resolve (.record "route") 1 {}).bind fun first =>
      (routes.resolve (.record "hop") 1 first.2).map fun second =>
        (first.1, second.1, second.2.slots.length, second.2.cached.map Prod.snd, second.2.free)) =
      some (.error (.noAdapter (.foreign "port") 1), .ok 5, 6, [4, 3, 2, 5], [1, 0]) := by decide +kernel
  obtain ⟨⟨_, failed⟩, hfirst, hcalls⟩ := Option.bind_eq_some_iff.1 hcalls
  obtain ⟨⟨_, table⟩, hsecond, hcalls⟩ := Option.map_eq_some_iff.1 hcalls
  simp only [Prod.mk.injEq] at hcalls
  obtain ⟨rfl, rfl, hlength, hcached, hfree⟩ := hcalls
  have hreached : routes.Reached failed := .resolve .fresh hfirst
  obtain ⟨-, -, hstays⟩ := Reached.slots_accounted rfl hreached
  obtain ⟨⟨hslots, -, -⟩, ⟨-, hwrites, -⟩, -⟩ := Reached.slots_accounted rfl (hreached.resolve hsecond)
  have hfive : table.Occupied 5 := by
    rcases hslots 5 (by omega) with ⟨hoccupied, -⟩ | ⟨hvacant, -⟩
    · exact hoccupied
    · have honce := hvacant.free_once
      rw [hfree] at honce
      cases honce
  have hzero : table.Vacant 0 := by
    rcases hslots 0 (by omega) with ⟨hoccupied, -⟩ | ⟨hvacant, -⟩
    · exact absurd (by simp [hfree]) hoccupied.not_free
    · exact hvacant
  obtain ⟨adapter, -, hlater⟩ := hstays _ _ _ _ hsecond
  exact ⟨failed, table, hfirst, hsecond, ⟨hlength, hcached, hfree⟩, ⟨hfive, hzero⟩,
    hwrites _ 3 twoHops 1 fun _ _ _ _ => Run.total_pure _, fun later h => (hlater later h).1⟩

end Registry

end Telegram
