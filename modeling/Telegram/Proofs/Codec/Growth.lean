import Telegram.Proofs.Codec.Dispatch
import Telegram.Proofs.Codec.Reserved

/-!
# How the slot table grows

A resolution that fails gives its slots back, and the next one takes them first. So failures do not add
up: the table is never larger than what is cached and the slots of the worst failure, and failures that
are repeated stop adding to it.

* `Registry.resolveAll` resolves types one after the other and notes what came of each. Every table that
  calls lead to is one that resolutions lead to (`Registry.Reached.exists_resolveAll`).
* `worstFailure` is the most slots that one of the failures reserved.
* `Registry.length_resolveAll_le` bounds the table after any resolutions, and
  `Registry.resolveAll_of_fails` says how large it is exactly if all of them fail.
* `Registry.Reached.growth_bounded` is all of it for the tables that histories lead to.
-/

namespace Telegram

open Codec

/-- What came of one resolution: its answer, and how many slots it reserved. -/
structure Attempt where
  answer : Except Error Nat
  reserved : Nat

/-- The resolution failed. -/
def Attempt.failed (attempt : Attempt) : Bool :=
  match attempt.answer with
  | .ok _ => false
  | .error _ => true

/-- The most slots that one of the failed resolutions reserved. They are given back when it fails, and the
next one takes them again. So it is the worst of them and not their sum that counts. -/
def worstFailure (attempts : List Attempt) : Nat :=
  ((attempts.filter Attempt.failed).map Attempt.reserved).foldr max 0

theorem worstFailure_cons_ok (slot reserved : Nat) (rest : List Attempt) :
    worstFailure (⟨.ok slot, reserved⟩ :: rest) = worstFailure rest :=
  rfl

theorem worstFailure_cons_error (e : Error) (reserved : Nat) (rest : List Attempt) :
    worstFailure (⟨.error e, reserved⟩ :: rest) = max reserved (worstFailure rest) :=
  rfl

theorem worstFailure_le_iff {attempts : List Attempt} {most : Nat} :
    worstFailure attempts ≤ most ↔
      ∀ attempt ∈ attempts, attempt.failed = true → attempt.reserved ≤ most := by
  induction attempts with
  | nil => exact ⟨fun _ _ h => absurd h List.not_mem_nil, fun _ => Nat.zero_le most⟩
  | cons first rest ih =>
    obtain ⟨e | slot, reserved⟩ := first
    · rw [worstFailure_cons_error, Nat.max_le, ih, List.forall_mem_cons]
      exact and_congr_left' ⟨fun h _ => h, fun h => h rfl⟩
    · rw [worstFailure_cons_ok, ih, List.forall_mem_cons]
      exact (and_iff_right nofun).symm

namespace Registry

/-- Resolves types one after the other, whether or not they can be, and notes what came of each. -/
def resolveAll (registry : Registry) : List Key → Run (List Attempt)
  | [] => pure []
  | key :: rest => do
    let reserved := registry.reserved key.type key.version (← get)
    let answer ← registry.resolve key.type key.version
    let attempts ← registry.resolveAll rest
    pure (⟨answer, reserved.length⟩ :: attempts)

/-- The type can not be resolved from this table. -/
def Fails (registry : Registry) (table : SlotTable) (key : Key) : Prop :=
  ∃ e after, registry.resolve key.type key.version table = some (.error e, after)

variable {registry : Registry} {table after : SlotTable}

/-! ## Resolutions one after the other

Reading and writing touch the slot table only by having types resolved. So a history of calls can be
replaced by the list of resolutions that it made, and bounds need only be shown for such lists. -/

theorem resolveAll_cons_eq_some_iff {key : Key} {rest : List Key} {attempts : List Attempt} :
    registry.resolveAll (key :: rest) table = some (attempts, after) ↔
      ∃ answer middle later, registry.resolve key.type key.version table = some (answer, middle) ∧
        registry.resolveAll rest middle = some (later, after) ∧
        attempts = ⟨answer, (registry.reserved key.type key.version table).length⟩ :: later := by
  have hget : (get : Run SlotTable) table = some (table, table) := rfl
  rw [resolveAll, bind_of_eq_some hget, bind_eq_some_iff]
  constructor
  · rintro ⟨answer, middle, hfirst, hrest⟩
    obtain ⟨later, last, hlater, heq⟩ := bind_eq_some_iff.1 hrest
    cases heq
    exact ⟨answer, middle, later, hfirst, hlater, rfl⟩
  · rintro ⟨answer, middle, later, hfirst, hlater, rfl⟩
    exact ⟨answer, middle, hfirst, bind_eq_some_iff.2 ⟨later, after, hlater, rfl⟩⟩

/-- One more resolution at the end. -/
theorem resolveAll_append_singleton {keys : List Key} {attempts : List Attempt} {middle : SlotTable}
    (h : registry.resolveAll keys table = some (attempts, middle)) {key : Key} {answer : Except Error Nat}
    (hcall : registry.resolve key.type key.version middle = some (answer, after)) :
    ∃ attempts, registry.resolveAll (keys ++ [key]) table = some (attempts, after) := by
  induction keys generalizing table attempts with
  | nil =>
    cases h
    exact ⟨_, resolveAll_cons_eq_some_iff.2 ⟨answer, after, [], hcall, rfl, rfl⟩⟩
  | cons first rest ih =>
    obtain ⟨answered, next, later, hfirst, hrest, -⟩ := resolveAll_cons_eq_some_iff.1 h
    obtain ⟨attempts', hall⟩ := ih hrest
    exact ⟨_, resolveAll_cons_eq_some_iff.2 ⟨answered, next, attempts', hfirst, hall, rfl⟩⟩

/-- **Every history comes down to resolutions**, those that its calls made. -/
theorem Reached.exists_resolveAll (h : registry.Reached table) :
    ∃ keys attempts, registry.resolveAll keys {} = some (attempts, table) := by
  refine Reached.of_resolve (I := fun table => ∃ keys attempts,
    registry.resolveAll keys {} = some (attempts, table)) ⟨[], [], rfl⟩ ?_ h
  rintro type version middle answer after ⟨keys, attempts, hkeys⟩ hcall
  exact ⟨keys ++ [⟨type, version⟩], resolveAll_append_singleton hkeys hcall⟩

/-! ## Any resolutions

By induction from the end. A resolution that succeeds caches what it reserved, so it adds to what is
cached and to the table alike. One that fails makes the table as large as its own slots require, and no
larger than the worst failure does. -/

/-- Resolutions never forget what is cached, and **the table grows to no more than what is cached in the
end and the slots of the worst failure**. -/
theorem length_resolveAll_le (hfactories : registry.factories = []) (hsound : table.Sound registry)
    {keys : List Key} {attempts : List Attempt}
    (h : registry.resolveAll keys table = some (attempts, after)) :
    table.cached.length ≤ after.cached.length ∧
      after.slots.length ≤ max table.slots.length (after.cached.length + worstFailure attempts) := by
  induction keys generalizing table attempts with
  | nil =>
    cases h
    exact ⟨Nat.le_refl _, Nat.le_max_left ..⟩
  | cons key rest ih =>
    obtain ⟨answer, middle, later, hcall, hrest, rfl⟩ := resolveAll_cons_eq_some_iff.1 h
    obtain ⟨hsize, hok, herror⟩ := hsound.length_resolve hfactories hcall
    obtain ⟨hkept, hbound⟩ := ih ((spares_all hfactories).sound_of_resolve hsound trivial hcall) hrest
    cases answer with
    | ok slot =>
      -- what it reserved is cached from now on
      have hcached := hok ⟨slot, rfl⟩
      rw [worstFailure_cons_ok]
      omega
    | error e =>
      have hcached := congrArg List.length (herror ⟨e, rfl⟩)
      rw [worstFailure_cons_error]
      omega

/-! ## Resolutions that fail

What fails changes nothing that is cached, and what is cached is all that the number of reserved slots
depends on. So each of these failures reserves what it would reserve alone, in whatever order they
come. -/

/-- Whether a type can be resolved is for the registry to say, and not for what came before. -/
theorem fails_iff (hfactories : registry.factories = []) (hsound : table.Sound registry) {key : Key} :
    registry.Fails table key ↔ registry.missing? key.version key.type ≠ none := by
  obtain ⟨answer, after, hrun, hresolves⟩ := registry.resolve_spec hfactories hsound key.type key.version
  cases hresolves with
  | ok hmissing =>
    refine ⟨fun ⟨e, _, hfails⟩ => ?_, fun h => absurd hmissing h⟩
    rw [hrun] at hfails
    cases hfails
  | error hmissing =>
    exact ⟨fun _ => by rw [hmissing]; exact Option.some_ne_none _, fun _ => ⟨_, after, hrun⟩⟩

/-- **Failures one after the other** have answers, cache nothing, and reserve as many slots each as if it
came first. The table grows to what is cached and the slots of the worst of them, if it is not that
large. -/
theorem resolveAll_of_fails (hfactories : registry.factories = []) (hsound : table.Sound registry)
    {keys : List Key} (h : ∀ key ∈ keys, registry.Fails table key) :
    ∃ attempts after, registry.resolveAll keys table = some (attempts, after) ∧ after.Sound registry ∧
      after.cached = table.cached ∧ (∀ attempt ∈ attempts, attempt.failed = true) ∧
      attempts.map Attempt.reserved =
        keys.map (fun key => (registry.reserved key.type key.version table).length) ∧
      after.slots.length = max table.slots.length (table.cached.length + worstFailure attempts) := by
  induction keys generalizing table with
  | nil =>
    have hlength := hsound.length_slots
    refine ⟨[], table, rfl, hsound, rfl, nofun, rfl, ?_⟩
    have hworst : worstFailure [] = 0 := rfl
    omega
  | cons key rest ih =>
    rw [List.forall_mem_cons] at h
    obtain ⟨⟨e, middle, hcall⟩, hrest⟩ := h
    obtain ⟨hsize, -, herror⟩ := hsound.length_resolve hfactories hcall
    have hsound' := (spares_all hfactories).sound_of_resolve hsound trivial hcall
    have hcached := herror ⟨e, rfl⟩
    have hfails : ∀ other ∈ rest, registry.Fails middle other := fun other hother =>
      (fails_iff hfactories hsound').2 ((fails_iff hfactories hsound).1 (hrest other hother))
    obtain ⟨later, after, hlater, hsound'', hcached', hfailed, hreserved, hsize'⟩ := ih hsound' hfails
    refine ⟨_, after, resolveAll_cons_eq_some_iff.2 ⟨_, middle, later, hcall, hlater, rfl⟩, hsound'',
      hcached'.trans hcached, List.forall_mem_cons.2 ⟨rfl, hfailed⟩, ?reserved, ?size⟩
    case reserved =>
      rw [List.map_cons, List.map_cons, hreserved]
      congr 1
      exact List.map_congr_left fun other _ =>
        hsound.length_reserved_congr hfactories hsound' hcached other.type other.version
    case size =>
      rw [hcached] at hsize'
      rw [worstFailure_cons_error]
      omega

/-- What failed before fails again, in any order and any number of times, and **the table does not grow
any more**. -/
theorem resolveAll_again (hfactories : registry.factories = []) (hsound : table.Sound registry)
    {keys : List Key} (h : ∀ key ∈ keys, registry.Fails table key) {attempts : List Attempt}
    (hrun : registry.resolveAll keys table = some (attempts, after)) {again : List Key}
    (hagain : ∀ key ∈ again, key ∈ keys) :
    ∃ attempts' after', registry.resolveAll again after = some (attempts', after') ∧
      (∀ attempt ∈ attempts', attempt.failed = true) ∧ after'.slots.length = after.slots.length := by
  obtain ⟨_, _, hrun', hsound', hcached, hfailed, hreserved, hsize⟩ := resolveAll_of_fails hfactories hsound h
  rw [hrun] at hrun'
  cases hrun'
  have hfails : ∀ key ∈ again, registry.Fails after key := fun key hkey =>
    (fails_iff hfactories hsound').2 ((fails_iff hfactories hsound).1 (h key (hagain key hkey)))
  obtain ⟨attempts', after', hrun', -, -, hfailed', hreserved', hsize'⟩ :=
    resolveAll_of_fails hfactories hsound' hfails
  -- each of them reserves what it reserved the first time, so none is worse than the worst of those
  have hworst : worstFailure attempts' ≤ worstFailure attempts := by
    refine worstFailure_le_iff.2 fun attempt hattempt _ => ?_
    have hmem := List.mem_map_of_mem (f := Attempt.reserved) hattempt
    rw [hreserved'] at hmem
    obtain ⟨key, hkey, heq⟩ := List.mem_map.1 hmem
    rw [hsound.length_reserved_congr hfactories hsound' hcached] at heq
    have hfirst : attempt.reserved ∈ attempts.map Attempt.reserved := by
      rw [hreserved]
      exact List.mem_map.2 ⟨key, hagain key hkey, heq⟩
    obtain ⟨earlier, hearlier, hsame⟩ := List.mem_map.1 hfirst
    exact hsame ▸ worstFailure_le_iff.1 (Nat.le_refl _) earlier hearlier (hfailed earlier hearlier)
  refine ⟨attempts', after', hrun', hfailed', ?_⟩
  rw [hcached] at hsize'
  omega

/-- **The growth of the slot table is bounded.** Take any table that a history of calls leads to.

* Resolving a type has an answer, and whether or not it succeeds, the table is afterwards as large as it
  was, or as large as what was cached and the slots that were reserved, whichever is more.
* The history comes down to resolutions, and whatever resolutions lead to this table, it is no larger than
  what is cached and the slots of the worst failure among them.
* Failing resolutions, however many and in whatever order, let the table grow to what is cached and the
  slots of the worst of them. When they are repeated, in any order and any number of times, it stays as it
  is. -/
theorem Reached.growth_bounded (hfactories : registry.factories = []) (h : registry.Reached table) :
    (∀ type version, ∃ answer after, registry.resolve type version table = some (answer, after) ∧
      after.slots.length =
        max table.slots.length (table.cached.length + (registry.reserved type version table).length)) ∧
    ((∃ keys attempts, registry.resolveAll keys {} = some (attempts, table)) ∧
      ∀ keys attempts, registry.resolveAll keys {} = some (attempts, table) →
        table.slots.length ≤ table.cached.length + worstFailure attempts) ∧
    ∀ keys, (∀ key ∈ keys, registry.Fails table key) →
      ∃ attempts after, registry.resolveAll keys table = some (attempts, after) ∧
        (∀ attempt ∈ attempts, attempt.failed = true) ∧
        after.slots.length = max table.slots.length (table.cached.length + worstFailure attempts) ∧
        ∀ again, (∀ key ∈ again, key ∈ keys) →
          ∃ attempts' after', registry.resolveAll again after = some (attempts', after') ∧
            (∀ attempt ∈ attempts', attempt.failed = true) ∧
            after'.slots.length = after.slots.length := by
  have hsound := h.sound hfactories
  refine ⟨fun type version => ?one, ⟨h.exists_resolveAll, fun keys attempts hrun => ?run⟩,
    fun keys hfails => ?failures⟩
  case one =>
    obtain ⟨answer, after, hcall, -⟩ := registry.resolve_spec hfactories hsound type version
    exact ⟨answer, after, hcall, (hsound.length_resolve hfactories hcall).1⟩
  case run =>
    obtain ⟨-, hbound⟩ := length_resolveAll_le hfactories (SlotTable.sound_empty registry) hrun
    rwa [List.length_nil, Nat.zero_max] at hbound
  case failures =>
    obtain ⟨attempts, after, hrun, -, -, hfailed, -, hsize⟩ := resolveAll_of_fails hfactories hsound hfails
    exact ⟨attempts, after, hrun, hfailed, hsize,
      fun again hagain => resolveAll_again hfactories hsound hfails hrun hagain⟩

/-- A route fails after six slots, and a hop succeeds in four of them. With these four cached, routes and
optional routes fail after two and three slots, so a seventh slot is added, and then no more of them. -/
theorem Reached.growth_bounded_routes :
    ∃ failed table attempts after,
      routes.resolve (.record "route") 1 {} = some (.error (.noAdapter (.foreign "port") 1), failed) ∧
      routes.resolve (.record "hop") 1 failed = some (.ok 5, table) ∧
      (failed.slots.length = 6 ∧ table.slots.length = 6 ∧ table.cached.length = 4) ∧
      routes.resolveAll [⟨.record "route", 1⟩, ⟨.optional (.record "route"), 1⟩] table =
        some (attempts, after) ∧
      (attempts.map Attempt.reserved = [2, 3] ∧ after.slots.length = 7) ∧
      ∀ again, (∀ key ∈ again, key ∈ ([⟨.record "route", 1⟩, ⟨.optional (.record "route"), 1⟩] : List Key)) →
        ∃ attempts' after', routes.resolveAll again after = some (attempts', after') ∧
          after'.slots.length = 7 := by
  have hcalls : ((routes.resolve (.record "route") 1 {}).bind fun first =>
      (routes.resolve (.record "hop") 1 first.2).bind fun second =>
        (routes.resolveAll [⟨.record "route", 1⟩, ⟨.optional (.record "route"), 1⟩] second.2).map fun third =>
          (first.1, second.1, third.1.map Attempt.reserved,
            [first.2.slots.length, second.2.slots.length, second.2.cached.length, third.2.slots.length])) =
      some (.error (.noAdapter (.foreign "port") 1), .ok 5, [2, 3], [6, 6, 4, 7]) := by decide +kernel
  obtain ⟨⟨_, failed⟩, hfirst, hcalls⟩ := Option.bind_eq_some_iff.1 hcalls
  obtain ⟨⟨_, table⟩, hsecond, hcalls⟩ := Option.bind_eq_some_iff.1 hcalls
  obtain ⟨⟨attempts, after⟩, hthird, hcalls⟩ := Option.map_eq_some_iff.1 hcalls
  simp only [Prod.mk.injEq, List.cons.injEq, and_true] at hcalls
  obtain ⟨rfl, rfl, hreserved, hfailed, htable, hcached, hgrown⟩ := hcalls
  have hreached : routes.Reached table := (Reached.fresh.resolve hfirst).resolve hsecond
  have hfails : ∀ key ∈ ([⟨.record "route", 1⟩, ⟨.optional (.record "route"), 1⟩] : List Key),
      routes.Fails table key := by
    have hmissing : ∀ key ∈ ([⟨.record "route", 1⟩, ⟨.optional (.record "route"), 1⟩] : List Key),
        routes.missing? key.version key.type ≠ none := by decide +kernel
    exact fun key hkey => (fails_iff rfl (hreached.sound rfl)).2 (hmissing key hkey)
  obtain ⟨-, -, hfailures⟩ := Reached.growth_bounded rfl hreached
  obtain ⟨attempts', after', hrun, -, -, hagain⟩ := hfailures _ hfails
  rw [hthird] at hrun
  cases hrun
  refine ⟨failed, table, attempts, after, hfirst, hsecond, ⟨hfailed, htable, hcached⟩, hthird, ⟨hreserved, hgrown⟩, ?_⟩
  intro again hall
  obtain ⟨attempts', after', hrun, -, hstays⟩ := hagain again hall
  exact ⟨attempts', after', hrun, hstays.trans hgrown⟩

end Registry

end Telegram
