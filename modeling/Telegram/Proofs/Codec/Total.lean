import Telegram.Proofs.Codec.Closed
import Telegram.Proofs.Registry.Resolve

/-!
# Every call has an answer

A run has no answer when a slot would be filled twice, and when the fuel runs out. The first never happens
from a sound slot table, and this file shows it for whole calls, in which types are resolved at any point
and callers' adapters ask for more of them.

* `Registry.readOver` and `Registry.writeOver` are reading and writing with something else in place of the
  calls deeper than the fuel, and `Registry.decodeOver` and `Registry.encodeOver` are whole calls. With
  nothing there, they are what they are made from (`Registry.readOver_none` and its likes).
* `Run.Total` says of a run that it has an answer from every sound table, and leaves a sound table. Calls
  are made of such runs (`Run.total_closed`).
* `Registry.readOver_total` and `Registry.writeOver_total`: with total runs in place of the deeper calls
  there is always an answer. So what is missing from a call without an answer is a deeper call.

An adapter may refer to any slot here, also to an empty one.
-/

namespace Telegram

open Codec Registry

/-! ## Fuel set aside

The model has no answer when fuel runs out, where the program would go on calling. To tell this from the
other reason to have no answer, the calls that are too deep are left open here: whatever is put in their
place, as long as it has answers itself, the whole has one. -/

namespace Registry

/-- Reads with an adapter, with `deeper` for the calls that are more than `fuel` deep. -/
def readOver (registry : Registry) (version : UInt32) (deeper : ReadWith) : Nat → ReadWith
  | 0 => deeper
  | fuel + 1 => registry.readStep version (registry.readOver version deeper fuel)

/-- Writes with an adapter, with `deeper` for the calls that are more than `fuel` deep. -/
def writeOver (registry : Registry) (version : UInt32) (deeper : WriteWith) : Nat → WriteWith
  | 0 => deeper
  | fuel + 1 => registry.writeStep version (registry.writeOver version deeper fuel)

/-- Reads one value of `type`, with `deeper` for the calls that are more than `fuel` deep. -/
def decodeOver (registry : Registry) (deeper : ReadWith) (fuel : Nat) (type : TypeExpr)
    (version : UInt32) (source : Bytes) : Run Reading :=
  registry.readType version (registry.readOver version deeper fuel 0) type {} source

/-- Writes a value as its own type, with `deeper` for the calls that are more than `fuel` deep. -/
def encodeOver (registry : Registry) (deeper : WriteWith) (fuel : Nat) (value : Value)
    (version : UInt32) : Run Writing :=
  registry.writeType version (registry.writeOver version deeper fuel 0) value.type {} (some value)

variable {registry : Registry}

theorem readOver_none (version : UInt32) (fuel : Nat) :
    registry.readOver version (fun _ _ _ _ _ => none) fuel = registry.readIn version fuel := by
  induction fuel with
  | zero => rfl
  | succ fuel ih => rw [readOver, readIn, ih]

theorem writeOver_none (version : UInt32) (fuel : Nat) :
    registry.writeOver version (fun _ _ _ _ _ => none) fuel = registry.writeIn version fuel := by
  induction fuel with
  | zero => rfl
  | succ fuel ih => rw [writeOver, writeIn, ih]

theorem decodeOver_none (fuel : Nat) (type : TypeExpr) (version : UInt32) (source : Bytes) :
    registry.decodeOver (fun _ _ _ _ _ => none) fuel type version source =
      registry.decodeIn fuel type version source := by
  rw [decodeOver, decodeIn, readOver_none]

theorem encodeOver_none (fuel : Nat) (value : Value) (version : UInt32) :
    registry.encodeOver (fun _ _ _ _ _ => none) fuel value version =
      registry.encodeIn fuel value version := by
  rw [encodeOver, encodeIn, writeOver_none]

end Registry

/-! ## Total runs

The rules are those of `Run.Closed`, so a call is total as soon as its parts are. Resolving is the one
part with something to show: a slot that is filled has to have been reserved and not filled before, which
soundness of the table is about. -/

/-- From every sound table the run has an answer, and leaves a sound table. The second half is what makes
the first one last from one step of a call to the next. -/
def Run.Total {α : Type} (registry : Registry) (run : Run α) : Prop :=
  ∀ table, table.Sound registry → ∃ a after, run table = some (a, after) ∧ after.Sound registry

namespace Run

variable {α β : Type} {registry : Registry} {run : Run α}

theorem total_pure (a : α) : Total registry (pure a) :=
  fun table hsound => ⟨a, table, rfl, hsound⟩

/-- Total runs one after the other. -/
theorem Total.bind (h : run.Total registry) {next : α → Run β} (hnext : ∀ a, (next a).Total registry) :
    Total registry (run >>= next) := by
  intro table hsound
  obtain ⟨a, after, hrun, hsound'⟩ := h table hsound
  rw [bind_of_eq_some hrun]
  exact hnext a after hsound'

/-- **No slot is filled twice**: a resolution from a sound table has an answer. -/
theorem resolve_total (hfactories : registry.factories = []) (type : TypeExpr) (version : UInt32) :
    Total registry (registry.resolve type version) := by
  intro table hsound
  obtain ⟨answer, after, hrun, hresolves⟩ := registry.resolve_spec hfactories hsound type version
  exact ⟨answer, after, hrun, hresolves.keeps.1⟩

/-- Calls are made of total runs. -/
theorem total_closed (hfactories : registry.factories = []) (version : UInt32) :
    Closed registry version fun _ run => run.Total registry where
  pure := total_pure
  bind h hnext := Total.bind h hnext
  adapterAt slot table hsound := ⟨table.adapter slot, table, rfl, hsound⟩
  resolve type := resolve_total hfactories type version

end Run

/-! ## Reading

The induction is on fuel. At 0 there is what was put in the place of deeper calls, and one step more is
total by the rules. -/

section Reading

open Run

variable {registry : Registry} {version : UInt32}

/-- A way of reading has an answer with every adapter. -/
def ReadsTotally (registry : Registry) (read : ReadWith) : Prop :=
  ∀ depth wiring format source, (read depth wiring format source).Total registry

/-- **Reading is total but for what is deeper than the fuel.** -/
theorem Registry.readOver_total (hfactories : registry.factories = []) {deeper : ReadWith}
    (hdeeper : ReadsTotally registry deeper) (fuel : Nat) :
    ReadsTotally registry (registry.readOver version deeper fuel) := by
  induction fuel with
  | zero => exact hdeeper
  | succ fuel ih => exact (total_closed hfactories version).readStep ih

theorem Registry.decodeOver_total (hfactories : registry.factories = []) {deeper : ReadWith}
    (hdeeper : ReadsTotally registry deeper) (fuel : Nat) (type : TypeExpr) (version : UInt32)
    (source : Bytes) : Total registry (registry.decodeOver deeper fuel type version source) :=
  (total_closed hfactories version).readType (readOver_total hfactories hdeeper fuel 0) type {} source

end Reading

/-! ## Writing

The same for writing, where types are resolved in the middle of a call too. -/

section Writing

open Run

variable {registry : Registry} {version : UInt32}

/-- A way of writing has an answer with every adapter. -/
def WritesTotally (registry : Registry) (write : WriteWith) : Prop :=
  ∀ depth wiring format value, (write depth wiring format value).Total registry

/-- **Writing is total but for what is deeper than the fuel.** -/
theorem Registry.writeOver_total (hfactories : registry.factories = []) {deeper : WriteWith}
    (hdeeper : WritesTotally registry deeper) (fuel : Nat) :
    WritesTotally registry (registry.writeOver version deeper fuel) := by
  induction fuel with
  | zero => exact hdeeper
  | succ fuel ih => exact (total_closed hfactories version).writeStep ih

theorem Registry.encodeOver_total (hfactories : registry.factories = []) {deeper : WriteWith}
    (hdeeper : WritesTotally registry deeper) (fuel : Nat) (value : Value) (version : UInt32) :
    Total registry (registry.encodeOver deeper fuel value version) :=
  (total_closed hfactories version).writeType (writeOver_total hfactories hdeeper fuel 0) value.type {}
    (some value)

end Writing

end Telegram
