import Telegram.Registry.Schema

/-!
# Adapters and their slots

Adapters refer to each other by slot number, so that types can refer back to themselves: a slot is
reserved for a type before its adapter exists, and filled when it does.

* `Wiring` says how an adapter works and which slots it uses.
* `SlotTable` holds the adapters, the slots that are free again, and for each type and version that has
  been resolved the slot that serves it.
* Slots are taken from the free ones first, the one freed last foremost; only then does the table grow.
-/

namespace Telegram

open Codec

/-- Where the adapter of a field is. -/
inductive Target where
  /-- In a slot. -/
  | slot (slot : Nat)
  /-- With the field itself. -/
  | own (adapter : CallerAdapter)

/-- A field that is on the wire, and what reads and writes it. -/
structure BoundField where
  field : Field
  target : Target

/-- How an adapter works. -/
inductive Wiring where
  | leaf (leaf : Leaf)
  | optional (element : TypeExpr) (slot : Nat)
  | sequence (container : Container) (element : TypeExpr) (slot : Nat)
  /-- A family without an adapter of its own: writing goes by the alternative held, and nothing can be
  read. -/
  | family (name : String)
  | record (schema : Schema) (fields : List BoundField)

/-- The type of the values that an adapter reads and writes. -/
def Wiring.type : Wiring → TypeExpr
  | .leaf l => l.type
  | .optional element _ => .optional element
  | .sequence container element _ => .sequence container element
  | .family name => .family name
  | .record schema _ => schema.type

/-- An adapter and where it came from. -/
structure Adapter where
  origin : Origin
  wiring : Wiring

/-- A type at a version. -/
structure Key where
  type : TypeExpr
  version : UInt32
  deriving DecidableEq

/-- The adapters in use. -/
structure SlotTable where
  slots : List (Option Adapter) := []
  /-- Slots that are free again, the one freed last first. -/
  free : List Nat := []
  /-- The slot of each type and version that has been resolved. -/
  cached : List (Key × Nat) := []

namespace SlotTable

/-- The slot of a type at a version. -/
def slot? (table : SlotTable) (key : Key) : Option Nat :=
  table.cached.lookup key

/-- The adapter in a slot. -/
def adapter (table : SlotTable) (slot : Nat) : Except Error Adapter :=
  match table.slots[slot]? with
  | some (some adapter) => .ok adapter
  | _ => .error (.unresolved slot)

/-- Takes a slot: the one freed last, or a new one. -/
def reserve (table : SlotTable) : Nat × SlotTable :=
  match table.free with
  | slot :: free => (slot, { table with free })
  | [] => (table.slots.length, { table with slots := table.slots ++ [none] })

/-- Puts an adapter into an empty slot. A slot that holds an adapter already can not be filled. -/
def fill? (table : SlotTable) (slot : Nat) (adapter : Adapter) : Option SlotTable :=
  match table.slots[slot]? with
  | some none => some { table with slots := table.slots.set slot (some adapter) }
  | _ => none

/-- Empties a slot and frees it. -/
def release (table : SlotTable) (slot : Nat) : SlotTable :=
  { table with slots := table.slots.set slot none, free := slot :: table.free }

/-- Records the slot of a type at a version, unless it has one. -/
def publish (table : SlotTable) (key : Key) (slot : Nat) : SlotTable :=
  match table.slot? key with
  | some _ => table
  | none => { table with cached := (key, slot) :: table.cached }

end SlotTable

end Telegram
