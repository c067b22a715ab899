import UndoableLists.Refusal
import UndoableLists.Table

/-!
Capture cells. A cell says which context owns an item, if any does, and which handlers are to hear
of the item's edits, at most one for each context and in the order of their registration. A cell
nobody has touched is free. `η` is the type of the handlers.
-/
namespace UndoableLists

abbrev CellId := Nat

structure Cell (η : Type) where
  owner : Option Context := none
  handlers : Table Context η := .empty

instance {η : Type} : Inhabited (Cell η) := ⟨{}⟩

def Cell.admits {η : Type} (c : Cell η) (parent : Context) : Bool :=
  match c.owner with
  | none => true
  | some owner => owner == parent

structure Cells (η : Type) where
  table : Table CellId (Cell η) := .empty

namespace Cells
variable {η : Type}

def cell (cs : Cells η) (id : CellId) : Cell η := (cs.table.get? id).getD {}

def set (cs : Cells η) (id : CellId) (c : Cell η) : Cells η := ⟨cs.table.insert id c⟩

@[simp] theorem cell_set_self (cs : Cells η) (id : CellId) (c : Cell η) :
    (cs.set id c).cell id = c := by
  simp [cell, set]

theorem cell_set_of_ne (cs : Cells η) {id other : CellId} (h : other ≠ id) (c : Cell η) :
    (cs.set id c).cell other = cs.cell other := by
  simp [cell, set, Table.get?_insert_of_ne _ h]

def owner (cs : Cells η) (id : CellId) : Option Context := (cs.cell id).owner

def setOwner (cs : Cells η) (id : CellId) (owner : Option Context) : Cells η :=
  cs.set id { cs.cell id with owner }

def subscribe (cs : Cells η) (id : CellId) (key : Context) (handler : η) : Cells η :=
  cs.set id { cs.cell id with handlers := (cs.cell id).handlers.insert key handler }

def unsubscribe (cs : Cells η) (id : CellId) (key : Context) : Cells η :=
  cs.set id { cs.cell id with handlers := (cs.cell id).handlers.erase key }

def handler? (cs : Cells η) (id : CellId) (key : Context) : Option η :=
  (cs.cell id).handlers.get? key

def handlers (cs : Cells η) (id : CellId) : List (Context × η) := (cs.cell id).handlers.entries

def capture (cs : Cells η) (id : CellId) (parent : Context) : Except CaptureRefusal (Cells η) :=
  match cs.owner id with
  | none => .ok (cs.setOwner id (some parent))
  | some owner =>
    if owner = parent then .ok (cs.setOwner id (some parent))
    else .error (.alreadyCaptured 0 owner)

def release (cs : Cells η) (id : CellId) : Except CaptureRefusal (Context × Cells η) :=
  match cs.owner id with
  | none => .error (.notCaptured 0)
  | some owner => .ok (owner, cs.setOwner id none)

end Cells

end UndoableLists
