import UndoableLists.Proofs.Ownership.Exchange
import UndoableLists.Proofs.UndoRedo.Course

/-!
Snapshots: the contents of a list, the value of every item and the owner of every item. A record
leads from one snapshot to another, back and forth, if it moves the contents, sets the values, and
the items are the list's where they are members and nobody's elsewhere. Main statements: such a
record is never refused, and what it leads to is what is to be seen afterwards.
-/
namespace UndoableLists

/-- What is to be seen of a list and of all items. -/
structure Snapshot (α : Type) where
  contents : List α
  value : α → Option Int
  owner : α → Option Context

namespace Snapshot
variable {α : Type} {cell : α → CellId} {id : ListId}

def assigned (cell : α → CellId) (direction : Direction) (value : α → Option Int) (e : Edit) :
    α → Option Int :=
  fun a => if cell a = e.object then (value a).map fun _ => e.target direction else value a

def ownerIn (cell : α → CellId) (id : ListId) (contents : List α) : α → Option Context :=
  fun a => if cell a ∈ contents.map cell then some id else none

/-- Each item is a member once at most, and then the list's, and nobody's otherwise. -/
structure Owned (cell : α → CellId) (id : ListId) (s : Snapshot α) : Prop where
  distinct : (s.contents.map cell).Nodup
  owner : s.owner = ownerIn cell id s.contents

structure Leads (cell : α → CellId) (id : ListId) (record : Record α Edit) (s t : Snapshot α) :
    Prop where
  planned : record.Planned
  contents : record.Leads s.contents t.contents
  forth : t.value = record.edits.foldl (assigned cell .forward) s.value
  back : s.value = record.edits.reverse.foldl (assigned cell .backward) t.value
  before : s.Owned cell id
  after : t.Owned cell id

def Moves (cell : α → CellId) (id : ListId) (record : Record α Edit) :
    Direction → Snapshot α → Snapshot α → Prop
  | .forward, s, t => Leads cell id record s t
  | .backward, s, t => Leads cell id record t s

section
variable {record : Record α Edit} {direction : Direction} {s t : Snapshot α}

theorem ext_owned (contents : s.contents = t.contents) (value : s.value = t.value)
    (left : s.Owned cell id) (right : t.Owned cell id) : s = t := by
  have owner := left.owner.trans (contents ▸ right.owner.symm)
  cases s
  cases t
  simp_all

theorem turns_of_moves (moves : Moves cell id record direction s t) :
    record.Turns direction s.contents t.contents := by
  cases direction with
  | forward => exact ⟨moves.planned, moves.contents⟩
  | backward => exact ⟨moves.planned, moves.contents⟩

theorem value_of_moves (moves : Moves cell id record direction s t) :
    t.value = (direction.order record.edits).foldl (assigned cell direction) s.value := by
  cases direction with
  | forward => exact moves.forth
  | backward => exact moves.back

theorem owned_of_moves (moves : Moves cell id record direction s t) :
    s.Owned cell id ∧ t.Owned cell id := by
  cases direction with
  | forward => exact ⟨moves.before, moves.after⟩
  | backward => exact ⟨moves.after, moves.before⟩

end

end Snapshot

namespace World
variable {α κ δ : Type}

def valueOf (w : World α κ δ) (x : ObjectId) : Option Int :=
  (w.objects.table.get? x).map (·.value)

def snapshot (cell : α → CellId) (id : ListId) (w : World α κ δ) : Snapshot α where
  contents := w.contentsOf id
  value a := w.valueOf (cell a)
  owner a := w.cells.owner (cell a)

end World

theorem Objects.value_replay (os : Objects) (direction : Direction) (e : Edit) (x : ObjectId) :
    ((os.replay direction e).table.get? x).map (·.value) =
      if x = e.object then ((os.table.get? x).map (·.value)).map fun _ => e.target direction
      else (os.table.get? x).map (·.value) := by
  simp only [Objects.replay, Objects.assign, Table.get?_modify]
  split
  · cases os.table.get? x <;> rfl
  · rfl

theorem Objects.values_replayed {α : Type} (cell : α → CellId) (direction : Direction)
    (edits : List Edit) (os : Objects) :
    (fun a => ((edits.foldl (·.replay direction) os).table.get? (cell a)).map (·.value)) =
      edits.foldl (Snapshot.assigned cell direction) fun a =>
        (os.table.get? (cell a)).map (·.value) := by
  induction edits generalizing os with
  | nil => rfl
  | cons e rest ih =>
    rw [List.foldl_cons, List.foldl_cons, ih]
    congr 1
    funext a
    exact Objects.value_replay os direction e (cell a)

end UndoableLists
