import UndoableLists.Capture.Cell

/-!
Batches of cells captured or released together: either every cell of a batch is taken, or the
first one that is in the way is named and none is touched. A batch that was taken comes with the
steps that put its cells back, oldest first.
-/
namespace UndoableLists

/-- How to put a cell back: its owner, and what was registered under the parent. -/
structure CellUndo (η : Type) where
  cell : CellId
  parent : Context
  owner : Option Context
  unsubscribe : Bool
  handler : Option η

namespace Cells
variable {η : Type}

def revert (u : CellUndo η) (cs : Cells η) : Cells η :=
  let cs := cs.setOwner u.cell u.owner
  let cs := if u.unsubscribe then cs.unsubscribe u.cell u.parent else cs
  match u.handler with
  | none => cs
  | some h => cs.subscribe u.cell u.parent h

def revertAll (undos : List (CellUndo η)) (cs : Cells η) : Cells η :=
  undos.foldr revert cs

def captureFault? (cs : Cells η) (parent : Context) : Nat → List CellId → Option CaptureRefusal
  | _, [] => none
  | index, id :: rest =>
    match cs.owner id with
    | none => captureFault? cs parent (index + 1) rest
    | some owner =>
      if owner = parent then captureFault? cs parent (index + 1) rest
      else some (.alreadyCaptured index owner)

def releaseFault? (cs : Cells η) (parent : Context) : Nat → List CellId → Option CaptureRefusal
  | _, [] => none
  | index, id :: rest =>
    match cs.owner id with
    | none => some (.notCaptured index)
    | some owner =>
      if owner = parent then releaseFault? cs parent (index + 1) rest
      else some (.capturedByOther index owner parent)

def captureOne (cs : Cells η) (parent : Context) (handler : Option η) (id : CellId) :
    CellUndo η × Cells η :=
  let taken := cs.setOwner id (some parent)
  match handler with
  | none => (⟨id, parent, cs.owner id, false, none⟩, taken)
  | some h =>
    (⟨id, parent, cs.owner id, true, cs.handler? id parent⟩,
      (taken.unsubscribe id parent).subscribe id parent h)

def captureEach (parent : Context) (handler : Option η) :
    List CellId → Cells η → List (CellUndo η) × Cells η
  | [], cs => ([], cs)
  | id :: rest, cs =>
    let (undo, cs) := captureOne cs parent handler id
    let (undos, cs) := captureEach parent handler rest cs
    (undo :: undos, cs)

/-- A cell that comes up again in its batch is already released and is passed over. -/
def releaseEach (parent : Context) : List CellId → Cells η → List (CellUndo η) × Cells η
  | [], cs => ([], cs)
  | id :: rest, cs =>
    if cs.owner id = some parent then
      let undo := ⟨id, parent, some parent, false, cs.handler? id parent⟩
      let (undos, cs) :=
        releaseEach parent rest ((cs.setOwner id none).unsubscribe id parent)
      (undo :: undos, cs)
    else releaseEach parent rest cs

def takeBatch (cs : Cells η) (parent : Context) (handler : Option η) (ids : List CellId) :
    Except CaptureRefusal (List (CellUndo η) × Cells η) :=
  match cs.captureFault? parent 0 ids with
  | some fault => .error fault
  | none => .ok (captureEach parent handler ids cs)

def freeBatch (cs : Cells η) (parent : Context) (ids : List CellId) :
    Except CaptureRefusal (List (CellUndo η) × Cells η) :=
  match cs.releaseFault? parent 0 ids with
  | some fault => .error fault
  | none => .ok (releaseEach parent ids cs)

end Cells

end UndoableLists
