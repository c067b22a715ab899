import UndoableLists.Act
import UndoableLists.Capture.Batch
import UndoableLists.History
import UndoableLists.Journal
import UndoableLists.List.Operation
import UndoableLists.Lock.Basic
import UndoableLists.Objects

/-!
One list and the cells of the items it may hold. A list that captures its items owns the cells of
its members; a record is applied only if the items that enter can be taken and the items that leave
are the list's to give up. What is done here is done while the list's lock is held; what is to be
told afterwards is collected in a bulletin.
-/
namespace UndoableLists

/-- A list is known by the context that owns its items. -/
abbrev ListId := Context

structure UndoableList (α : Type) where
  context : Context
  lock : LockId
  store : Store α := {}
  history : History (Record α Edit)
  version : Nat := 0
  /-- The cells of items, for a list that captures its items. -/
  access : Option (α → CellId) := none
  tracksEdits : Bool := false

namespace UndoableList
variable {α : Type}

def contents (l : UndoableList α) : List α := l.store.items

def cellsOf (l : UndoableList α) (items : List α) : List CellId :=
  match l.access with
  | none => []
  | some cell => items.map cell

def handler? (l : UndoableList α) : Option ListId :=
  if l.tracksEdits then some l.context else none

def newVersion (l : UndoableList α) : UndoableList α := { l with version := l.version + 1 }

def forgetful (l : UndoableList α) : UndoableList α := { l with history := l.history.cleared }

def recordEdit (l : UndoableList α) (e : Edit) : UndoableList α :=
  { l with history := l.history.push (.itemEdit e) }.newVersion

end UndoableList

/-- What subscribers are to be told once the lock is free again. -/
structure Bulletin (α : Type) where
  changes : List (Change α) := []
  countDiffers : Bool := false
  itemsDiffer : Bool := false

namespace Bulletin
variable {α ε : Type}

def reset : Bulletin α := ⟨[.reset], true, true⟩

def ofEffects (a : Effects α ε) (lengthChanged : Bool) : Bulletin α :=
  ⟨a.changes, lengthChanged, !a.changes.isEmpty || a.editsItems⟩

def append (a b : Bulletin α) : Bulletin α :=
  ⟨a.changes ++ b.changes, a.countDiffers || b.countDiffers, a.itemsDiffer || b.itemsDiffer⟩

instance : Append (Bulletin α) := ⟨append⟩

def properties (b : Bulletin α) : List Property :=
  (if b.countDiffers then [.count] else []) ++ (if b.itemsDiffer then [.items] else [])

end Bulletin

structure Site (α : Type) where
  list : UndoableList α
  cells : Cells ListId

structure Done (α : Type) where
  site : Site α
  bulletin : Bulletin α := {}
  edits : List Edit := []
  notices : List Notice := []

namespace Site
variable {α : Type}

/-- The first entering cell that cannot be taken: it came up before, or it has an owner. A cell
that leaves the same list at the same time can be taken. -/
def enteringFault? (cells : Cells ListId) (context : Context) (leaving : List CellId) :
    List CellId → List CellId → Option CaptureRefusal
  | _, [] => none
  | seen, id :: rest =>
    if seen.contains id then some (.alreadyCaptured seen.length context)
    else match cells.owner id with
      | none => enteringFault? cells context leaving (seen ++ [id]) rest
      | some owner =>
        if owner = context && leaving.contains id then
          enteringFault? cells context leaving (seen ++ [id]) rest
        else some (.alreadyCaptured seen.length owner)

/-- Gives up the cells that leave and takes those that enter, all of them or none. -/
def exchange (s : Site α) (leaving entering : List CellId) :
    Except CaptureRefusal (Cells ListId × List Notice) :=
  match enteringFault? s.cells s.list.context leaving [] entering with
  | some fault => .error fault
  | none => do
    let (_, cells) ← s.cells.freeBatch s.list.context leaving
    let (_, cells) ← cells.takeBatch s.list.context s.list.handler? entering
    return (cells, [.batchReleased] ++ entering.map (fun _ => .itemCaptured) ++ [.batchCaptured])

def transfer (s : Site α) (t : Handover α) : Except ListRefusal (Cells ListId × List Notice) :=
  match s.list.access with
  | none => .ok (s.cells, [])
  | some cell => (s.exchange (t.leaving.map cell) (t.entering.map cell)).mapError .capture

def commit (s : Site α) (record : Record α Edit) (direction : Direction) :
    Outcome ListRefusal (Done α) := do
  let length := s.list.store.length
  let after ← record.check none direction length
  let (cells, notices) ← (s.transfer (record.handover direction)).mapError .refused
  match record.apply direction s.list.store with
  | .error _ => .error (.panicked none)
  | .ok (store, applied) =>
    return {
      site := { list := { s.list with store }.newVersion, cells }
      bulletin := .ofEffects applied (length != after)
      edits := applied.edits
      notices }

def append (s : Site α) (record : Record α Edit) : Outcome ListRefusal (Done α) := do
  let d ← s.commit record .forward
  let list := { d.site.list with history := d.site.list.history.push record }
  return { d with site := { d.site with list } }

def replay (s : Site α) (direction : Direction) : Option (Outcome ListRefusal (Done α)) :=
  let (out, history) := match direction with
    | .backward => s.list.history.undo Fault.isRefusal (s.commit · .backward)
    | .forward => s.list.history.redo Fault.isRefusal (s.commit · .forward)
  out.map fun r => r.map fun d =>
    { d with site := { d.site with list := { d.site.list with history } } }

def adoptEach (list : UndoableList α) : List CellId → Cells ListId → Cells ListId × List Notice
  | [], cells => (cells, [])
  | id :: rest, cells =>
    let heard (cells : Cells ListId) : Cells ListId :=
      match list.handler? with
      | none => cells
      | some h => cells.subscribe id list.context h
    match cells.owner id with
    | none =>
      let (cells, notices) :=
        adoptEach list rest (heard (cells.setOwner id (some list.context)))
      (cells, .itemCaptured :: notices)
    | some owner =>
      if owner = list.context then adoptEach list rest (heard cells)
      else
        let (cells, notices) := adoptEach list rest cells
        (cells, .ownedElsewhere :: notices)

/-- Takes every member that is free; members of other owners are left alone. -/
def adopted (s : Site α) : Site α × List Notice :=
  let (cells, notices) := adoptEach s.list (s.list.cellsOf s.list.contents) s.cells
  ({ s with cells }, notices)

def giveUp (context : Context) (cells : Cells ListId) (id : CellId) : Cells ListId :=
  if cells.owner id = some context then (cells.setOwner id none).unsubscribe id context
  else cells

def released (s : Site α) : Site α :=
  { s with cells := (s.list.cellsOf s.list.contents).foldl (giveUp s.list.context) s.cells }

/-- The contents were changed behind the list's back: the history no longer describes them. -/
def reset (s : Site α) : Done α :=
  let (s, notices) := { s with list := s.list.forgetful }.adopted
  { site := { s with list := s.list.newVersion }
    bulletin := .reset
    notices := notices ++ [.resetRequested] }

def resynchronized (s : Site α) : Done α :=
  let (s, notices) := s.adopted
  { site := { s with list := s.list.forgetful.newVersion }
    bulletin := .reset
    notices := notices ++ [.storeModified] }

end Site

end UndoableLists
