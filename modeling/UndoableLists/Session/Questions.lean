import UndoableLists.Session.Stage
import UndoableLists.Text.Shown
import UndoableLists.World.Iterator

/-!
What lists and views answer when they are asked, how answers name their items, and the one-line
texts of lists, views and iterators for diagnostics.
-/
namespace UndoableLists.Text
variable {α κ δ : Type}

def list (w : World α κ δ) (id : ListId) : String :=
  match w.lists.get? id with
  | none => ""
  | some l =>
    fields "ObservableList"
      [("context", context l.context), ("version", toString (World.wrapped l.version)),
      ("captures_items", flag l.access.isSome), ("disposed", flag (w.locks.isDisposed l.lock))]

def filteredView (w : World α κ δ) (v : FilteredView α) : String :=
  fields "FilterableObservableList" [("base", list w v.base),
    ("generation", toString (World.wrapped v.generation)),
    ("cache", viewCache v.cache.isConstructed v.cache.disposed)]

def mergedList (w : World α κ δ) (m : MergedList α) : String :=
  "MasterSlaveObservableList \x7b master: " ++ list w m.master ++ ", generation: " ++
    toString (World.wrapped m.generation) ++ ", .. \x7d"

def iterator (w : World α κ δ) (it : Iterator) : String :=
  fields "Iter" [("list", list w it.list), ("next", toString it.next),
    ("error", optional (it.error.map listRefusal))]

end UndoableLists.Text

namespace UndoableLists.Session.Stage
variable {α : Type} [Element α]

def reply (w : Stage α) : Reply α → Answer
  | .done => .done
  | .flag b => .flag b
  | .count n => .count n
  | .item x => .value (x.map (label w))
  | .items xs => .values (xs.map (label w))

def replying (work : Play α (Reply α)) : Play α Answer := do
  let r ← work
  Act.read fun w => reply w r

def askItems {κ δ : Type} (w : World α κ δ) (items : List α) : Question → Answer
  | .length => .count items.length
  | .isEmpty => .flag items.isEmpty
  | .item index => .value (items[index]?.map (label w))
  | .contains v => .flag (items.any fun x =>
      Element.current w.objects x = Element.current w.objects (resolve w v))
  | .position v =>
    match items.findIdx? fun x =>
      Element.current w.objects x = Element.current w.objects (resolve w v) with
    | none => .value none
    | some index => .count index
  | _ => .values (items.map (label w))

def toJson (id : ListId) : Play α Answer := World.withList id fun l w =>
  match Host.acquire l.lock .read w with
  | (.ok (), w) =>
    (.ok (.text (Json.arr (l.contents.map fun x => Json.ofValue (label w x))).text),
      Host.release l.lock w)
  | (.error (.refused cause), w) => (.ok (.unwritable cause), w)
  | (.error fault, w) => (.error (fault.map ListRefusal.ofLock), w)

def askList (id : ListId) (question : Question) : Play α Answer :=
  match question with
  | .canUndo => return .flag (← World.readList id fun l => !l.history.done.isEmpty)
  | .canRedo => return .flag (← World.readList id fun l => !l.history.undone.isEmpty)
  | .undoDepth => return .count (← World.readList id fun l => l.history.undoDepth)
  | .redoDepth => return .count (← World.readList id fun l => l.history.redoDepth)
  | .version => Act.read fun w => .count (World.wrapped (World.version w id))
  | .settings => Act.read fun w => .settings (World.patience w id)
  | .isDisposed => World.withList id fun l => Act.read fun w => .flag (Host.isDisposed l.lock w)
  | .text => Act.read fun w => .text (Text.list w id)
  | .json => toJson id
  | .each => do
    let it : Iterator := { list := id }
    let bound ← Act.read it.bound
    let (items, _) ← it.rest bound
    Act.read fun w => .values (items.map (label w))
  | q => do
    let items ← World.contents id
    Act.read fun w => askItems w items q

def askView {κ δ : Type} (items : Work α κ δ (Built α)) : Question → Work α κ δ Answer
  | .shared => do
    let first ← items
    let second ← items
    return .flag (first.stamp == second.stamp)
  | q => do
    let built ← items
    Act.read fun w => askItems w built.items q

def askFilter {κ δ : Type} [Diary δ] (id : ViewId) (question : Question) : Work α κ δ Answer :=
  match question with
  | .filter => return .filter (← World.filterOf id)
  | .isFiltered => fun w =>
    let (b, w) := World.isFiltered id w
    (.ok (.flag b), w)
  | .text => World.withFilter id fun v => Act.read fun w => .text (Text.filteredView w v)
  | q => askView (World.filteredItems id) q

def askMerge {κ δ : Type} [Diary δ] (id : ViewId) (question : Question) : Work α κ δ Answer :=
  match question with
  | .slaveCount => return .count (← World.slaveLists id).length
  | .text => World.withMerge id fun m => Act.read fun w => .text (Text.mergedList w m)
  | q => askView (World.mergedItems id) q

def ask (h : Handle) (question : Question) : Play α Answer :=
  match h with
  | .list id => askList id question
  | .filter id => askFilter id question
  | .merge id => askMerge id question

end UndoableLists.Session.Stage
