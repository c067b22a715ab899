import UndoableLists.World.Basic

/-!
Iterators over lists. Each step reads the list anew, so others may change it in between; an
iterator that met an error yields nothing more.
-/
namespace UndoableLists

structure Iterator where
  list : ListId
  next : Nat := 0
  error : Option ListRefusal := none

namespace Iterator
variable {α κ δ : Type} [Diary δ]

def step (it : Iterator) : Act (World α κ δ) ListRefusal (Option α × Iterator) := fun w =>
  if it.error.isSome then (.ok (none, it), w)
  else match World.readList it.list (fun l => l.contents[it.next]?) w with
    | (.ok (some item), w) => (.ok (some item, { it with next := it.next + 1 }), w)
    | (.ok none, w) => (.ok (none, it), w)
    | (.error (.refused cause), w) =>
      (.ok (none, { it with error := some cause }), Journal.note .iterationStopped w)
    | (.error fault, w) => (.error fault, w)

def rest : Nat → Iterator → Act (World α κ δ) ListRefusal (List α × Iterator)
  | 0, it => return ([], it)
  | bound + 1, it => do
    match ← it.step with
    | (none, it) => return ([], it)
    | (some item, it) =>
      let (items, it) ← rest bound it
      return (item :: items, it)

def bound (it : Iterator) (w : World α κ δ) : Nat :=
  ((w.lists.get? it.list).map fun l => l.contents.length + 1).getD 1

end Iterator

end UndoableLists
