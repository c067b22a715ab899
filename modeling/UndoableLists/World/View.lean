import UndoableLists.World.Basic

/-!
What filtered views and merged lists show. Both are built from the present contents of their lists
and kept until a version or the view's own generation has moved on.
-/
namespace UndoableLists.World
variable {α κ δ : Type} [Diary δ] [Element α]

def withFilter {β : Type} (id : ViewId) (body : FilteredView α → Work α κ δ β) : Work α κ δ β :=
  fun w => match w.filters.get? id with
  | none => (.error (.refused .disposed), w)
  | some v => body v w

def withMerge {β : Type} (id : ViewId) (body : MergedList α → Work α κ δ β) : Work α κ δ β :=
  fun w => match w.merges.get? id with
  | none => (.error (.refused .disposed), w)
  | some m => body m w

def build (items : List α) : Work α κ δ (Built α) := fun w =>
  (.ok ⟨w.builds, items⟩, { w with builds := w.builds + 1 })

def filterOf (id : ViewId) : Work α κ δ (Option Filter) :=
  withFilter id fun v =>
    Host.holding ListRefusal.ofLock v.lock .read (withFilter id fun v => return v.filter)

/-- Whether a filter is set, as far as that can be read. -/
def isFiltered (id : ViewId) (w : World α κ δ) : Bool × World α κ δ :=
  match filterOf id w with
  | (.ok f, w) => (f.isSome, w)
  | (.error _, w) => (false, w)

def selected (predicate : Predicate) (f : Option Filter) (items : List α) :
    Work α κ δ (List α) := fun w =>
  match f with
  | none => (.ok items, w)
  | some f =>
    match Filter.select (predicate f) (Element.current w.objects) items with
    | .error complaint => (.error (.panicked complaint), w)
    | .ok chosen => (.ok chosen, w)

def buildFiltered (id : ViewId) (v : FilteredView α) : Work α κ δ (Built α) := do
  let filter ← filterOf id
  let items ← contents v.base
  build (← selected v.predicate filter items)

def filteredItems (id : ViewId) : Work α κ δ (Built α) :=
  withFilter id fun v => do
    let key ← Act.read fun w => (word v.generation, word (w.version v.base))
    CachedView.fetch (filterCache id) key (buildFiltered id v)

def slaveLists (id : ViewId) : Work α κ δ (List ListId) :=
  withMerge id fun m =>
    Host.holding ListRefusal.ofLock m.lock .read
      (withMerge id fun m => return m.slaves.map (·.list))

def contentsOfAll : List ListId → Work α κ δ (List α)
  | [] => return []
  | id :: rest => do
    let items ← contents id
    return items ++ (← contentsOfAll rest)

def buildMerged (id : ViewId) (m : MergedList α) : Work α κ δ (Built α) := do
  let first ← contents m.master
  let slaves ← slaveLists id
  let others ← contentsOfAll slaves
  build (first ++ others)

def mergedItems (id : ViewId) : Work α κ δ (Built α) :=
  withMerge id fun m => do
    let slaves ← slaveLists id
    let key ← Act.read fun w => (word m.generation, word (w.version m.master),
      slaves.foldl (fun total id => total + word (w.version id)) 0)
    CachedView.fetch (mergeCache id) key (buildMerged id m)

end UndoableLists.World
