import UndoableLists.World.Announcement

/-!
Filtered views: making them, changing their filter and giving them up.
-/
namespace UndoableLists.World
variable {α κ δ : Type} [Diary δ]

/-- The settings that a list's lock was made with. -/
def patience (w : World α κ δ) (id : ListId) : Patience :=
  ((w.lists.get? id).map fun l => w.locks.settings l.lock).getD {}

def createFilter (base : ListId) (predicate : Predicate) (settings : Patience) (w : World α κ δ) :
    World α κ δ :=
  let id := w.nextView
  let (subscriptions, w) := { w with nextView := id + 1 }.follow base (.filter id)
  let (lock, locks) := w.locks.create settings
  let view : FilteredView α := { base, lock, predicate, cache := { settings }, subscriptions }
  { w with locks, filters := w.filters.insert id view }.hold (.filter id)

def putFilter (id : ViewId) (f : FilteredView α → FilteredView α) (w : World α κ δ) : World α κ δ :=
  { w with filters := w.filters.modify id f }

def exchangeFilter (id : ViewId) (filter : Option Filter) : Work α κ δ Unit :=
  withFilter id fun v => do
    Host.holding ListRefusal.ofLock v.lock .write
      (Act.modify (putFilter id fun v => { v with filter }))
    Act.modify (putFilter id fun v => { v with generation := v.generation + 1 })

def setFilter (call : Call α κ δ) (id : ViewId) (filter : Option Filter) : Work α κ δ Unit := do
  exchangeFilter id filter
  CachedView.invalidate (filterCache id)
  Act.modify (Journal.note .filterChanged)
  Act.modify (tellReset call (.filter id))

def disposeFilter (id : ViewId) : Work α κ δ Bool :=
  withFilter id fun v => do
    let first ← fun w => let (first, w) := CachedView.dispose (filterCache id) w; (.ok first, w)
    discard (Host.dispose v.lock)
    return first

end UndoableLists.World
