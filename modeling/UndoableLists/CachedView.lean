import UndoableLists.Lock.Scope

/-!
A cached view behind a lock of its own, which is made when it is first needed. The view is handed
out under the key it was built for; with another key it is built anew, while the lock keeps
everybody else out. A build that fails leaves the view that was there.
-/
namespace UndoableLists

structure CachedView (K V : Type) where
  settings : Patience := {}
  lock : Option LockId := none
  disposed : Bool := false
  entry : Option (K × V) := none

namespace CachedView
variable {K V σ α : Type} [Host σ]

abbrev Work (σ α : Type) := Act σ ListRefusal α

def isConstructed (c : CachedView K V) : Bool := c.lock.isSome

/-- The cache's lock, made now if there was none. -/
def theLock (place : Place σ (CachedView K V)) : Work σ LockId := fun s =>
  let c := place.get s
  if c.disposed then (.error (.refused .disposed), s)
  else match c.lock with
    | some id => (.ok id, s)
    | none =>
      let (id, locks) := (Host.locks s).create c.settings
      (.ok id, place.set { c with lock := some id } (Host.setLocks locks s))

def hit? [DecidableEq K] (c : CachedView K V) (key : K) : Option V :=
  match c.entry with
  | none => none
  | some (cached, view) => if cached = key then some view else none

def rebuild (place : Place σ (CachedView K V)) (lock : LockId) (key : K) (build : Work σ V) :
    Work σ V := do
  (Host.upgrade lock).mapError ListRefusal.ofLock
  let view ← build
  Act.modify (place.modify fun c => { c with entry := some (key, view) })
  Act.modify (Journal.note .viewRebuilt)
  return view

def serve [DecidableEq K] (place : Place σ (CachedView K V)) (lock : LockId) (key : K)
    (build : Work σ V) : Work σ V := do
  match (← Act.read place.get).hit? key with
  | some view => return view
  | none => rebuild place lock key build

def fetch [DecidableEq K] (place : Place σ (CachedView K V)) (key : K) (build : Work σ V) :
    Work σ V := do
  let lock ← theLock place
  Host.holding ListRefusal.ofLock lock .upgradeable (serve place lock key build)

def invalidate (place : Place σ (CachedView K V)) : Work σ Unit := do
  let c ← Act.read place.get
  if c.disposed then Act.refuse .disposed
  match c.lock with
  | none => return ()
  | some lock =>
    Host.holding ListRefusal.ofLock lock .write
      (Act.modify (place.modify fun c => { c with entry := none }))
    Act.modify (Journal.note .viewInvalidated)

def dispose (place : Place σ (CachedView K V)) (s : σ) : Bool × σ :=
  let c := place.get s
  if c.disposed then (false, s)
  else
    let s := place.set { c with disposed := true } s
    match c.lock with
    | none => (true, s)
    | some lock => (true, Host.setLocks ((Host.locks s).dispose lock).2 s)

end CachedView

end UndoableLists
