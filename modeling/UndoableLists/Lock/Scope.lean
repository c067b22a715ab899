import UndoableLists.Act
import UndoableLists.Journal
import UndoableLists.Lock.Basic

/-!
Working under locks. Whoever waits without a deadline first says so; that is the moment at which
the other threads may let go. A hold taken for a piece of work ends with it, also when the work
fails.
-/
namespace UndoableLists

/-- A state with locks, a running thread and a journal. -/
class Host (σ : Type) extends Journal σ where
  locks : σ → Locks
  setLocks : Locks → σ → σ
  thread : σ → Thread
  /-- What the other threads do as soon as the running one waits without a deadline. -/
  othersYield : σ → σ

namespace Host
variable {σ ε α : Type} [Host σ]

/-- One try, and a second one after the others had their chance. -/
def settle (notice : Notice) (attempt : Locks → Attempt) : Act σ LockRefusal Unit := fun s =>
  match attempt (locks s) with
  | .granted after => (.ok (), setLocks after s)
  | .refused cause => (.error (.refused cause), s)
  | .waits =>
    let s := othersYield (Journal.note notice s)
    match attempt (locks s) with
    | .granted after => (.ok (), setLocks after s)
    | _ => (.error .stalled, s)

def acquireWithin (timeout : Option Duration) (id : LockId) (access : Access) :
    Act σ LockRefusal Unit := fun s =>
  settle .acquisitionTimedOut (·.attempt (thread s) id access timeout) s

def acquire (id : LockId) (access : Access) : Act σ LockRefusal Unit := acquireWithin none id access

def upgrade (id : LockId) : Act σ LockRefusal Unit := fun s =>
  settle .upgradeTimedOut (·.attemptUpgrade (thread s) id) s

def releaseFor (thread : Thread) (id : LockId) (s : σ) : σ :=
  setLocks ((locks s).release thread id) s

def release (id : LockId) (s : σ) : σ := releaseFor (thread s) id s

def holding (ofLock : LockRefusal → ε) (id : LockId) (access : Access) (body : Act σ ε α) :
    Act σ ε α := fun s =>
  match acquire id access s with
  | (.ok (), s) => body.ensuring (releaseFor (thread s) id) s
  | (.error fault, s) => (.error (fault.map ofLock), s)

def dispose (id : LockId) : Act σ ε Bool := fun s =>
  let (first, ls) := (locks s).dispose id
  (.ok first, setLocks ls s)

def isDisposed (id : LockId) (s : σ) : Bool := (locks s).isDisposed id

end Host

end UndoableLists
