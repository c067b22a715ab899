/-!
Notices: what the library reports about its own work while it works, beside its answers.
-/
namespace UndoableLists

inductive Level where
  | warn
  | debug
  | trace
  deriving DecidableEq

structure Notice where
  level : Level
  message : String
  deriving DecidableEq

/-- A state in which notices are kept. -/
class Journal (σ : Type) where
  note : Notice → σ → σ

def Journal.noteAll {σ : Type} [Journal σ] (notices : List Notice) (s : σ) : σ :=
  notices.foldl (fun s n => note n s) s

namespace Notice

def acquisitionTimedOut : Notice :=
  ⟨.warn, "lock acquisition timed out; waiting without a deadline"⟩
def upgradeTimedOut : Notice := ⟨.warn, "lock upgrade timed out; waiting without a deadline"⟩
def subscriberPanicked : Notice := ⟨.warn, "subscriber panicked; event dropped for it"⟩
def delivered : Notice := ⟨.debug, "notification delivered"⟩
def itemCaptured : Notice := ⟨.trace, "item captured"⟩
def itemReleased : Notice := ⟨.trace, "item released"⟩
def batchCaptured : Notice := ⟨.trace, "captured batch"⟩
def batchReleased : Notice := ⟨.trace, "released batch"⟩
def editCommitted : Notice := ⟨.trace, "edit committed"⟩
def rollingBack : Notice := ⟨.debug, "rolling back operation transaction"⟩
def viewRebuilt : Notice := ⟨.trace, "view cache rebuilt"⟩
def viewInvalidated : Notice := ⟨.trace, "view cache invalidated"⟩
def listMutated : Notice := ⟨.debug, "list mutated"⟩
def historyReplayed : Notice := ⟨.debug, "history replayed"⟩
def replayRejected : Notice := ⟨.debug, "history replay rejected"⟩
def resetRequested : Notice := ⟨.debug, "store requested reset; history cleared"⟩
def storeModified : Notice := ⟨.debug, "store modified out of band"⟩
def listDisposed : Notice := ⟨.debug, "list disposed"⟩
def disposedUnreleased : Notice := ⟨.warn, "disposing without releasing items"⟩
def ownedElsewhere : Notice := ⟨.warn, "item owned by another context left uncaptured"⟩
def editUnrecorded : Notice := ⟨.warn, "item edit not recorded"⟩
def iterationStopped : Notice := ⟨.debug, "iteration stopped"⟩
def filterChanged : Notice := ⟨.debug, "filter changed"⟩
def slavesChanged : Notice := ⟨.debug, "slave set changed"⟩

end Notice

end UndoableLists
