import UndoableLists.Text.Shown
import UndoableLists.CachedView

/-!
Sessions with one view cache whose builds run steps on the same cache before they answer.
-/
namespace UndoableLists.Session

inductive BuildEnd where
  | view (v : Value)
  | refuse (cause : ListRefusal)
  | boom

inductive CacheStep where
  | get (key : Value) (steps : List CacheStep) (ending : BuildEnd)
  | invalidate
  | dispose
  | isDisposed
  | isConstructed
  | text
  deriving Inhabited

inductive CacheAnswer where
  | done
  | flag (b : Bool)
  | view (v : Value)
  | text (t : String)

inductive CacheEntry where
  | notice (n : Notice)
  | build (answer : Outcome ListRefusal CacheAnswer)

structure CacheSession where
  locks : Locks := {}
  cache : CachedView Value Value := {}
  entries : List CacheEntry := []

namespace CacheSession

def log (entry : CacheEntry) (s : CacheSession) : CacheSession :=
  { s with entries := s.entries ++ [entry] }

instance : Host CacheSession where
  locks := CacheSession.locks
  setLocks ls s := { s with locks := ls }
  thread _ := 0
  note n := log (.notice n)
  othersYield s := s

def place : Place CacheSession (CachedView Value Value) :=
  ⟨CacheSession.cache, fun c s => { s with cache := c }⟩

def build (nested : CacheSession → CacheSession) (ending : BuildEnd) :
    Act CacheSession ListRefusal Value := do
  Act.modify nested
  match ending with
  | .view v => return v
  | .refuse cause => Act.refuse cause
  | .boom => Act.fail (.panicked (some "build"))

def text (c : CachedView Value Value) : String := Text.viewCache c.isConstructed c.disposed

mutual

def perform : CacheStep → CacheSession → Outcome ListRefusal CacheAnswer × CacheSession
  | .get key steps ending, s =>
    let (r, s) := CachedView.fetch place key (build (performAll steps) ending) s
    (r.map .view, s)
  | .invalidate, s =>
    let (r, s) := CachedView.invalidate place s
    (r.map fun _ => .done, s)
  | .dispose, s =>
    let (first, s) := CachedView.dispose place s
    (.ok (.flag first), s)
  | .isDisposed, s => (.ok (.flag s.cache.disposed), s)
  | .isConstructed, s => (.ok (.flag s.cache.isConstructed), s)
  | .text, s => (.ok (.text (text s.cache)), s)

def performAll : List CacheStep → CacheSession → CacheSession
  | [], s => s
  | step :: rest, s =>
    let (r, s) := perform step s
    performAll rest (s.log (.build r))

end

def step (s : CacheSession) (c : CacheStep) :
    Outcome ListRefusal CacheAnswer × List CacheEntry × CacheSession :=
  let (r, s) := perform c { s with entries := [] }
  (r, s.entries, s)

end CacheSession

end UndoableLists.Session
