import UndoableLists.Json.Parser
import UndoableLists.Lock.Scope
import UndoableLists.Session.Locks

/-!
Sessions with guarded values: each value stands behind a lock of its own, by which it is known, and
is reached only while that lock is held. Steps can be nested into the time during which a value is
held; a name that is given to another value meanwhile leaves the held one as it is.
-/
namespace UndoableLists.Session

inductive Reach where
  | reading
  | writing (set : Option Value)
  | upgrading (set : Option Value)

inductive GuardStep where
  | create (name : String) (value : Value) (settings : Patience)
  | fromJson (name text : String)
  | enter (name : String) (reach : Reach) (steps : List GuardStep) (boom : Bool)
  | dispose (name : String)
  | isDisposed (name : String)
  | held (name : String)
  | settings (name : String)
  | text (name : String)
  | toJson (name : String)
  | direct (name : String) (set : Option Value)
  | takeOut (name : String)
  deriving Inhabited

inductive GuardAnswer where
  | done
  | flag (b : Bool)
  | settings (s : Patience)
  | text (t : String)
  | value (v : Value)
  | unreadable
  | unwritable (cause : LockRefusal)
  | unknown
  | entered (now old : Option Value) (steps : List GuardAnswer)
  | refused (cause : LockRefusal)
  | panicked (label : Option String)
  | stalled
  deriving Inhabited

structure GuardSession where
  locks : Locks := {}
  values : Table LockId Value := .empty
  names : Table String LockId := .empty
  notices : List Notice := []

namespace GuardSession

instance : Host GuardSession where
  locks := GuardSession.locks
  setLocks ls v := { v with locks := ls }
  thread _ := 0
  note n v := { v with notices := v.notices ++ [n] }
  othersYield v := v

abbrev Work := Act GuardSession LockRefusal

def create (name : String) (value : Value) (settings : Patience) (v : GuardSession) :
    GuardSession :=
  let (id, locks) := v.locks.create settings
  { v with locks, values := v.values.insert id value, names := v.names.insert name id }

def current (id : LockId) (v : GuardSession) : Value := (v.values.get? id).getD default

def exchange (id : LockId) (set : Option Value) (v : GuardSession) : Value × GuardSession :=
  (current id v, match set with
    | none => v
    | some value => { v with values := v.values.insert id value })

def enter (lock : LockId) (reach : Reach) (boom : Bool)
    (nested : GuardSession → List GuardAnswer × GuardSession) : Work GuardAnswer :=
  let finish (label : String) (answer : GuardAnswer) : Work GuardAnswer :=
    if boom then Act.fail (.panicked (some label)) else return answer
  let inside : Work (List GuardAnswer) := fun v => let (as, v) := nested v; (.ok as, v)
  match reach with
  | .reading => Host.holding id lock .read do
      let now ← Act.read (current lock)
      let steps ← inside
      finish "read" (.entered (some now) none steps)
  | .writing set => Host.holding id lock .write do
      let old ← fun v => let (old, v) := exchange lock set v; (.ok old, v)
      let steps ← inside
      finish "write" (.entered none (some old) steps)
  | .upgrading set => Host.holding id lock .upgradeable do
      let now ← Act.read (current lock)
      let steps ← inside
      Host.upgrade lock
      let old ← fun v => let (old, v) := exchange lock set v; (.ok old, v)
      return .entered (some now) (some old) steps

def answer : Outcome LockRefusal GuardAnswer → GuardAnswer
  | .ok a => a
  | .error (.refused cause) => .refused cause
  | .error (.panicked label) => .panicked label
  | .error .stalled => .stalled

def withValue (name : String) (v : GuardSession) (f : LockId → GuardAnswer × GuardSession) :
    GuardAnswer × GuardSession :=
  match v.names.get? name with
  | none => (.unknown, v)
  | some lock => f lock

mutual

def step : GuardStep → GuardSession → GuardAnswer × GuardSession
  | .create name value settings, v => (.done, v.create name value settings)
  | .fromJson name text, v =>
    match (Json.parse? text).bind Json.toValue? with
    | none => (.unreadable, v)
    | some value => (.done, v.create name value {})
  | .enter name reach nested boom, v => withValue name v fun lock =>
      let (r, v) := enter lock reach boom (steps nested) v
      (answer r, v)
  | .dispose name, v => withValue name v fun lock =>
      let (first, locks) := v.locks.dispose lock
      (.flag first, { v with locks })
  | .isDisposed name, v => withValue name v fun lock => (.flag (v.locks.isDisposed lock), v)
  | .held name, v => withValue name v fun lock => (.flag (v.locks.isHeldBy lock 0), v)
  | .settings name, v => withValue name v fun lock => (.settings (v.locks.settings lock), v)
  | .text name, v => withValue name v fun lock =>
      (.text (Text.fields "Synchronized"
        [("lock", lockText v.locks lock "?" (current lock v).shown)]), v)
  | .toJson name, v => withValue name v fun lock =>
      match Host.acquire lock .read v with
      | (.ok (), v) => (.text (Json.ofValue (current lock v)).text, Host.release lock v)
      | (.error (.refused cause), v) => (.unwritable cause, v)
      | (.error fault, v) => (answer (.error fault), v)
  | .direct name set, v => withValue name v fun lock =>
      let (old, v) := exchange lock set v
      (.value old, v)
  | .takeOut name, v => withValue name v fun lock =>
      (.value (current lock v), { v with names := v.names.erase name })

def steps : List GuardStep → GuardSession → List GuardAnswer × GuardSession
  | [], v => ([], v)
  | s :: rest, v =>
    let (a, v) := step s v
    let (as, v) := steps rest v
    (a :: as, v)

end

end GuardSession

end UndoableLists.Session
