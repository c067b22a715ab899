import UndoableLists.Lock.Scope
import UndoableLists.Text.Shown

/-!
Sessions with locks and several threads. Each thread takes tokens by name and keeps them until it
drops them; one thread works at a time. A thread may be told to drop a token as soon as the working
thread waits without a deadline.
-/
namespace UndoableLists.Session

structure LockSession where
  locks : Locks := {}
  values : Table LockId Value := .empty
  names : Table String LockId := .empty
  tokens : Table (Thread × String) LockId := .empty
  thread : Thread := 0
  letsGo : Option (Thread × String) := none
  notices : List Notice := []

namespace LockSession

def dropToken (b : LockSession) (thread : Thread) (name : String) : LockSession :=
  match b.tokens.get? (thread, name) with
  | none => b
  | some id =>
    { b with locks := b.locks.release thread id, tokens := b.tokens.erase (thread, name) }

instance : Host LockSession where
  locks := LockSession.locks
  setLocks ls b := { b with locks := ls }
  thread := LockSession.thread
  note n b := { b with notices := b.notices ++ [n] }
  othersYield b :=
    match b.letsGo with
    | none => b
    | some (thread, name) => b.dropToken thread name

end LockSession

inductive LockStep where
  | acquire (access : Access) (lock token : String) (timeout : Option Nat)
  | upgrade (token : String)
  | intoWrite (token : String)
  | drop (token : String)
  | get (token : String)
  | put (token : String) (value : Value)
  | dispose (lock : String)
  | isDisposed (lock : String)
  | held (lock : String)
  | settings (lock : String)
  | text (lock : String)
  | boom (lock : String)

inductive LockAnswer where
  | held
  | upgraded
  | kept
  | done
  | flag (b : Bool)
  | settings (s : Patience)
  | text (t : String)
  | token (value : Value) (text : String)
  | value (v : Value)
  | unknown

def tokenText (access : Access) (value : Value) : String :=
  (match access with
    | .read => "ReadLockToken("
    | .write => "WriteLockToken("
    | .upgradeable => "ReadWriteLockToken(") ++ value.shown ++ ")"

def lockText (ls : Locks) (id : LockId) (shownId value : String) : String :=
  Text.fields "ReaderWriterLock" [("id", shownId),
    ("settings", Text.patience (ls.settings id)),
    ("disposed", Text.flag (ls.isDisposed id)),
    ("value", if ls.isWriteHeld id then "\"<locked>\"" else value)]

namespace LockSession

def addLock (b : LockSession) (name : String) (value : Value) (settings : Patience) : LockSession :=
  let (id, locks) := b.locks.create settings
  { b with locks, values := b.values.insert id value, names := b.names.insert name id }

abbrev Work := Act LockSession LockRefusal

def named (name : String) : LockSession → LockId := fun b => (b.names.get? name).getD 0

def valueOf (b : LockSession) (id : LockId) : Value := (b.values.get? id).getD default

def keep (b : LockSession) (name : String) (id : LockId) : LockSession :=
  { b.dropToken b.thread name with tokens := b.tokens.insert (b.thread, name) id }

def withToken (name : String) (f : LockId → Work LockAnswer) : Work LockAnswer := fun b =>
  match b.tokens.get? (b.thread, name) with
  | none => (.ok .unknown, b)
  | some id => f id b

def forget (name : String) (b : LockSession) : LockSession :=
  { b with tokens := b.tokens.erase (b.thread, name) }

def raise (name : String) (id : LockId) (whenRefused : LockRefusal → Work LockAnswer) :
    Work LockAnswer := fun b =>
  match Host.upgrade id b with
  | (.ok (), b) => (.ok .upgraded, b)
  | (.error (.refused cause), b) => whenRefused cause b
  | (.error fault, b) => (.error fault, forget name b)

def perform : LockStep → Work LockAnswer
  | .acquire access lock token timeout => do
    let id ← Act.read (named lock)
    Host.acquireWithin (timeout.map .ofMillis) id access
    Act.modify (·.keep token id)
    return .held
  | .upgrade token => withToken token fun id => raise token id fun _ => return .kept
  | .intoWrite token => withToken token fun id => do
    let answer ← raise token id fun cause => do
      Act.modify fun b => b.dropToken b.thread token
      Act.refuse cause
    return match answer with
      | .upgraded => .held
      | other => other
  | .drop token => do
    Act.modify fun b => b.dropToken b.thread token
    return .done
  | .get token => withToken token fun id => do
    let value ← Act.read (·.valueOf id)
    let access ← Act.read fun b => (b.locks.accessOf? id b.thread).getD .read
    return .token value (tokenText access value)
  | .put token value => withToken token fun id => do
    let old ← Act.read (·.valueOf id)
    Act.modify fun b => { b with values := b.values.insert id value }
    return .value old
  | .dispose lock => do
    let first ← Host.dispose (← Act.read (named lock))
    return .flag first
  | .isDisposed lock => do
    let id ← Act.read (named lock)
    return .flag (← Act.read (·.locks.isDisposed id))
  | .held lock => do
    let id ← Act.read (named lock)
    return .flag (← Act.read fun b => b.locks.isHeldBy id b.thread)
  | .settings lock => do
    let id ← Act.read (named lock)
    return .settings (← Act.read (·.locks.settings id))
  | .text lock => do
    let id ← Act.read (named lock)
    return .text (← Act.read fun b => lockText b.locks id (toString id) (b.valueOf id).shown)
  | .boom lock => do
    let lock ← Act.read (named lock)
    Host.holding id lock .write (Act.fail (.panicked (some "locked")))

end LockSession

def LockSession.step (b : LockSession) (thread : Thread) (letsGo : Option (Thread × String))
    (s : LockStep) : Outcome LockRefusal LockAnswer × List Notice × LockSession :=
  let (r, b) := LockSession.perform s { b with thread, letsGo, notices := [] }
  (r, b.notices, b)

end UndoableLists.Session
