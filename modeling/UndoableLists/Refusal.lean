import UndoableLists.Lock.Access

/-!
What can go wrong, by cause, and the words for it. A list reports a lock's refusal as its own: a
disposed lock means a disposed list.
-/
namespace UndoableLists

/-- Contexts are numbered from one in the order in which they are created. -/
abbrev Context := Nat

inductive LockRefusal where
  | disposed
  | timeout (access : Access) (after : Duration)
  | recursive (access : Access)
  deriving DecidableEq

inductive CaptureRefusal where
  | alreadyCaptured (index : Nat) (owner : Context)
  | notCaptured (index : Nat)
  | capturedByOther (index : Nat) (owner expected : Context)
  deriving DecidableEq

inductive ListRefusal where
  | disposed
  | timeout (access : Access) (after : Duration)
  | recursive (access : Access)
  | capture (cause : CaptureRefusal)
  | indexOutOfRange (index length : Nat)
  | rangeOutOfBounds (start count length : Nat)
  | readOnlyIndex (index : Nat)
  deriving DecidableEq

inductive SettingsRefusal where
  | invalid (problems : List String)
  | unreadableFile
  | malformedToml
  | malformedJson
  deriving DecidableEq

def LockRefusal.message : LockRefusal → String
  | .disposed => "lock has been disposed"
  | .timeout access after =>
    "timed out after " ++ after.text ++ " acquiring " ++ access.text ++ " lock"
  | .recursive access =>
    "re-entrant " ++ access.text ++ " acquisition of a lock already held by this thread"

def CaptureRefusal.message : CaptureRefusal → String
  | .alreadyCaptured index owner =>
    "item " ++ toString index ++ " is already captured by context #" ++ toString owner
  | .notCaptured index => "item " ++ toString index ++ " is not captured"
  | .capturedByOther index owner expected =>
    "item " ++ toString index ++ " is captured by context #" ++ toString owner ++
      ", expected #" ++ toString expected

def ListRefusal.message : ListRefusal → String
  | .disposed => "collection has been disposed"
  | .timeout access after => (LockRefusal.timeout access after).message
  | .recursive access => (LockRefusal.recursive access).message
  | .capture cause => cause.message
  | .indexOutOfRange index length =>
    "index " ++ toString index ++ " is out of range for length " ++ toString length
  | .rangeOutOfBounds start count length =>
    "range " ++ toString start ++ ".." ++ toString start ++ "+" ++ toString count ++
      " is out of bounds for length " ++ toString length
  | .readOnlyIndex index => "index " ++ toString index ++ " belongs to a read-only slave list"

def SettingsRefusal.message? : SettingsRefusal → Option String
  | .invalid problems => some ("invalid settings: " ++ "; ".intercalate problems)
  | _ => none

def ListRefusal.ofLock : LockRefusal → ListRefusal
  | .disposed => .disposed
  | .timeout access after => .timeout access after
  | .recursive access => .recursive access

inductive Refusal where
  | list (cause : ListRefusal)
  | settings (cause : SettingsRefusal)
  deriving DecidableEq

def Refusal.ofLock (cause : LockRefusal) : Refusal := .list (.ofLock cause)
def Refusal.ofCapture (cause : CaptureRefusal) : Refusal := .list (.capture cause)

def Refusal.message? : Refusal → Option String
  | .list cause => some cause.message
  | .settings cause => cause.message?

end UndoableLists
