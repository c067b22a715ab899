import UndoableLists.Json.Parser
import UndoableLists.Lock.Basic
import UndoableLists.Toml.Parser

/-!
The defaults that every new lock takes over: how long to wait, in milliseconds, and what to do
then. They come from variables of an environment, JSON texts and TOML texts. What a variable says is
taken when it can be understood and passed over when not; a text is refused as a whole. In a text,
fields that are not there keep their default and other fields are passed over. Main statement: the
check lets through exactly the defaults without a problem.
-/
namespace UndoableLists

/-- Blank characters, those with the property White_Space. -/
def Text.isBlank (c : Char) : Bool :=
  let n := c.toNat
  (0x9 ≤ n && n ≤ 0xD) || n = 0x20 || n = 0x85 || n = 0xA0 || n = 0x1680 ||
    (0x2000 ≤ n && n ≤ 0x200A) || n = 0x2028 || n = 0x2029 || n = 0x202F || n = 0x205F || n = 0x3000

def Text.trimmed (cs : List Char) : List Char :=
  ((cs.dropWhile isBlank).reverse.dropWhile isBlank).reverse

structure LockDefaults where
  timeoutMs : Nat := 1000
  policy : WaitPolicy := .warnAndWait
  deriving DecidableEq, Inhabited

namespace LockDefaults

def patience (d : LockDefaults) : Patience := ⟨.ofMillis d.timeoutMs, d.policy⟩

def problems (d : LockDefaults) : List String :=
  if d.timeoutMs = 0 then ["lock_acquisition_timeout_ms must be > 0"] else []

def checked (d : LockDefaults) : Except SettingsRefusal LockDefaults :=
  match d.problems with
  | [] => .ok d
  | problems => .error (.invalid problems)

theorem checked_eq_ok_iff (d e : LockDefaults) : d.checked = .ok e ↔ d = e ∧ d.problems = [] := by
  unfold checked
  split
  · simp [*]
  · simp_all

/-- The defaults in force, and what the locks made so far go by. -/
structure Installed where
  current : LockDefaults
  locks : List Patience

/-- Replaces the defaults again and again, with a new lock after each replacement. A lock keeps the
settings it was made with. -/
def installAll : Locks → List LockId → List LockDefaults → List Installed
  | _, _, [] => []
  | locks, made, defaults :: rest =>
    let (id, locks) := locks.create defaults.patience
    let made := made ++ [id]
    ⟨defaults, made.map locks.settings⟩ :: installAll locks made rest

def timeoutVariable : String := "KEEL_LOCK_TIMEOUT_MS"
def policyVariable : String := "KEEL_LOCK_TIMEOUT_POLICY"
def timeoutField : String := "lock_acquisition_timeout_ms"
def policyField : String := "lock_timeout_policy"

def unsigned? (cs : List Char) : Option Nat :=
  let ds := match cs with
    | '+' :: ds => ds
    | ds => ds
  if !ds.isEmpty && ds.all Char.isDigit && Json.ofDigits ds < UInt64.size then
    some (Json.ofDigits ds)
  else none

def policyOfWord? (cs : List Char) : Option WaitPolicy :=
  let word := String.ofList (cs.map Char.toLower)
  if word = "warn-and-wait" || word = "warn_and_wait" || word = "wait" then some .warnAndWait
  else if word = "fail" || word = "error" then some .fail
  else none

def read? {α : Type} (lookup : String → Option String) (name : String)
    (read : List Char → Option α) : Option α :=
  (lookup name).bind fun text => read (Text.trimmed text.toList)

def ofEnvironment (lookup : String → Option String) : LockDefaults :=
  { timeoutMs := (read? lookup timeoutVariable unsigned?).getD ({} : LockDefaults).timeoutMs
    policy := (read? lookup policyVariable policyOfWord?).getD ({} : LockDefaults).policy }

def policyOfName? (name : String) : Option WaitPolicy :=
  if name = "warn-and-wait" then some .warnAndWait
  else if name = "fail" then some .fail
  else none

def field? {α β : Type} (read : α → Option β) (absent : β) : Option α → Option β
  | none => some absent
  | some a => read a

def build? {α : Type} (timeout : α → Option Nat) (policy : α → Option WaitPolicy)
    (timeoutEntry policyEntry : Option α) : Option LockDefaults := do
  return { timeoutMs := ← field? timeout ({} : LockDefaults).timeoutMs timeoutEntry
           policy := ← field? policy ({} : LockDefaults).policy policyEntry }

def jsonTimeout? : Json → Option Nat
  | .int n => if 0 ≤ n then some n.toNat else none
  | _ => none

def jsonPolicy? : Json → Option WaitPolicy
  | .str (some name) => policyOfName? name
  | .obj [(some name, .null)] => policyOfName? name
  | _ => none

def single? (members : List (Option String × Json)) (key : String) : Option (Option Json) :=
  match members.filter (·.1 = some key) with
  | [] => some none
  | [(_, item)] => some (some item)
  | _ => none

def ofDocument? : Json → Option LockDefaults
  | .obj members =>
    if members.any (·.1.isNone) then none
    else do
      build? jsonTimeout? jsonPolicy? (← single? members timeoutField)
        (← single? members policyField)
  | .arr [] => some {}
  | .arr [timeout] => build? jsonTimeout? jsonPolicy? (some timeout) none
  | .arr [timeout, policy] => build? jsonTimeout? jsonPolicy? (some timeout) (some policy)
  | _ => none

def ofJson (text : String) : Except SettingsRefusal LockDefaults :=
  match (Json.parse? text).bind ofDocument? with
  | none => .error .malformedJson
  | some d => d.checked

def tomlTimeout? : Toml → Option Nat
  | .int n => if 0 ≤ n then some n.toNat else none
  | _ => none

def tomlPolicy? : Toml → Option WaitPolicy
  | .text name => policyOfName? name
  | .table _ [(name, .table _ [])] => policyOfName? name
  | .table _ [(name, .arr [])] => policyOfName? name
  | _ => none

def ofEntries? (es : Toml.Entries) : Option LockDefaults :=
  build? tomlTimeout? tomlPolicy? (Toml.get? es timeoutField) (Toml.get? es policyField)

def ofToml (text : String) : Except SettingsRefusal LockDefaults :=
  match (Toml.parse? text).bind ofEntries? with
  | none => .error .malformedToml
  | some d => d.checked

def ofTomlFile : Option String → Except SettingsRefusal LockDefaults
  | none => .error .unreadableFile
  | some text => ofToml text

end LockDefaults

end UndoableLists
