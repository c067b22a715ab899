import UndoableLists.Refusal
import UndoableLists.Table

/-!
Locks and who holds them. Each lock knows its holds, each thread has a ledger of the locks it
holds; a thread never holds a lock twice. An acquisition is granted, or refused, or has to wait
without a deadline until others let go.
-/
namespace UndoableLists

abbrev LockId := Nat
abbrev Thread := Nat

structure Hold where
  thread : Thread
  access : Access
  deriving DecidableEq

structure Lock where
  settings : Patience := {}
  disposed : Bool := false
  holds : List Hold := []

structure Locks where
  table : Table LockId Lock := .empty
  ledger : Table Thread (List LockId) := .empty
  next : LockId := 1

/-- How an acquisition ends, or that it cannot end yet. -/
inductive Attempt where
  | granted (after : Locks)
  | refused (cause : LockRefusal)
  | waits

namespace Lock

def keepsOut (lock : Lock) (access : Access) : Bool :=
  lock.holds.any fun h => h.access.excludes access

def contested (lock : Lock) (thread : Thread) : Bool :=
  lock.holds.any fun h => h.thread != thread

def accessOf? (lock : Lock) (thread : Thread) : Option Access :=
  (lock.holds.find? fun h => h.thread == thread).map (·.access)

def without (lock : Lock) (thread : Thread) : Lock :=
  { lock with holds := lock.holds.filter fun h => h.thread != thread }

def holdingAs (lock : Lock) (thread : Thread) (access : Access) : Lock :=
  { lock with holds := lock.holds ++ [⟨thread, access⟩] }

def raised (lock : Lock) (thread : Thread) : Lock :=
  { lock with holds := lock.holds.map fun h =>
      if h.thread == thread then { h with access := .write } else h }

end Lock

namespace Locks

def create (ls : Locks) (settings : Patience) : LockId × Locks :=
  (ls.next, { ls with table := ls.table.insert ls.next { settings }, next := ls.next + 1 })

def get? (ls : Locks) (id : LockId) : Option Lock := ls.table.get? id

def settings (ls : Locks) (id : LockId) : Patience := ((ls.get? id).map (·.settings)).getD {}

def isDisposed (ls : Locks) (id : LockId) : Bool := ((ls.get? id).map (·.disposed)).getD true

def heldBy (ls : Locks) (thread : Thread) : List LockId := (ls.ledger.get? thread).getD []

def isHeldBy (ls : Locks) (id : LockId) (thread : Thread) : Bool := (ls.heldBy thread).contains id

def isWriteHeld (ls : Locks) (id : LockId) : Bool :=
  ((ls.get? id).map (·.keepsOut .read)).getD false

def accessOf? (ls : Locks) (id : LockId) (thread : Thread) : Option Access :=
  (ls.get? id).bind (·.accessOf? thread)

def dispose (ls : Locks) (id : LockId) : Bool × Locks :=
  (!ls.isDisposed id, { ls with table := ls.table.modify id fun l => { l with disposed := true } })

def ledgerWith (ls : Locks) (thread : Thread) (ids : List LockId) : Table Thread (List LockId) :=
  if ids.isEmpty then ls.ledger.erase thread else ls.ledger.insert thread ids

def grant (ls : Locks) (thread : Thread) (id : LockId) (access : Access) : Locks :=
  { ls with
    table := ls.table.modify id (·.holdingAs thread access)
    ledger := ls.ledgerWith thread (ls.heldBy thread ++ [id]) }

/-- One try to take a lock. `timeout` only appears in the refusal. -/
def attempt (ls : Locks) (thread : Thread) (id : LockId) (access : Access)
    (timeout : Option Duration) : Attempt :=
  match ls.get? id with
  | none => .refused .disposed
  | some lock =>
    if lock.disposed then .refused .disposed
    else if ls.isHeldBy id thread then .refused (.recursive access)
    else if lock.keepsOut access then
      match lock.settings.policy with
      | .fail => .refused (.timeout access (timeout.getD lock.settings.timeout))
      | .warnAndWait => .waits
    else .granted (ls.grant thread id access)

/-- One try to turn an upgradeable hold into a write hold. A refusal leaves the hold as it is. -/
def attemptUpgrade (ls : Locks) (thread : Thread) (id : LockId) : Attempt :=
  match ls.get? id with
  | none => .refused .disposed
  | some lock =>
    if lock.contested thread then
      match lock.settings.policy with
      | .fail => .refused (.timeout .write lock.settings.timeout)
      | .warnAndWait => .waits
    else .granted { ls with table := ls.table.modify id (·.raised thread) }

/-- Takes the last entry for a lock out of a ledger. The entry at the end moves into its place. -/
def swapOut (ids : List LockId) (id : LockId) : List LockId :=
  match ids.reverse with
  | [] => []
  | last :: rest =>
    if last = id then rest.reverse
    else if rest.contains id then (rest.replace id last).reverse
    else ids

theorem swapOut_concat (ids : List LockId) (id : LockId) : swapOut (ids ++ [id]) id = ids := by
  simp [swapOut]

theorem replace_perm {id last : LockId} {ids : List LockId} (member : id ∈ ids) :
    (ids.replace id last).Perm (last :: ids.erase id) := by
  induction ids with
  | nil => cases member
  | cons i rest ih =>
    by_cases same : i = id
    · subst same
      simp
    · have later : id ∈ rest := (List.mem_cons.mp member).resolve_left (Ne.symm same)
      have differs : (id == i) = false := beq_false_of_ne (Ne.symm same)
      rw [List.replace_cons, differs, List.erase_cons_tail (by simpa using same)]
      exact ((ih later).cons i).trans (List.Perm.swap last i _)

theorem swapOut_perm (ids : List LockId) (id : LockId) : (swapOut ids id).Perm (ids.erase id) := by
  have turned : (ids.reverse.erase id).Perm (ids.erase id) := ids.reverse_perm.erase id
  unfold swapOut
  split
  · rename_i none
    rwa [none] at turned
  · rename_i last rest reversed
    rw [reversed] at turned
    refine List.Perm.trans ?_ turned
    split
    · rename_i same
      rw [same, List.erase_cons_head]
      exact rest.reverse_perm
    · rename_i differs
      rw [List.erase_cons_tail (by simpa using differs)]
      split
      · rename_i inside
        exact (List.reverse_perm _).trans (replace_perm (by simpa using inside))
      · rename_i absent
        have whole : ids = (last :: rest).reverse := by rw [← reversed, List.reverse_reverse]
        rw [List.erase_of_not_mem (by simpa using absent), whole]
        exact List.reverse_perm _

def release (ls : Locks) (thread : Thread) (id : LockId) : Locks :=
  { ls with
    table := ls.table.modify id (·.without thread)
    ledger := ls.ledgerWith thread (swapOut (ls.heldBy thread) id) }

end Locks

end UndoableLists
