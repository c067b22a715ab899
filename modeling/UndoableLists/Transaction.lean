import UndoableLists.Act
import UndoableLists.Journal

/-!
Transactions: steps that take back what was done, and steps that follow a success. A transaction
ends once, in one of the two ways: the follow-ups in the order of their registration, or the
take-backs from the newest to the oldest. Every step of the chosen kind runs, whichever of them
panic; the first panic is handed on afterwards.
-/
namespace UndoableLists

structure Transaction (ς : Type) where
  reverts : List ς := []
  hooks : List ς := []
  succeeded : Bool := false

namespace Transaction
variable {ς σ ε : Type}

def addRevert (tx : Transaction ς) (step : ς) : Transaction ς :=
  { tx with reverts := tx.reverts ++ [step] }

def addReverts (tx : Transaction ς) (steps : List ς) : Transaction ς :=
  { tx with reverts := tx.reverts ++ steps }

def addHook (tx : Transaction ς) (step : ς) : Transaction ς :=
  { tx with hooks := tx.hooks ++ [step] }

def success (tx : Transaction ς) : Transaction ς := { tx with succeeded := true }

def ending (tx : Transaction ς) : List ς :=
  if tx.succeeded then tx.hooks else tx.reverts.reverse

def runEach (run : ς → Act σ ε Unit) : List ς → σ → Option (Fault ε) × σ
  | [], s => (none, s)
  | step :: rest, s =>
    let (r, s) := run step s
    let (later, s) := runEach run rest s
    match r with
    | .ok () => (later, s)
    | .error fault => (some fault, s)

def rollsBack (tx : Transaction ς) : Bool := !tx.succeeded && !tx.reverts.isEmpty

/-- Ends the transaction. While a panic is already unwinding, no other is handed on. -/
def finish [Journal σ] (run : ς → Act σ ε Unit) (unwinding : Bool) (tx : Transaction ς) :
    Act σ ε Unit := fun s =>
  let s := if tx.rollsBack then Journal.note .rollingBack s else s
  let (fault, s) := runEach run tx.ending s
  match fault, unwinding with
  | some fault, false => (.error fault, s)
  | _, _ => (.ok (), s)

end Transaction

end UndoableLists
