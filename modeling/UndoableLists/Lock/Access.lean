/-!
The three ways to hold a lock, and how long one waits for it. Any number of readers share a lock;
one upgradeable reader may be among them; a writer is alone. Lengths of time are counted in
nanoseconds; their text is the shortest exact one: the largest unit whose whole part is not zero,
then the fraction without trailing zeros.
-/
namespace UndoableLists

inductive Access where
  | read
  | write
  | upgradeable
  deriving DecidableEq, Inhabited

def Access.excludes : Access → Access → Bool
  | .write, _ => true
  | _, .write => true
  | .upgradeable, .upgradeable => true
  | _, _ => false

def Access.text : Access → String
  | .read => "read"
  | .write => "write"
  | .upgradeable => "upgradeable read"

structure Duration where
  nanos : Nat
  deriving DecidableEq, Inhabited

namespace Duration

def ofMillis (ms : Nat) : Duration := ⟨ms * 1000000⟩

def digits (width n : Nat) : List Char :=
  let ds := Nat.toDigits 10 n
  List.replicate (width - ds.length) '0' ++ ds

def fraction (width n : Nat) : List Char :=
  ((digits width n).reverse.dropWhile (· = '0')).reverse

def inUnit (width nanos : Nat) (unit : String) : String :=
  let whole := toString (nanos / Nat.pow 10 width)
  match fraction width (nanos % Nat.pow 10 width) with
  | [] => whole ++ unit
  | ds => whole ++ "." ++ String.ofList ds ++ unit

def text (d : Duration) : String :=
  if Nat.pow 10 9 ≤ d.nanos then inUnit 9 d.nanos "s"
  else if Nat.pow 10 6 ≤ d.nanos then inUnit 6 d.nanos "ms"
  else if Nat.pow 10 3 ≤ d.nanos then inUnit 3 d.nanos "µs"
  else inUnit 0 d.nanos "ns"

end Duration

/-- What happens when the wait is over: give up, or say so and go on waiting. -/
inductive WaitPolicy where
  | fail
  | warnAndWait
  deriving DecidableEq, Inhabited

structure Patience where
  timeout : Duration := .ofMillis 1000
  policy : WaitPolicy := .warnAndWait
  deriving DecidableEq, Inhabited

end UndoableLists
