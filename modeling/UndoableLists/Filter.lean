import UndoableLists.Value

/-!
Filters on values, and the items they let through. A filter can fail on a value instead of judging
it; then nothing is selected at all.
-/
namespace UndoableLists

inductive Filter where
  | above (n : Int)
  | below (n : Int)
  | remainder (modulus rest : Int)
  | startsWith (start : String)
  | oneOf (values : List Value)
  | everything
  | nothing
  | failsOn (v : Value)
  deriving Inhabited

namespace Filter

def fails : Filter → Value → Bool
  | .failsOn bad, v => v = bad
  | .remainder modulus _, .int n => modulus = 0 || (modulus = -1 && n = -Int.pow 2 63)
  | _, _ => false

def admits : Filter → Value → Bool
  | .above n, .int m => n < m
  | .below n, .int m => m < n
  | .remainder modulus rest, .int m => m % modulus = rest
  | .startsWith start, .text s => start.toList.isPrefixOf s.toList
  | .oneOf values, v => values.contains v
  | .everything, _ => true
  | .failsOn _, _ => true
  | _, _ => false

def complaint : Filter → Option String
  | .failsOn _ => some "predicate"
  | _ => none

def judge (f : Filter) (v : Value) : Except (Option String) Bool :=
  if f.fails v then .error f.complaint else .ok (f.admits v)

end Filter

/-- What a view makes of a value under a filter: lets it through or not, or fails on it with what
it says then. -/
abbrev Predicate := Filter → Value → Except (Option String) Bool

/-- The items whose values pass, in order. The first item that the judgement fails on ends it. -/
def Filter.select {α : Type} (judge : Value → Except (Option String) Bool) (value : α → Value) :
    List α → Except (Option String) (List α)
  | [] => .ok []
  | x :: rest => do
    let passes ← judge (value x)
    let chosen ← select judge value rest
    return if passes then x :: chosen else chosen

end UndoableLists
