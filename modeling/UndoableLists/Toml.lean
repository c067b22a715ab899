/-!
TOML documents: nested tables, and how a document grows line by line. A key is written once; a
table is opened once under a header; dotted keys only reach tables that dotted keys made; a value
is never extended. Whatever breaks one of these rules is refused.
-/
namespace UndoableLists

/-- What a table came from: a header of its own, its place on the way to another header, dotted
keys, or braces. -/
inductive TableOrigin where
  | header
  | wayside
  | dotted
  | braces
  deriving DecidableEq

inductive Toml where
  | text (s : String)
  | int (n : Int)
  | decimal (literal : String)
  | bool (b : Bool)
  | moment (literal : String)
  | arr (items : List Toml)
  | table (origin : TableOrigin) (entries : List (String × Toml))
  | tables (elements : List (List (String × Toml)))

namespace Toml

instance : Inhabited Toml := ⟨.bool false⟩

abbrev Entries := List (String × Toml)

def TableOrigin.isStep (last : Bool) : TableOrigin → Bool
  | .dotted => true
  | .wayside => !last
  | _ => false

def changeLast? {α : Type} (f : α → Option α) : List α → Option (List α)
  | [] => none
  | [x] => (f x).map ([·])
  | x :: rest => (changeLast? f rest).map (x :: ·)

def change? (key : String) (f : Option Toml → Option Toml) : Entries → Option Entries
  | [] => (f none).map fun v => [(key, v)]
  | (k, v) :: rest =>
    if k = key then (f (some v)).map fun v => (k, v) :: rest
    else (change? key f rest).map ((k, v) :: ·)

def assign? : List String → String → Toml → Entries → Option Entries
  | [], key, value, es => change? key (fun old => if old.isNone then some value else none) es
  | step :: rest, key, value, es =>
    es |> change? step fun
      | none => (assign? rest key value []).map (.table .dotted)
      | some (.table origin inner) =>
        if TableOrigin.isStep rest.isEmpty origin then
          (assign? rest key value inner).map (.table origin)
        else none
      | some (.tables elements) =>
        if rest.isEmpty then none
        else (changeLast? (assign? rest key value) elements).map .tables
      | some _ => none

def within? (f : Entries → Option Entries) : List String → Entries → Option Entries
  | [], es => f es
  | step :: rest, es =>
    es |> change? step fun
      | none => (within? f rest []).map (.table .wayside)
      | some (.table .braces _) => none
      | some (.table origin inner) => (within? f rest inner).map (.table origin)
      | some (.tables elements) => (changeLast? (within? f rest) elements).map .tables
      | some _ => none

def openTable? (key : String) : Entries → Option Entries :=
  change? key fun
    | none => some (.table .header [])
    | some (.table .wayside inner) => some (.table .header inner)
    | some _ => none

def addTable? (key : String) : Entries → Option Entries :=
  change? key fun
    | none => some (.tables [[]])
    | some (.tables elements) => some (.tables (elements ++ [[]]))
    | some _ => none

def get? (es : Entries) (key : String) : Option Toml := es.lookup key

end Toml

end UndoableLists
