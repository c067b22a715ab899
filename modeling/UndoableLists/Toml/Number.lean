import UndoableLists.Toml
import UndoableLists.Toml.Lexis

/-!
Numbers and moments in TOML texts. What follows a value has to be a blank, a comment, a separator
or the end of the line, so that a reader may stop early.
-/
namespace UndoableLists.Toml

def moreDigits (isDigit : Char → Bool) : List Char → List Char × List Char
  | '_' :: c :: cs =>
    if isDigit c then
      let (ds, rest) := moreDigits isDigit cs
      (c :: ds, rest)
    else ([], '_' :: c :: cs)
  | c :: cs =>
    if isDigit c then
      let (ds, rest) := moreDigits isDigit cs
      (c :: ds, rest)
    else ([], c :: cs)
  | [] => ([], [])

def digits (isDigit : Char → Bool) : Reader (List Char)
  | c :: cs =>
    if isDigit c then
      let (ds, rest) := moreDigits isDigit cs
      some (c :: ds, rest)
    else none
  | [] => none

def sign : List Char → List Char × List Char
  | '+' :: cs => ([], cs)
  | '-' :: cs => (['-'], cs)
  | cs => ([], cs)

def whole : Reader (List Char)
  | '0' :: cs => some (['0'], cs)
  | cs => digits Char.isDigit cs

def fraction : Reader (List Char)
  | '.' :: cs => digits Char.isDigit cs
  | _ => none

def exponent : Reader Int
  | c :: cs =>
    if c = 'e' || c = 'E' then
      let (minus, cs) := sign cs
      (digits Char.isDigit cs).map fun (ds, cs) =>
        (if minus.isEmpty then (Json.ofDigits ds : Int) else -(Json.ofDigits ds : Int), cs)
    else none
  | [] => none

/-- The least number that is nearer to infinity than to a number of double precision. -/
def overflow : Nat := (Nat.pow 2 54 - 1) * Nat.pow 2 970

def overflows (mantissa : Nat) (exponent : Int) : Bool :=
  let size : Int := (Nat.toDigits 10 mantissa).length + exponent
  if mantissa = 0 || size < 309 then false
  else if 309 < size then true
  else if 0 ≤ exponent then overflow ≤ mantissa * Nat.pow 10 exponent.toNat
  else overflow * Nat.pow 10 (-exponent).toNat ≤ mantissa

def decimalNumber (cs : List Char) : Option (Toml × List Char) :=
  let (minus, cs) := sign cs
  match special "inf" cs <|> special "nan" cs with
  | some rest =>
    some (.decimal (String.ofList (minus ++ cs.take (cs.length - rest.length))), rest)
  | none => do
    let (before, rest) ← whole cs
    let (after, rest) := (fraction rest).getD ([], rest)
    let (power, tail) := (exponent rest).getD (0, rest)
    if after.isEmpty && tail.length = rest.length then none
    else if minus.isEmpty && overflows (Json.ofDigits (before ++ after)) (power - after.length) then
      none
    else some (.decimal (String.ofList (minus ++ cs.take (cs.length - tail.length))), tail)

def inRange (n : Int) : Option Toml :=
  if -Int.pow 2 63 ≤ n ∧ n < Int.pow 2 63 then some (.int n) else none

def ofBase (base : Nat) (ds : List Char) : Nat :=
  ds.foldl (fun n c => n * base + (Json.hexValue c).getD 0) 0

def inBase (base : Nat) (cs : List Char) : Option (Toml × List Char) := do
  let (ds, cs) ← digits (fun c => (Json.hexValue c).any (· < base)) cs
  return (← inRange (ofBase base ds), cs)

def integer : List Char → Option (Toml × List Char)
  | '0' :: 'x' :: cs => inBase 16 cs
  | '0' :: 'o' :: cs => inBase 8 cs
  | '0' :: 'b' :: cs => inBase 2 cs
  | cs => do
    let (minus, cs) := sign cs
    let (ds, cs) ← whole cs
    let n : Int := Json.ofDigits ds
    return (← inRange (if minus.isEmpty then n else -n), cs)

def part (width low high : Nat) (cs : List Char) : Option (Nat × List Char) :=
  let ds := cs.take width
  if ds.length = width && ds.all Char.isDigit then
    let n := Json.ofDigits ds
    if low ≤ n && n ≤ high then some (n, cs.drop width) else none
  else none

def isLeap (year : Nat) : Bool := year % 4 = 0 && (year % 100 ≠ 0 || year % 400 = 0)

def monthLength (year month : Nat) : Nat :=
  if month = 2 then (if isLeap year then 29 else 28)
  else if month = 4 || month = 6 || month = 9 || month = 11 then 30
  else 31

def date (cs : List Char) : Option (List Char) := do
  let (year, cs) ← part 4 0 9999 cs
  let (month, cs) ← part 2 1 12 (← mark '-' cs)
  let (_, cs) ← part 2 1 (monthLength year month) (← mark '-' cs)
  return cs

def secondFraction : List Char → Option (List Char)
  | '.' :: cs => if cs.head?.any Char.isDigit then some (cs.dropWhile Char.isDigit) else none
  | _ => none

def time (cs : List Char) : Option (List Char) := do
  let (_, cs) ← part 2 0 23 cs
  let (_, cs) ← part 2 0 59 (← mark ':' cs)
  let (_, cs) ← part 2 0 60 (← mark ':' cs)
  return (secondFraction cs).getD cs

def offset : List Char → Option (List Char)
  | c :: cs =>
    if c = 'Z' || c = 'z' then some cs
    else if c = '+' || c = '-' then do
      let (_, cs) ← part 2 0 23 cs
      let (_, cs) ← part 2 0 59 (← mark ':' cs)
      return cs
    else none
  | [] => none

def dayTime : List Char → Option (List Char)
  | c :: cs =>
    if c = 'T' || c = 't' || c = ' ' then (time cs).map fun cs => (offset cs).getD cs else none
  | [] => none

def dateTime (cs : List Char) : Option (Toml × List Char) := do
  let rest ← ((date cs).map fun cs => (dayTime cs).getD cs) <|> time cs
  return (.moment (String.ofList (cs.take (cs.length - rest.length))), rest)

def number (cs : List Char) : Option (Toml × List Char) :=
  dateTime cs <|> decimalNumber cs <|> integer cs

def word (text : String) (value : Toml) (cs : List Char) : Option (Toml × List Char) :=
  (special text cs).map fun cs => (value, cs)

end UndoableLists.Toml
