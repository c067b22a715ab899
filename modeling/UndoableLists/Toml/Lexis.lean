import UndoableLists.Json.Parser

/-!
The words of TOML texts: line ends, strings and keys. Every reader takes the characters that are
left and returns what it read with the characters after it.
-/
namespace UndoableLists.Toml

abbrev Reader (α : Type) := List Char → Option (α × List Char)

def isPlain (c : Char) : Bool := c = '\t' || (32 ≤ c.toNat && c.toNat ≠ 127)

def isSpace (c : Char) : Bool := c = ' ' || c = '\t'

def spaces (cs : List Char) : List Char := cs.dropWhile isSpace

def newline? : List Char → Option (List Char)
  | '\n' :: cs => some cs
  | '\r' :: '\n' :: cs => some cs
  | _ => none

def comment : List Char → List Char
  | '#' :: cs => cs.dropWhile isPlain
  | cs => cs

def lineEnd? (cs : List Char) : Option (List Char) :=
  match comment (spaces cs) with
  | [] => some []
  | cs => newline? cs

def gap : Nat → List Char → List Char
  | 0, cs => cs
  | fuel + 1, cs =>
    let cs := comment (spaces cs)
    match newline? cs with
    | some cs => gap fuel cs
    | none => cs

def scalar (n : Nat) : Option Char := if n.isValidChar then some (Char.ofNat n) else none

def hex (cs : List Char) : Option Nat := cs.foldlM (fun n c => (Json.hexValue c).map (n * 16 + ·)) 0

def simpleEscape (c : Char) : Option Char :=
  if c = '"' then some '"'
  else if c = '\\' then some '\\'
  else if c = 'b' then some '\x08'
  else if c = 'f' then some '\x0c'
  else if c = 'n' then some '\n'
  else if c = 'r' then some '\r'
  else if c = 't' then some '\t'
  else none

def escape : Reader Char
  | 'u' :: a :: b :: c :: d :: cs => do return (← scalar (← hex [a, b, c, d]), cs)
  | 'U' :: a :: b :: c :: d :: e :: f :: g :: h :: cs => do
    return (← scalar (← hex [a, b, c, d, e, f, g, h]), cs)
  | c :: cs => do return (← simpleEscape c, cs)
  | [] => none

def basic : Nat → Reader (List Char)
  | 0, _ => none
  | _ + 1, [] => none
  | _ + 1, '"' :: cs => some ([], cs)
  | fuel + 1, '\\' :: cs => do
    let (c, cs) ← escape cs
    let (inner, cs) ← basic fuel cs
    return (c :: inner, cs)
  | fuel + 1, c :: cs =>
    if isPlain c then (basic fuel cs).map fun (inner, cs) => (c :: inner, cs) else none

def literal : Reader (List Char)
  | [] => none
  | '\'' :: cs => some ([], cs)
  | c :: cs => if isPlain c then (literal cs).map fun (inner, cs) => (c :: inner, cs) else none

def foldedGap : Nat → List Char → List Char
  | 0, cs => cs
  | fuel + 1, cs =>
    match newline? (spaces cs) with
    | some cs => foldedGap fuel cs
    | none => spaces cs

def lines (quote : Char) : Nat → Reader (List Char)
  | 0, _ => none
  | fuel + 1, cs =>
    match cs with
    | [] => none
    | c :: rest =>
      if c = quote then
        match (cs.takeWhile (· = quote)).length with
        | 1 | 2 => (lines quote fuel rest).map fun (inner, cs) => (c :: inner, cs)
        | n => let extra := min (n - 3) 2; some (List.replicate extra quote, cs.drop (3 + extra))
      else if c = '\\' && quote = '"' then
        match newline? (spaces rest) with
        | some rest => lines quote fuel (foldedGap rest.length rest)
        | none => do
          let (c, rest) ← escape rest
          let (inner, rest) ← lines quote fuel rest
          return (c :: inner, rest)
      else
        match newline? cs with
        | some rest => (lines quote fuel rest).map fun (inner, cs) => ('\n' :: inner, cs)
        | none =>
          if isPlain c then (lines quote fuel rest).map fun (inner, cs) => (c :: inner, cs)
          else none

def firstLine (cs : List Char) : List Char := (newline? cs).getD cs

def string : Reader (List Char)
  | '"' :: '"' :: '"' :: cs => lines '"' (cs.length + 1) (firstLine cs)
  | '\'' :: '\'' :: '\'' :: cs => lines '\'' (cs.length + 1) (firstLine cs)
  | '"' :: cs => basic (cs.length + 1) cs
  | '\'' :: cs => literal cs
  | _ => none

def isBare (c : Char) : Bool := c.isAlphanum || c = '_' || c = '-'

def simpleKey : Reader String
  | '"' :: cs => (basic (cs.length + 1) cs).map fun (k, cs) => (String.ofList k, cs)
  | '\'' :: cs => (literal cs).map fun (k, cs) => (String.ofList k, cs)
  | cs =>
    match cs.takeWhile isBare with
    | [] => none
    | k => some (String.ofList k, cs.dropWhile isBare)

def dottedKey : Nat → Reader (List String × String)
  | 0, _ => none
  | steps + 1, cs => do
    let (key, cs) ← simpleKey (spaces cs)
    match spaces cs with
    | '.' :: cs =>
      let ((path, last), cs) ← dottedKey steps cs
      return ((key :: path, last), cs)
    | cs => return (([], key), cs)

/-- The most keys that a dotted key joins, and the most arrays and tables that nest. -/
def depthLimit : Nat := 79

def special (word : String) (cs : List Char) : Option (List Char) :=
  if word.toList.isPrefixOf cs then some (cs.drop word.toList.length) else none

def mark (c : Char) : List Char → Option (List Char)
  | d :: cs => if d = c then some cs else none
  | [] => none

end UndoableLists.Toml
