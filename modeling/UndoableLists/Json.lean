import UndoableLists.Value

/-!
JSON documents. A number is an integer when it is written without fraction and exponent, is not a
negative zero, and fits 64 bits with or without a sign; any other number keeps its literal. A
string whose escapes leave half a surrogate pair denotes no text, and neither does such a key.
-/
namespace UndoableLists

inductive Json where
  | null
  | bool (b : Bool)
  | int (n : Int)
  | decimal (literal : String)
  | str (text : Option String)
  | arr (items : List Json)
  | obj (members : List (Option String × Json))

namespace Json

instance : Inhabited Json := ⟨.null⟩

def isInteger (n : Int) : Bool := -Int.pow 2 63 ≤ n && n < UInt64.size

def controlEscape (c : Char) : List Char :=
  let ds := Nat.toDigits 16 c.toNat
  ['\\', 'u'] ++ List.replicate (4 - ds.length) '0' ++ ds

def escapeChar (c : Char) : List Char :=
  if c = '"' then ['\\', '"']
  else if c = '\\' then ['\\', '\\']
  else if c = '\n' then ['\\', 'n']
  else if c = '\r' then ['\\', 'r']
  else if c = '\t' then ['\\', 't']
  else if c = '\x08' then ['\\', 'b']
  else if c = '\x0c' then ['\\', 'f']
  else if c.toNat < 32 then controlEscape c
  else [c]

def stringLiteral (s : String) : List Char := ['"'] ++ s.toList.flatMap escapeChar ++ ['"']

def ofValue : Value → Json
  | .int n => .int n
  | .text s => .str (some s)

def toValue? : Json → Option Value
  | .int n => if Value.fits n then some (.int n) else none
  | .str (some s) => some (.text s)
  | _ => none

def toValues? : Json → Option (List Value)
  | .arr items => items.mapM toValue?
  | _ => none

mutual

def render : Json → List Char
  | .null => "null".toList
  | .bool true => "true".toList
  | .bool false => "false".toList
  | .int n => (toString n).toList
  | .decimal literal => literal.toList
  | .str none => ['"', '"']
  | .str (some s) => stringLiteral s
  | .arr items => '[' :: renderItems items ++ [']']
  | .obj members => '\x7b' :: renderMembers members ++ ['\x7d']

def renderItems : List Json → List Char
  | [] => []
  | [item] => render item
  | item :: rest => render item ++ ',' :: renderItems rest

def renderMembers : List (Option String × Json) → List Char
  | [] => []
  | [(key, item)] => stringLiteral (key.getD "") ++ ':' :: render item
  | (key, item) :: rest =>
    stringLiteral (key.getD "") ++ ':' :: render item ++ ',' :: renderMembers rest

end

def text (j : Json) : String := String.ofList j.render

end Json

end UndoableLists
