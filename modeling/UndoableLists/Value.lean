import UndoableLists.Text.Printable

/-!
The values that lists hold and scripts mention: integers of 64 bits and texts. An integer never
equals a text. In diagnostics a text stands on one line between double quotes and every character
of it can be seen: one that would be invisible, or would attach itself to its neighbour, is written
by its code point.
-/
namespace UndoableLists.Text

def hexDigits (n : Nat) : String := String.ofList (Nat.toDigits 16 n)

def byCodePoint (c : Char) : String := "\\u\x7b" ++ hexDigits c.toNat ++ "\x7d"

def quotedChar (c : Char) : String :=
  if c = '\x00' then "\\0"
  else if c = '\t' then "\\t"
  else if c = '\r' then "\\r"
  else if c = '\n' then "\\n"
  else if c = '\\' then "\\\\"
  else if c = '"' then "\\\""
  else if attaches c || !isPrintable c then byCodePoint c
  else c.toString

def quoted (s : String) : String :=
  "\"" ++ String.join (s.toList.map quotedChar) ++ "\""

end UndoableLists.Text

namespace UndoableLists

inductive Value where
  | int (n : Int)
  | text (s : String)
  deriving DecidableEq, Inhabited

def Value.fits (n : Int) : Bool := -Int.pow 2 63 ≤ n && n < Int.pow 2 63

def Value.shown : Value → String
  | .int n => toString n
  | .text s => Text.quoted s

end UndoableLists
