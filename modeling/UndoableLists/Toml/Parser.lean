import UndoableLists.Toml.Number

/-!
Reading TOML texts: values, then documents line by line.
-/
namespace UndoableLists.Toml

mutual

def value : Nat → Nat → Reader Toml
  | 0, _, _ => none
  | fuel + 1, depth, cs =>
    match cs with
    | [] => none
    | '[' :: cs =>
      if depth = 0 then none
      else (items fuel (depth - 1) (gap cs.length cs)).map fun (xs, cs) => (.arr xs, cs)
    | '\x7b' :: cs =>
      if depth = 0 then none
      else match spaces cs with
        | '\x7d' :: cs => some (.table .braces [], cs)
        | cs => (members fuel (depth - 1) [] cs).map fun (es, cs) => (.table .braces es, cs)
    | c :: _ =>
      if c = '"' || c = '\'' then (string cs).map fun (s, cs) => (.text (String.ofList s), cs)
      else if c = 't' then word "true" (.bool true) cs
      else if c = 'f' then word "false" (.bool false) cs
      else number cs

def items : Nat → Nat → Reader (List Toml)
  | 0, _, _ => none
  | fuel + 1, depth, cs =>
    match cs with
    | ']' :: cs => some ([], cs)
    | cs => do
      let (x, cs) ← value fuel depth cs
      match gap cs.length cs with
      | ']' :: cs => some ([x], cs)
      | ',' :: cs => do
        let (xs, cs) ← items fuel depth (gap cs.length cs)
        return (x :: xs, cs)
      | _ => none

def members : Nat → Nat → Entries → Reader Entries
  | 0, _, _, _ => none
  | fuel + 1, depth, es, cs => do
    let ((path, key), cs) ← dottedKey depthLimit cs
    let cs ← mark '=' cs
    let (v, cs) ← value fuel depth (spaces cs)
    let es ← assign? path key v es
    match spaces cs with
    | '\x7d' :: cs => some (es, cs)
    | ',' :: cs => members fuel depth es cs
    | _ => none

end

/-- What has been read, and the header that later keys belong to. -/
structure Draft where
  entries : Entries := []
  header : List String := []

def keyLine (draft : Draft) (cs : List Char) : Option (Draft × List Char) := do
  let ((path, key), cs) ← dottedKey depthLimit cs
  let cs ← mark '=' cs
  let (v, cs) ← value (2 * cs.length + 2) depthLimit (spaces cs)
  let entries ← within? (assign? path key v) draft.header draft.entries
  return ({ draft with entries }, ← lineEnd? cs)

def headerLine (draft : Draft) : List Char → Option (Draft × List Char)
  | '[' :: '[' :: cs => do
    let ((path, key), cs) ← dottedKey depthLimit cs
    let cs ← mark ']' (← mark ']' cs)
    return (⟨← within? (addTable? key) path draft.entries, path ++ [key]⟩, ← lineEnd? cs)
  | '[' :: cs => do
    let ((path, key), cs) ← dottedKey depthLimit cs
    let cs ← mark ']' cs
    return (⟨← within? (openTable? key) path draft.entries, path ++ [key]⟩, ← lineEnd? cs)
  | _ => none

def document : Nat → Draft → List Char → Option Entries
  | 0, _, _ => none
  | fuel + 1, draft, cs =>
    match lineEnd? cs, spaces cs with
    | some [], _ => some draft.entries
    | some rest, _ => document fuel draft rest
    | none, cs =>
      match if cs.head? = some '[' then headerLine draft cs else keyLine draft cs with
      | none => none
      | some (draft, rest) => document fuel draft rest

def parse? (s : String) : Option Entries :=
  let cs := match s.toList with
    | '\uFEFF' :: cs => cs
    | cs => cs
  document (cs.length + 1) {} cs

end UndoableLists.Toml
