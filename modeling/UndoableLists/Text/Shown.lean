import UndoableLists.Record
import UndoableLists.Value
import UndoableLists.History

/-!
One-line texts of the library's values for diagnostics: a name, then the fields in braces.
-/
namespace UndoableLists.Text

def listed (texts : List String) : String := "[" ++ ", ".intercalate texts ++ "]"

def fields (name : String) (fs : List (String × String)) : String :=
  name ++ " \x7b " ++ ", ".intercalate (fs.map fun (f, t) => f ++ ": " ++ t) ++ " \x7d"

def flag (b : Bool) : String := if b then "true" else "false"

def optional : Option String → String
  | none => "None"
  | some t => "Some(" ++ t ++ ")"

def context (c : Context) : String := "ContextId(" ++ toString c ++ ")"

def policy : WaitPolicy → String
  | .fail => "Fail"
  | .warnAndWait => "WarnAndWait"

def access : Access → String
  | .read => "Read"
  | .write => "Write"
  | .upgradeable => "UpgradeableRead"

def captureRefusal : CaptureRefusal → String
  | .alreadyCaptured index owner =>
    fields "AlreadyCaptured" [("index", toString index), ("owner", context owner)]
  | .notCaptured index => fields "NotCaptured" [("index", toString index)]
  | .capturedByOther index owner expected =>
    fields "CapturedByOther"
      [("index", toString index), ("owner", context owner), ("expected", context expected)]

def listRefusal : ListRefusal → String
  | .disposed => "Disposed"
  | .timeout mode after =>
    "Lock(" ++ fields "Timeout" [("mode", access mode), ("timeout", after.text)] ++ ")"
  | .recursive mode => "Lock(" ++ fields "Recursive" [("mode", access mode)] ++ ")"
  | .capture cause => "Capture(" ++ captureRefusal cause ++ ")"
  | .indexOutOfRange index length =>
    fields "IndexOutOfRange" [("index", toString index), ("len", toString length)]
  | .rangeOutOfBounds start count length =>
    fields "RangeOutOfBounds"
      [("start", toString start), ("count", toString count), ("len", toString length)]
  | .readOnlyIndex index => fields "ReadOnlyIndex" [("index", toString index)]

def viewCache (constructed disposed : Bool) : String :=
  fields "ViewCache" [("constructed", flag constructed), ("disposed", flag disposed)]

def patience (s : Patience) : String :=
  fields "LockSettings" [("timeout", s.timeout.text), ("policy", policy s.policy)]

mutual

def record {α ε : Type} (item : α → String) (edit : ε → String) : Record α ε → String
  | .add index x => fields "Add" [("index", toString index), ("item", item x)]
  | .addMany index xs =>
    fields "AddMultiple" [("index", toString index), ("items", listed (xs.map item))]
  | .remove index x => fields "Remove" [("index", toString index), ("item", item x)]
  | .removeMany indices xs =>
    fields "RemoveMultiple"
      [("indices", listed (indices.map toString)), ("items", listed (xs.map item))]
  | .clear xs => fields "Clear" [("items", listed (xs.map item))]
  | .changeAt index old new =>
    fields "ChangeAt" [("index", toString index), ("old", item old), ("new", item new)]
  | .composite children => "Composite(" ++ listed (records item edit children) ++ ")"
  | .itemEdit e => "SubItem(" ++ edit e ++ ")"

def records {α ε : Type} (item : α → String) (edit : ε → String) :
    List (Record α ε) → List String
  | [] => []
  | child :: rest => record item edit child :: records item edit rest

end

def store {α : Type} (item : α → String) (s : Store α) : String :=
  fields "VecStore" [("items", listed (s.items.map item)), ("must_reset", flag s.stale)]

def history {ρ : Type} (h : History ρ) : String :=
  fields "UndoLog" [("undo_depth", toString h.undoDepth), ("redo_depth", toString h.redoDepth),
    ("config", fields "HistoryConfig" [("max_depth", toString h.maxDepth)])]

end UndoableLists.Text
