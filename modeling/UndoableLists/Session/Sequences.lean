import UndoableLists.Text.Shown

/-!
Sessions with the parts below a list: records tried out on a store, a history driven by hand, and
a store edited by hand. Items are plain values; the edits of items are known by name only.
-/
namespace UndoableLists.Session

abbrev NamedRecord := Record Value String

def NamedRecord.text (r : NamedRecord) : String :=
  Text.record Value.shown (fun name => "LogEdit(" ++ Text.quoted name ++ ")") r

structure Replayed where
  name : String
  direction : Direction
  deriving DecidableEq

def replayed (direction : Direction) (a : Effects Value String) : List Replayed :=
  a.edits.map fun name => ⟨name, direction⟩

structure Trial where
  handover : Handover Value
  check : Except ListRefusal Nat
  /-- Absent when the record was not applied. -/
  applied : Option (Effects Value String)
  direction : Direction
  after : Store Value

def trial (record : NamedRecord) (assumed : Option Nat) (direction : Direction)
    (s : Store Value) : Option Trial :=
  let handover := record.handover direction
  match record.check (some Record.words) direction (assumed.getD s.length) with
  | .error (.refused cause) => some ⟨handover, .error cause, none, direction, s⟩
  | .error _ => none
  | .ok length =>
    if assumed.isSome then some ⟨handover, .ok length, none, direction, s⟩
    else match record.apply direction s with
      | .ok (after, applied) => some ⟨handover, .ok length, some applied, direction, after⟩
      | .error _ => none

def trials (record : NamedRecord) (assumed : Option Nat) :
    List Direction → Store Value → Option (List Trial)
  | [], _ => some []
  | direction :: rest, s => do
    let t ← trial record assumed direction s
    return t :: (← trials record assumed rest t.after)

/-- A history and the store that its records are replayed on. -/
structure HistorySession where
  history : History NamedRecord
  store : Store Value

inductive HistoryStep where
  | push (record : NamedRecord)
  | undo (refuse : Bool)
  | redo (refuse : Bool)
  | canUndo
  | canRedo
  | peekUndo
  | peekRedo
  | config
  | clear
  | text

inductive ReplayError where
  | refused
  | misfit (cause : ListRefusal)
  | broken (reached : Record.Progress Value String)

def ReplayError.keeps : ReplayError → Bool
  | .broken _ => false
  | _ => true

inductive HistoryAnswer where
  | done
  | flag (b : Bool)
  | peeked (top : Option (String × String))
  | config (maxDepth : Nat) (bounded : Bool)
  | text (t : String)
  | replay (outcome : Option (Except ReplayError (Effects Value String)))

def replayOn (s : Store Value) (refuse : Bool) (direction : Direction) (record : NamedRecord) :
    Except ReplayError (Record.Progress Value String) :=
  if refuse then .error .refused
  else match record.check (some Record.words) direction s.length with
    | .error (.refused cause) => .error (.misfit cause)
    | .error _ => .error (.broken (s, {}))
    | .ok _ => (record.apply direction s).mapError .broken

def peek (top : Option NamedRecord) : HistoryAnswer :=
  .peeked (top.map fun r => (r.description, NamedRecord.text r))

def HistorySession.settle (d : HistorySession) (direction : Direction) :
    Option (Except ReplayError (Record.Progress Value String)) × History NamedRecord →
      HistoryAnswer × List Replayed × HistorySession
  | (none, h) => (.replay none, [], { d with history := h })
  | (some (.error (.broken (s, applied))), h) =>
    (.replay (some (.error (.broken (s, applied)))), replayed direction applied, ⟨h, s⟩)
  | (some (.error e), h) => (.replay (some (.error e)), [], { d with history := h })
  | (some (.ok (s, applied)), h) =>
    (.replay (some (.ok applied)), replayed direction applied, ⟨h, s⟩)

def HistorySession.step (d : HistorySession) :
    HistoryStep → HistoryAnswer × List Replayed × HistorySession
  | .push record => (.done, [], { d with history := d.history.push record })
  | .undo refuse =>
    d.settle .backward (d.history.undo ReplayError.keeps (replayOn d.store refuse .backward))
  | .redo refuse =>
    d.settle .forward (d.history.redo ReplayError.keeps (replayOn d.store refuse .forward))
  | .canUndo => (.flag (d.history.undoDepth != 0), [], d)
  | .canRedo => (.flag (d.history.redoDepth != 0), [], d)
  | .peekUndo => (peek d.history.done.head?, [], d)
  | .peekRedo => (peek d.history.undone.head?, [], d)
  | .config => (.config d.history.maxDepth d.history.bounded, [], d)
  | .clear => (.done, [], { d with history := d.history.cleared })
  | .text => (.text (Text.history d.history), [], d)

end UndoableLists.Session
