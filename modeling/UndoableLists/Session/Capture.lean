import UndoableLists.Capture.Batch
import UndoableLists.Text.Shown
import UndoableLists.Transaction

/-!
Sessions with named cells, contexts, handlers and transactions.
-/
namespace UndoableLists.Session

/-- A handler of edits. It may look at a cell as long as that is there, and may also remove a
context's handler from it. -/
structure NamedHandler where
  serial : Nat
  name : String
  probe : Option CellId
  removes : Option Context

inductive CaptureEntry where
  | notice (n : Notice)
  | handled (handler description : String)
  | counted (handler : String) (count : Nat)
  | reverted (label : String)
  | followed (label : String)

inductive TxStep where
  | cell (undo : CellUndo NamedHandler)
  | revert (label : String) (panics : Bool)
  | hook (label : String) (panics : Bool)

structure CaptureSession where
  cells : Cells NamedHandler := {}
  cellNames : Table String CellId := .empty
  contexts : Table String Context := .empty
  handlers : Table String NamedHandler := .empty
  transactions : Table String (Transaction TxStep) := .empty
  entries : List CaptureEntry := []
  nextContext : Context := 1
  nextSerial : Nat := 0

inductive CaptureStep where
  | cell (name : String)
  | context (name : String)
  | handler (name : String) (probe removes : Option String)
  | capture (cell context : String)
  | release (cell : String)
  | restore (cell : String) (context : Option String)
  | isCaptured (cell : String)
  | parent (cell : String)
  | subscribe (cell context handler : String)
  | unsubscribe (cell context : String)
  | commitEdit (cell : String) (description : Option String)
  | cellText (cell : String)
  | contextText (context : String)
  | begin (tx : String) (succeeded : Bool)
  | autoCapture (tx : String) (cells : List String) (context : String) (handler : Option String)
  | autoRelease (tx : String) (cells : List String) (context : String)
  | takeBatch (tx : String) (cells : List String) (context : String) (handler : Option String)
  | freeBatch (tx : String) (cells : List String) (context : String)
  | revert (tx label : String) (panics : Bool)
  | hook (tx label : String) (panics : Bool)
  | success (tx : String)
  | state (tx : String)
  | takeOut (tx : String)
  | commit (tx : String)
  | rollback (tx : String)
  | unwind (tx : String)

inductive CaptureAnswer where
  | done
  | flag (b : Bool)
  | context (c : Option Context)
  | count (n : Nat)
  | text (t : String)
  | handler (name : Option String)
  | state (ok : Bool) (reverts : Nat) (text : String)

namespace CaptureSession

abbrev Work := Act CaptureSession CaptureRefusal

def log (entry : CaptureEntry) (p : CaptureSession) : CaptureSession :=
  { p with entries := p.entries ++ [entry] }

instance : Journal CaptureSession where
  note n := log (.notice n)

def cellOf (p : CaptureSession) (name : String) : CellId := (p.cellNames.get? name).getD 0
def contextOf (p : CaptureSession) (name : String) : Context := (p.contexts.get? name).getD 0
def txOf (p : CaptureSession) (name : String) : Transaction TxStep :=
  (p.transactions.get? name).getD {}
def cellsOf (p : CaptureSession) (names : List String) : List CellId := names.map p.cellOf

def setTx (name : String) (tx : Transaction TxStep) (p : CaptureSession) : CaptureSession :=
  { p with transactions := p.transactions.insert name tx }

def setCells (cells : Cells NamedHandler) (p : CaptureSession) : CaptureSession := { p with cells }

def mentions (cell : CellId) : TxStep → Bool
  | .cell undo => undo.cell = cell
  | _ => false

def isThere (p : CaptureSession) (cell : CellId) : Bool :=
  p.cellNames.entries.any (·.2 = cell) ||
    p.transactions.entries.any (·.2.reverts.any (mentions cell))

def runHandler (description : String) (h : NamedHandler) (p : CaptureSession) : CaptureSession :=
  let p := p.log (.handled h.name description)
  match h.probe with
  | none => p
  | some cell =>
    if !p.isThere cell then p else
    let p := p.log (.counted h.name (p.cells.handlers cell).length)
    match h.removes with
    | none => p
    | some context => setCells (p.cells.unsubscribe cell context) p

def runStep : TxStep → Work Unit
  | .cell undo => Act.modify fun p => setCells (p.cells.revert undo) p
  | .revert label panics => do
    Act.modify (log (.reverted label))
    if panics then Act.fail (.panicked (some label))
  | .hook label panics => do
    Act.modify (log (.followed label))
    if panics then Act.fail (.panicked (some label))

def finish (tx : Transaction TxStep) : Work Unit := tx.finish runStep false

def begin (name : String) (tx : Transaction TxStep) : Work CaptureAnswer := fun p =>
  let old := p.transactions.get? name
  let p := setTx name tx p
  match old with
  | none => (.ok .done, p)
  | some old =>
    match finish old p with
    | (.ok (), p) => (.ok .done, p)
    | (.error fault, p) => (.error fault, p)

def conclude (name : String) (f : Transaction TxStep → Transaction TxStep) : Work CaptureAnswer :=
  do
    let tx ← Act.read (·.txOf name)
    Act.modify fun p => { p with transactions := p.transactions.erase name }
    finish (f tx)
    return .done

def captureIn (tx : Transaction TxStep) (cells : List String) (context : String)
    (handler : Option String) : Work (Transaction TxStep) := do
  let p ← Act.read id
  let ids := p.cellsOf cells
  let (undos, taken) ←
    Act.ofExcept (p.cells.takeBatch (p.contextOf context) (handler.bind p.handlers.get?) ids)
  Act.modify (setCells taken)
  Act.modify (Journal.noteAll (ids.map (fun _ => .itemCaptured) ++ [.batchCaptured]))
  return tx.addReverts (undos.map .cell)

def releaseIn (tx : Transaction TxStep) (cells : List String) (context : String) :
    Work (Transaction TxStep) := do
  let p ← Act.read id
  let (undos, freed) ←
    Act.ofExcept (p.cells.freeBatch (p.contextOf context) (p.cellsOf cells))
  Act.modify (setCells freed)
  Act.modify (Journal.note .batchReleased)
  return tx.addReverts (undos.map .cell)

def nameOf (p : CaptureSession) (h : NamedHandler) : String :=
  match p.handlers.get? h.name with
  | some current => if current.serial = h.serial then h.name else "?"
  | none => "?"

def cellText (c : Cell NamedHandler) : String :=
  Text.fields "CaptureCell" [("owner", Text.optional (c.owner.map Text.context)),
    ("handlers", toString c.handlers.size)]

def txText (tx : Transaction TxStep) : String :=
  Text.fields "OperationTransaction" [("revert_steps", toString tx.reverts.length),
    ("success_hooks", toString tx.hooks.length), ("succeeded", Text.flag tx.succeeded)]

def amend (name : String) (f : Transaction TxStep → Transaction TxStep) : Work CaptureAnswer := do
  Act.modify fun p => setTx name (f (p.txOf name)) p
  return .done

def perform : CaptureStep → Work CaptureAnswer
  | .cell name => do
    Act.modify fun p =>
      { p with cellNames := p.cellNames.insert name p.nextSerial, nextSerial := p.nextSerial + 1 }
    return .done
  | .context name => do
    let c ← Act.read (·.nextContext)
    Act.modify fun p => { p with contexts := p.contexts.insert name c, nextContext := c + 1 }
    return .context (some c)
  | .handler name probe removes => do
    Act.modify fun p =>
      let h := ⟨p.nextSerial, name, probe.map p.cellOf, removes.map p.contextOf⟩
      { p with handlers := p.handlers.insert name h, nextSerial := p.nextSerial + 1 }
    return .done
  | .capture cell context => do
    let p ← Act.read id
    let cells ← Act.ofExcept (p.cells.capture (p.cellOf cell) (p.contextOf context))
    Act.modify (setCells cells)
    Act.modify (Journal.note .itemCaptured)
    return .done
  | .release cell => do
    let p ← Act.read id
    let (owner, cells) ← Act.ofExcept (p.cells.release (p.cellOf cell))
    Act.modify (setCells cells)
    Act.modify (Journal.note .itemReleased)
    return .context (some owner)
  | .restore cell context => do
    Act.modify fun p =>
      setCells (p.cells.setOwner (p.cellOf cell) (context.map p.contextOf)) p
    return .done
  | .isCaptured cell => do
    return .flag (← Act.read fun p => (p.cells.owner (p.cellOf cell)).isSome)
  | .parent cell => do
    return .context (← Act.read fun p => p.cells.owner (p.cellOf cell))
  | .subscribe cell context handler => do
    Act.modify fun p =>
      match p.handlers.get? handler with
      | none => p
      | some h => setCells (p.cells.subscribe (p.cellOf cell) (p.contextOf context) h) p
    return .done
  | .unsubscribe cell context => do
    let p ← Act.read id
    let removed := p.cells.handler? (p.cellOf cell) (p.contextOf context)
    Act.modify (setCells (p.cells.unsubscribe (p.cellOf cell) (p.contextOf context)))
    return .handler (removed.map p.nameOf)
  | .commitEdit cell description => do
    let handlers ← Act.read fun p => (p.cells.handlers (p.cellOf cell)).map (·.2)
    Act.modify fun p => handlers.foldl (fun p h => runHandler (description.getD "Edit item") h p) p
    Act.modify (Journal.note .editCommitted)
    return .count handlers.length
  | .cellText cell => do
    return .text (← Act.read fun p => cellText (p.cells.cell (p.cellOf cell)))
  | .contextText context => do
    return .text (← Act.read fun p => Text.context (p.contextOf context))
  | .begin tx succeeded => begin tx { succeeded }
  | .autoCapture tx cells context handler => do
    begin tx (← captureIn {} cells context handler)
  | .autoRelease tx cells context => do
    begin tx (← releaseIn {} cells context)
  | .takeBatch tx cells context handler => do
    let old ← Act.read (·.txOf tx)
    let new ← captureIn old cells context handler
    Act.modify (setTx tx new)
    return .done
  | .freeBatch tx cells context => do
    let old ← Act.read (·.txOf tx)
    let new ← releaseIn old cells context
    Act.modify (setTx tx new)
    return .done
  | .revert tx label panics => amend tx (·.addRevert (.revert label panics))
  | .hook tx label panics => amend tx (·.addHook (.hook label panics))
  | .success tx => amend tx (·.success)
  | .state tx => do
    let tx ← Act.read (·.txOf tx)
    return .state tx.succeeded tx.reverts.length (txText tx)
  | .takeOut _ => return .done
  | .commit tx => conclude tx (·.success)
  | .rollback tx => conclude tx id
  | .unwind name => do
    let tx ← Act.read (·.txOf name)
    Act.modify fun p => { p with transactions := p.transactions.erase name }
    tx.finish runStep true
    Act.fail (.panicked (some "outer"))

def step (p : CaptureSession) (s : CaptureStep) :
    Outcome CaptureRefusal CaptureAnswer × List CaptureEntry × CaptureSession :=
  let (r, p) := perform s { p with entries := [] }
  (r, p.entries, p)

def overview (p : CaptureSession) : List (String × Option Context × Nat) :=
  p.cellNames.entries.map fun (name, id) => (name, p.cells.owner id, (p.cells.handlers id).length)

end CaptureSession

end UndoableLists.Session
