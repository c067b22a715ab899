import UndoableLists.Json.Parser
import UndoableLists.Session.Script

/-!
The stage of a session: a world of lists with named handles, and what commands do that need no
other command: binding names, making lists and items, subscribing. A scripted subscriber runs its
commands by a function that is given to it.
-/
namespace UndoableLists.Session.Stage
variable {α : Type} [Element α]

abbrev Play (α β : Type) := Work α Client Notebook β

def inNotebook (f : Notebook → Notebook) (w : Stage α) : Stage α := { w with client := f w.client }

def write (e : Entry) : Stage α → Stage α := inNotebook (Notebook.write e)

def answer : Outcome ListRefusal Answer → Answer
  | .ok a => a
  | .error (.refused cause) => .refused cause
  | .error (.panicked label) => .panicked label
  | .error .stalled => .stalled

def run (job : Play α Answer) (w : Stage α) : Answer × Stage α :=
  let (r, w) := job w
  (answer r, w)

def bindName (name : String) (h : Handle) (w : Stage α) : Stage α :=
  let old := w.client.names.get? name
  let w := inNotebook (fun d => { d with names := d.names.insert name h }) w
  match old with
  | none => w
  | some h => World.letGo h w

def drop (name : String) (w : Stage α) : Answer × Stage α :=
  match w.client.names.get? name with
  | none => (.flag false, w)
  | some h =>
    (.flag true, World.letGo h (inNotebook (fun d => { d with names := d.names.erase name }) w))

def unsubscribe (name : String) (w : Stage α) : Answer × Stage α :=
  match w.client.subscriptions.get? name with
  | none => (.flag false, w)
  | some s =>
    (.flag true, World.unsubscribe s
      (inNotebook (fun d => { d with subscriptions := d.subscriptions.erase name }) w))

def subscribe (h : Handle) (topic : Topic) (c : Client) (w : Stage α) : Answer × Stage α :=
  let (s, w) := World.subscribe h topic (.client c) w
  let (_, w) := unsubscribe c.name w
  (.text "Subscription \x7b .. \x7d",
    inNotebook (fun d => { d with subscriptions := d.subscriptions.insert c.name s }) w)

def listOf? (w : Stage α) : Handle → Option ListId
  | .list id => some id
  | .filter id => (w.filters.get? id).map (·.base)
  | .merge id => (w.merges.get? id).map (·.master)

def named? (w : Stage α) (name : String) : Option ListId :=
  (w.client.names.get? name).bind (listOf? w)

def label {κ δ : Type} (w : World α κ δ) (item : α) : Value := Element.label w.objects item

def resolve {κ δ : Type} (w : World α κ δ) (v : Value) : α := Element.resolve w.objects v

def blueprint (p : ListPlan) (w : Stage α) : World.Blueprint α :=
  let items := p.items.map (resolve w)
  let { settings, maxDepth, tracksEdits, .. } := p
  match p.kind with
  | .empty => {}
  | .seeded => { items }
  | .configured => { settings, maxDepth, tracksEdits }
  | .stored signalling =>
    { items, settings, maxDepth, tracksEdits, bulk := if signalling then .oneByOne else .splice }
  | .capturing => { settings, maxDepth, tracksEdits, access := Element.cell? }
  | .capturingStored signalling =>
    { items, settings, maxDepth, tracksEdits, access := Element.cell?
      bulk := if signalling then .oneByOne else .splice }

def isSignalling : ListKind → Bool
  | .stored signalling => signalling
  | .capturingStored signalling => signalling
  | _ => false

def create (name : String) (p : ListPlan) (w : Stage α) : Answer × Stage α :=
  let (id, w) := World.createList (blueprint p w) w
  let w := if isSignalling p.kind then
    inNotebook (fun d => { d with signals := d.signals.insert name id }) w else w
  (.created id, bindName name (.list id) w)

def fromJson (name text : String) (w : Stage α) : Answer × Stage α :=
  match (Json.front? text).bind fun (j, rest) => j.toValues?.map (·, rest) with
  | none => (.unreadable, w)
  | some (values, rest) =>
    let (id, w) := World.createList { items := values.map (resolve w) } w
    if Json.ends rest then (.created id, bindName name (.list id) w)
    else (.unreadable, World.letGo (.list id) w)

def signal (name : String) (w : Stage α) : Answer × Stage α :=
  match w.client.signals.get? name with
  | none => (.done, w)
  | some id =>
    (.done, { w with lists := w.lists.modify id fun l =>
      { l with store := { l.store with stale := true } } })

def contextNamed (w : Stage α) (name : String) : Context :=
  match w.client.contexts.get? name with
  | some c => c
  | none => (named? w name).getD 0

def captureItem (item context : String) (w : Stage α) : Answer × Stage α :=
  match w.cells.capture (w.objects.find item) (contextNamed w context) with
  | .ok cells => (.done, Journal.note .itemCaptured { w with cells })
  | .error cause => (.refused (.capture cause), w)

def releaseItem (item : String) (w : Stage α) : Answer × Stage α :=
  match w.cells.release (w.objects.find item) with
  | .ok (owner, cells) => (.context owner, Journal.note .itemReleased { w with cells })
  | .error cause => (.refused (.capture cause), w)

def itemStates (w : Stage α) : List (String × ItemState) :=
  w.objects.names.entries.map fun (name, id) =>
    (name, ⟨(w.objects.get id).value, w.cells.owner id, (w.cells.handlers id).length⟩)

abbrev Exec (α : Type) := Command → Stage α → Answer × Stage α

def reacts (event : Event α) : Option String → Bool
  | none => false
  | some kind => kind = "*" || kind = event.kind

def runReaction (exec : Exec α) (name : String) : List Command → Stage α → Stage α
  | [], w => w
  | c :: rest, w =>
    let (a, w) := exec c w
    runReaction exec name rest (write (.answered name a) w)

def call (exec : Exec α) : World.Call α Client Notebook := fun id c event w =>
  let w := write (.heard c.name (event.map (label w))) w
  let runs := (w.client.runs.get? id).getD 0
  let w :=
    if reacts event c.trigger && runs < c.limit then
      runReaction exec c.name c.steps
        (inNotebook (fun d => { d with runs := d.runs.insert id (runs + 1) }) w)
    else w
  if reacts event c.panicOn then (.error (.panicked none), w) else (.ok (), w)

end UndoableLists.Session.Stage
