import UndoableLists.Session.Questions

/-!
Sessions with a world of lists: what each command does and answers. A command that fails answers
its failure, and what encloses it goes on.
-/
namespace UndoableLists.Session.Stage
variable {α : Type} [Element α]

def mutate (call : World.Call α Client Notebook) (h : Handle) (op : Operation α) (aloud : Bool) :
    Play α Answer :=
  match h with
  | .list id => replying (World.mutate call id aloud op)
  | .merge id => replying (World.mutateMaster call id op)
  | .filter _ => return .unknown

def replay (call : World.Call α Client Notebook) (h : Handle) (direction : Direction)
    (aloud : Bool) : Play α Answer :=
  match h with
  | .list id => return .flag (← World.replay call id aloud direction)
  | .merge id => World.withMerge id fun m =>
      return .flag (← World.replay call m.master true direction)
  | .filter _ => return .unknown

def dispose (h : Handle) : Play α Answer :=
  match h with
  | .list id => return .flag (← World.dispose id)
  | .filter id => return .flag (← World.disposeFilter id)
  | .merge id => return .flag (← World.disposeMerge id)

def execAll (exec : Exec α) : List Command → Stage α → List Answer × Stage α
  | [], w => ([], w)
  | c :: rest, w =>
    let (a, w) := exec c w
    let (as, w) := execAll exec rest w
    (a :: as, w)

def nested (exec : Exec α) (steps : List Command) : Play α (List Answer) := fun w =>
  let (as, w) := execAll exec steps w
  (.ok as, w)

def holdReading (exec : Exec α) (id : ListId) (steps : List Command) (boom : Bool) :
    Play α Answer :=
  World.withList id fun l =>
    Host.holding ListRefusal.ofLock l.lock .read do
      let as ← nested exec steps
      if boom then Act.fail (.panicked (some "read"))
      else World.withList id fun l => return .read l.store.length as

def storeEdits (id : ListId) : List (Option (StoreEdit Value)) → Play α (List Answer)
  | [] => return []
  | none :: _ => Act.fail (.panicked (some "store"))
  | some e :: rest => do
    let e ← Act.read fun w => e.map (resolve w)
    let a ← replying (World.editStore id e)
    return a :: (← storeEdits id rest)

def modify (exec : Exec α) (id : ListId) (steps : List Command)
    (edits : List (Option (StoreEdit Value))) : Play α Answer :=
  World.withStore (call exec) id do
    let as ← nested exec steps
    return .modified as (← storeEdits id edits)

def asThread (thread : Thread) (w : Stage α) : Stage α := { w with thread }

/-- Steps on the running thread while another one reads the list. It may let go early, as may those
around it that wait for the same. -/
def whileRead (exec : Exec α) (id : ListId) (yields : Bool) (steps : List Command)
    (helper : Thread) : Play α Answer :=
  World.withList id fun l w =>
    let main := w.thread
    match Host.acquire l.lock .read (asThread helper w) with
    | (.error fault, w) =>
      (.ok (.notHeld (answer (.error (fault.map ListRefusal.ofLock)))), asThread main w)
    | (.ok (), w) =>
      let w := if yields then { w with yields := (helper, l.lock) :: w.yields } else w
      let (as, w) := execAll exec steps (asThread main w)
      (.ok (.held as), Host.releaseFor helper l.lock
        { w with yields := w.yields.filter (·.1 ≠ helper) })

/-- Steps on the running thread while another one is in the middle of modifying the list. -/
def whileModified (exec : Exec α) (id : ListId) (steps : List Command) (helper : Thread) :
    Play α Answer := fun w =>
  let main := w.thread
  let body : Play α (List Answer) := do
    Act.modify (asThread main)
    let as ← nested exec steps
    Act.modify (asThread helper)
    return as
  match World.withStore (call exec) id body (asThread helper w) with
  | (.ok as, w) => (.ok (.held as), asThread main w)
  | (.error fault, w) => (.ok (.notHeld (answer (.error fault))), asThread main w)

def withHeld (exec : Exec α) (id : ListId) (mode : HoldMode) (yields : Bool)
    (steps : List Command) : Play α Answer := fun w =>
  let helper := w.helpers + 1
  let w := { w with helpers := helper }
  let (r, w) := match mode with
    | .reading => whileRead exec id yields steps helper w
    | .modifying => whileModified exec id steps helper w
  (r, { w with helpers := helper - 1 })

def iterate (exec : Exec α) : List IteratorStep → Iterator → Play α (List Answer)
  | [], _ => return []
  | s :: rest, it => do
    let (a, it) ← match s with
      | .next => do
        let (item, it) ← it.step
        let a ← Act.read fun w => .value (item.map (label w))
        pure (a, it)
      | .rest => do
        let bound ← Act.read it.bound
        let (items, it) ← it.rest bound
        let a ← Act.read fun w => .values (items.map (label w))
        pure (a, it)
      | .error => pure ((it.error.map Answer.refused).getD .done, it)
      | .text => do
        let t ← Act.read fun w => Text.iterator w it
        pure (.text t, it)
      | .command c => fun w =>
        let (a, w) := exec c w
        (.ok (a, it), w)
    return a :: (← iterate exec rest it)

def detached : List ListId → Play α (List Answer)
  | [] => return []
  | id :: rest => fun w =>
    let (a, w) := run (askList id .contents) w
    let (r, w) := detached rest (World.letGo (.list id) w)
    (r.map (a :: ·), w)

def removeSlave (exec : Exec α) (id : ViewId) (index : Nat) : Play α Answer := do
  let ids ← World.removeSlave (call exec) id index
  return (← detached ids).head?.getD .unknown

def clearSlaves (exec : Exec α) (id : ViewId) : Play α Answer := do
  let ids ← World.clearSlaves (call exec) id
  return .each (← detached ids)

def target (name : String) (job : Handle → Play α Answer) (w : Stage α) : Answer × Stage α :=
  match w.client.names.get? name with
  | none => (.unknown, w)
  | some h => World.keeping h (run (job h)) w

def onList (name : String) (job : ListId → Play α Answer) : Stage α → Answer × Stage α :=
  target name fun
    | .list id => job id
    | _ => return .unknown

def onFilter (name : String) (job : ViewId → Play α Answer) : Stage α → Answer × Stage α :=
  target name fun
    | .filter id => job id
    | _ => return .unknown

def onMerge (name : String) (job : ViewId → Play α Answer) : Stage α → Answer × Stage α :=
  target name fun
    | .merge id => job id
    | _ => return .unknown

def derive (name source : String)
    (make : ListId → Stage α → Answer × Handle × Stage α) (w : Stage α) : Answer × Stage α :=
  match named? w source with
  | none => (.unknown, w)
  | some id =>
    let (a, h, w) := make id w
    (a, bindName name h w)

def step (exec : Exec α) : Command → Stage α → Answer × Stage α
  | .create name plan => create name plan
  | .createFilter name base settings => derive name base fun id w =>
      (.done, .filter w.nextView,
        World.createFilter id Filter.judge (settings.getD (World.patience w id)) w)
  | .createMerge name master settings => derive name master fun id w =>
      (.done, .merge w.nextView, World.createMerge id (settings.getD (World.patience w id)) w)
  | .clone name source => fun w =>
    match w.client.names.get? source with
    | none => (.unknown, w)
    | some h => (.done, bindName name h (World.hold h w))
  | .inner name source => derive name source fun id w =>
      (.created id, .list id, World.hold (.list id) w)
  | .drop name => drop name
  | .unsubscribe name => unsubscribe name
  | .signal list => signal list
  | .fromJson name text => fromJson name text
  | .createContext name => fun w =>
    (.context w.nextContext,
      inNotebook (fun d => { d with contexts := d.contexts.insert name w.nextContext })
        { w with nextContext := w.nextContext + 1 })
  | .createItem name value => fun w => (.done, { w with objects := w.objects.create name value })
  | .editItem item value => fun w =>
    let (n, w) := World.editObject (call exec) (w.objects.find item) value w
    (.count n, w)
  | .captureItem item context => captureItem item context
  | .releaseItem item => releaseItem item
  | .items => fun w => (.items (itemStates w), w)
  | .mutate name op aloud => target name fun h => do
      mutate (call exec) h (← Act.read fun w => op.map (resolve w)) aloud
  | .replay name direction aloud => target name fun h => replay (call exec) h direction aloud
  | .ask name question => target name fun h => ask h question
  | .clearHistory name => onList name fun id => do World.clearHistory id; return .done
  | .notifyReset name => onList name fun id => do World.notifyReset (call exec) id; return .done
  | .dispose name => target name dispose
  | .iterate name plan => onList name fun id => do
      return .each (← iterate exec plan { list := id })
  | .holdReading name steps boom => onList name fun id => holdReading exec id steps boom
  | .modify name steps edits => onList name fun id => modify exec id steps edits
  | .withHeld name mode yields steps => onList name fun id => withHeld exec id mode yields steps
  | .subscribe name topic label trigger steps limit panicOn => target name fun h w =>
      let (a, w) := subscribe h topic ⟨label, trigger, steps, limit, panicOn⟩ w
      (.ok a, w)
  | .setFilter name filter => onFilter name fun id => do
      World.setFilter (call exec) id filter
      return .done
  | .addSlave name list => onMerge name fun id w =>
    match named? w list with
    | none => (.ok .unknown, w)
    | some slave => (do World.addSlave (call exec) id slave; return .done : Play α Answer) w
  | .removeSlave name index => onMerge name fun id => removeSlave exec id index
  | .clearSlaves name => onMerge name fun id => clearSlaves exec id

def exec : Nat → Exec α
  | 0 => fun _ w => (.exhausted, w)
  | fuel + 1 => step (exec fuel)

inductive Look where
  | list (items : List Value) (version undoDepth redoDepth : Nat)
  | fault (cause : ListRefusal) (version : Nat)

def look? (w : Stage α) (name : String) : Option Look :=
  match w.client.names.get? name with
  | some (.list id) =>
    match World.readList id (fun l => l) w with
    | (.ok l, w) =>
      some (.list (l.contents.map (label w)) (World.wrapped l.version) l.history.undoDepth
        l.history.redoDepth)
    | (.error (.refused cause), w) => some (.fault cause (World.wrapped (World.version w id)))
    | _ => none
  | _ => none

structure Report where
  answer : Answer
  entries : List Entry
  look : Option Look

def perform (fuel : Nat) : List (Command × Option String) → Stage α → List Report × Stage α
  | [], w => ([], w)
  | (c, watched) :: rest, w =>
    let (a, w) := exec fuel c (inNotebook (fun d => { d with entries := [] }) w)
    let report := ⟨a, w.client.entries, watched.bind (look? w)⟩
    let (reports, w) := perform fuel rest w
    (report :: reports, w)

def session (commands : List (Command × Option String)) :
    List Report × List (String × ItemState) :=
  let fuel := costs (commands.map (·.1)) + 1
  let (reports, w) := perform (α := α) fuel commands { client := {} }
  (reports, itemStates w)

end UndoableLists.Session.Stage
