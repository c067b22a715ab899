import UndoableLists.World.Announcement

/-!
Changing lists. A mutation is planned and checked while others may still read, then carried out
alone, and told when the lock is free again. A store that says it was changed behind the list's
back is heard first: the history is forgotten before anything else happens.
-/
namespace UndoableLists.World
variable {α κ δ β : Type} [Diary δ] [Element α]

def replayEdit (direction : Direction) (w : World α κ δ) (e : Edit) : World α κ δ :=
  { w with
    objects := w.objects.replay direction e
    client := Diary.replayed (w.objects.get e.object).name direction (e.target direction) w.client }

def settle (direction : Direction) (d : Done α) (w : World α κ δ) : World α κ δ :=
  d.edits.foldl (replayEdit direction) (Journal.noteAll d.notices (w.putSite d.site))

def atSite (id : ListId) (body : Site α → Work α κ δ β) : Work α κ δ β :=
  withList id fun l w => body ⟨l, w.cells⟩ w

def takeSignal (id : ListId) : Work α κ δ Bool :=
  withList id fun l => do
    let (signalled, store) := l.store.takeStale
    Act.modify fun w => { w with lists := w.lists.insert id { l with store } }
    return signalled

def resetList (id : ListId) : Work α κ δ (Bulletin α) :=
  atSite id fun s => do
    Act.modify (settle .forward s.reset)
    return s.reset.bulletin

def planned (id : ListId) (op : Operation α) : Work α κ δ (Operation.Plan α Edit) :=
  withList id fun l => do
    let objects ← Act.read World.objects
    Act.ofExcept (op.plan (Element.current objects) l.contents)

def ofOutcome (r : Outcome ListRefusal β) : Work α κ δ β := fun w => (r, w)

def checked (id : ListId) (record : Record α Edit) : Work α κ δ Unit :=
  withList id fun l => discard (ofOutcome (record.check none .forward l.store.length))

def carryOut (id : ListId) : Operation.Plan α Edit → Work α κ δ (Bulletin α × Reply α)
  | (none, reply) => return ({}, reply)
  | (some record, reply) =>
    atSite id fun s => do
      let d ← ofOutcome (s.append record)
      Act.modify (settle .forward d)
      Act.modify (Journal.note .listMutated)
      return (d.bulletin, reply)

/-- An outcome with what is to be told whatever it is. -/
abbrev Told (α β : Type) := Bulletin α × Outcome ListRefusal β

/-- A second piece of work whose failure leaves the first one to be told. -/
def andThen (first : Bulletin α) (body : Work α κ δ (Bulletin α × β)) : Work α κ δ (Told α β) := do
  match ← Act.outcome body with
  | .ok (second, b) => return (first ++ second, .ok b)
  | .error fault => return (first, .error fault)

def upgrade (lock : LockId) : Work α κ δ Unit := (Host.upgrade lock).mapError ListRefusal.ofLock

def mutation (id : ListId) (op : Operation α) (lock : LockId) :
    Work α κ δ (Told α (Reply α)) := do
  if ← takeSignal id then
    upgrade lock
    let first ← resetList id
    andThen first do carryOut id (← planned id op)
  else
    let plan ← planned id op
    match plan.1 with
    | none => return ({}, .ok plan.2)
    | some record =>
      checked id record
      upgrade lock
      andThen {} (carryOut id plan)

def telling (call : Call α κ δ) (id : ListId) (aloud : Bool) (body : Work α κ δ (Told α β)) :
    Work α κ δ β := fun w =>
  match body w with
  | (.error fault, w) => (.error fault, w)
  | (.ok (b, r), w) => (r, if aloud then announce call id b w else w)

def mutate (call : Call α κ δ) (id : ListId) (aloud : Bool) (op : Operation α) :
    Work α κ δ (Reply α) :=
  telling call id aloud <| withList id fun l =>
    Host.holding ListRefusal.ofLock l.lock .upgradeable (mutation id op l.lock)

def replayNearest (first : Bulletin α) (id : ListId) (direction : Direction) :
    Work α κ δ (Told α Bool) :=
  atSite id fun s =>
    match s.replay direction with
    | none => return (first, .ok false)
    | some (.ok d) => do
      Act.modify (settle direction d)
      Act.modify (Journal.note .historyReplayed)
      return (first ++ d.bulletin, .ok true)
    | some (.error fault) => do
      Act.modify (Journal.note .replayRejected)
      return (first, .error fault)

def replaying (id : ListId) (direction : Direction) : Work α κ δ (Told α Bool) := do
  let first ← if ← takeSignal id then resetList id else pure {}
  replayNearest first id direction

def replay (call : Call α κ δ) (id : ListId) (aloud : Bool) (direction : Direction) :
    Work α κ δ Bool :=
  telling call id aloud <| withList id fun l =>
    Host.holding ListRefusal.ofLock l.lock .write (replaying id direction)

def clearHistory (id : ListId) : Work α κ δ Unit :=
  withList id fun l =>
    Host.holding ListRefusal.ofLock l.lock .write
      (Act.modify fun w => { w with lists := w.lists.modify id UndoableList.forgetful })

def editStore (id : ListId) (e : StoreEdit α) : Work α κ δ (Reply α) :=
  withList id fun l =>
    match l.store.edit? e with
    | none => Act.fail (.panicked none)
    | some (reply, store) => do
      Act.modify fun w => { w with lists := w.lists.insert id { l with store } }
      return reply

def releaseMembers (id : ListId) : Work α κ δ Unit :=
  atSite id fun s => Act.modify (·.putSite s.released)

def resynchronize (id : ListId) : Work α κ δ Unit :=
  atSite id fun s => Act.modify (settle .forward s.resynchronized)

/-- Runs `body` on the store itself. The members are freed before and taken again after it, and the
history is forgotten. A body that panics leaves it at that. -/
def reworking (id : ListId) (body : Work α κ δ β) : Work α κ δ β := do
  releaseMembers id
  let out ← body
  resynchronize id
  return out

def aloneWithStore (id : ListId) (body : Work α κ δ β) : Work α κ δ β :=
  withList id fun l => Host.holding ListRefusal.ofLock l.lock .write (reworking id body)

def withStore (call : Call α κ δ) (id : ListId) (body : Work α κ δ β) : Work α κ δ β := do
  let out ← aloneWithStore id body
  Act.modify (announce call id .reset)
  return out

def notifyReset (call : Call α κ δ) (id : ListId) : Work α κ δ Unit :=
  withList id fun l => do
    if ← Act.read (Host.isDisposed l.lock) then Act.refuse .disposed
    Act.modify (announce call id .reset)

def disposeList (id : ListId) (l : UndoableList α) (w : World α κ δ) : Bool × World α κ δ :=
  if Host.isDisposed l.lock w then (false, w)
  else
    let w := match Host.acquire l.lock .write w with
      | (.ok (), w) =>
        let w := w.putSite (Site.released ⟨l, w.cells⟩)
        Host.release l.lock { w with lists := w.lists.modify id UndoableList.forgetful }
      | (.error _, w) => Journal.note .disposedUnreleased w
    let (_, locks) := w.locks.dispose l.lock
    (true, Journal.note .listDisposed { w with locks })

def dispose (id : ListId) : Work α κ δ Bool :=
  withList id fun l w => let (first, w) := w.disposeList id l; (.ok first, w)

def enterEdit (e : Edit) (id : ListId) : Work α κ δ Unit :=
  withList id fun l =>
    Host.holding ListRefusal.ofLock l.lock .write
      (Act.modify fun w => { w with lists := w.lists.modify id fun l => l.recordEdit e })

def recordEdit (call : Call α κ δ) (e : Edit) (id : ListId) (w : World α κ δ) : World α κ δ :=
  match enterEdit e id w with
  | (.ok (), w) => announce call id { itemsDiffer := true } w
  | (.error (.refused .disposed), w) => w
  | (.error _, w) => Journal.note .editUnrecorded w

def editObject (call : Call α κ δ) (object : ObjectId) (value : Int) (w : World α κ δ) :
    Nat × World α κ δ :=
  let e : Edit := ⟨object, (w.objects.get object).value, value⟩
  let handlers := w.cells.handlers object
  let w := { w with objects := w.objects.assign object value }
  let w := handlers.foldl (fun w (_, id) =>
    (keeping (.list id) (fun w => ((), recordEdit call e id w)) w).2) w
  (handlers.length, Journal.note .editCommitted w)

end UndoableLists.World
