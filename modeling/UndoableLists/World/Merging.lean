import UndoableLists.World.Mutation

/-!
Merged lists: one writable master and after it any number of slaves that can only be read. Writing
goes to the master; a position that belongs to a slave is refused.
-/
namespace UndoableLists.World
variable {α κ δ : Type} [Diary δ] [Element α]

def createMerge (master : ListId) (settings : Patience) (w : World α κ δ) : World α κ δ :=
  let id := w.nextView
  let (subscriptions, w) := { w with nextView := id + 1 }.follow master (.master id)
  let (lock, locks) := w.locks.create settings
  let merged : MergedList α := { master, lock, cache := { settings }, subscriptions }
  { w with locks, merges := w.merges.insert id merged }.hold (.merge id)

def putMerge (id : ViewId) (f : MergedList α → MergedList α) (w : World α κ δ) : World α κ δ :=
  { w with merges := w.merges.modify id f }

def chooseSlaves (id : ViewId)
    (choose : List Slave → Except ListRefusal (List Slave × List Slave)) :
    Work α κ δ (List Slave) :=
  withMerge id fun m => do
    let (gone, slaves) ← Act.ofExcept (choose m.slaves)
    Act.modify (putMerge id fun m => { m with slaves })
    return gone

def exchangeSlaves (id : ViewId)
    (choose : List Slave → Except ListRefusal (List Slave × List Slave)) :
    Work α κ δ (List Slave) :=
  withMerge id fun m => do
    let gone ← Host.holding ListRefusal.ofLock m.lock .write (chooseSlaves id choose)
    Act.modify (putMerge id fun m => { m with generation := m.generation + 1 })
    return gone

def tellSlaves (call : Call α κ δ) (id : ViewId) : World α κ δ → World α κ δ :=
  afterInvalidating (mergeCache id) fun w =>
    tellReset call (.merge id) (Journal.note .slavesChanged w)

def addSlave (call : Call α κ δ) (id : ViewId) (list : ListId) : Work α κ δ Unit :=
  withMerge id fun _ w =>
    let (subscriptions, w) := w.follow list (.slave id)
    match exchangeSlaves id (fun slaves => .ok ([], slaves ++ [⟨list, subscriptions⟩])) w with
    | (.ok _, w) => (.ok (), tellSlaves call id w)
    | (.error fault, w) => (.error fault, w.unsubscribeAll subscriptions)

def detach (call : Call α κ δ) (id : ViewId)
    (choose : List Slave → Except ListRefusal (List Slave × List Slave)) :
    Work α κ δ (List ListId) := do
  let gone ← exchangeSlaves id choose
  Act.modify fun w => gone.foldl (fun w s => w.hold (.list s.list)) w
  Act.modify (·.unsubscribeAll (gone.flatMap (·.subscriptions)))
  Act.modify (tellSlaves call id)
  return gone.map (·.list)

def removeSlave (call : Call α κ δ) (id : ViewId) (index : Nat) : Work α κ δ (List ListId) :=
  detach call id fun slaves =>
    match slaves[index]? with
    | none => .error (.indexOutOfRange index slaves.length)
    | some s => .ok ([s], slaves.eraseIdx index)

def clearSlaves (call : Call α κ δ) (id : ViewId) : Work α κ δ (List ListId) :=
  detach call id fun slaves => .ok (slaves, [])

def ensureWritable (id : ViewId) (m : MergedList α) (index : Nat) (inserting : Bool) :
    Work α κ δ Unit := do
  let length ← readList m.master fun l => l.store.length
  if index < length || (inserting && index = length) then return ()
  else
    let total := (← mergedItems id).items.length
    if index < total then Act.refuse (.readOnlyIndex index)
    else Act.refuse (.indexOutOfRange index total)

def mutateMaster (call : Call α κ δ) (id : ViewId) (op : Operation α) : Work α κ δ (Reply α) :=
  withMerge id fun m => do
    match op with
    | .insert index _ => ensureWritable id m index true
    | .set index _ => ensureWritable id m index false
    | .removeAt index => ensureWritable id m index false
    | _ => pure ()
    mutate call m.master true op

def dismissSlaves (id : ViewId) : Work α κ δ Unit :=
  withMerge id fun m => do
    Act.modify (·.unsubscribeAll (m.slaves.flatMap (·.subscriptions)))
    Act.modify (putMerge id fun m => { m with slaves := [] })

def closeMerge (id : ViewId) : Work α κ δ Bool :=
  withMerge id fun m => do
    let first ← fun w => let (first, w) := CachedView.dispose (mergeCache id) w; (.ok first, w)
    if first then
      Act.attempt (Host.holding ListRefusal.ofLock m.lock .write (dismissSlaves id))
      discard (Host.dispose m.lock)
    return first

def disposeMerge (id : ViewId) : Work α κ δ Bool := do
  let first ← closeMerge id
  Act.modify sweep
  return first

end UndoableLists.World
