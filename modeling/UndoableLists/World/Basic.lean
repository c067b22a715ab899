import UndoableLists.Filter
import UndoableLists.List.Site
import UndoableLists.Lock.Scope
import UndoableLists.Audience
import UndoableLists.CachedView

/-!
A world of lists, of views made from lists, and of the objects they share. Clients hold handles; a
list stays as long as a handle leads to it, by itself or through a view. `α` is the type of the
items, `κ` what is known about a subscriber of a client, and `δ` what the client itself keeps.
-/
namespace UndoableLists

abbrev ViewId := Nat

/-- What a client can hold: a list, a filtered view of a list, or several lists merged. -/
inductive Handle where
  | list (id : ListId)
  | filter (id : ViewId)
  | merge (id : ViewId)
  deriving DecidableEq, Inhabited

inductive Topic where
  | changes
  | properties
  deriving DecidableEq

/-- Who listens: a client's subscriber, or a view to what it is made from. -/
inductive Listener (κ : Type) where
  | client (k : κ)
  | filter (id : ViewId)
  | master (id : ViewId)
  | slave (id : ViewId)

structure Channels (κ : Type) where
  changes : Audience (Listener κ) := {}
  properties : Audience (Listener κ) := {}

def Channels.on {κ : Type} (c : Channels κ) : Topic → Audience (Listener κ)
  | .changes => c.changes
  | .properties => c.properties

def Channels.replace {κ : Type} (c : Channels κ) (n : Audience (Listener κ)) : Topic → Channels κ
  | .changes => { c with changes := n }
  | .properties => { c with properties := n }

structure Subscription where
  source : Handle
  topic : Topic
  id : SubscriberId

structure Built (α : Type) where
  stamp : Nat
  items : List α

structure FilteredView (α : Type) where
  base : ListId
  lock : LockId
  predicate : Predicate := Filter.judge
  filter : Option Filter := none
  generation : Nat := 0
  cache : CachedView (UInt64 × UInt64) (Built α) := {}
  subscriptions : List Subscription := []

structure Slave where
  list : ListId
  subscriptions : List Subscription

structure MergedList (α : Type) where
  master : ListId
  lock : LockId
  slaves : List Slave := []
  generation : Nat := 0
  cache : CachedView (UInt64 × UInt64 × UInt64) (Built α) := {}
  subscriptions : List Subscription := []

/-- A client's diary: notices, and what was done to its objects by replaying edits. -/
class Diary (δ : Type) extends Journal δ where
  replayed : String → Direction → Int → δ → δ

instance : Diary Unit where
  note _ client := client
  replayed _ _ _ client := client

structure World (α κ δ : Type) where
  locks : Locks := {}
  thread : Thread := 0
  /-- How many other threads are at work. -/
  helpers : Nat := 0
  /-- What other threads give up as soon as the running one waits without a deadline. -/
  yields : List (Thread × LockId) := []
  nextContext : Context := 1
  nextView : ViewId := 0
  nextSubscriber : SubscriberId := 0
  builds : Nat := 0
  lists : Table ListId (UndoableList α) := .empty
  filters : Table ViewId (FilteredView α) := .empty
  merges : Table ViewId (MergedList α) := .empty
  channels : Table Handle (Channels κ) := .empty
  objects : Objects := {}
  cells : Cells ListId := {}
  /-- The handles that are held, one entry for each holder. -/
  held : List Handle := []
  client : δ

abbrev Work (α κ δ β : Type) := Act (World α κ δ) ListRefusal β

namespace World
variable {α κ δ β : Type}

instance [Diary δ] : Host (World α κ δ) where
  locks := World.locks
  setLocks ls w := { w with locks := ls }
  thread := World.thread
  note n w := { w with client := Journal.note n w.client }
  othersYield w :=
    { w with
      locks := (w.yields.filter (·.1 ≠ w.thread)).foldl (fun ls y => ls.release y.1 y.2) w.locks
      yields := [] }

def channel (h : Handle) (t : Topic) : Place (World α κ δ) (Audience (Listener κ)) :=
  ⟨fun w => ((w.channels.get? h).getD {}).on t,
    fun n w =>
      { w with channels := w.channels.insert h (((w.channels.get? h).getD {}).replace n t) }⟩

def filterCache (id : ViewId) : Place (World α κ δ) (CachedView (UInt64 × UInt64) (Built α)) :=
  ⟨fun w => ((w.filters.get? id).map (·.cache)).getD { disposed := true },
    fun cache w => { w with filters := w.filters.modify id fun v => { v with cache } }⟩

def mergeCache (id : ViewId) :
    Place (World α κ δ) (CachedView (UInt64 × UInt64 × UInt64) (Built α)) :=
  ⟨fun w => ((w.merges.get? id).map (·.cache)).getD { disposed := true },
    fun cache w => { w with merges := w.merges.modify id fun m => { m with cache } }⟩

def subscribe (source : Handle) (topic : Topic) (listener : Listener κ) (w : World α κ δ) :
    Subscription × World α κ δ :=
  let id := w.nextSubscriber
  (⟨source, topic, id⟩,
    (channel source topic).modify (·.subscribe id listener) { w with nextSubscriber := id + 1 })

def unsubscribe (s : Subscription) (w : World α κ δ) : World α κ δ :=
  if (w.channels.get? s.source).isNone then w
  else (channel s.source s.topic).modify (·.unguarded [s.id]) w

def unsubscribeAll (ss : List Subscription) (w : World α κ δ) : World α κ δ :=
  ss.foldl (fun w s => w.unsubscribe s) w

def follow (list : ListId) (listener : Listener κ) (w : World α κ δ) :
    List Subscription × World α κ δ :=
  let (changes, w) := w.subscribe (.list list) .changes listener
  let (properties, w) := w.subscribe (.list list) .properties listener
  ([changes, properties], w)

def hold (h : Handle) (w : World α κ δ) : World α κ δ := { w with held := h :: w.held }

def removeFilter (w : World α κ δ) (id : ViewId) (v : FilteredView α) : World α κ δ :=
  let w := w.unsubscribeAll v.subscriptions
  { w with filters := w.filters.erase id, channels := w.channels.erase (.filter id) }

def removeMerge (w : World α κ δ) (id : ViewId) (m : MergedList α) : World α κ δ :=
  let w := w.unsubscribeAll (m.subscriptions ++ m.slaves.flatMap (·.subscriptions))
  { w with merges := w.merges.erase id, channels := w.channels.erase (.merge id) }

def removeList (w : World α κ δ) (id : ListId) (l : UndoableList α) : World α κ δ :=
  { w with
    cells := (Site.released ⟨l, w.cells⟩).cells
    lists := w.lists.erase id
    channels := w.channels.erase (.list id) }

def reachable (w : World α κ δ) : List ListId :=
  (w.held.filterMap fun
    | .list id => some id
    | _ => none) ++
  w.filters.entries.map (·.2.base) ++
  w.merges.entries.flatMap fun (_, m) => m.master :: m.slaves.map (·.list)

/-- Removes what nothing leads to any more: views first, then lists. -/
def sweep (w : World α κ δ) : World α κ δ :=
  let w := w.filters.entries.foldl (fun w (id, v) =>
    if w.held.contains (.filter id) then w else w.removeFilter id v) w
  let w := w.merges.entries.foldl (fun w (id, m) =>
    if w.held.contains (.merge id) then w else w.removeMerge id m) w
  let live := w.reachable
  w.lists.entries.foldl (fun w (id, l) =>
    if live.contains id then w else w.removeList id l) w

def letGo (h : Handle) (w : World α κ δ) : World α κ δ := sweep { w with held := w.held.erase h }

def keeping (h : Handle) (body : World α κ δ → β × World α κ δ) (w : World α κ δ) :
    β × World α κ δ :=
  let (b, w) := body (w.hold h)
  (b, w.letGo h)

structure Blueprint (α : Type) where
  items : List α := []
  settings : Patience := {}
  maxDepth : Nat := History.unlimited
  bulk : Bulk := .splice
  access : Option (α → CellId) := none
  tracksEdits : Bool := true

def putSite (w : World α κ δ) (s : Site α) : World α κ δ :=
  { w with lists := w.lists.insert s.list.context s.list, cells := s.cells }

def Blueprint.listAt (b : Blueprint α) (context : Context) (lock : LockId) : UndoableList α where
  context
  lock
  store := { items := b.items, bulk := b.bulk }
  history := { maxDepth := b.maxDepth }
  access := b.access
  tracksEdits := b.access.isSome && b.tracksEdits

def createList [Diary δ] (b : Blueprint α) (w : World α κ δ) : ListId × World α κ δ :=
  let context := w.nextContext
  let (lock, locks) := w.locks.create b.settings
  let (site, notices) := Site.adopted ⟨b.listAt context lock, w.cells⟩
  let w := { w with locks, nextContext := context + 1 }.putSite site
  (context, Journal.noteAll notices (w.hold (.list context)))

def withList (id : ListId) (body : UndoableList α → Work α κ δ β) : Work α κ δ β := fun w =>
  match w.lists.get? id with
  | none => (.error (.refused .disposed), w)
  | some l => body l w

/-- The word that a counter is kept in, which starts again from zero after its last value. -/
def word (n : Nat) : UInt64 := .ofNat n

def wrapped (n : Nat) : Nat := (word n).toNat

/-- How often a list has changed, without an end; `wrapped` is what it says of itself. -/
def version (w : World α κ δ) (id : ListId) : Nat := ((w.lists.get? id).map (·.version)).getD 0

def readList [Diary δ] (id : ListId) (f : UndoableList α → β) : Work α κ δ β :=
  withList id fun l => Host.holding ListRefusal.ofLock l.lock .read
    (withList id fun l => return f l)

def contents [Diary δ] (id : ListId) : Work α κ δ (List α) := readList id UndoableList.contents

end World

end UndoableLists
