import UndoableLists.World.Merging
import UndoableLists.World.Filtering

/-!
Scripts for worlds of lists: the commands, what they answer, and what a session keeps beside the
world. Commands can be nested into the time during which a list is held, and into the reactions of
subscribers.
-/
namespace UndoableLists.Session

inductive ListKind where
  | empty
  | seeded
  | configured
  | stored (signalling : Bool)
  | capturing
  | capturingStored (signalling : Bool)
  deriving DecidableEq, Inhabited

structure ListPlan where
  kind : ListKind
  items : List Value
  settings : Patience
  maxDepth : Nat
  tracksEdits : Bool
  deriving Inhabited

inductive Question where
  | length
  | isEmpty
  | item (index : Nat)
  | contents
  | each
  | contains (item : Value)
  | position (item : Value)
  | canUndo
  | canRedo
  | undoDepth
  | redoDepth
  | version
  | settings
  | isDisposed
  | text
  | json
  | shared
  | filter
  | isFiltered
  | slaveCount
  deriving Inhabited

inductive HoldMode where
  | reading
  | modifying
  deriving DecidableEq, Inhabited

mutual

inductive Command where
  | create (name : String) (plan : ListPlan)
  | createFilter (name base : String) (settings : Option Patience)
  | createMerge (name master : String) (settings : Option Patience)
  | clone (name source : String)
  | inner (name source : String)
  | drop (name : String)
  | unsubscribe (name : String)
  | signal (list : String)
  | fromJson (name text : String)
  | createContext (name : String)
  | createItem (name : String) (value : Int)
  | editItem (item : String) (value : Int)
  | captureItem (item context : String)
  | releaseItem (item : String)
  | items
  | mutate (target : String) (op : Operation Value) (aloud : Bool)
  | replay (target : String) (direction : Direction) (aloud : Bool)
  | ask (target : String) (question : Question)
  | clearHistory (target : String)
  | notifyReset (target : String)
  | dispose (target : String)
  | iterate (target : String) (plan : List IteratorStep)
  | holdReading (target : String) (steps : List Command) (boom : Bool)
  | modify (target : String) (steps : List Command) (edits : List (Option (StoreEdit Value)))
  | withHeld (target : String) (mode : HoldMode) (yields : Bool) (steps : List Command)
  | subscribe (target : String) (topic : Topic) (name : String) (trigger : Option String)
      (steps : List Command) (limit : Nat) (panicOn : Option String)
  | setFilter (target : String) (filter : Option Filter)
  | addSlave (target list : String)
  | removeSlave (target : String) (index : Nat)
  | clearSlaves (target : String)

inductive IteratorStep where
  | next
  | rest
  | error
  | text
  | command (c : Command)

end

instance : Inhabited Command := ⟨.items⟩
instance : Inhabited IteratorStep := ⟨.next⟩

structure ItemState where
  value : Int
  owner : Option Context
  handlers : Nat

inductive Answer where
  | done
  | flag (b : Bool)
  | count (n : Nat)
  | value (v : Option Value)
  | values (vs : List Value)
  | text (t : String)
  | created (c : Context)
  | context (c : Context)
  | settings (s : Patience)
  | filter (f : Option Filter)
  | items (table : List (String × ItemState))
  | each (answers : List Answer)
  | read (length : Nat) (steps : List Answer)
  | modified (steps edits : List Answer)
  | held (steps : List Answer)
  | notHeld (cause : Answer)
  | unreadable
  | unwritable (cause : LockRefusal)
  | refused (cause : ListRefusal)
  | panicked (label : Option String)
  | stalled
  | exhausted
  | unknown
  deriving Inhabited

inductive Entry where
  | notice (n : Notice)
  | replayed (item : String) (direction : Direction) (value : Int)
  | heard (subscriber : String) (event : Event Value)
  | answered (subscriber : String) (a : Answer)

/-- A subscriber: its name, what makes it react and how, how often it may, and what makes it
panic. -/
structure Client where
  name : String
  trigger : Option String
  steps : List Command
  limit : Nat
  panicOn : Option String

structure Notebook where
  names : Table String Handle := .empty
  contexts : Table String Context := .empty
  signals : Table String ListId := .empty
  subscriptions : Table String Subscription := .empty
  runs : Table SubscriberId Nat := .empty
  entries : List Entry := []

def Notebook.write (e : Entry) (d : Notebook) : Notebook := { d with entries := d.entries ++ [e] }

instance : Diary Notebook where
  note n := Notebook.write (.notice n)
  replayed item direction value := Notebook.write (.replayed item direction value)

abbrev Stage (α : Type) := World α Client Notebook

mutual

/-- A bound on how deep commands nest that a command can set off, itself included. -/
def cost : Command → Nat
  | .iterate _ plan => 1 + planCosts plan
  | .holdReading _ steps _ => 1 + costs steps
  | .modify _ steps _ => 1 + costs steps
  | .withHeld _ _ _ steps => 1 + costs steps
  | .subscribe _ _ _ _ steps limit _ => 1 + limit * costs steps
  | _ => 1

def costs : List Command → Nat
  | [] => 0
  | c :: rest => cost c + costs rest

def planCosts : List IteratorStep → Nat
  | [] => 0
  | .command c :: rest => cost c + planCosts rest
  | _ :: rest => planCosts rest

end

end UndoableLists.Session
