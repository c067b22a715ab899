/-!
The store behind a list: a sequence that is edited by position, and a flag by which the store says
that it was changed behind the list's back. A position outside the sequence is refused, and then
nothing changes.
-/
namespace UndoableLists

/-- How a run of items is put in: in one piece, or one after the other. -/
inductive Bulk where
  | splice
  | oneByOne
  deriving DecidableEq, Inhabited

structure Store (α : Type) where
  items : List α := []
  stale : Bool := false
  bulk : Bulk := .splice

inductive Reply (α : Type) where
  | done
  | flag (b : Bool)
  | count (n : Nat)
  | item (x : Option α)
  | items (xs : List α)
  deriving DecidableEq

def Reply.map {α β : Type} (f : α → β) : Reply α → Reply β
  | .done => .done
  | .flag b => .flag b
  | .count n => .count n
  | .item x => .item (x.map f)
  | .items xs => .items (xs.map f)

namespace Store
variable {α : Type}

def length (s : Store α) : Nat := s.items.length

def insert? (s : Store α) (index : Nat) (item : α) : Option (Store α) :=
  if index ≤ s.length then some { s with items := s.items.insertIdx index item } else none

def remove? (s : Store α) (index : Nat) : Option (α × Store α) :=
  s.items[index]?.map fun item => (item, { s with items := s.items.eraseIdx index })

def replace? (s : Store α) (index : Nat) (item : α) : Option (α × Store α) :=
  s.items[index]?.map fun old => (old, { s with items := s.items.set index item })

def cleared (s : Store α) : Store α := { s with items := [] }

def splice? (s : Store α) (index : Nat) (items : List α) : Option (Store α) :=
  if index ≤ s.length then
    some { s with items := s.items.take index ++ items ++ s.items.drop index }
  else none

def insertEach? (s : Store α) (index : Nat) : List α → Option (Store α)
  | [] => some s
  | item :: rest => (s.insert? index item).bind fun s => s.insertEach? (index + 1) rest

def insertMany? (s : Store α) (index : Nat) (items : List α) : Option (Store α) :=
  match s.bulk with
  | .splice => s.splice? index items
  | .oneByOne => s.insertEach? index items

/-- Reading the flag takes it down. -/
def takeStale (s : Store α) : Bool × Store α := (s.stale, { s with stale := false })

end Store

inductive StoreEdit (α : Type) where
  | insert (index : Nat) (item : α)
  | remove (index : Nat)
  | replace (index : Nat) (item : α)
  | insertMany (index : Nat) (items : List α)
  | clear
  | length
  | isEmpty
  | get (index : Nat)
  | contents
  | takeStale
  | markStale

def StoreEdit.map {α β : Type} (f : α → β) : StoreEdit α → StoreEdit β
  | .insert index item => .insert index (f item)
  | .remove index => .remove index
  | .replace index item => .replace index (f item)
  | .insertMany index items => .insertMany index (items.map f)
  | .clear => .clear
  | .length => .length
  | .isEmpty => .isEmpty
  | .get index => .get index
  | .contents => .contents
  | .takeStale => .takeStale
  | .markStale => .markStale

/-- `none` when the store refuses the position. -/
def Store.edit? {α : Type} (s : Store α) : StoreEdit α → Option (Reply α × Store α)
  | .insert index item => (s.insert? index item).map fun s => (.done, s)
  | .remove index => (s.remove? index).map fun (x, s) => (.item (some x), s)
  | .replace index item => (s.replace? index item).map fun (x, s) => (.item (some x), s)
  | .insertMany index items => (s.insertMany? index items).map fun s => (.done, s)
  | .clear => some (.items s.items, s.cleared)
  | .length => some (.count s.length, s)
  | .isEmpty => some (.flag s.items.isEmpty, s)
  | .get index => some (.item s.items[index]?, s)
  | .contents => some (.items s.items, s)
  | .takeStale => some (.flag s.takeStale.1, s.takeStale.2)
  | .markStale => some (.done, { s with stale := true })

end UndoableLists
