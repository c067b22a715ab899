/-!
What a list tells its subscribers. A collection change describes one step of the contents closely
enough to be replayed on a copy; a property change only says which reading may differ.
-/
namespace UndoableLists

inductive Change (α : Type) where
  | reset
  | add (index : Nat) (items : List α)
  | remove (index : Nat) (items : List α)
  | replace (index : Nat) (old new : α)
  | move (item : α) (source target : Nat)
  deriving DecidableEq

inductive Property where
  | count
  | items
  deriving DecidableEq

inductive Event (α : Type) where
  | collection (change : Change α)
  | property (property : Property)
  deriving DecidableEq

def Event.kind {α : Type} : Event α → String
  | .collection .reset => "Reset"
  | .collection (.add ..) => "Add"
  | .collection (.remove ..) => "Remove"
  | .collection (.replace ..) => "Replace"
  | .collection (.move ..) => "Move"
  | .property .count => "Count"
  | .property .items => "Items"

def Change.map {α β : Type} (f : α → β) : Change α → Change β
  | .reset => .reset
  | .add index items => .add index (items.map f)
  | .remove index items => .remove index (items.map f)
  | .replace index old new => .replace index (f old) (f new)
  | .move item source target => .move (f item) source target

def Event.map {α β : Type} (f : α → β) : Event α → Event β
  | .collection c => .collection (c.map f)
  | .property p => .property p

namespace Change
variable {α : Type}

/-- A subscriber's copy after one change. A reset is answered with the contents `fresh`; a change
that points outside the copy cannot be replayed. -/
def replay? (fresh copy : List α) : Change α → Option (List α)
  | .reset => some fresh
  | .add index items =>
    if index ≤ copy.length then some (copy.take index ++ items ++ copy.drop index) else none
  | .remove index items =>
    if index + items.length ≤ copy.length then
      some (copy.take index ++ copy.drop (index + items.length))
    else none
  | .replace index _ new =>
    if index < copy.length then some (copy.set index new) else none
  | .move _ source target =>
    match copy[source]? with
    | none => none
    | some item =>
      if target < copy.length then some ((copy.eraseIdx source).insertIdx target item) else none

def replayAll? (fresh : List α) : List (Change α) → List α → Option (List α)
  | [], copy => some copy
  | change :: rest, copy => (change.replay? fresh copy).bind (replayAll? fresh rest)

end Change

end UndoableLists
