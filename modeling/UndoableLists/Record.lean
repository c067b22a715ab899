import UndoableLists.Act
import UndoableLists.Change
import UndoableLists.Refusal
import UndoableLists.Store

/-!
Reversible records of list mutations. A record can be checked against a length before anything is
touched, and applied in either direction. A record whose positions and items do not go together can
pass the check and still break off part-way; what was done up to then stays done. `α` is the type of
the items and `ε` that of the edits an item can undergo in place.
-/
namespace UndoableLists

inductive Direction where
  | forward
  | backward
  deriving DecidableEq, Inhabited

inductive Record (α ε : Type) where
  | add (index : Nat) (item : α)
  | addMany (index : Nat) (items : List α)
  | remove (index : Nat) (item : α)
  | removeMany (indices : List Nat) (items : List α)
  | clear (items : List α)
  | changeAt (index : Nat) (old new : α)
  | composite (children : List (Record α ε))
  | itemEdit (edit : ε)

/-- What an application did, for those who are to be told: the changes in order, and the edits of
items that are to be replayed in order. -/
structure Effects (α ε : Type) where
  changes : List (Change α) := []
  edits : List ε := []

namespace Effects
variable {α ε : Type}

def editsItems (a : Effects α ε) : Bool := !a.edits.isEmpty

def append (a b : Effects α ε) : Effects α ε := ⟨a.changes ++ b.changes, a.edits ++ b.edits⟩

instance : Append (Effects α ε) := ⟨append⟩

end Effects

/-- Items that change hands when a record is applied. -/
structure Handover (α : Type) where
  leaving : List α := []
  entering : List α := []

def Handover.append {α : Type} (a b : Handover α) : Handover α :=
  ⟨a.leaving ++ b.leaving, a.entering ++ b.entering⟩

namespace Record
variable {α ε : Type}

instance : Inhabited (Record α ε) := ⟨.composite []⟩

def moved (item : α) (source target : Nat) : Record α ε :=
  .composite [.remove source item, .add target item]

def move? : Record α ε → Option (α × Nat × Nat)
  | .composite [.remove source item, .add target _] => some (item, source, target)
  | _ => none

def description : Record α ε → String
  | .add .. => "Add item"
  | .addMany .. => "Add items"
  | .remove .. => "Remove item"
  | .removeMany .. => "Remove items"
  | .clear .. => "Clear"
  | .changeAt .. => "Replace item"
  | .composite [.remove .., .add ..] => "Move item"
  | .composite _ => "Composite change"
  | .itemEdit _ => "Edit item"

def words : Nat := UInt64.size

/-- A length with `count` more; a limit, if there is one, is the first length that is too much. -/
def longer (limit : Option Nat) (length count : Nat) : Outcome ListRefusal Nat :=
  if limit.all (length + count < ·) then .ok (length + count) else .error (.panicked none)

def shorter (length count : Nat) : Outcome ListRefusal Nat :=
  if count ≤ length then .ok (length - count) else .error (.panicked none)

def member (index length : Nat) : Outcome ListRefusal Unit :=
  if index < length then .ok () else .error (.refused (.indexOutOfRange index length))

def slot (index length : Nat) : Outcome ListRefusal Unit :=
  if index ≤ length then .ok () else .error (.refused (.indexOutOfRange index length))

def slots (limit : Option Nat) : List Nat → Nat → Outcome ListRefusal Nat
  | [], length => .ok length
  | index :: rest, length => do slot index length; slots limit rest (← longer limit length 1)

mutual

def check (limit : Option Nat) : Record α ε → Direction → Nat → Outcome ListRefusal Nat
  | .add index _, .forward, length => do slot index length; longer limit length 1
  | .add index _, .backward, length => do member index length; shorter length 1
  | .remove index _, .forward, length => do member index length; shorter length 1
  | .remove index _, .backward, length => do slot index length; longer limit length 1
  | .addMany index items, .forward, length => do slot index length; longer limit length items.length
  | .addMany index items, .backward, length =>
    if index + items.length ≤ length then .ok (length - items.length)
    else .error (.refused (.rangeOutOfBounds index items.length length))
  | .removeMany indices _, .forward, length =>
    match indices.getLast? with
    | none => .ok length
    | some last => do member last length; shorter length indices.length
  | .removeMany indices _, .backward, length => slots limit indices length
  | .clear items, .forward, length =>
    if length = items.length then .ok 0
    else .error (.refused (.rangeOutOfBounds 0 items.length length))
  | .clear items, .backward, length =>
    if length = 0 then .ok items.length else .error (.refused (.indexOutOfRange 0 length))
  | .changeAt index _ _, _, length => do member index length; return length
  | .composite children, direction, length => checkAll limit children direction length
  | .itemEdit _, _, length => .ok length

def checkAll (limit : Option Nat) :
    List (Record α ε) → Direction → Nat → Outcome ListRefusal Nat
  | [], _, length => .ok length
  | child :: rest, .forward, length => do
    checkAll limit rest .forward (← check limit child .forward length)
  | child :: rest, .backward, length => do
    check limit child .backward (← checkAll limit rest .backward length)

end

def exchange (direction : Direction) (lost gained : List α) : Handover α :=
  match direction with
  | .forward => ⟨lost, gained⟩
  | .backward => ⟨gained, lost⟩

mutual

def handover : Record α ε → Direction → Handover α
  | .add _ item, direction => exchange direction [] [item]
  | .addMany _ items, direction => exchange direction [] items
  | .remove _ item, direction => exchange direction [item] []
  | .removeMany _ items, direction => exchange direction items []
  | .clear items, direction => exchange direction items []
  | .changeAt _ old new, direction => exchange direction [old] [new]
  | .composite children, direction => handoverAll children direction
  | .itemEdit _, _ => {}

def handoverAll : List (Record α ε) → Direction → Handover α
  | [], _ => {}
  | child :: rest, .forward => (handover child .forward).append (handoverAll rest .forward)
  | child :: rest, .backward => (handoverAll rest .backward).append (handover child .backward)

end

/-- Items at consecutive positions, gathered: the first position and the items. -/
def runs : List (Nat × α) → List (Nat × List α)
  | [] => []
  | (index, item) :: rest =>
    match runs rest with
    | [] => [(index, [item])]
    | (next, items) :: more =>
      if next = index + 1 then (index, item :: items) :: more
      else (index, [item]) :: (next, items) :: more

abbrev Edited (α : Type) := Except (Store α) (Store α)

def once (s : Store α) (edited : Option (Store α)) : Edited α :=
  match edited with
  | none => .error s
  | some s => .ok s

def removeEach (s : Store α) : List Nat → Edited α
  | [] => .ok s
  | index :: rest =>
    match s.remove? index with
    | none => .error s
    | some (_, s) => removeEach s rest

def insertPairs (s : Store α) : List (Nat × α) → Edited α
  | [] => .ok s
  | (index, item) :: rest =>
    match s.insert? index item with
    | none => .error s
    | some s => insertPairs s rest

abbrev Progress (α ε : Type) := Store α × Effects α ε

/-- What an application came to: it was done, or it broke off after some progress. -/
abbrev Application (α ε : Type) := Except (Progress α ε) (Progress α ε)

def telling (edited : Edited α) (changes : List (Change α)) (told : Bool) : Application α ε :=
  match edited with
  | .error s => .error (s, {})
  | .ok s => if told then .ok (s, ⟨changes, []⟩) else .error (s, {})

def thenApply (first : Application α ε) (next : Store α → Application α ε) : Application α ε :=
  match first with
  | .error p => .error p
  | .ok (s, done) =>
    match next s with
    | .ok (s, more) => .ok (s, done ++ more)
    | .error (s, more) => .error (s, done ++ more)

def putAt (s : Store α) (index : Nat) (item : α) : Application α ε :=
  telling (once s (s.insert? index item)) [.add index [item]] true

def dropAt (s : Store α) (index : Nat) (item : α) : Application α ε :=
  telling (once s ((s.remove? index).map (·.2))) [.remove index [item]] true

def swapAt (s : Store α) (index : Nat) (old new : α) : Application α ε :=
  telling (once s ((s.replace? index new).map (·.2))) [.replace index old new] true

mutual

/-- Applies a record child by child. Changes at several positions are told with an item for each
position; an application that has too few breaks off when the store is already edited. -/
def applyEach : Record α ε → Direction → Store α → Application α ε
  | .add index item, .forward, s => putAt s index item
  | .add index item, .backward, s => dropAt s index item
  | .remove index item, .forward, s => dropAt s index item
  | .remove index item, .backward, s => putAt s index item
  | .addMany index items, .forward, s =>
    telling (once s (s.insertMany? index items)) [.add index items] true
  | .addMany index items, .backward, s =>
    telling (removeEach s ((List.range items.length).map (index + ·)).reverse)
      [.remove index items] true
  | .removeMany indices items, .forward, s =>
    telling (removeEach s indices.reverse)
      ((runs (indices.zip items)).map fun (i, xs) => Change.remove i xs).reverse
      (indices.length ≤ items.length)
  | .removeMany indices items, .backward, s =>
    telling (insertPairs s (indices.zip items))
      ((runs (indices.zip items)).map fun (i, xs) => Change.add i xs)
      (indices.length ≤ items.length)
  | .clear _, .forward, s => telling (.ok s.cleared) [.reset] true
  | .clear items, .backward, s =>
    telling (once s (s.insertMany? 0 items)) (if items.isEmpty then [] else [.add 0 items]) true
  | .changeAt index old new, .forward, s => swapAt s index old new
  | .changeAt index old new, .backward, s => swapAt s index new old
  | .composite children, direction, s => applyAll children direction s
  | .itemEdit edit, _, s => .ok (s, ⟨[], [edit]⟩)

def applyAll : List (Record α ε) → Direction → Store α → Application α ε
  | [], _, s => .ok (s, {})
  | child :: rest, .forward, s =>
    thenApply (applyEach child .forward s) fun s => applyAll rest .forward s
  | child :: rest, .backward, s =>
    thenApply (applyAll rest .backward s) fun s => applyEach child .backward s

end

def shift (s : Store α) (source target : Nat) : Edited α :=
  match s.remove? source with
  | none => .error s
  | some (item, s) => once s (s.insert? target item)

/-- Applies a record. A record that is a move as a whole is reported as a move. -/
def apply (record : Record α ε) (direction : Direction) (s : Store α) : Application α ε :=
  match record.move?, direction with
  | some (item, source, target), .forward =>
    telling (shift s source target) [.move item source target] true
  | some (item, source, target), .backward =>
    telling (shift s target source) [.move item target source] true
  | none, direction => applyEach record direction s

end Record

end UndoableLists
