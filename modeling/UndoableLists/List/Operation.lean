import UndoableLists.Record

/-!
The mutations of a list. Each is planned against the present contents: it is refused, or it comes
to one reversible record, or to none when there is nothing to change; and it has an answer.
-/
namespace UndoableLists

inductive Operation (α : Type) where
  | push (item : α)
  | insert (index : Nat) (item : α)
  | addRange (items : List α)
  | insertRange (index : Nat) (items : List α)
  | removeAt (index : Nat)
  | remove (item : α)
  | removeRange (start count : Nat)
  | clear
  | set (index : Nat) (item : α)
  | move (source target : Nat)

namespace Operation
variable {α ε β : Type}

def map (f : α → β) : Operation α → Operation β
  | .push item => .push (f item)
  | .insert index item => .insert index (f item)
  | .addRange items => .addRange (items.map f)
  | .insertRange index items => .insertRange index (items.map f)
  | .removeAt index => .removeAt index
  | .remove item => .remove (f item)
  | .removeRange start count => .removeRange start count
  | .clear => .clear
  | .set index item => .set index (f item)
  | .move source target => .move source target

/-- A record, if there is anything to do, and the answer. -/
abbrev Plan (α ε : Type) := Option (Record α ε) × Reply α

def itemAt (contents : List α) (index : Nat) : Except ListRefusal α :=
  match contents[index]? with
  | none => .error (.indexOutOfRange index contents.length)
  | some item => .ok item

def addAll (index : Nat) (items : List α) : Plan α ε :=
  (if items.isEmpty then none else some (.addMany index items), .done)

def findFirst [DecidableEq β] (worth : α → β) (item : α) (contents : List α) : Option (Nat × α) :=
  match contents.findIdx? (fun x => worth x = worth item) with
  | none => none
  | some index => contents[index]?.map (index, ·)

def plan [DecidableEq β] (worth : α → β) (contents : List α) :
    Operation α → Except ListRefusal (Plan α ε)
  | .push item => .ok (some (.add contents.length item), .done)
  | .insert index item => .ok (some (.add index item), .done)
  | .addRange items => .ok (addAll contents.length items)
  | .insertRange index items =>
    if contents.length < index then .error (.indexOutOfRange index contents.length)
    else .ok (addAll index items)
  | .removeAt index => do
    let item ← itemAt contents index
    return (some (.remove index item), .item (some item))
  | .remove item =>
    match findFirst worth item contents with
    | none => .ok (none, .flag false)
    | some (index, member) => .ok (some (.remove index member), .flag true)
  | .removeRange start count =>
    if start + count ≤ contents.length then
      let items := (contents.drop start).take count
      .ok (if items.isEmpty then none
        else some (.removeMany ((List.range count).map (start + ·)) items), .items items)
    else .error (.rangeOutOfBounds start count contents.length)
  | .clear => .ok (if contents.isEmpty then none else some (.clear contents), .done)
  | .set index item => do
    let old ← itemAt contents index
    return (some (.changeAt index old item), .item (some old))
  | .move source target => do
    let item ← itemAt contents source
    discard (itemAt contents target)
    return (if source = target then none else some (.moved item source target), .done)

end Operation

end UndoableLists
