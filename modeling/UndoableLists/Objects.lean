import UndoableLists.Record
import UndoableLists.Table
import UndoableLists.Value

/-!
Named objects with an integer each, which lists may hold by reference, and the edits of their
integers. `Element` says what a list's items are: plain values, or such objects. Two items are equal
when their present values are.
-/
namespace UndoableLists

abbrev ObjectId := Nat

structure Object where
  name : String
  value : Int
  deriving Inhabited

structure Edit where
  object : ObjectId
  old : Int
  new : Int
  deriving DecidableEq

def Edit.target (e : Edit) : Direction → Int
  | .forward => e.new
  | .backward => e.old

/-- All objects that were ever made, and the latest one of each name. -/
structure Objects where
  table : Table ObjectId Object := .empty
  names : Table String ObjectId := .empty
  next : ObjectId := 0

namespace Objects

def get (os : Objects) (id : ObjectId) : Object := (os.table.get? id).getD default

def create (os : Objects) (name : String) (value : Int) : Objects :=
  { table := os.table.insert os.next ⟨name, value⟩
    names := os.names.insert name os.next
    next := os.next + 1 }

def assign (os : Objects) (id : ObjectId) (value : Int) : Objects :=
  { os with table := os.table.modify id fun o => { o with value } }

def find (os : Objects) (name : String) : ObjectId := (os.names.get? name).getD 0

def replay (os : Objects) (direction : Direction) (e : Edit) : Objects :=
  os.assign e.object (e.target direction)

end Objects

class Element (α : Type) where
  /-- The item that a script means by a value. -/
  resolve : Objects → Value → α
  /-- What an item is worth now. -/
  current : Objects → α → Value
  /-- What stands for an item in answers. -/
  label : Objects → α → Value
  /-- The cell by which an item can be owned. -/
  cell? : Option (α → Nat)

namespace Element

instance : Element Value where
  resolve _ v := v
  current _ v := v
  label _ v := v
  cell? := none

instance : Element ObjectId where
  resolve os
    | .text name => os.find name
    | .int _ => 0
  current os id := .int (os.get id).value
  label os id := .text (os.get id).name
  cell? := some fun id => id

end Element

end UndoableLists
