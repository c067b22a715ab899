/-!
Undo history: what was done and what was undone, each with the newest first, and a bound on the
number of records kept. Replaying a record moves it from the one stack to the other, unless the
replay fails: then the record stays where it was, or is lost if the replay broke off part-way.
-/
namespace UndoableLists

structure History (ρ : Type) where
  done : List ρ := []
  undone : List ρ := []
  maxDepth : Nat

namespace History
variable {ρ β δ : Type}

/-- The depth that stands for no bound. -/
def unlimited : Nat := UInt64.size - 1

def bounded (h : History ρ) : Bool := h.maxDepth != unlimited

/-- A new record drops everything that was undone, and the oldest records beyond the bound. -/
def push (h : History ρ) (record : ρ) : History ρ :=
  { h with done := (record :: h.done).take h.maxDepth, undone := [] }

/-- Replays the newest record that was done; `none` when there is none. After a failure `keeps`
says whether the record is still to be had. -/
def undo (h : History ρ) (keeps : δ → Bool) (replay : ρ → Except δ β) :
    Option (Except δ β) × History ρ :=
  match h.done with
  | [] => (none, h)
  | record :: rest =>
    match replay record with
    | .ok out => (some (.ok out), { h with done := rest, undone := record :: h.undone })
    | .error e => (some (.error e), if keeps e then h else { h with done := rest })

def redo (h : History ρ) (keeps : δ → Bool) (replay : ρ → Except δ β) :
    Option (Except δ β) × History ρ :=
  match h.undone with
  | [] => (none, h)
  | record :: rest =>
    match replay record with
    | .ok out => (some (.ok out), { h with done := record :: h.done, undone := rest })
    | .error e => (some (.error e), if keeps e then h else { h with undone := rest })

def cleared (h : History ρ) : History ρ := { h with done := [], undone := [] }

def undoDepth (h : History ρ) : Nat := h.done.length
def redoDepth (h : History ρ) : Nat := h.undone.length

def timeline (h : History ρ) : List ρ := h.done.reverse ++ h.undone

end History

end UndoableLists
