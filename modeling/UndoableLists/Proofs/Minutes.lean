import UndoableLists.Lock.Scope

/-!
Minutes. To tell which of the computations that it is given a function runs, how often, in what
order and from which states, they are replaced by computations that do the same and enter
themselves in minutes kept beside the state.
-/
namespace UndoableLists

/-- A state with minutes beside it. -/
structure Minuted (σ β : Type) where
  state : σ
  minutes : List β := []

namespace Minuted
variable {σ β τ : Type}

instance [Journal σ] : Journal (Minuted σ β) where
  note n m := { m with state := Journal.note n m.state }

instance [Host σ] : Host (Minuted σ β) where
  locks m := Host.locks m.state
  setLocks ls m := { m with state := Host.setLocks ls m.state }
  thread m := Host.thread m.state
  othersYield m := { m with state := Host.othersYield m.state }

def place (p : Place σ τ) : Place (Minuted σ β) τ :=
  ⟨fun m => p.get m.state, fun t m => { m with state := p.set t m.state }⟩

theorem lawful_place {p : Place σ τ} (lawful : p.Lawful) :
    (place p : Place (Minuted σ β) τ).Lawful where
  get_set t m := lawful.get_set t m.state
  set_set t u m := congrArg (Minuted.mk · m.minutes) (lawful.set_set t u m.state)
  set_get m := congrArg (Minuted.mk · m.minutes) (lawful.set_get m.state)

end Minuted

def Act.minuted {σ ε α β : Type} (entry : σ → Outcome ε α → β) (m : Act σ ε α) :
    Act (Minuted σ β) ε α := fun s =>
  let (r, t) := m s.state
  (r, ⟨t, s.minutes ++ [entry s.state r]⟩)

end UndoableLists
