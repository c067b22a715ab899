import UndoableLists.List.Site

/-!
What batches make of single cells. Taking, freeing, giving up and adopting go through a batch cell
by cell; seen from one cell it only matters whether the cell is in the batch and who owns it. Each
batch is described by what it makes of any cell.
-/
namespace UndoableLists

namespace Cell
variable {η : Type}

def takenBy (c : Cell η) (parent : Context) (handler : Option η) : Cell η :=
  ⟨some parent, match handler with
    | none => c.handlers
    | some h => (c.handlers.erase parent).insert parent h⟩

def freedBy (c : Cell η) (parent : Context) : Cell η := ⟨none, c.handlers.erase parent⟩

def adoptedBy (c : Cell η) (parent : Context) (handler : Option η) : Cell η :=
  ⟨some parent, match handler with
    | none => c.handlers
    | some h => c.handlers.insert parent h⟩

theorem takenBy_takenBy (c : Cell η) (parent : Context) (handler : Option η) :
    (c.takenBy parent handler).takenBy parent handler = c.takenBy parent handler := by
  cases handler <;> simp [takenBy]

theorem adoptedBy_adoptedBy (c : Cell η) (parent : Context) (handler : Option η) :
    (c.adoptedBy parent handler).adoptedBy parent handler = c.adoptedBy parent handler := by
  cases handler <;> simp [adoptedBy]

theorem admits_adoptedBy (c : Cell η) (parent : Context) (handler : Option η) :
    (c.adoptedBy parent handler).admits parent = true := by
  simp [adoptedBy, admits]

theorem owned_of_not_admits {c : Cell η} {parent : Context} (refused : c.admits parent = false) :
    ∃ other, other ≠ parent ∧ c.owner = some other := by
  unfold admits at refused
  split at refused
  · cases refused
  · rename_i other owned
    exact ⟨other, by simpa using refused, owned⟩

end Cell

namespace Cells
variable {η : Type}

theorem cell_set (cs : Cells η) (id x : CellId) (c : Cell η) :
    (cs.set id c).cell x = if x = id then c else cs.cell x := by
  split
  · rename_i same
    rw [same, cell_set_self]
  · rename_i differs
    exact cell_set_of_ne cs differs c

theorem cell_freed (cs : Cells η) (id x : CellId) (parent : Context) :
    ((cs.setOwner id none).unsubscribe id parent).cell x =
      if x = id then (cs.cell id).freedBy parent else cs.cell x := by
  simp only [unsubscribe, setOwner, cell_set, ↓reduceIte]
  split <;> rfl

theorem cell_captureOne (cs : Cells η) (parent : Context) (handler : Option η) (id x : CellId) :
    (captureOne cs parent handler id).2.cell x =
      if x = id then (cs.cell id).takenBy parent handler else cs.cell x := by
  cases handler with
  | none =>
    simp only [captureOne, setOwner, cell_set]
    split <;> rfl
  | some h =>
    simp only [captureOne, subscribe, unsubscribe, setOwner, cell_set, ↓reduceIte]
    split <;> rfl

theorem cell_captureEach (parent : Context) (handler : Option η) (ids : List CellId)
    (cs : Cells η) (x : CellId) :
    (captureEach parent handler ids cs).2.cell x =
      if x ∈ ids then (cs.cell x).takenBy parent handler else cs.cell x := by
  induction ids generalizing cs with
  | nil => simp [captureEach]
  | cons id rest ih =>
    have step : (captureEach parent handler (id :: rest) cs).2 =
        (captureEach parent handler rest (captureOne cs parent handler id).2).2 := rfl
    rw [step, ih, cell_captureOne]
    by_cases same : x = id
    · subst same
      simp [Cell.takenBy_takenBy]
    · simp [same]

theorem cell_releaseEach (parent : Context) (ids : List CellId) (cs : Cells η) (x : CellId) :
    (releaseEach parent ids cs).2.cell x =
      if x ∈ ids ∧ cs.owner x = some parent then (cs.cell x).freedBy parent else cs.cell x := by
  induction ids generalizing cs with
  | nil => simp [releaseEach]
  | cons id rest ih =>
    unfold releaseEach
    by_cases mine : cs.owner id = some parent
    · rw [if_pos mine]
      change (releaseEach parent rest ((cs.setOwner id none).unsubscribe id parent)).2.cell x = _
      rw [ih, owner, cell_freed]
      by_cases same : x = id
      · subst same
        simp [Cell.freedBy, mine]
      · simp [same, owner]
    · rw [if_neg mine, ih]
      by_cases same : x = id
      · subst same
        simp [mine]
      · simp [same]

theorem cell_giveUp (context : Context) (ids : List CellId) (cs : Cells ListId) (x : CellId) :
    (ids.foldl (Site.giveUp context) cs).cell x =
      if x ∈ ids ∧ cs.owner x = some context then (cs.cell x).freedBy context else cs.cell x := by
  induction ids generalizing cs with
  | nil => simp
  | cons id rest ih =>
    rw [List.foldl_cons, ih]
    unfold Site.giveUp
    by_cases mine : cs.owner id = some context
    · rw [if_pos mine, owner, cell_freed]
      by_cases same : x = id
      · subst same
        simp [Cell.freedBy, mine]
      · simp [same, owner]
    · rw [if_neg mine]
      by_cases same : x = id
      · subst same
        simp [mine]
      · simp [same]

theorem adoptEach_first {α : Type} (l : UndoableList α) (id : CellId) (rest : List CellId)
    (cs : Cells ListId) :
    ∃ next, (Site.adoptEach l (id :: rest) cs).1 = (Site.adoptEach l rest next).1 ∧
      ∀ x, next.cell x =
        if x = id ∧ (cs.cell id).admits l.context then
          (cs.cell id).adoptedBy l.context l.handler?
        else cs.cell x := by
  rw [Site.adoptEach]
  cases found : cs.owner id with
  | none =>
    have admitted : (cs.cell id).admits l.context = true := by
      rw [Cell.admits, show (cs.cell id).owner = none from found]
    refine ⟨_, rfl, ?_⟩
    intro x
    cases l.handler? <;> by_cases same : x = id <;>
      simp [same, admitted, subscribe, setOwner, cell_set, Cell.adoptedBy]
  | some owner =>
    by_cases mine : owner = l.context
    · have admitted : (cs.cell id).admits l.context = true := by
        rw [Cell.admits, show (cs.cell id).owner = some owner from found]
        simp [mine]
      have mine' : (cs.cell id).owner = some l.context := mine ▸ found
      simp only [if_pos mine]
      refine ⟨_, rfl, ?_⟩
      intro x
      cases l.handler? <;> by_cases same : x = id <;>
        simp [same, admitted, subscribe, cell_set, Cell.adoptedBy, ← mine']
    · have refused : (cs.cell id).admits l.context = false := by
        rw [Cell.admits, show (cs.cell id).owner = some owner from found]
        simp [mine]
      simp only [if_neg mine]
      exact ⟨cs, rfl, fun x => by simp [refused]⟩

theorem cell_adoptEach {α : Type} (l : UndoableList α) (ids : List CellId) (cs : Cells ListId)
    (x : CellId) :
    (Site.adoptEach l ids cs).1.cell x =
      if x ∈ ids ∧ (cs.cell x).admits l.context then (cs.cell x).adoptedBy l.context l.handler?
      else cs.cell x := by
  induction ids generalizing cs with
  | nil => simp [Site.adoptEach]
  | cons id rest ih =>
    obtain ⟨next, step, cells⟩ := adoptEach_first l id rest cs
    rw [step, ih, cells]
    by_cases same : x = id
    · subst same
      cases admitted : (cs.cell x).admits l.context with
      | false => simp [admitted]
      | true => simp [Cell.adoptedBy_adoptedBy, Cell.admits_adoptedBy]
    · simp [same]

end Cells

end UndoableLists
