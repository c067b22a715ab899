import UndoableLists.Proofs.Capture.Cells
import UndoableLists.Proofs.World.Mutating
import UndoableLists.Proofs.World.Replaying

/-!
Calls that fail. A mutation, an undo or a redo that is refused, for whatever reason and at whatever
stage, leaves no trace and nobody is told anything; if it found a signal of the store and had the
lock, the reset is all that is left, and all that is told.
-/
namespace UndoableLists.World
variable {α κ δ β : Type}

/-- Every list with its contents, history and version, every cell with its owner and handlers, every
object and the running thread's ledger are as they were. -/
structure Untouched (w v : World α κ δ) : Prop where
  lists : v.lists = w.lists
  cells : v.cells = w.cells
  objects : v.objects = w.objects
  ledger : v.locks.heldBy w.thread = w.locks.heldBy w.thread

/-- The list lost its history and its signal and has a new version; it owns those of its members
that are not owned elsewhere, and hears of their edits if it tracks any. Nothing else differs. -/
structure OnlyReset (l : UndoableList α) (w v : World α κ δ) : Prop where
  lists : v.lists = w.lists.insert l.context { l with
    store := { l.store with stale := false }
    history := { l.history with done := [], undone := [] }
    version := l.version + 1 }
  cells : ∀ x, v.cells.cell x =
    if x ∈ l.cellsOf l.contents ∧ (w.cells.cell x).admits l.context then
      (w.cells.cell x).adoptedBy l.context l.handler?
    else w.cells.cell x
  objects : v.objects = w.objects
  ledger : v.locks.heldBy w.thread = w.locks.heldBy w.thread

/-- What a failed call on a list leaves. `obtained`: it had the lock for writing; `run` is the call,
whoever listens and whether aloud or not. -/
structure LeavesNoTrace (l : UndoableList α) (w : World α κ δ) (obtained : Bool)
    (run : Call α κ δ → Bool → Outcome ListRefusal β × World α κ δ) [Diary δ] : Prop where
  unsignalled : l.store.stale = false → ∃ r v, Untouched w v ∧ ∀ call aloud, run call aloud = (r, v)
  signalled : l.store.stale = true → obtained → ∃ r v, OnlyReset l w v ∧ ∀ call aloud,
    run call aloud = (r, if aloud then
      announce call l.context { changes := [.reset], countDiffers := true, itemsDiffer := true } v
    else v)

section
variable {l : UndoableList α} {v w : World α κ δ}

theorem untouched_aside (aside : Aside [] w v) : Untouched w v where
  lists := aside.lists
  cells := aside.cells
  objects := aside.objects
  ledger := ledger_aside aside

theorem onlyReset_aside (aside : Aside [] (w.afterReset l) v) : OnlyReset l w v where
  lists := aside.lists
  cells x := by
    rw [aside.cells]
    exact Cells.cell_adoptEach l.quieted.forgetful (l.cellsOf l.contents) w.cells x
  objects := aside.objects
  ledger := (ledger_aside aside :)

end

variable [Diary δ] {l : UndoableList α} {w : World α κ δ}

theorem mutation_leaves_no_trace [Element α] (here : w.lists.get? l.context = some l)
    {op : Operation α} {call : Call α κ δ} {aloud : Bool} {cause : ListRefusal}
    (failed : (mutate call l.context aloud op w).1 = .error (.refused cause)) :
    LeavesNoTrace l w ((acquireInSteps l.lock).succeeds w)
      fun call aloud => mutate call l.context aloud op w := by
  obtain ⟨b, r, v, mutated, -, outcome⟩ := mutate_ends here op
  rw [outcome call aloud] at failed
  obtain rfl : r = .error (.refused cause) := failed
  cases mutated with
  | fresh fresh ended =>
    cases ended with
    | refused aside =>
      constructor
      · intro _
        refine ⟨.error (.refused cause), v, untouched_aside aside, ?_⟩
        intro call aloud
        rw [outcome call aloud, announce_nothing, ite_self]
      · intro stale
        simp [fresh] at stale
  | barred stale barred aside =>
    constructor
    · intro fresh
      simp [stale] at fresh
    · intro _ obtained
      simp [inSteps_of_acquire_false barred] at obtained
  | lost stale taken barred aside =>
    constructor
    · intro fresh
      simp [stale] at fresh
    · intro _ obtained
      simp [barred] at obtained
  | heard stale obtained ended =>
    cases ended with
    | refused aside =>
      constructor
      · intro fresh
        simp [stale] at fresh
      · intro _ _
        exact ⟨.error (.refused cause), v, onlyReset_aside aside, outcome⟩

theorem replay_leaves_no_trace (here : w.lists.get? l.context = some l) {direction : Direction}
    {call : Call α κ δ} {aloud : Bool} {cause : ListRefusal}
    (failed : (replay call l.context aloud direction w).1 = .error (.refused cause)) :
    LeavesNoTrace l w ((Host.acquire l.lock .write).succeeds w)
      fun call aloud => replay call l.context aloud direction w := by
  obtain ⟨b, r, v, replayed, -, outcome⟩ := replay_ends here direction
  rw [outcome call aloud] at failed
  obtain rfl : r = .error (.refused cause) := failed
  have quiet (aside : Aside [] w v) (nothing : b = {}) : ∃ r v, Untouched w v ∧
      ∀ call aloud, replay call l.context aloud direction w = (r, v) := by
    refine ⟨.error (.refused cause), v, untouched_aside aside, ?_⟩
    intro call aloud
    rw [outcome call aloud, nothing, announce_nothing, ite_self]
  cases replayed with
  | barred barred aside =>
    constructor
    · intro _
      exact quiet aside rfl
    · intro _ obtained
      simp [barred] at obtained
  | fresh fresh obtained turned freed =>
    cases turned with
    | rejected near failed aside =>
      constructor
      · intro _
        exact quiet aside rfl
      · intro stale
        simp [fresh] at stale

/-- A refused mutation, undo or redo leaves no trace. -/
theorem refused_leaves_no_trace [Element α] (here : w.lists.get? l.context = some l) :
    (∀ op call aloud cause,
      (mutate call l.context aloud op w).1 = .error (.refused cause) →
      LeavesNoTrace l w ((acquireInSteps l.lock).succeeds w)
        fun call aloud => mutate call l.context aloud op w) ∧
    ∀ direction call aloud cause,
      (replay call l.context aloud direction w).1 = .error (.refused cause) →
      LeavesNoTrace l w ((Host.acquire l.lock .write).succeeds w)
        fun call aloud => replay call l.context aloud direction w := by
  constructor
  · intro op call aloud cause failed
    exact mutation_leaves_no_trace here failed
  · intro direction call aloud cause failed
    exact replay_leaves_no_trace here failed

def contestedWorld : World ObjectId Unit Unit :=
  (createList { access := some id }
    { client := (), cells := ({} : Cells ListId).setOwner 3 (some 9) }).2

theorem capture_conflict_leaves_no_trace :
    ∃ l : UndoableList ObjectId, contestedWorld.lists.get? l.context = some l ∧
      (mutate (fun _ _ _ => pure ()) l.context true (.push 3) contestedWorld).1 =
        .error (.refused (.capture (.alreadyCaptured 0 9))) ∧
      LeavesNoTrace l contestedWorld ((acquireInSteps l.lock).succeeds contestedWorld)
        fun call aloud => mutate call l.context aloud (.push 3) contestedWorld := by
  refine ⟨{
    context := 1
    lock := 1
    history := { maxDepth := History.unlimited }
    access := some id
    tracksEdits := true }, rfl, rfl, ?_⟩
  exact (refused_leaves_no_trace rfl).1 _ (fun _ _ _ => pure ()) true _ rfl

end UndoableLists.World
