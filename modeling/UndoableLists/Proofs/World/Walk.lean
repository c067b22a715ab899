import UndoableLists.Proofs.Timeline
import UndoableLists.World.Mutation

/-!
Walking along a history: several undo calls and then as many redo calls. Where each single call
takes a world one step along its timeline, undoing passes through the past states one by one, and
redoing leads through the same states back to where the walk began.
-/
namespace UndoableLists.World
variable {α κ δ τ : Type} [Diary δ]

def replays (call : Call α κ δ) (id : ListId) (look : World α κ δ → τ) (direction : Direction) :
    List Bool → World α κ δ → List (Outcome ListRefusal Bool × τ) × World α κ δ
  | [], w => ([], w)
  | aloud :: rest, w =>
    let (r, v) := replay call id aloud direction w
    let (more, last) := replays call id look direction rest v
    ((r, look v) :: more, last)

/-- Single calls that go one step along the timeline of a world. -/
structure Steps (call : Call α κ δ) (id : ListId) (look : World α κ δ → τ)
    (stands : World α κ δ → Timeline τ → Prop) : Prop where
  look : ∀ {w t}, stands w t → look w = t.now
  step : ∀ {w t direction next more}, stands w t → t.side direction = next :: more → ∀ aloud,
    (replay call id aloud direction w).1 = .ok true ∧
      stands (replay call id aloud direction w).2 (t.turned direction)

section
variable {call : Call α κ δ} {id : ListId} {look : World α κ δ → τ}
  {stands : World α κ δ → Timeline τ → Prop} {w : World α κ δ} {t : Timeline τ}

theorem replays_walk (steps : Steps call id look stands) (standing : stands w t)
    (direction : Direction) {aloud : List Bool}
    (enough : aloud.length ≤ (t.side direction).length) :
    (replays call id look direction aloud w).1 =
        ((t.side direction).take aloud.length).map (.ok true, ·) ∧
      stands (replays call id look direction aloud w).2 (t.walked direction aloud.length) := by
  induction aloud generalizing w t with
  | nil => exact ⟨by simp [replays], standing⟩
  | cons first rest ih =>
    cases here : t.side direction with
    | nil => simp [here] at enough
    | cons next more =>
      obtain ⟨answer, moved⟩ := steps.step standing here first
      obtain ⟨now, ahead⟩ := Timeline.side_turned here
      have left : rest.length ≤ ((t.turned direction).side direction).length := by
        rw [ahead]
        simpa [here] using enough
      obtain ⟨others, last⟩ := ih moved left
      rw [ahead] at others
      refine ⟨?_, last⟩
      simp only [replays, others, answer, steps.look moved, now, List.length_cons,
        List.take_succ_cons, List.map_cons]

/-- What undoing passes through, redoing passes through in reverse, back to where it began. -/
theorem replays_back_and_forth (steps : Steps call id look stands) (standing : stands w t)
    {back forth : List Bool} (enough : back.length ≤ t.past.length)
    (same : forth.length = back.length) :
    let undone := replays call id look .backward back w
    let redone := replays call id look .forward forth undone.2
    undone.1 = (t.past.take back.length).map (.ok true, ·) ∧
      redone.1 = ((t.now :: t.past).take back.length).reverse.map (.ok true, ·) ∧
      stands redone.2 t := by
  obtain ⟨undone, mid⟩ := replays_walk steps standing .backward enough
  obtain ⟨passed, home⟩ := Timeline.walked_back enough
  have number : ((t.now :: t.past).take back.length).reverse.length = forth.length := by
    simp [same]
    omega
  have room : forth.length ≤ ((t.walked .backward back.length).side .forward).length := by
    rw [Timeline.side, passed, List.length_append, number]
    omega
  obtain ⟨redone, last⟩ := replays_walk steps mid .forward room
  rw [Timeline.side, passed, ← number, List.take_left] at redone
  rw [same, home] at last
  exact ⟨undone, redone, last⟩

end

end UndoableLists.World
