import UndoableLists.Proofs.UndoRedo.Life

/-!
Undo and redo lead back and forth. At any time in the life of a list that does not capture its
items, undoing passes through the contents before each change that the history still knows, from
the newest to the oldest, and redoing passes through them again to where the walk began.
-/
namespace UndoableLists.World
variable {α κ δ : Type}

section
variable {call : Call α κ δ} {id : ListId} {l : UndoableList α} {v w : World α κ δ}
  {t : Timeline (List α)}

variable [Diary δ]

/-- The list stands at a point of a timeline, and nothing keeps its calls from being answered. -/
structure Stands (id : ListId) (lock : LockId) (w : World α κ δ) (t : Timeline (List α)) :
    Prop where
  living : Living id w t
  here : ∃ l, w.lists.get? id = some l ∧ l.store.stale = false ∧ l.lock = lock
  obtained : (Host.acquire lock .write).succeeds w = true

theorem replay_stands {lock : LockId} (quiet : Quiet call id lock) {direction : Direction}
    {next : List α} {more : List (List α)} (stands : Stands id lock w t)
    (ahead : t.side direction = next :: more) (aloud : Bool) :
    (replay call id aloud direction w).1 = .ok true ∧
      Stands id lock (replay call id aloud direction w).2 (t.turned direction) := by
  obtain ⟨l, here, fresh, rfl⟩ := stands.here
  obtain ⟨held, m, there, rfl, plain, tracks⟩ := stands.living
  obtain rfl : l = m := Option.some.inj (here.symm.trans there)
  obtain ⟨record, rest, near, turns⟩ := History.nearest_record tracks.follows ahead
  rw [← tracks.now] at turns
  obtain ⟨d, done⟩ := Site.commit_of_plain (s := ⟨l, w.cells⟩) plain turns.1 turns.2
  obtain ⟨v, aside, freed, outcome⟩ := replay_nearest here fresh stands.obtained near done
  rw [outcome call aloud]
  let m := (l.changed next).withHistory (l.history.turned direction)
  have list : (d.withHistory (l.history.turned direction)).site.list = m :=
    (UndoableList.commit_nearest turns done).1
  have ready : Ready l.context m v :=
    ⟨after_list list rfl aside, (held_aside aside).mpr held, aside.thread.symm ▸ freed⟩
  have keeps : Keeps call (Ready l.context m) := keeps_ready quiet
  have final := told_keeps keeps l.context d.bulletin aloud ready
  refine ⟨rfl, ?_, ⟨m, final.list, fresh, rfl⟩, succeeds_of_free final.free⟩
  exact ⟨final.held, m, final.list, rfl, plain, UndoableList.tracks_turned tracks ahead⟩

theorem steps_stands {lock : LockId} (quiet : Quiet call id lock) :
    Steps call id (·.contentsOf id) (Stands id lock) where
  look stands := by
    obtain ⟨-, l, here, -, -, tracks⟩ := stands.living
    rw [contentsOf, here]
    exact tracks.now
  step := replay_stands quiet

omit [Diary δ] in
theorem measures_living (living : Living id w t) : w.Measures id t := by
  obtain ⟨-, l, here, -, -, tracks⟩ := living
  exact ⟨l, here, (History.side_length tracks.follows .backward).symm,
    (History.side_length tracks.follows .forward).symm⟩

variable [Element α]

/-- Throughout its life a list keeps within its bound, and with no reset pending its history leads
back through the past and forth again, if its lock can be had and subscribers keep out of it. -/
theorem history_retraces (life : Life id w t) (here : w.lists.get? id = some l) :
    l.contents = t.now ∧ l.history.undoDepth = t.past.length ∧
      l.history.redoDepth = t.ahead.length ∧
      l.history.undoDepth + l.history.redoDepth ≤ l.history.maxDepth ∧
      (∀ call op reply, (mutate call id false op w).1 = .ok reply →
        op.idle (Element.current w.objects) l.contents = false →
        ∃ m, (mutate call id false op w).2.lists.get? id = some m ∧ m.history.redoDepth = 0) ∧
      (l.store.stale = false → (Host.acquire l.lock .write).succeeds w = true →
        ∀ call, Quiet call id l.lock → Retraces call id (·.contentsOf id) w l t.past) := by
  have living := living_of_life life
  obtain ⟨held, m, there, rfl, plain, tracks⟩ := living_of_life life
  obtain rfl : l = m := Option.some.inj (here.symm.trans there)
  refine ⟨tracks.now, (History.side_length tracks.follows .backward).symm,
    (History.side_length tracks.follows .forward).symm, tracks.follows.bounded, ?_, ?_⟩
  · intro call op reply answered busy
    obtain ⟨m, final, -, redo⟩ := measures_living (living_of_life (life.mutated here call op))
    exact ⟨m, final, by rw [redo, timelineMutated_ahead answered busy, List.length_nil]⟩
  · intro fresh obtained call quiet
    have stands : Stands l.context l.lock w t := ⟨living, ⟨l, here, fresh, rfl⟩, obtained⟩
    exact retraces_of_steps (steps_stands quiet) (fun stands => measures_living stands.living)
      stands here fresh obtained

end

def briefWorld : World Value Unit Unit := (createList { maxDepth := 1 } { client := () }).2

def pushedWorld : World Value Unit Unit :=
  (mutate (fun _ _ _ => pure ()) 1 false (.push (.int 7)) briefWorld).2

theorem pushed_item_retraces :
    ∃ l, Life 1 pushedWorld ⟨[[]], [.int 7], []⟩ ∧ pushedWorld.lists.get? 1 = some l ∧
      l.history.undoDepth = 1 ∧
      Retraces (fun _ _ _ => pure ()) 1 (·.contentsOf 1) pushedWorld l [[]] := by
  have begun : Life 1 briefWorld { now := [] } := .created { maxDepth := 1 } rfl rfl
  have life : Life 1 pushedWorld ⟨[[]], [.int 7], []⟩ := begun.mutated rfl _ _
  have quiet : Quiet (fun _ _ _ => pure () : Call Value Unit Unit) 1 1 :=
    ⟨fun _ _ _ _ => rfl, fun _ _ _ _ => rfl, fun _ _ _ _ held => held, fun _ _ _ _ free => free⟩
  obtain ⟨-, depth, -, -, -, retraces⟩ := history_retraces life rfl
  exact ⟨_, life, rfl, depth, retraces rfl rfl _ quiet⟩

end UndoableLists.World
