import UndoableLists.Proofs.Failure
import UndoableLists.Proofs.World.Telling
import UndoableLists.Proofs.World.Walk

/-!
The course of a list's life beside a timeline of what is to be seen of it, be it the contents
alone or more. The timeline is moved on by what calls answer. Main statement: where single calls
go one step along the timeline, the list's history retraces it.
-/
namespace UndoableLists.World
variable {α κ δ τ : Type}

def contentsOf (w : World α κ δ) (id : ListId) : List α :=
  ((w.lists.get? id).map UndoableList.contents).getD []

def timelineReplayed (t : Timeline τ) (l : UndoableList α) (direction : Direction) :
    Outcome ListRefusal Bool → Timeline τ
  | .ok true => t.turned direction
  | .ok false => t.heard l.store.stale
  | .error _ => t

section
variable [Diary δ] [Element α]

def timelineMutated (look : World α κ δ → τ) (t : Timeline τ) (l : UndoableList α)
    (op : Operation α) (w : World α κ δ) : Outcome ListRefusal (Reply α) × World α κ δ → Timeline τ
  | (.ok _, v) =>
    if op.idle (Element.current w.objects) l.contents then t.heard l.store.stale
    else (t.heard l.store.stale).recorded l.history.maxDepth (look v)
  | (.error _, _) => t.heard (l.store.stale && (acquireInSteps l.lock).succeeds w)

theorem timelineMutated_ahead {look : World α κ δ → τ} {t : Timeline τ} {l : UndoableList α}
    {op : Operation α} {w : World α κ δ} {out : Outcome ListRefusal (Reply α) × World α κ δ}
    {reply : Reply α} (answered : out.1 = .ok reply)
    (busy : op.idle (Element.current w.objects) l.contents = false) :
    (timelineMutated look t l op w out).ahead = [] := by
  obtain ⟨r, v⟩ := out
  obtain rfl : r = .ok reply := answered
  simp only [timelineMutated, busy]
  rfl

end

/-- Subscribers that leave a list, its handle and its lock alone. -/
structure Quiet (call : Call α κ δ) (id : ListId) (lock : LockId) : Prop where
  list : ∀ s k e w, (call s k e w).2.lists.get? id = w.lists.get? id
  thread : ∀ s k e w, (call s k e w).2.thread = w.thread
  held : ∀ s k e w, .list id ∈ w.held → .list id ∈ (call s k e w).2.held
  lock : ∀ s k e w, w.locks.Free w.thread lock →
    (call s k e w).2.locks.Free (call s k e w).2.thread lock

structure Ready (id : ListId) (l : UndoableList α) (w : World α κ δ) : Prop where
  list : w.lists.get? id = some l
  held : .list id ∈ w.held
  free : w.locks.Free w.thread l.lock

section
variable {call : Call α κ δ} {id : ListId} {l : UndoableList α} {v w : World α κ δ}

theorem keeps_ready (quiet : Quiet call id l.lock) : Keeps call (Ready id l) where
  aside aside ready :=
    ⟨aside.lists ▸ ready.list, (held_aside aside).mpr ready.held,
      aside.thread ▸ Locks.free_eased ready.free aside.locks⟩
  removed {w gone _} _ loose ready := by
    have differs : id ≠ gone := fun same => loose (same ▸ ready.held)
    exact ⟨(Table.get?_erase ..).trans ((if_neg differs).trans ready.list), ready.held, ready.free⟩
  called s k e w ready :=
    ⟨(quiet.list s k e w).trans ready.list, quiet.held s k e w ready.held,
      quiet.lock s k e w ready.free⟩

variable [Diary δ]

theorem succeeds_of_free {lock : LockId} {access : Access} (free : w.locks.Free w.thread lock) :
    (Host.acquire lock access).succeeds w = true :=
  Act.succeeds_of_ok (acquire_of_free free)

theorem replay_exhausted {direction : Direction} (here : w.lists.get? l.context = some l)
    (fresh : l.store.stale = false) (obtained : (Host.acquire l.lock .write).succeeds w = true)
    (none : l.history.side direction = []) (aloud : Bool) :
    ∃ v, replay call l.context aloud direction w = (.ok false, v) ∧ Untouched w v := by
  obtain ⟨v, aside, outcome⟩ := replay_nothing here fresh obtained none
  exact ⟨v, outcome call aloud, untouched_aside aside⟩

/-- What the history of a list leads back to and forth again, call by call; `past` is what was to be
seen before the changes that can be undone, the newest first. -/
structure Retraces (call : Call α κ δ) (id : ListId) (look : World α κ δ → τ) (w : World α κ δ)
    (l : UndoableList α) (past : List τ) : Prop where
  walk : ∀ back forth : List Bool, back.length ≤ l.history.undoDepth →
    forth.length = back.length →
    let undone := replays call id look .backward back w
    let redone := replays call id look .forward forth undone.2
    undone.1 = (past.take back.length).map (.ok true, ·) ∧
      redone.1 = ((look w :: past).take back.length).reverse.map (.ok true, ·) ∧
      look redone.2 = look w ∧
      ∃ m, redone.2.lists.get? id = some m ∧
        m.history.undoDepth = l.history.undoDepth ∧ m.history.redoDepth = l.history.redoDepth
  exhausted : ∀ direction aloud, l.history.side direction = [] →
    ∃ v, replay call id aloud direction w = (.ok false, v) ∧ Untouched w v

def Measures (id : ListId) (w : World α κ δ) (t : Timeline τ) : Prop :=
  ∃ l, w.lists.get? id = some l ∧ l.history.undoDepth = t.past.length ∧
    l.history.redoDepth = t.ahead.length

theorem retraces_of_steps {look : World α κ δ → τ} {stands : World α κ δ → Timeline τ → Prop}
    {t : Timeline τ} (steps : Steps call l.context look stands)
    (measures : ∀ {w t}, stands w t → w.Measures l.context t) (standing : stands w t)
    (here : w.lists.get? l.context = some l) (fresh : l.store.stale = false)
    (obtained : (Host.acquire l.lock .write).succeeds w = true) :
    Retraces call l.context look w l t.past where
  walk back forth enough same := by
    obtain ⟨m, there, undo, redo⟩ := measures standing
    obtain rfl : l = m := Option.some.inj (here.symm.trans there)
    rw [undo] at enough
    obtain ⟨undone, redone, home⟩ := replays_back_and_forth steps standing enough same
    obtain ⟨n, final, undo', redo'⟩ := measures home
    have seen := steps.look standing
    exact ⟨undone, seen ▸ redone, (steps.look home).trans seen.symm, n, final,
      undo'.trans undo.symm, redo'.trans redo.symm⟩
  exhausted direction aloud none := replay_exhausted here fresh obtained none aloud

end

end UndoableLists.World
