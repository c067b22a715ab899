import UndoableLists.Proofs.Mirrors.Copies

/-!
What a call hands on to the copies of a list, before anybody has heard of it. Main statement: a
mutation, an undo or a redo of a list whose records can be told hands on at most one change, which
makes the list's new contents of a copy of the old ones.
-/
namespace UndoableLists.World
variable {α κ δ : Type}

/-- What is handed on makes the contents of `m` of those of `l`; `m` is the list afterwards, another
one of those whose records can be told. -/
structure Hands (l : UndoableList α) (b : Bulletin α) (w v : World α κ δ) (m : UndoableList α) :
    Prop where
  there : v.lists.get? l.context = some m
  context : m.context = l.context
  lock : m.lock = l.lock
  stale : m.store.stale = l.store.stale
  replayable : m.Replayable
  makes : Change.MakesAll m.contents b.changes l.contents m.contents
  single : b.changes.length ≤ 1
  free : ∀ lock, w.locks.Free w.thread lock → v.locks.Free v.thread lock

section
variable {v w : World α κ δ} {l m : UndoableList α} {b : Bulletin α}

theorem hands_nothing (here : w.lists.get? l.context = some l) (replayable : l.Replayable)
    (aside : Aside [] w v) : Hands l {} w v l where
  there := aside.lists ▸ here
  context := rfl
  lock := rfl
  stale := rfl
  replayable := replayable
  makes := rfl
  single := Nat.zero_le 1
  free _ free := free_aside aside free

theorem hands_carried {direction : Direction} {d e : Done α} {record : Record α Edit}
    {history : History (Record α Edit)} {next : List α}
    (turns : record.Turns direction l.contents next) (filled : record.blank = false)
    (compact : record.Compact) (done : Site.commit ⟨l, w.cells⟩ record direction = .ok d)
    (same : e.bulletin = d.bulletin) (list : e.site.list = (l.changed next).withHistory history)
    (again : ((l.changed next).withHistory history).Replayable)
    (aside : Aside [] (w.after direction e) v) :
    Hands l e.bulletin w v ((l.changed next).withHistory history) where
  there := after_list list rfl aside
  context := rfl
  lock := rfl
  stale := rfl
  replayable := again
  makes := same ▸ (Site.describes_of_commit turns.1 turns.2 filled done).changes
  single := same ▸ Site.single_of_commit turns.1 compact done
  free _ free := free_aside aside free

theorem hands_ended [Element α] {lacking : Prop} {op : Operation α}
    {r : Outcome ListRefusal (Reply α)} (here : w.lists.get? l.context = some l)
    (replayable : l.Replayable) (ended : Ended [] lacking l op w b r v) :
    ∃ m, Hands l b w v m := by
  cases ended with
  | refused aside why => exact ⟨l, hands_nothing here replayable aside⟩
  | idle planned aside => exact ⟨l, hands_nothing here replayable aside⟩
  | carried planned done aside =>
    obtain ⟨next, turns, list, -⟩ := UndoableList.append_planned planned done
    obtain ⟨e, committed, -, -, -, -, told⟩ := Site.of_append_ok done
    have filled := Operation.plan_filled planned
    have compact := Operation.plan_compact planned
    exact ⟨_, hands_carried turns filled compact committed told list
      (UndoableList.replayable_appended replayable turns filled compact) aside⟩

theorem hands_turned {direction : Direction} {r : Outcome ListRefusal Bool}
    (here : w.lists.get? l.context = some l) (replayable : l.Replayable)
    (turned : Turned [] l direction w b r v) : ∃ m, Hands l b w v m := by
  cases turned with
  | nothing none aside => exact ⟨l, hands_nothing here replayable aside⟩
  | rejected near failed aside => exact ⟨l, hands_nothing here replayable aside⟩
  | @carried record rest d _ near done aside =>
    obtain ⟨next, turns, again⟩ := UndoableList.replayable_turned replayable near
    have member := History.mem_timeline_of_near near
    have list := (UndoableList.commit_nearest turns done).1
    have filled := replayable.filled record member
    have compact := replayable.compact record member
    exact ⟨_, hands_carried (e := d.withHistory (l.history.turned direction)) turns filled compact
      done rfl list again aside⟩

variable [Diary δ]

theorem lockedMutation_hands [Element α] (here : w.lists.get? l.context = some l)
    (fresh : l.store.stale = false) (replayable : l.Replayable) (op : Operation α) :
    ∃ m, Hands l (handed (lockedMutation l.context op w).1) w
      (lockedMutation l.context op w).2 m := by
  obtain ⟨b, r, v, mutated, -, told⟩ := lockedMutation_ends here op
  obtain ⟨handed, -, world⟩ := of_tells told
  rw [handed, world]
  cases mutated with
  | fresh _ ended => exact hands_ended here replayable ended
  | barred stale => simp [fresh] at stale
  | lost stale => simp [fresh] at stale
  | heard stale => simp [fresh] at stale

theorem lockedReplay_hands (here : w.lists.get? l.context = some l)
    (fresh : l.store.stale = false) (replayable : l.Replayable) (direction : Direction) :
    ∃ m, Hands l (handed (lockedReplay l.context direction w).1) w
      (lockedReplay l.context direction w).2 m := by
  obtain ⟨b, r, v, replayed, -, told⟩ := lockedReplay_ends here direction
  obtain ⟨handed, -, world⟩ := of_tells told
  rw [handed, world]
  cases replayed with
  | barred barred aside => exact ⟨l, hands_nothing here replayable aside⟩
  | fresh _ obtained turned freed => exact hands_turned here replayable turned
  | heard stale => simp [fresh] at stale

end

/-- The list can be read, and the copy of `x` has its contents when `x` has heard of the changes
that it is behind by. -/
structure InStep (id : ListId) (x : SubscriberId) (behind : List (Change α)) (l : UndoableList α)
    (w : World α κ (Mirrors α)) : Prop where
  here : w.lists.get? id = some l
  free : w.locks.Free w.thread l.lock
  copy : (w.client x).copy.bind (Change.replayAll? l.contents behind) = some l.contents

section
variable {id : ListId} {x : SubscriberId} {v w : World α κ (Mirrors α)} {l m : UndoableList α}
  {behind : List (Change α)} {b : Bulletin α}

theorem inStep_iff : InStep id x [] l w ↔ w.lists.get? id = some l ∧
    w.locks.Free w.thread l.lock ∧ (w.client x).copy = some l.contents := by
  have same : (w.client x).copy.bind (Change.replayAll? l.contents []) = (w.client x).copy := by
    cases (w.client x).copy <;> rfl
  constructor
  · rintro ⟨here, free, copy⟩
    exact ⟨here, free, same ▸ copy⟩
  · rintro ⟨here, free, copy⟩
    exact ⟨here, free, same.trans copy⟩

theorem inStep_apart (step : InStep id x behind l w) (apart : Apart id x w v) :
    InStep id x behind l v where
  here := apart.list ▸ step.here
  free := apart.free _ step.free
  copy := apart.mirror ▸ step.copy

theorem inStep_heard {change : Change α} (step : InStep id x (change :: behind) l w)
    (beside : Beside id w v) (heard : v.client x = (w.client x).hears change l.contents) :
    InStep id x behind l v where
  here := beside.list ▸ step.here
  free := beside.free _ step.free
  copy := by
    rw [heard, Mirror.hears, Option.bind_assoc]
    exact step.copy

theorem inStep_handed (step : InStep l.context x [] l w) (hands : Hands l b w v m)
    (mirror : v.client x = w.client x) : InStep l.context x b.changes m v where
  here := hands.there
  free := hands.lock ▸ hands.free _ step.free
  copy := by
    rw [mirror, (inStep_iff.mp step).2.2]
    exact Change.replayAll?_of_makesAll hands.makes

end

end UndoableLists.World
