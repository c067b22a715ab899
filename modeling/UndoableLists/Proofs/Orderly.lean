import UndoableLists.Proofs.Rework
import UndoableLists.Proofs.Signals

/-!
Lists whose records can be told, plain ones and those that capture their items. A list keeps such
records through every call, as long as work on its store itself returns and no mutation loses its
store's signal. Main statements: what a mutation, an undo or a redo of such a list hands on
describes what it made of the contents, and the list is again such a list.
-/
namespace UndoableLists.World
variable {α κ δ : Type}

def TellsMutation [Element α] (w : World α κ δ) (l : UndoableList α) (op : Operation α)
    (b : Bulletin α) (m : UndoableList α) : Outcome ListRefusal (Reply α) → Prop
  | .error _ => b = {} ∧ m = l
  | .ok _ =>
    if op.idle (Element.current w.objects) l.contents then b = {} ∧ m = l
    else b.Describes l.contents m.contents

def TellsReplay (l : UndoableList α) (direction : Direction) (b : Bulletin α)
    (m : UndoableList α) : Outcome ListRefusal Bool → Prop
  | .error _ => b = {} ∧ m = l
  | .ok false => b = {} ∧ m = l ∧ l.history.side direction = []
  | .ok true => b.Describes l.contents m.contents ∧
    ∃ record rest, l.history.side direction = record :: rest ∧
      ∀ e, record = .itemEdit e → b = { itemsDiffer := true }

section
variable {v w : World α κ δ} {l : UndoableList α} {op : Operation α} {b : Bulletin α}

theorem told_of_ended [Element α] {lacking : Prop} {r : Outcome ListRefusal (Reply α)}
    (here : w.lists.get? l.context = some l) (replayable : l.Replayable)
    (ended : Ended [] lacking l op w b r v) :
    ∃ m, v.lists.get? l.context = some m ∧ m.context = l.context ∧ m.Replayable ∧
      TellsMutation w l op b m r := by
  cases ended with
  | refused aside why => exact ⟨l, aside.lists ▸ here, rfl, replayable, rfl, rfl⟩
  | idle planned aside =>
    have idle := Operation.plan_idle planned
    refine ⟨l, aside.lists ▸ here, rfl, replayable, ?_⟩
    simp [TellsMutation, idle]
  | carried planned done aside =>
    have idle := Operation.plan_idle planned
    obtain ⟨next, turns, list, -⟩ := UndoableList.append_planned planned done
    refine ⟨_, after_list list rfl aside, rfl,
      UndoableList.replayable_appended replayable turns (Operation.plan_filled planned)
        (Operation.plan_compact planned), ?_⟩
    simp only [TellsMutation, idle, Option.isNone_some, Bool.false_eq_true, ↓reduceIte]
    exact UndoableList.describes_appended planned done turns

theorem told_of_turned {direction : Direction} {r : Outcome ListRefusal Bool}
    (here : w.lists.get? l.context = some l) (replayable : l.Replayable)
    (turned : Turned [] l direction w b r v) :
    ∃ m, v.lists.get? l.context = some m ∧ m.context = l.context ∧ m.Replayable ∧
      TellsReplay l direction b m r := by
  cases turned with
  | nothing none aside => exact ⟨l, aside.lists ▸ here, rfl, replayable, rfl, rfl, none⟩
  | rejected near failed aside => exact ⟨l, aside.lists ▸ here, rfl, replayable, rfl, rfl⟩
  | @carried record rest d _ near done aside =>
    obtain ⟨next, turns, again⟩ := UndoableList.replayable_turned replayable near
    have list := (UndoableList.commit_nearest turns done).1
    refine ⟨_, after_list list rfl aside, rfl, again, ?_, record, rest, near, ?_⟩
    · exact Site.describes_of_commit turns.1 turns.2
        (replayable.filled record (History.mem_timeline_of_near near)) done
    · rintro e rfl
      exact Site.bulletin_of_itemEdit done

end

variable [Element α] [Diary δ]

/-- The worlds that a list comes to, with or without item capture, in steps of any order. Its store
may be changed behind its back, and signals that; work on the store itself returns, and no mutation
loses a signal. A call is a step up to the moment at which its lock is free again; what subscribers
do when they are told are further steps. `elsewhere` is whatever leaves the list as it is. -/
inductive Orderly (id : ListId) : World α κ δ → Prop
  | created {w} (b : Blueprint α) (named : w.nextContext = id) : Orderly id (createList b w).2
  | elsewhere {w v} (orderly : Orderly id w) (same : v.lists.get? id = w.lists.get? id) :
    Orderly id v
  | rewritten {w l} (orderly : Orderly id w) (here : w.lists.get? id = some l) (store : Store α)
    (signals : store.stale = true) :
    Orderly id { w with lists := w.lists.insert id { l with store } }
  | mutated {w l} (orderly : Orderly id w) (here : w.lists.get? id = some l) (op : Operation α)
    (upgrades : Upgrades l w) : Orderly id (lockedMutation id op w).2
  | replayed {w} (orderly : Orderly id w) (direction : Direction) :
    Orderly id (lockedReplay id direction w).2
  | cleared {w} (orderly : Orderly id w) : Orderly id (clearHistory id w).2
  | edited {w} (orderly : Orderly id w) (e : Edit) : Orderly id (enterEdit e id w).2
  | reworked {β w l} (orderly : Orderly id w) (here : w.lists.get? id = some l) (r : Rework α β)
    (returns : ∃ b, (r.on l.store).1 = .ok b) :
    Orderly id (aloneWithStore id (rework id r) w).2
  | disposed {w} (orderly : Orderly id w) : Orderly id (dispose id w).2

def Standing (id : ListId) (w : World α κ δ) : Prop :=
  ∃ l, w.lists.get? id = some l ∧ l.context = id ∧ (l.store.stale = false → l.Replayable)

section
variable {id : ListId} {v w : World α κ δ} {l : UndoableList α}

omit [Element α] [Diary δ] in
theorem standing_cleared (there : v.lists.get? l.context = some l)
    (empty : l.history.cleared = l.history) : Standing l.context v :=
  ⟨l, there, rfl, fun _ => UndoableList.replayable_cleared empty⟩

theorem standing_mutated (here : w.lists.get? l.context = some l)
    (replayable : l.store.stale = false → l.Replayable) (upgrades : Upgrades l w)
    (op : Operation α) : Standing l.context (lockedMutation l.context op w).2 := by
  obtain ⟨b, r, v, mutated, -, told⟩ := lockedMutation_ends here op
  obtain ⟨-, -, world⟩ := of_tells told
  rw [world]
  cases mutated with
  | fresh fresh ended =>
    obtain ⟨m, there, named, again, -⟩ := told_of_ended here (replayable fresh) ended
    exact ⟨m, there, named, fun _ => again⟩
  | barred stale barred aside => exact ⟨l, aside.lists ▸ here, rfl, replayable⟩
  | lost stale taken barred =>
    rw [upgrades stale taken] at barred
    cases barred
  | heard stale obtained ended =>
    obtain ⟨m, there, named, again, -⟩ := told_of_ended (l := l.reset) (afterReset_list w l)
      (UndoableList.replayable_cleared rfl) ended
    exact ⟨m, there, named, fun _ => again⟩

omit [Element α] in
theorem standing_replayed (here : w.lists.get? l.context = some l)
    (replayable : l.store.stale = false → l.Replayable) (direction : Direction) :
    Standing l.context (lockedReplay l.context direction w).2 := by
  obtain ⟨b, r, v, replayed, -, told⟩ := lockedReplay_ends here direction
  obtain ⟨-, -, world⟩ := of_tells told
  rw [world]
  cases replayed with
  | barred barred aside => exact ⟨l, aside.lists ▸ here, rfl, replayable⟩
  | fresh fresh obtained turned freed =>
    obtain ⟨m, there, named, again, -⟩ := told_of_turned here (replayable fresh) turned
    exact ⟨m, there, named, fun _ => again⟩
  | heard stale obtained aside freed =>
    exact standing_cleared (l := l.reset) (aside.lists ▸ afterReset_list w l) rfl

omit [Element α] in
theorem standing_modifying (here : w.lists.get? id = some l) (context : l.context = id)
    (replayable : l.store.stale = false → l.Replayable) {f : UndoableList α → UndoableList α}
    (named : (f l).context = id) (again : (f l).store.stale = false → (f l).Replayable) :
    Standing id (modifying id f w).2 := by
  obtain aside | ⟨-, -, aside⟩ := modifying_leaves id f w
  · exact ⟨l, aside.lists ▸ here, context, replayable⟩
  · refine ⟨f l, ?_, named, again⟩
    rw [aside.lists]
    simp [Table.get?_modify, here]

omit [Element α] in
theorem standing_reworked (here : w.lists.get? l.context = some l)
    (replayable : l.store.stale = false → l.Replayable) {β : Type} (r : Rework α β)
    (returns : ∃ b, (r.on l.store).1 = .ok b) :
    Standing l.context (aloneWithStore l.context (rework l.context r) w).2 := by
  obtain ⟨-, fault, v, aside, result⟩ | ⟨-, v, ends⟩ := aloneWithStore_ends here r
  · rw [result]
    exact ⟨l, aside.lists ▸ here, rfl, replayable⟩
  · obtain ⟨b, returned⟩ := returns
    rcases worked : r.on l.store with ⟨outcome, store⟩
    rw [worked] at ends returned
    obtain rfl : outcome = .ok b := returned
    rw [ends.2]
    refine standing_cleared (l := { l with store }.forgetful.newVersion) ?_ rfl
    rw [ends.1.lists]
    exact Table.get?_insert_self ..

omit [Element α] in
theorem standing_disposed (here : w.lists.get? l.context = some l)
    (replayable : l.store.stale = false → l.Replayable) :
    Standing l.context (dispose l.context w).2 := by
  rw [dispose_leaves here, disposeList]
  split
  · exact ⟨l, here, rfl, replayable⟩
  · cases acquired : Host.acquire l.lock .write w with
    | mk outcome u =>
      cases outcome with
      | error fault =>
        exact ⟨l, (of_acquire_error acquired).lists ▸ here, rfl, replayable⟩
      | ok _ =>
        have there : (u.lists.insert l.context l).get? l.context = some l :=
          Table.get?_insert_self ..
        refine standing_cleared (l := l.forgetful) ?_ rfl
        exact (Table.get?_modify_present there l.context UndoableList.forgetful).trans (if_pos rfl)

theorem standing_of_orderly (orderly : Orderly id w) : Standing id w := by
  induction orderly with
  | @created w b named =>
    subst named
    exact standing_cleared (l := b.listAt w.nextContext w.locks.next)
      ((lists_createList b w _).trans (if_pos rfl)) rfl
  | elsewhere orderly same standing =>
    obtain ⟨l, here, rest⟩ := standing
    exact ⟨l, same.trans here, rest⟩
  | rewritten orderly here store signals standing =>
    obtain ⟨l, there, named, -⟩ := standing
    rw [there] at here
    cases here
    refine ⟨_, Table.get?_insert_self .., named, fun fresh => ?_⟩
    rw [signals] at fresh
    cases fresh
  | mutated orderly here op upgrades standing =>
    obtain ⟨l, there, rfl, replayable⟩ := standing
    rw [there] at here
    cases here
    exact standing_mutated there replayable upgrades op
  | replayed orderly direction standing =>
    obtain ⟨l, here, rfl, replayable⟩ := standing
    exact standing_replayed here replayable direction
  | cleared orderly standing =>
    obtain ⟨l, here, named, replayable⟩ := standing
    exact standing_modifying (f := UndoableList.forgetful) here named replayable named
      fun _ => UndoableList.replayable_cleared rfl
  | edited orderly e standing =>
    obtain ⟨l, here, named, replayable⟩ := standing
    exact standing_modifying (f := fun l => l.recordEdit e) here named replayable named
      fun fresh => UndoableList.replayable_recordEdit (replayable fresh) e
  | reworked orderly here r returns standing =>
    obtain ⟨l, there, rfl, replayable⟩ := standing
    rw [there] at here
    cases here
    exact standing_reworked there replayable r returns
  | disposed orderly standing =>
    obtain ⟨l, here, rfl, replayable⟩ := standing
    exact standing_disposed here replayable

/-- Calls that are told are steps too, if what subscribers do with the list is. -/
theorem calls_orderly {call : Call α κ δ} (lasting : Lasting call id (Orderly id))
    (orderly : Orderly id w) (held : .list id ∈ w.held) (here : w.lists.get? id = some l)
    (aloud : Bool) : (∀ op, Upgrades l w → Orderly id (mutate call id aloud op w).2) ∧
      ∀ direction, Orderly id (replay call id aloud direction w).2 := by
  obtain ⟨m, there, rfl, -⟩ := standing_of_orderly orderly
  have calls := calls_last lasting Orderly.elsewhere there held aloud
  exact ⟨fun op upgrades => calls.1 op (orderly.mutated here op upgrades),
    fun direction => calls.2 direction (orderly.replayed direction)⟩

end

end UndoableLists.World
