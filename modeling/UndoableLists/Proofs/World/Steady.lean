import UndoableLists.Proofs.World.Mutating
import UndoableLists.Proofs.World.Replaying
import UndoableLists.Proofs.World.Telling

/-!
Calls give up no handle of a list, keep every list under its own context, and change no list but
their own before they are told. Main statement: what a call keeps of one list when it is silent, and
subscribers keep while the list is held, is kept as well when the call is told.
-/
namespace UndoableLists.World
variable {α κ δ : Type}

def Keyed (w : World α κ δ) : Prop := ∀ c l, w.lists.get? c = some l → l.context = c

/-- Work that gives up no list and keeps lists under their contexts. -/
structure Steady (w v : World α κ δ) : Prop where
  held : ∀ c, .list c ∈ w.held → .list c ∈ v.held
  keyed : Keyed w → Keyed v

section
variable {u v w : World α κ δ} {l : UndoableList α}

theorem keyed_removed (keyed : Keyed w) (gone : ListId) : Keyed (w.removeList gone l) := by
  intro c m here
  rw [show (w.removeList gone l).lists.get? c = _ from Table.get?_erase ..] at here
  split at here
  · cases here
  · exact keyed c m here

theorem keyed_insert (keyed : Keyed w) (l : UndoableList α) :
    Keyed { w with lists := w.lists.insert l.context l } :=
  named_of_put keyed (fun c => Table.get?_insert w.lists l.context c l) rfl

theorem keyed_congr (keyed : Keyed w) (lists : v.lists = w.lists) : Keyed v := by
  intro c m here
  exact keyed c m (lists ▸ here)

theorem steady_aside {taken : List LockId} (aside : Aside taken w v) : Steady w v where
  held _ := (held_aside aside).mpr
  keyed keyed := keyed_congr keyed aside.lists

theorem steady_trans (first : Steady w u) (second : Steady u v) : Steady w v :=
  ⟨fun c held => second.held c (first.held c held), fun keyed => second.keyed (first.keyed keyed)⟩

theorem steady_insert (w : World α κ δ) (l : UndoableList α) :
    Steady w { w with lists := w.lists.insert l.context l } :=
  ⟨fun _ held => held, fun keyed => keyed_insert keyed l⟩

theorem steady_after (w : World α κ δ) (direction : Direction) (d : Done α) :
    Steady w (w.after direction d) :=
  ⟨fun _ held => held, fun keyed => keyed_congr (keyed_insert keyed d.site.list) rfl⟩

variable {b : Bulletin α}

theorem steady_ended [Element α] {lacking : Prop} {op : Operation α}
    {r : Outcome ListRefusal (Reply α)} (ended : Ended [] lacking l op w b r v) : Steady w v := by
  cases ended with
  | refused aside why => exact steady_aside aside
  | idle planned aside => exact steady_aside aside
  | carried planned done aside => exact steady_trans (steady_after w _ _) (steady_aside aside)

variable [Diary δ]

theorem steady_mutated [Element α] {op : Operation α} {r : Outcome ListRefusal (Reply α)}
    (mutated : Mutated l op w b r v) : Steady w v := by
  cases mutated with
  | fresh fresh ended => exact steady_ended ended
  | barred stale barred aside => exact steady_aside aside
  | lost stale taken barred aside =>
    exact steady_trans (steady_insert w l.quieted) (steady_aside aside)
  | heard stale obtained ended => exact steady_trans (steady_after w _ _) (steady_ended ended)

theorem steady_replayed {direction : Direction} {r : Outcome ListRefusal Bool}
    (replayed : Replayed l direction w b r v) : Steady w v := by
  cases replayed with
  | barred barred aside => exact steady_aside aside
  | fresh fresh obtained turned freed =>
    cases turned with
    | nothing none aside => exact steady_aside aside
    | rejected near failed aside => exact steady_aside aside
    | carried near done aside => exact steady_trans (steady_after w _ _) (steady_aside aside)
  | heard stale obtained aside freed =>
    exact steady_trans (steady_after w _ _) (steady_aside aside)

theorem steady_lockedMutation [Element α] (here : w.lists.get? l.context = some l)
    (op : Operation α) : Steady w (lockedMutation l.context op w).2 := by
  obtain ⟨b, r, v, mutated, -, told⟩ := lockedMutation_ends here op
  obtain ⟨-, -, world⟩ := of_tells told
  exact world ▸ steady_mutated mutated

theorem steady_lockedReplay (here : w.lists.get? l.context = some l) (direction : Direction) :
    Steady w (lockedReplay l.context direction w).2 := by
  obtain ⟨b, r, v, replayed, -, told⟩ := lockedReplay_ends here direction
  obtain ⟨-, -, world⟩ := of_tells told
  exact world ▸ steady_replayed replayed

end

/-- No list but one has changed, which has kept its lock, and no lock is held that was not held
before. -/
structure Stirs (c : ListId) (w v : World α κ δ) : Prop where
  others : ∀ d, d ≠ c → v.lists.get? d = w.lists.get? d
  lock : (v.lists.get? c).map UndoableList.lock = (w.lists.get? c).map UndoableList.lock
  thread : v.thread = w.thread
  locks : w.locks.Eased w.thread [] v.locks

section
variable {c : ListId} {u v w : World α κ δ} {l m : UndoableList α} {b : Bulletin α}

theorem stirs_aside (aside : Aside [] w v) : Stirs c w v :=
  ⟨fun _ _ => by rw [aside.lists], by rw [aside.lists], aside.thread, aside.locks⟩

theorem stirs_trans (first : Stirs c w u) (second : Stirs c u v) : Stirs c w v where
  others d other := (second.others d other).trans (first.others d other)
  lock := second.lock.trans first.lock
  thread := second.thread.trans first.thread
  locks := Locks.eased_trans first.locks (first.thread ▸ second.locks)

theorem stirs_insert (here : w.lists.get? c = some l) (lock : m.lock = l.lock)
    (lists : v.lists = w.lists.insert c m) (thread : v.thread = w.thread)
    (locks : v.locks = w.locks) : Stirs c w v where
  others _ other := by rw [lists, Table.get?_insert_of_ne _ other]
  lock := by rw [lists, Table.get?_insert_self, here, Option.map_some, Option.map_some, lock]
  thread := thread
  locks := locks ▸ Locks.eased_refl _

theorem stirs_after {direction : Direction} {d : Done α} (here : w.lists.get? l.context = some l)
    (context : d.site.list.context = l.context) (lock : d.site.list.lock = l.lock) :
    Stirs l.context w (w.after direction d) := by
  have lists : (w.after direction d).lists = w.lists.insert l.context d.site.list := by
    rw [← context]
    rfl
  exact stirs_insert here lock lists rfl rfl

theorem stirs_ended [Element α] {lacking : Prop} {op : Operation α}
    {r : Outcome ListRefusal (Reply α)} (here : w.lists.get? l.context = some l)
    (ended : Ended [] lacking l op w b r v) : Stirs l.context w v := by
  cases ended with
  | refused aside why => exact stirs_aside aside
  | idle planned aside => exact stirs_aside aside
  | carried planned done aside =>
    obtain ⟨context, lock, -⟩ := Site.same_of_append done
    exact stirs_trans (stirs_after here context lock) (stirs_aside aside)

theorem stirs_turned {direction : Direction} {r : Outcome ListRefusal Bool}
    (here : w.lists.get? l.context = some l) (turned : Turned [] l direction w b r v) :
    Stirs l.context w v := by
  cases turned with
  | nothing none aside => exact stirs_aside aside
  | rejected near failed aside => exact stirs_aside aside
  | carried near done aside =>
    obtain ⟨context, lock, -⟩ := Site.same_of_commit done
    refine stirs_trans (stirs_after ?_ ?_ ?_) (stirs_aside aside)
    · exact here
    · exact context
    · exact lock

variable [Diary δ]

theorem stirs_lockedMutation [Element α] (here : w.lists.get? l.context = some l)
    (op : Operation α) : Stirs l.context w (lockedMutation l.context op w).2 := by
  obtain ⟨b, r, v, mutated, -, told⟩ := lockedMutation_ends here op
  obtain ⟨-, -, rfl⟩ := of_tells told
  cases mutated with
  | fresh fresh ended => exact stirs_ended here ended
  | barred stale barred aside => exact stirs_aside aside
  | lost stale taken barred aside =>
    have quieted := stirs_insert (v := { w with lists := w.lists.insert l.context l.quieted })
      (m := l.quieted) here rfl rfl rfl rfl
    exact stirs_trans quieted (stirs_aside aside)
  | heard stale obtained ended =>
    exact stirs_trans (stirs_after here rfl rfl)
      (stirs_ended (l := l.reset) (afterReset_list w l) ended)

theorem stirs_lockedReplay (here : w.lists.get? l.context = some l) (direction : Direction) :
    Stirs l.context w (lockedReplay l.context direction w).2 := by
  obtain ⟨b, r, v, replayed, -, told⟩ := lockedReplay_ends here direction
  obtain ⟨-, -, rfl⟩ := of_tells told
  cases replayed with
  | barred barred aside => exact stirs_aside aside
  | fresh fresh obtained turned freed => exact stirs_turned here turned
  | heard stale obtained aside freed =>
    exact stirs_trans (stirs_after here rfl rfl) (stirs_aside aside)

end

def Lasting (call : Call α κ δ) (id : ListId) (Q : World α κ δ → Prop) : Prop :=
  ∀ s k e w, Q w → .list id ∈ w.held → Q (call s k e w).2 ∧ .list id ∈ (call s k e w).2.held

section
variable {call : Call α κ δ} {Q : World α κ δ → Prop} {w : World α κ δ} {l : UndoableList α}

theorem keeps_lasting {id : ListId} (lasting : Lasting call id Q)
    (elsewhere : ∀ {w v}, Q w → v.lists.get? id = w.lists.get? id → Q v) :
    Keeps call fun w => Q w ∧ .list id ∈ w.held where
  aside aside kept := ⟨elsewhere kept.1 (by rw [aside.lists]), (held_aside aside).mpr kept.2⟩
  removed {w gone _} _ loose kept := by
    have differs : id ≠ gone := fun same => loose (same ▸ kept.2)
    exact ⟨elsewhere kept.1 ((Table.get?_erase ..).trans (if_neg differs)), kept.2⟩
  called s k e w kept := lasting s k e w kept.1 kept.2

theorem calls_last [Diary δ] [Element α] (lasting : Lasting call l.context Q)
    (elsewhere : ∀ {w v}, Q w → v.lists.get? l.context = w.lists.get? l.context → Q v)
    (here : w.lists.get? l.context = some l) (held : .list l.context ∈ w.held) (aloud : Bool) :
    (∀ op, Q (lockedMutation l.context op w).2 → Q (mutate call l.context aloud op w).2) ∧
    ∀ direction, Q (lockedReplay l.context direction w).2 →
      Q (replay call l.context aloud direction w).2 := by
  have keeps := keeps_lasting lasting elsewhere
  refine ⟨fun op silent => ?_, fun direction silent => ?_⟩
  · have still := (steady_lockedMutation here op).held l.context held
    rw [mutate_eq]
    exact (told_keeps keeps l.context _ aloud ⟨silent, still⟩).1
  · have still := (steady_lockedReplay here direction).held l.context held
    rw [replay_eq]
    exact (told_keeps keeps l.context _ aloud ⟨silent, still⟩).1

end

end UndoableLists.World
