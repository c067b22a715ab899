import Mathlib.Data.List.Permutation
import UndoableLists.Proofs.UndoRedo.Life
import UndoableLists.Proofs.World.Steady

/-!
What becomes of the signal by which a store says that it was changed behind its list's back. A
mutation takes the signal down before it has the lock for itself; if it is then refused the lock,
the signal is lost and the history stays, though it no longer describes the store. Main statement:
as long as that does not happen, a signal waits until a call has the lock, which then forgets the
history, makes a new version and hands on a reset; what is undone afterwards was made afterwards.
-/
namespace UndoableLists

/-- What became of a signal: it waits; or it was heard, and these are the bulletin that was handed
on then and the records made since. -/
inductive Fate (α : Type) where
  | pending
  | heard (told : Bulletin α) (made : List (Record α Edit))

def Fate.Shows {α : Type} (version : Nat) (l : UndoableList α) : Fate α → Prop
  | .pending => l.store.stale = true ∧ version ≤ l.version
  | .heard told made =>
    version < l.version ∧ (∃ more, told.changes = .reset :: more) ∧ told.countDiffers = true ∧
      told.itemsDiffer = true ∧ l.history.timeline.Sublist made

namespace World
variable {α κ δ : Type}

section
variable [Element α] [Diary δ]

def recordMade (w : World α κ δ) (l : UndoableList α) (op : Operation α)
    (r : Outcome ListRefusal (Reply α)) : List (Record α Edit) :=
  match w.planFor l op, r with
  | .ok (some record, _), .ok _ => [record]
  | _, _ => []

def fateMutated (fate : Fate α) (l : UndoableList α) (op : Operation α) (w : World α κ δ)
    (r : Outcome ListRefusal (Told α (Reply α))) : Fate α :=
  match fate with
  | .pending =>
    if (acquireInSteps l.lock).succeeds w then .heard (handed r) (w.recordMade l op (answered r))
    else .pending
  | .heard told made => .heard told (made ++ w.recordMade l op (answered r))

def fateReplayed (fate : Fate α) (l : UndoableList α) (w : World α κ δ)
    (r : Outcome ListRefusal (Told α Bool)) : Fate α :=
  match fate with
  | .pending => if (Host.acquire l.lock .write).succeeds w then .heard (handed r) [] else .pending
  | .heard told made => .heard told made

/-- A mutation that reads its store's signal is not refused the lock afterwards. -/
def Upgrades (l : UndoableList α) (w : World α κ δ) : Prop :=
  l.store.stale = true → (Host.acquire l.lock .upgradeable).succeeds w = true →
    (acquireInSteps l.lock).succeeds w = true

/-- The worlds that mutations, undo and redo of a list lead to, by whatever thread and however their
attempts to have the lock end, from the moment at which its store signalled; with the fate of that
signal. `version` is the list's version at that moment. A call is a step up to the moment at which
its lock is free again; `elsewhere` is whatever leaves the list as it is. -/
inductive Watched (id : ListId) (version : Nat) : World α κ δ → Fate α → Prop
  | signalled {w : World α κ δ} {l : UndoableList α} (here : w.lists.get? id = some l)
    (named : l.context = id) (since : l.version = version) :
    Watched id version (w.signal id) .pending
  | again {w fate} (watched : Watched id version w fate) : Watched id version (w.signal id) fate
  | elsewhere {w v fate} (watched : Watched id version w fate)
    (same : v.lists.get? id = w.lists.get? id) : Watched id version v fate
  | mutated {w fate l} (watched : Watched id version w fate) (here : w.lists.get? id = some l)
    (op : Operation α) (upgrades : Upgrades l w) :
    Watched id version (lockedMutation id op w).2
      (fateMutated fate l op w (lockedMutation id op w).1)
  | replayed {w fate l} (watched : Watched id version w fate) (here : w.lists.get? id = some l)
    (direction : Direction) :
    Watched id version (lockedReplay id direction w).2
      (fateReplayed fate l w (lockedReplay id direction w).1)

end

variable [Element α] [Diary δ] {id : ListId} {version : Nat} {v w : World α κ δ} {fate : Fate α}
  {l m : UndoableList α} {lacking : Prop} {op : Operation α} {b : Bulletin α}

omit [Diary δ] in
theorem recorded_of_ended {r : Outcome ListRefusal (Reply α)}
    (here : w.lists.get? l.context = some l) (ended : Ended [] lacking l op w b r v) :
    ∃ m, v.lists.get? l.context = some m ∧ m.context = l.context ∧ m.store.stale = l.store.stale ∧
      l.version ≤ m.version ∧
      m.history.timeline.Sublist (l.history.timeline ++ w.recordMade l op r) := by
  have same (aside : Aside [] w v) : ∃ m, v.lists.get? l.context = some m ∧
      m.context = l.context ∧ m.store.stale = l.store.stale ∧ l.version ≤ m.version ∧
      m.history.timeline.Sublist (l.history.timeline ++ w.recordMade l op r) :=
    ⟨l, aside.lists ▸ here, rfl, rfl, Nat.le_refl _, List.sublist_append_left ..⟩
  cases ended with
  | refused aside why => exact same aside
  | idle planned aside => exact same aside
  | @carried record reply d _ planned done aside =>
    obtain ⟨next, turns, list, -⟩ := UndoableList.append_planned planned done
    refine ⟨_, after_list list rfl aside, rfl, rfl, Nat.le_succ _, ?_⟩
    unfold recordMade
    rw [planned]
    exact History.timeline_push l.history record

theorem shows_mutated (here : w.lists.get? l.context = some l) (shows : fate.Shows version l)
    (upgrades : Upgrades l w) (op : Operation α) :
    ∃ m, (lockedMutation l.context op w).2.lists.get? l.context = some m ∧
      m.context = l.context ∧
      (fateMutated fate l op w (lockedMutation l.context op w).1).Shows version m := by
  obtain ⟨b, r, v, mutated, -, told⟩ := lockedMutation_ends here op
  obtain ⟨handed, answered, world⟩ := of_tells told
  rw [world]
  cases mutated with
  | fresh fresh ended =>
    obtain ⟨m, there, named, signal, later, records⟩ := recorded_of_ended here ended
    refine ⟨m, there, named, ?_⟩
    cases fate with
    | pending => simp [Fate.Shows, fresh] at shows
    | heard told made =>
      obtain ⟨newer, reset, count, items, since⟩ := shows
      refine ⟨by omega, reset, count, items, ?_⟩
      rw [answered]
      exact records.trans (since.append_right _)
  | barred stale barred aside ofLock =>
    refine ⟨l, aside.lists ▸ here, rfl, ?_⟩
    cases fate with
    | pending => simpa [fateMutated, inSteps_of_acquire_false barred] using shows
    | heard told made =>
      obtain ⟨newer, reset, count, items, since⟩ := shows
      exact ⟨newer, reset, count, items, since.trans (List.sublist_append_left ..)⟩
  | lost stale taken barred aside ofLock =>
    rw [upgrades stale taken] at barred
    cases barred
  | heard stale obtained ended =>
    have again : (w.afterReset l).lists.get? l.reset.context = some l.reset := afterReset_list w l
    obtain ⟨m, there, named, signal, later, records⟩ := recorded_of_ended again ended
    have newer : l.version < m.version := later
    refine ⟨m, there, named, ?_⟩
    cases fate with
    | pending =>
      simp only [fateMutated, obtained, ↓reduceIte]
      refine ⟨by have := shows.2; omega, ?_⟩
      rw [handed, answered]
      exact ⟨⟨_, rfl⟩, rfl, rfl, records⟩
    | heard told made =>
      obtain ⟨older, reset, count, items, since⟩ := shows
      refine ⟨by omega, reset, count, items, ?_⟩
      rw [answered]
      exact records.trans (List.sublist_append_right ..)

omit [Element α] in
theorem shows_replayed (here : w.lists.get? l.context = some l) (shows : fate.Shows version l)
    (direction : Direction) :
    ∃ m, (lockedReplay l.context direction w).2.lists.get? l.context = some m ∧
      m.context = l.context ∧
      (fateReplayed fate l w (lockedReplay l.context direction w).1).Shows version m := by
  obtain ⟨b, r, v, replayed, -, told⟩ := lockedReplay_ends here direction
  obtain ⟨handed, -, world⟩ := of_tells told
  rw [world]
  cases replayed with
  | barred barred aside =>
    refine ⟨l, aside.lists ▸ here, rfl, ?_⟩
    cases fate with
    | pending => simpa [fateReplayed, barred] using shows
    | heard told made => exact shows
  | fresh fresh obtained turned freed =>
    cases fate with
    | pending => simp [Fate.Shows, fresh] at shows
    | heard told made =>
      cases turned with
      | nothing none aside => exact ⟨l, aside.lists ▸ here, rfl, shows⟩
      | rejected near failed aside => exact ⟨l, aside.lists ▸ here, rfl, shows⟩
      | @carried record rest d _ near done aside =>
        obtain ⟨newer, reset, count, items, since⟩ := shows
        obtain ⟨_, _, _, store, _, -, -, -, rfl⟩ := Site.stages_of_commit done
        refine ⟨_, after_list rfl rfl aside, rfl, Nat.lt_succ_of_lt newer, reset, count, items, ?_⟩
        exact (History.timeline_turned l.history direction).symm ▸ since
  | heard stale obtained aside freed =>
    refine ⟨l.reset, aside.lists ▸ afterReset_list w l, rfl, ?_⟩
    cases fate with
    | pending =>
      simp only [fateReplayed, obtained, ↓reduceIte]
      refine ⟨Nat.lt_succ_of_le shows.2, ?_⟩
      rw [handed]
      exact ⟨⟨_, rfl⟩, rfl, rfl, List.nil_sublist _⟩
    | heard told made =>
      obtain ⟨newer, reset, count, items, since⟩ := shows
      exact ⟨Nat.lt_succ_of_lt newer, reset, count, items, List.nil_sublist _⟩

/-- A signal waits or is heard, as long as no mutation that read it is refused the lock. -/
theorem signal_waits_or_is_heard (watched : Watched id version w fate) :
    ∃ l, w.lists.get? id = some l ∧ l.context = id ∧ fate.Shows version l := by
  induction watched with
  | @signalled w l here named since =>
    refine ⟨{ l with store := { l.store with stale := true } }, ?_, named, rfl,
      Nat.le_of_eq since.symm⟩
    simp [signal, Table.get?_modify, here]
  | @again w fate watched ih =>
    obtain ⟨l, here, named, shows⟩ := ih
    refine ⟨{ l with store := { l.store with stale := true } }, ?_, named, ?_⟩
    · simp [signal, Table.get?_modify, here]
    · cases fate with
      | pending => exact ⟨rfl, shows.2⟩
      | heard told made => exact shows
  | elsewhere watched same ih =>
    obtain ⟨l, here, rest⟩ := ih
    exact ⟨l, same.trans here, rest⟩
  | @mutated w fate l watched here op upgrades ih =>
    obtain ⟨m, there, rfl, shows⟩ := ih
    obtain rfl : l = m := Option.some.inj (here.symm.trans there)
    exact shows_mutated here shows upgrades op
  | @replayed w fate l watched here direction ih =>
    obtain ⟨m, there, rfl, shows⟩ := ih
    obtain rfl : l = m := Option.some.inj (here.symm.trans there)
    exact shows_replayed here shows direction

/-- Calls that are told are part of this too, if what subscribers do with the list is. -/
theorem calls_watched {call : Call α κ δ}
    (lasting : Lasting call id fun w => ∃ fate, Watched id version w fate)
    (watched : Watched id version w fate) (held : .list id ∈ w.held)
    (here : w.lists.get? id = some l) (aloud : Bool) :
    (∀ op, Upgrades l w → ∃ fate, Watched id version (mutate call id aloud op w).2 fate) ∧
    ∀ direction, ∃ fate, Watched id version (replay call id aloud direction w).2 fate := by
  obtain ⟨m, there, rfl, -⟩ := signal_waits_or_is_heard watched
  have calls := calls_last lasting
    (fun ⟨_, watched⟩ same => ⟨_, watched.elsewhere same⟩) there held aloud
  exact ⟨fun op upgrades => calls.1 op ⟨_, watched.mutated here op upgrades⟩,
    fun direction => calls.2 direction ⟨_, watched.replayed here direction⟩⟩

def alarmedWorld : World Value Unit Unit :=
  let w := (createList { settings := { timeout := ⟨20⟩, policy := .fail } } { client := () }).2
  (lockedMutation 1 (.push (.int 1)) w).2.signal 1

def alarmedList : UndoableList Value where
  context := 1
  lock := 1
  store := { items := [.int 1], stale := true }
  history := { done := [.add 0 (.int 1)], maxDepth := History.unlimited }
  version := 1

theorem push_hears_signal :
    let v := (lockedMutation 1 (.push (.int 2)) alarmedWorld).2
    let fate := Fate.heard ⟨[.reset, .add 1 [.int 2]], true, true⟩ [.add 1 (.int 2)]
    Watched 1 1 v fate ∧ ∃ l : UndoableList Value, v.lists.get? 1 = some l ∧ fate.Shows 1 l := by
  have here : alarmedWorld.lists.get? 1 = some alarmedList := rfl
  have signalled : Watched 1 1 alarmedWorld .pending := .signalled rfl rfl rfl
  have watched := signalled.mutated here (.push (.int 2)) fun _ _ => by cbv
  have heard : fateMutated .pending alarmedList (.push (.int 2)) alarmedWorld
      (lockedMutation 1 (.push (.int 2)) alarmedWorld).1 =
      .heard ⟨[.reset, .add 1 [.int 2]], true, true⟩ [.add 1 (.int 2)] := by cbv
  rw [heard] at watched
  obtain ⟨l, there, -, shows⟩ := signal_waits_or_is_heard watched
  exact ⟨watched, l, there, shows⟩

/-- While another thread reads the list, a mutation takes the signal down and is refused the lock.
After that nothing tells that the store was changed, and when the reader is gone an undo replays the
record from before the signal. -/
theorem refused_upgrade_loses_signal :
    let reading := { alarmedWorld with locks := alarmedWorld.locks.grant 1 1 .read }
    let (refused, v) := mutate (fun _ _ _ => pure ()) 1 true (.push (.int 2)) reading
    let freed := { v with locks := v.locks.release 1 1 }
    reading.lists.get? 1 = some alarmedList ∧
      refused = .error (.refused (.timeout .write ⟨20⟩)) ∧
      v.lists.get? 1 = some { alarmedList with store := { items := [.int 1], stale := false } } ∧
      (replay (fun _ _ _ => pure ()) 1 true .backward freed).1 = .ok true :=
  ⟨rfl, rfl, rfl, by cbv⟩

end World

end UndoableLists
