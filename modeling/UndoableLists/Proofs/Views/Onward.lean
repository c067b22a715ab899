import UndoableLists.Proofs.Ownership.Sound
import UndoableLists.Proofs.World.Steady
import UndoableLists.Proofs.World.ListFree
import UndoableLists.Proofs.UndoRedo.Life

/-!
How lists move on. Whatever is done with a list, its version never goes back, and the contents are
the same as long as the version is; a list that comes later has a context and a lock of its own.
That is all that views rely on. Main statement: every call on a list moves the lists on.
-/
namespace UndoableLists

/-- The same list at a later time: other contents come with a higher version. -/
structure UndoableList.Later {α : Type} (l m : UndoableList α) : Prop where
  context : m.context = l.context
  lock : m.lock = l.lock
  version : l.version ≤ m.version
  contents : m.version = l.version → m.contents = l.contents

namespace UndoableList
variable {α : Type} {l m n : UndoableList α}

theorem later_refl (l : UndoableList α) : l.Later l := ⟨rfl, rfl, Nat.le_refl _, fun _ => rfl⟩

theorem later_trans (first : l.Later m) (second : m.Later n) : l.Later n where
  context := second.context.trans first.context
  lock := second.lock.trans first.lock
  version := Nat.le_trans first.version second.version
  contents same := by
    have early := first.version
    have late := second.version
    have middle : m.version = l.version := by omega
    exact (second.contents (by omega)).trans (first.contents middle)

theorem later_of_newVersion (context : m.context = l.context) (lock : m.lock = l.lock)
    (version : m.version = l.version + 1) : l.Later m where
  context := context
  lock := lock
  version := by omega
  contents same := by omega

theorem later_quieted (l : UndoableList α) : l.Later l.quieted :=
  ⟨rfl, rfl, Nat.le_refl _, fun _ => rfl⟩

theorem later_forgetful (l : UndoableList α) : l.Later l.forgetful :=
  ⟨rfl, rfl, Nat.le_refl _, fun _ => rfl⟩

end UndoableList

namespace World
variable {α κ δ : Type}

structure Grounded (w : World α κ δ) : Prop where
  ledger : ∀ id ∈ w.locks.heldBy w.thread, id < w.locks.next
  keyed : Keyed w
  enrolled : ∀ c l, w.lists.get? c = some l → c < w.nextContext ∧ l.lock < w.locks.next

structure Newcomer (w v : World α κ δ) (c : ListId) (l : UndoableList α) : Prop where
  context : l.context = c
  late : w.nextContext ≤ c
  counted : c < v.nextContext
  fresh : w.locks.next ≤ l.lock
  made : l.lock < v.locks.next

/-- Nothing went back: the lists that are still there are later ones, and others have come since. -/
structure Onward (w v : World α κ δ) : Prop where
  contexts : w.nextContext ≤ v.nextContext
  locks : w.locks.next ≤ v.locks.next
  ledger : (∀ id ∈ w.locks.heldBy w.thread, id < w.locks.next) →
    ∀ id ∈ v.locks.heldBy v.thread, id < v.locks.next
  lists : ∀ c m, v.lists.get? c = some m →
    (∃ l, w.lists.get? c = some l ∧ l.Later m) ∨ Newcomer w v c m

section
variable {u v w : World α κ δ} {l m : UndoableList α} {c : ListId}

theorem onward_of_lists (contexts : w.nextContext ≤ v.nextContext)
    (locks : w.locks.next ≤ v.locks.next)
    (ledger : ∀ id ∈ v.locks.heldBy v.thread, id ∈ w.locks.heldBy w.thread)
    (lists : ∀ c m, v.lists.get? c = some m → ∃ l, w.lists.get? c = some l ∧ l.Later m) :
    Onward w v where
  contexts := contexts
  locks := locks
  ledger made id member := Nat.lt_of_lt_of_le (made id (ledger id member)) locks
  lists c m there := .inl (lists c m there)

theorem onward_trans (first : Onward w u) (second : Onward u v) : Onward w v where
  contexts := Nat.le_trans first.contexts second.contexts
  locks := Nat.le_trans first.locks second.locks
  ledger made := second.ledger (first.ledger made)
  lists c n there := by
    obtain ⟨m, middle, again⟩ | come := second.lists c n there
    · obtain ⟨l, here, moved⟩ | come := first.lists c m middle
      · exact .inl ⟨l, here, UndoableList.later_trans moved again⟩
      · exact .inr ⟨again.context.trans come.context, come.late,
          Nat.lt_of_lt_of_le come.counted second.contexts, again.lock ▸ come.fresh,
          again.lock ▸ Nat.lt_of_lt_of_le come.made second.locks⟩
    · exact .inr ⟨come.context, Nat.le_trans first.contexts come.late, come.counted,
        Nat.le_trans first.locks come.fresh, come.made⟩

theorem onward_aside (aside : Aside [] w v) : Onward w v := by
  refine onward_of_lists (Nat.le_of_eq aside.nextContext.symm) (Nat.le_of_eq aside.locks.next.symm)
    ?_ ?_
  · intro id member
    rw [aside.thread, ledger_aside aside] at member
    exact member
  · intro c m there
    exact ⟨m, aside.lists ▸ there, UndoableList.later_refl m⟩

theorem onward_congr (onward : Onward w u) (lists : v.lists = u.lists)
    (contexts : v.nextContext = u.nextContext) (locks : v.locks = u.locks)
    (thread : v.thread = u.thread) : Onward w v := by
  refine onward_trans onward (onward_of_lists ?_ ?_ ?_ ?_)
  · rw [contexts]
  · rw [locks]
  · rw [locks, thread]
    exact fun _ member => member
  · intro c m there
    exact ⟨m, lists ▸ there, UndoableList.later_refl m⟩

theorem onward_refl (w : World α κ δ) : Onward w w := onward_aside (aside_refl w)

theorem grounded_onward (grounded : Grounded w) (onward : Onward w v) : Grounded v where
  ledger := onward.ledger grounded.ledger
  keyed c m there := by
    obtain ⟨l, here, moved⟩ | come := onward.lists c m there
    · exact moved.context.trans (grounded.keyed c l here)
    · exact come.context
  enrolled c m there := by
    obtain ⟨l, here, moved⟩ | come := onward.lists c m there
    · obtain ⟨counted, made⟩ := grounded.enrolled c l here
      exact ⟨Nat.lt_of_lt_of_le counted onward.contexts,
        moved.lock ▸ Nat.lt_of_lt_of_le made onward.locks⟩
    · exact ⟨come.counted, come.made⟩

theorem onward_insert (here : w.lists.get? c = some l) (later : l.Later m)
    (lists : v.lists = w.lists.insert c m) (contexts : v.nextContext = w.nextContext)
    (locks : v.locks = w.locks) (thread : v.thread = w.thread) : Onward w v := by
  refine onward_of_lists (by rw [contexts]) (by rw [locks]) (by rw [locks, thread]; simp) ?_
  intro d n there
  rw [lists, Table.get?_insert] at there
  split at there
  · rename_i same
    cases there
    exact ⟨l, same ▸ here, later⟩
  · exact ⟨n, there, UndoableList.later_refl n⟩

theorem onward_modify (w : World α κ δ) (c : ListId) {f : UndoableList α → UndoableList α}
    (later : ∀ l : UndoableList α, l.Later (f l)) :
    Onward w { w with lists := w.lists.modify c f } := by
  refine onward_of_lists (Nat.le_refl _) (Nat.le_refl _) (fun _ member => member) ?_
  intro d n there
  rw [show _ = _ from Table.get?_modify w.lists c d f] at there
  split at there
  · obtain ⟨l, here, rfl⟩ := Option.map_eq_some_iff.mp there
    exact ⟨l, here, later l⟩
  · exact ⟨n, there, UndoableList.later_refl n⟩

theorem onward_after {direction : Direction} {d : Done α} (here : w.lists.get? l.context = some l)
    (context : d.site.list.context = l.context) (lock : d.site.list.lock = l.lock)
    (version : d.site.list.version = l.version + 1) : Onward w (w.after direction d) := by
  have lists : (w.after direction d).lists = w.lists.insert l.context d.site.list := by
    rw [← context]
    rfl
  exact onward_insert here (UndoableList.later_of_newVersion context lock version) lists rfl rfl rfl

theorem onward_commit {record : Record α Edit} {direction : Direction} {d : Done α}
    {history : History (Record α Edit)} (here : w.lists.get? l.context = some l)
    (done : Site.commit ⟨l, w.cells⟩ record direction = .ok d) :
    Onward w (w.after direction (d.withHistory history)) := by
  obtain ⟨context, lock, version⟩ := Site.same_of_commit done
  exact onward_after here context lock version

theorem onward_append {record : Record α Edit} {d : Done α}
    (here : w.lists.get? l.context = some l)
    (done : Site.append ⟨l, w.cells⟩ record = .ok d) : Onward w (w.after .forward d) := by
  obtain ⟨context, lock, version⟩ := Site.same_of_append done
  exact onward_after here context lock version

theorem onward_reset (here : w.lists.get? l.context = some l) : Onward w (w.afterReset l) :=
  onward_after here rfl rfl rfl

theorem onward_removed (w : World α κ δ) (id : ListId) (l : UndoableList α) :
    Onward w (w.removeList id l) := by
  refine onward_of_lists (Nat.le_refl _) (Nat.le_refl _) (fun _ member => member) ?_
  intro c m there
  rw [show (w.removeList id l).lists.get? c = _ from Table.get?_erase ..] at there
  split at there
  · cases there
  · exact ⟨m, there, UndoableList.later_refl m⟩

variable [Diary δ]

theorem onward_created (b : Blueprint α) (w : World α κ δ) : Onward w (createList b w).2 := by
  have enrolled : Onward w (w.enrolled b) := by
    refine ⟨Nat.le_succ _, Nat.le_succ _, ?_, ?_⟩
    · intro made id member
      exact Nat.lt_succ_of_lt (made id member)
    · intro c m there
      rw [enrolled_lists] at there
      split at there
      · rename_i same
        cases there
        subst same
        exact .inr ⟨rfl, Nat.le_refl _, Nat.lt_succ_self _, Nat.le_refl _, Nat.lt_succ_self _⟩
      · exact .inl ⟨m, there, UndoableList.later_refl m⟩
  exact onward_trans enrolled (onward_aside (aside_createList b w))

omit [Diary δ] in
theorem onward_ended [Element α] {lacking : Prop} {op : Operation α} {b : Bulletin α}
    {r : Outcome ListRefusal (Reply α)} (here : w.lists.get? l.context = some l)
    (ended : Ended [] lacking l op w b r v) : Onward w v := by
  cases ended with
  | refused aside why => exact onward_aside aside
  | idle planned aside => exact onward_aside aside
  | carried planned done aside => exact onward_trans (onward_append here done) (onward_aside aside)

theorem onward_lockedMutation [Element α] (keyed : Keyed w) (id : ListId) (op : Operation α) :
    Onward w (lockedMutation id op w).2 := by
  cases here : w.lists.get? id with
  | none =>
    rw [lockedMutation, withList_absent here]
    exact onward_refl w
  | some l =>
    obtain rfl := keyed id l here
    obtain ⟨b, r, v, mutated, -, told⟩ := lockedMutation_ends here op
    obtain ⟨-, -, rfl⟩ := of_tells told
    cases mutated with
    | fresh fresh ended => exact onward_ended here ended
    | barred stale barred aside => exact onward_aside aside
    | lost stale taken barred aside =>
      have quieted := onward_insert (v := { w with lists := w.lists.insert l.context l.quieted })
        here (UndoableList.later_quieted l) rfl rfl rfl rfl
      exact onward_trans quieted (onward_aside aside)
    | heard stale obtained ended =>
      exact onward_trans (onward_reset here)
        (onward_ended (l := l.reset) (afterReset_list w l) ended)

theorem onward_lockedReplay (keyed : Keyed w) (id : ListId) (direction : Direction) :
    Onward w (lockedReplay id direction w).2 := by
  cases here : w.lists.get? id with
  | none =>
    rw [lockedReplay, withList_absent here]
    exact onward_refl w
  | some l =>
    obtain rfl := keyed id l here
    obtain ⟨b, r, v, replayed, -, told⟩ := lockedReplay_ends here direction
    obtain ⟨-, -, rfl⟩ := of_tells told
    cases replayed with
    | barred barred aside => exact onward_aside aside
    | fresh fresh obtained turned freed =>
      cases turned with
      | nothing none aside => exact onward_aside aside
      | rejected near failed aside => exact onward_aside aside
      | carried near done aside =>
        exact onward_trans (onward_commit here done) (onward_aside aside)
    | heard stale obtained aside freed =>
      exact onward_trans (onward_reset here) (onward_aside aside)

theorem onward_modifying (id : ListId) {f : UndoableList α → UndoableList α}
    (later : ∀ l : UndoableList α, l.Later (f l)) : Onward w (modifying id f w).2 := by
  obtain aside | ⟨-, -, aside⟩ := modifying_leaves id f w
  · exact onward_aside aside
  · exact onward_trans (onward_modify w id later) (onward_aside aside)

theorem onward_clearHistory (id : ListId) : Onward w (clearHistory id w).2 :=
  onward_modifying id UndoableList.later_forgetful

theorem onward_enterEdit (id : ListId) (e : Edit) : Onward w (enterEdit e id w).2 :=
  onward_modifying id fun l => UndoableList.later_of_newVersion (m := l.recordEdit e) rfl rfl rfl

omit [Diary δ] in
theorem onward_signal (id : ListId) : Onward w (w.signal id) :=
  onward_modify w id fun _ => ⟨rfl, rfl, Nat.le_refl _, fun _ => rfl⟩

theorem onward_reworked {β : Type} (keyed : Keyed w) (id : ListId) (r : Rework α β)
    (returns : ∀ l, w.lists.get? id = some l → ∃ b, (r.on l.store).1 = .ok b) :
    Onward w (aloneWithStore id (rework id r) w).2 := by
  cases here : w.lists.get? id with
  | none =>
    rw [aloneWithStore, withList_absent here]
    exact onward_refl w
  | some l =>
    obtain rfl := keyed id l here
    obtain ⟨-, fault, v, aside, result⟩ | ⟨-, v, ends⟩ := aloneWithStore_ends here r
    · rw [result]
      exact onward_aside aside
    · obtain ⟨b, returned⟩ := returns l here
      rcases worked : r.on l.store with ⟨outcome, store⟩
      rw [worked] at ends returned
      obtain rfl : outcome = .ok b := returned
      obtain ⟨aside, result⟩ := ends
      rw [result]
      exact onward_trans (onward_after here rfl rfl rfl) (onward_aside aside)

omit [Diary δ] in
theorem onward_disposeLock (id : LockId) (w : World α κ δ) :
    Onward w { w with locks := (w.locks.dispose id).2 } :=
  onward_of_lists (Nat.le_refl _) (Nat.le_refl _) (fun _ member => member)
    fun _ m there => ⟨m, there, UndoableList.later_refl m⟩

theorem onward_note (n : Notice) (w : World α κ δ) : Onward w (Journal.note n w) :=
  onward_aside (aside_note n w)

omit [Diary δ] in
theorem onward_freed (here : w.lists.get? l.context = some l) : Onward w (w.freed l) := by
  have entered : Onward w (w.putSite (Site.released ⟨l, w.cells⟩)) :=
    onward_insert (m := l) here (UndoableList.later_refl l) rfl rfl rfl rfl
  exact onward_trans entered (onward_modify _ l.context UndoableList.later_forgetful)

theorem onward_dispose (keyed : Keyed w) (id : ListId) : Onward w (dispose id w).2 := by
  cases here : w.lists.get? id with
  | none =>
    rw [dispose_absent here]
    exact onward_refl w
  | some l =>
    obtain rfl := keyed id l here
    obtain ⟨-, same⟩ | ⟨-, x, ends, outcome⟩ := dispose_ends here
    · rw [same]
      exact onward_refl w
    · have before : Onward w x := by
        obtain freed | aside := ends
        · exact onward_trans (onward_freed here) (onward_aside freed)
        · exact onward_aside aside
      rw [outcome]
      exact onward_trans before (onward_trans (onward_disposeLock l.lock x) (onward_note _ _))

end

end World

end UndoableLists
