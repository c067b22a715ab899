import UndoableLists.Proofs.Ownership.Exchange
import UndoableLists.Proofs.World.Sections

/-!
Worlds of lists that share their items. A list is live as long as it is in the table and its lock
is not disposed; in a sound world the live lists own the cells, and every list tracks a timeline,
so that its records still name the items at their positions. Main statements: a world stays sound
when a record is carried out or replayed, and when lists come, are disposed of, and go.
-/
namespace UndoableLists.World
variable {α κ δ : Type}

def live (w : World α κ δ) : Roster α := fun c =>
  (w.lists.get? c).filter fun l => !w.locks.isDisposed l.lock

structure Enlisted (w : World α κ δ) (c : Context) (l : UndoableList α) : Prop where
  named : l.context = c
  context : c < w.nextContext
  lock : l.lock < w.locks.next
  fresh : l.store.stale = false
  tracks : ∃ t, l.Tracks t

structure Sound (w : World α κ δ) : Prop where
  enlisted : ∀ {c l}, w.lists.get? c = some l → w.Enlisted c l
  apart : ∀ {c d l m}, w.lists.get? c = some l → w.lists.get? d = some m → l.lock = m.lock → c = d
  owns : w.live.Owns (fun _ => True) w.cells

section
variable {v w : World α κ δ} {c : Context} {l m : UndoableList α}

theorem live_iff :
    w.live c = some l ↔ w.lists.get? c = some l ∧ w.locks.isDisposed l.lock = false := by
  simp [live, Option.filter_eq_some_iff]

theorem live_withList (others : ∀ d, d ≠ c → v.lists.get? d = w.lists.get? d)
    (locks : ∀ d l, d ≠ c → w.lists.get? d = some l →
      v.locks.isDisposed l.lock = w.locks.isDisposed l.lock) :
    v.live = w.live.withList c (v.live c) := by
  funext d
  by_cases same : d = c
  · rw [same, Roster.withList_self]
  · rw [Roster.withList_of_ne same, live, live, others d same]
    cases there : w.lists.get? d with
    | none => rfl
    | some l => simp only [Option.filter_some, locks d l same there]

theorem sound_elsewhere (sound : Sound w) (lists : v.lists = w.lists) (cells : v.cells = w.cells)
    (contexts : w.nextContext ≤ v.nextContext) (next : w.locks.next ≤ v.locks.next)
    (locks : ∀ c l, w.lists.get? c = some l →
      v.locks.isDisposed l.lock = w.locks.isDisposed l.lock) : Sound v where
  enlisted here := by
    obtain ⟨named, context, lock, fresh, tracks⟩ := sound.enlisted (lists ▸ here)
    exact ⟨named, Nat.lt_of_lt_of_le context contexts, Nat.lt_of_lt_of_le lock next, fresh, tracks⟩
  apart := lists ▸ sound.apart
  owns := by
    have same : v.live = w.live := by
      funext c
      rw [live, live, lists]
      cases there : w.lists.get? c with
      | none => rfl
      | some l => simp only [Option.filter_some, locks c l there]
    rw [same, cells]
    exact sound.owns

theorem sound_aside (sound : Sound w) (aside : Aside [] w v) : Sound v :=
  sound_elsewhere sound aside.lists aside.cells (Nat.le_of_eq aside.nextContext.symm)
    (Nat.le_of_eq aside.locks.next.symm) fun _ _ _ => Locks.isDisposed_eased aside.locks

theorem sound_replaced (sound : Sound w) (here : w.lists.get? c = some l)
    (lists : ∀ d, v.lists.get? d = if d = c then some m else w.lists.get? d)
    (enlisted : v.Enlisted c m) (lock : m.lock = l.lock)
    (contexts : v.nextContext = w.nextContext) (next : v.locks.next = w.locks.next)
    (owns : v.live.Owns (fun _ => True) v.cells) : Sound v where
  enlisted {d n} there := by
    rw [lists] at there
    split at there
    · rename_i same
      cases there
      exact same ▸ enlisted
    · obtain ⟨named, context, lock, fresh, tracks⟩ := sound.enlisted there
      exact ⟨named, contexts ▸ context, next ▸ lock, fresh, tracks⟩
  apart {d e n k} there also same := by
    have old {d : Context} {n : UndoableList α} (there : v.lists.get? d = some n) :
        ∃ o, w.lists.get? d = some o ∧ o.lock = n.lock := by
      rw [lists] at there
      split at there
      · rename_i same
        cases there
        exact ⟨l, same ▸ here, lock.symm⟩
      · exact ⟨n, there, rfl⟩
    obtain ⟨o, first, mine⟩ := old there
    obtain ⟨p, second, yours⟩ := old also
    exact sound.apart first second (mine.trans (same.trans yours.symm))
  owns := owns

theorem sound_after (sound : Sound w) (here : w.lists.get? l.context = some l)
    (usable : w.locks.isDisposed l.lock = false) {record : Record α Edit}
    {direction : Direction} {next : List α} {d : Done α} {notices : List Notice}
    {history : History (Record α Edit)} (turns : record.Turns direction l.contents next)
    (given : Site.transfer ⟨l, w.cells⟩ (record.handover direction) = .ok (d.site.cells, notices))
    (list : d.site.list = (l.changed next).withHistory history)
    (tracks : ∃ t, ((l.changed next).withHistory history).Tracks t)
    (aside : Aside [] (w.after direction d) v) : Sound v := by
  refine sound_aside ?_ aside
  let m := (l.changed next).withHistory history
  have lists (c : Context) : (w.after direction d).lists.get? c =
      if c = l.context then some m else w.lists.get? c := by
    have put : (w.after direction d).lists = w.lists.insert d.site.list.context d.site.list := rfl
    rw [put, list]
    exact Table.get?_insert ..
  have roster : (w.after direction d).live = w.live.withList l.context (some m) := by
    have alive : (w.after direction d).live l.context = some m :=
      live_iff.mpr ⟨(lists l.context).trans (if_pos rfl), usable⟩
    rw [← alive]
    exact live_withList (fun c differs => (lists c).trans (if_neg differs)) fun _ _ _ _ => rfl
  obtain ⟨named, context, lock, fresh, -⟩ := sound.enlisted here
  refine sound_replaced sound here lists ⟨rfl, context, lock, fresh, tracks⟩ rfl rfl rfl ?_
  rw [roster]
  exact Roster.owns_transferred (m := m) sound.owns (live_iff.mpr ⟨here, usable⟩) turns given
    rfl rfl fun _ _ _ => trivial

theorem sound_modified (sound : Sound w) (id : ListId) {f : UndoableList α → UndoableList α}
    (shape : ∀ l, ∃ history version, f l = { l with history, version })
    (tracks : ∀ l t, l.Tracks t → ∃ t, (f l).Tracks t) :
    Sound { w with lists := w.lists.modify id f } := by
  cases here : w.lists.get? id with
  | none =>
    rw [Table.modify_absent here]
    exact sound
  | some l =>
    obtain ⟨history, version, changed⟩ := shape l
    obtain ⟨named, context, lock, fresh, t, old⟩ := sound.enlisted here
    have found (d : Context) := Table.get?_modify_present here d f
    refine sound_replaced sound here found ⟨?_, context, ?_, ?_, tracks l t old⟩ ?_ rfl rfl ?_
    · rw [changed]
      exact named
    · rw [changed]
      exact lock
    · rw [changed]
      exact fresh
    · rw [changed]
    · apply Roster.owns_congr sound.owns
      intro c
      rw [live, live, found]
      split
      · rename_i same
        rw [same, here, changed]
        simp only [Option.filter_some]
        split <;> rfl
      · rfl

theorem isDisposed_created (settings : Patience) {ls : Locks} {id : LockId} (old : id < ls.next) :
    (ls.create settings).2.isDisposed id = ls.isDisposed id := by
  unfold Locks.isDisposed Locks.get? Locks.create
  rw [Table.get?_insert_of_ne _ (Nat.ne_of_lt old)]

theorem live_enrolled (b : Blueprint α) (sound : Sound w) : (w.enrolled b).live =
    w.live.withList w.nextContext (some (b.listAt w.nextContext w.locks.next)) := by
  have alive : (w.enrolled b).live w.nextContext =
      some (b.listAt w.nextContext w.locks.next) := by
    rw [live_iff]
    constructor
    · rw [enrolled_lists, if_pos rfl]
    · simp [enrolled, hold, putSite, Locks.create, Locks.isDisposed, Locks.get?, Blueprint.listAt]
  rw [← alive]
  apply live_withList
  · intro c differs
    rw [enrolled_lists, if_neg differs]
  · intro c l _ there
    exact isDisposed_created b.settings (sound.enlisted there).lock

theorem sound_created [Diary δ] (sound : Sound w) (b : Blueprint α)
    (empty : b.access.isSome → b.items = []) : Sound (createList b w).2 := by
  refine sound_aside ?_ (aside_createList b w)
  have unknown : w.lists.get? w.nextContext = none := by
    cases there : w.lists.get? w.nextContext with
    | none => rfl
    | some l => exact absurd (sound.enlisted there).context (Nat.lt_irrefl _)
  constructor
  · intro c l there
    rw [enrolled_lists] at there
    split at there
    · rename_i same
      cases there
      exact ⟨same.symm, same ▸ Nat.lt_succ_self _, Nat.lt_succ_self _, rfl, _,
        UndoableList.tracks_cleared rfl⟩
    · obtain ⟨named, context, lock, fresh, tracks⟩ := sound.enlisted there
      exact ⟨named, Nat.lt_succ_of_lt context, Nat.lt_succ_of_lt lock, fresh, tracks⟩
  · intro c d l n first second same
    rw [enrolled_lists] at first second
    split at first <;> split at second
    · rename_i mine yours
      exact mine.trans yours.symm
    · cases first
      exact absurd (sound.enlisted second).lock (same ▸ Nat.lt_irrefl _)
    · cases second
      exact absurd (sound.enlisted first).lock (same ▸ Nat.lt_irrefl _)
    · exact sound.apart first second same
  · have absent : w.live w.nextContext = none := by
      rw [live, unknown]
      rfl
    rw [live_enrolled b sound, enrolled_cells empty]
    exact Roster.owns_added sound.owns absent (cellsOf_listAt empty _ _)

theorem sound_ended (sound : Sound w) (here : w.lists.get? l.context = some l)
    (enlisted : ∀ {c m}, v.lists.get? c = some m → ∃ n, w.lists.get? c = some n ∧
      m.lock = n.lock ∧ v.Enlisted c m)
    (others : ∀ c, c ≠ l.context → v.lists.get? c = w.lists.get? c)
    (locks : ∀ c m, c ≠ l.context → w.lists.get? c = some m →
      v.locks.isDisposed m.lock = w.locks.isDisposed m.lock)
    (ended : v.live l.context = none)
    (cells : v.cells = (Site.released ⟨l, w.cells⟩).cells) : Sound v where
  enlisted there := (enlisted there).choose_spec.2.2
  apart first second same := by
    obtain ⟨m, before, mine, -⟩ := enlisted first
    obtain ⟨n, also, yours, -⟩ := enlisted second
    exact sound.apart before also (mine.symm.trans (same.trans yours))
  owns := by
    rw [live_withList others locks, ended, cells]
    refine Roster.owns_released sound.owns (fun m alive => ?_) fun _ _ => trivial
    exact Option.some.inj ((live_iff.mp alive).1.symm.trans here)

theorem sound_removed (sound : Sound w) (here : w.lists.get? c = some l) :
    Sound (w.removeList c l) := by
  obtain rfl := (sound.enlisted here).named
  have found (d : Context) : (w.removeList l.context l).lists.get? d =
      if d = l.context then none else w.lists.get? d := Table.get?_erase ..
  apply sound_ended sound here
  · intro d m there
    rw [found] at there
    split at there
    · cases there
    · obtain ⟨named, context, lock, fresh, tracks⟩ := sound.enlisted there
      exact ⟨m, there, rfl, named, context, lock, fresh, tracks⟩
  · intro d differs
    exact (found d).trans (if_neg differs)
  · intro _ _ _ _
    rfl
  · rw [live, found, if_pos rfl]
    rfl
  · rfl

theorem isDisposed_dispose (ls : Locks) (id other : LockId) :
    (ls.dispose id).2.isDisposed other = (decide (other = id) || ls.isDisposed other) := by
  simp only [Locks.dispose, Locks.isDisposed, Locks.get?, Table.get?_modify]
  by_cases same : other = id
  · cases ls.table.get? other <;> simp [same]
  · simp [same]

def freed (w : World α κ δ) (l : UndoableList α) : World α κ δ :=
  let w := w.putSite (Site.released ⟨l, w.cells⟩)
  { w with lists := w.lists.modify l.context UndoableList.forgetful }

theorem freed_lists (w : World α κ δ) (l : UndoableList α) (c : Context) :
    (w.freed l).lists.get? c = if c = l.context then some l.forgetful else w.lists.get? c := by
  simp only [freed, putSite, Site.released, Table.get?_modify, Table.get?_insert]
  split <;> rfl

theorem framed_freed (l : UndoableList α) : Framed fun w : World α κ δ => w.freed l where
  aside aside := { aside with
    lists := by simp only [freed, World.putSite, Site.released, aside.lists]
    cells := by simp only [freed, World.putSite, Site.released, aside.cells] }
  locks _ := rfl
  thread _ := rfl

theorem disposeList_alone [Diary δ] (usable : w.locks.isDisposed l.lock = false)
    (obtained : (Host.acquire l.lock .write).succeeds w) :
    ∃ x, Aside [] (w.freed l) x ∧ (disposeList l.context l w).2 =
      Journal.note .listDisposed { x with locks := (x.locks.dispose l.lock).2 } := by
  obtain ⟨_, u, acquired⟩ := Act.ok_of_succeeds obtained
  obtain ⟨v, inside⟩ := inside_of_acquire acquired
  obtain ⟨released, -⟩ :=
    release_framed (framed_freed l) inside ((framed_freed l).aside inside.taken)
  refine ⟨_, released, ?_⟩
  rw [disposeList, if_neg (by simp [Host.isDisposed, Host.locks, usable]), acquired]
  rfl

theorem dispose_ends [Diary δ] (here : w.lists.get? l.context = some l) :
    (w.locks.isDisposed l.lock = true ∧ (dispose l.context w).2 = w) ∨
    w.locks.isDisposed l.lock = false ∧ ∃ x, (Aside [] (w.freed l) x ∨ Aside [] w x) ∧
      (dispose l.context w).2 =
        Journal.note .listDisposed { x with locks := (x.locks.dispose l.lock).2 } := by
  rw [dispose_leaves here]
  cases usable : w.locks.isDisposed l.lock with
  | true => exact .inl ⟨rfl, congrArg Prod.snd (if_pos usable)⟩
  | false =>
    right
    refine ⟨rfl, ?_⟩
    rcases acquired : (Host.acquire l.lock .write : Act (World α κ δ) LockRefusal Unit) w with
      ⟨fault | _, u⟩
    · refine ⟨Journal.note .disposedUnreleased u,
        .inr (aside_trans (of_acquire_error acquired) (aside_note ..)), ?_⟩
      rw [disposeList, if_neg (by simp [Host.isDisposed, Host.locks, usable]), acquired]
    · obtain ⟨x, released, outcome⟩ := disposeList_alone usable (Act.succeeds_of_ok acquired)
      exact ⟨x, .inl released, outcome⟩

theorem sound_freed (sound : Sound w) (here : w.lists.get? l.context = some l)
    (released : Aside [] (w.freed l) v) :
    Sound { v with locks := (v.locks.dispose l.lock).2 } := by
  have found (d : Context) : v.lists.get? d =
      if d = l.context then some l.forgetful else w.lists.get? d := by
    rw [released.lists, freed_lists]
  have locks (id : LockId) : (v.locks.dispose l.lock).2.isDisposed id =
      (decide (id = l.lock) || w.locks.isDisposed id) := by
    rw [isDisposed_dispose, Locks.isDisposed_eased released.locks]
    rfl
  have known {c : Context} (old : c < w.nextContext) : c < v.nextContext :=
    released.nextContext.symm ▸ old
  have next {id : LockId} (old : id < w.locks.next) : id < v.locks.next :=
    released.locks.next.symm ▸ old
  apply sound_ended sound here
  · intro d m there
    rw [show v.lists.get? d = _ from found d] at there
    split at there
    · rename_i same
      cases there
      obtain ⟨-, context, lock, fresh, -⟩ := sound.enlisted here
      exact ⟨l, same ▸ here, rfl, same.symm, same ▸ known context, next lock, fresh, _,
        UndoableList.tracks_cleared rfl⟩
    · obtain ⟨named, context, lock, fresh, tracks⟩ := sound.enlisted there
      exact ⟨m, there, rfl, named, known context, next lock, fresh, tracks⟩
  · intro d differs
    exact (found d).trans (if_neg differs)
  · intro d m differs there
    have foreign : m.lock ≠ l.lock := fun same => differs (sound.apart there here same)
    rw [locks, decide_eq_false foreign, Bool.false_or]
  · rw [live, found, if_pos rfl]
    simp [locks, UndoableList.forgetful]
  · exact released.cells

theorem sound_disposed [Diary δ] (sound : Sound w) (id : ListId)
    (obtained : ∀ l, w.lists.get? id = some l → w.locks.isDisposed l.lock = false →
      (Host.acquire l.lock .write).succeeds w) : Sound (dispose id w).2 := by
  cases here : w.lists.get? id with
  | none =>
    rwa [dispose_absent here]
  | some l =>
    rw [dispose_leaves here]
    obtain rfl := (sound.enlisted here).named
    cases usable : w.locks.isDisposed l.lock with
    | true =>
      rw [disposeList, if_pos (by simp [Host.isDisposed, Host.locks, usable])]
      exact sound
    | false =>
      obtain ⟨x, released, outcome⟩ := disposeList_alone usable (obtained l here usable)
      rw [outcome]
      exact sound_aside (sound_freed sound here released) (aside_note ..)

end

end UndoableLists.World
