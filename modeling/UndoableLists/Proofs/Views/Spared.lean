import UndoableLists.Proofs.Following.Looking
import UndoableLists.Proofs.Following.Audiences

/-!
What is done around a merged list. A merged list that is held stays, and so do its slaves, while
views hear and are dropped, and while other lists are changed and told of. Main statements: telling
spares a merged list if subscribers do, and so does every call on a list that is none of its slaves.
-/
namespace UndoableLists.World
variable {α κ δ : Type}

/-- A merged list that was held is still held and can be read, and its slaves are as they were. What
it has cached may differ, and so may its master. -/
structure Spared (id : ViewId) (w v : World α κ δ) : Prop where
  held : w.held.count (.merge id) ≤ v.held.count (.merge id)
  stands : .merge id ∈ w.held → ∀ m, MergeReadable w id m →
    (∃ c, MergeReadable v id { m with cache := c }) ∧
      ∀ s ∈ m.slaves, v.lists.get? s.list = w.lists.get? s.list

section
variable {id other : ViewId} {c : ListId} {u v w : World α κ δ} {m : MergedList α}

theorem held_spared (spared : Spared id w v) (held : .merge id ∈ w.held) : .merge id ∈ v.held :=
  List.count_pos_iff.mp (Nat.lt_of_lt_of_le (List.count_pos_iff.mpr held) spared.held)

theorem spared_refl (w : World α κ δ) : Spared id w w :=
  ⟨Nat.le_refl _, fun _ m readable => ⟨⟨m.cache, readable⟩, fun _ _ => rfl⟩⟩

theorem spared_trans (first : Spared id w u) (second : Spared id u v) : Spared id w v where
  held := Nat.le_trans first.held second.held
  stands held m readable := by
    obtain ⟨⟨c, again⟩, slaves⟩ := first.stands held m readable
    obtain ⟨still, others⟩ := second.stands (held_spared first held) _ again
    exact ⟨still, fun s member => (others s member).trans (slaves s member)⟩

theorem mergeReadable_later {cache : CachedView (UInt64 × UInt64 × UInt64) (Built α)}
    (readable : MergeReadable w id m)
    (view : v.merges.get? id = some { m with cache })
    (usable : cache.disposed = m.cache.disposed) (lock : cache.lock = m.cache.lock)
    (locks : ∀ d ∈ m.places,
      (v.lists.get? d).map UndoableList.lock = (w.lists.get? d).map UndoableList.lock)
    (free : ∀ lock, w.locks.Free w.thread lock → v.locks.Free v.thread lock) :
    MergeReadable v id { m with cache } where
  view := view
  usable := usable.trans readable.usable
  free d place := by
    obtain ⟨l, here, unheld⟩ := readable.free d place
    have same := locks d place
    rw [here, Option.map_some] at same
    obtain ⟨n, there, again⟩ := Option.map_eq_some_iff.mp same
    exact ⟨n, there, again ▸ free _ unheld⟩
  unlocked := free _ readable.unlocked
  own own has := free _ (readable.own own (lock ▸ has))

theorem spared_aside (aside : Aside [] w v) (held : v.held = w.held)
    (stands : .merge id ∈ w.held → ∀ m, w.merges.get? id = some m →
      ∃ c, v.merges.get? id = some { m with cache := c } ∧ c.disposed = m.cache.disposed ∧
        c.lock = m.cache.lock) : Spared id w v where
  held := by rw [held]
  stands among m readable := by
    obtain ⟨c, view, usable, lock⟩ := stands among m readable.view
    have lists : v.lists = w.lists := aside.lists
    exact ⟨⟨c, mergeReadable_later readable view usable lock (fun _ _ => by rw [lists])
      fun _ => free_aside aside⟩, fun _ _ => by rw [lists]⟩

theorem spared_apart (aside : Aside [] w v) (held : v.held = w.held)
    (merges : v.merges = w.merges) : Spared id w v :=
  spared_aside aside held fun _ m here => ⟨m.cache, merges ▸ here, rfl, rfl⟩

theorem spared_still (still : Still [] w v) (held : v.held = w.held) : Spared id w v :=
  spared_apart still.toAside held still.merges

theorem spared_removeFilter (other : ViewId) (f : FilteredView α) (w : World α κ δ) :
    Spared id w (w.removeFilter other f) := by
  have aside := aside_removeFilter other f w
  have same : (w.removeFilter other f).held = w.held ∧
      (w.removeFilter other f).merges = w.merges := by
    obtain ⟨channels, ended⟩ := channelsOnly_unsubscribeAll f.subscriptions w
    rw [removeFilter, ended]
    exact ⟨rfl, rfl⟩
  exact spared_apart aside same.1 same.2

theorem spared_removeMerge (loose : .merge other ∉ w.held) (g : MergedList α) :
    Spared id w (w.removeMerge other g) := by
  have aside := aside_removeMerge other g w
  have same : (w.removeMerge other g).held = w.held ∧
      (w.removeMerge other g).merges = w.merges.erase other := by
    obtain ⟨channels, ended⟩ := channelsOnly_unsubscribeAll
      (g.subscriptions ++ g.slaves.flatMap (·.subscriptions)) w
    rw [removeMerge, ended]
    exact ⟨rfl, rfl⟩
  refine spared_aside aside same.1 fun held m here => ⟨m.cache, ?_, rfl, rfl⟩
  have differs : id ≠ other := by
    rintro rfl
    exact loose held
  rw [same.2, Table.get?_erase, if_neg differs]
  exact here

theorem spared_removeList (unled : c ∉ w.reachable) (l : UndoableList α) :
    Spared id w (w.removeList c l) where
  held := Nat.le_refl _
  stands held m readable := by
    have same (d : ListId) (place : d ∈ m.places) :
        (w.removeList c l).lists.get? d = w.lists.get? d := by
      have differs : d ≠ c := by
        rintro rfl
        exact unled (mem_reachable.mpr (.inr (.inr ⟨id, m, readable.view, place⟩)))
      exact (Table.get?_erase ..).trans (if_neg differs)
    refine ⟨⟨m.cache, mergeReadable_later readable readable.view rfl rfl
      (fun d place => by rw [same d place]) fun _ free => free⟩, fun s member => ?_⟩
    exact same s.list (List.mem_cons_of_mem _ (List.mem_map_of_mem member))

theorem spared_sweep (w : World α κ δ) : Spared id w w.sweep :=
  swept_keeps (P := Spared id w)
    (fun other f _ before => spared_trans before (spared_removeFilter other f _))
    (fun _ g loose before => spared_trans before (spared_removeMerge loose g))
    (fun _ unled before => spared_trans before (spared_removeList unled _)) (spared_refl w)

theorem spared_heard {h : Handle} (view : ∀ id, h ≠ .list id) (later : Spared id (w.hold h) v) :
    Spared id w (letGo h v) := by
  have taken : Still [] w (w.hold h) := still_held fun id => by simp [view id]
  have left : Still [] v { v with held := v.held.erase h } :=
    still_held fun id => List.count_erase_of_ne (view id).symm
  have before : Spared id w { v with held := v.held.erase h } := by
    constructor
    · have count := later.held
      rw [hold, List.count_cons] at count
      rw [List.count_erase]
      omega
    · intro held m readable
      obtain ⟨⟨c, again⟩, slaves⟩ := later.stands (List.mem_cons_of_mem _ held) m
        (mergeReadable_still readable taken)
      exact ⟨⟨c, mergeReadable_still again left⟩, slaves⟩
  exact spared_trans before (spared_sweep _)

variable [Diary δ]

def heldAndChannels (w : World α κ δ) : List Handle × Table Handle (Channels κ) :=
  (w.held, w.channels)

theorem outside_heldAndChannels : Outside (heldAndChannels : World α κ δ → _) where
  locks _ _ _ := rfl
  lists _ _ _ := rfl
  objects _ _ := rfl
  noted _ _ := rfl
  replayed _ _ _ _ := rfl
  built _ _ := rfl
  filterCache _ _ _ := rfl
  mergeCache _ _ _ := rfl

omit [Diary δ] in
theorem held_of_heldAndChannels (same : heldAndChannels v = heldAndChannels w) : v.held = w.held :=
  congrArg Prod.fst same

theorem spared_isFiltered (other : ViewId) (w : World α κ δ) :
    Spared id w (w.isFiltered other).2 := by
  have seen := unseen_filterOf outside_heldAndChannels.toListFree other w
  rw [isFiltered_leaves]
  exact spared_still (reads_filterOf other w) (held_of_heldAndChannels seen)

theorem spared_filterDropped (other : ViewId) (w : World α κ δ) :
    Spared id w (CachedView.invalidate (filterCache other) w).2 := by
  have seen := unseen_invalidate outside_heldAndChannels.toListFree
    (outside_heldAndChannels.filterCache other) w
  obtain ⟨aside, same | ⟨-, dropped⟩⟩ := invalidate_leaves (filterCachePlace other) w
  · exact spared_apart aside (held_of_heldAndChannels seen) same.merges
  · exact spared_apart aside (held_of_heldAndChannels seen) dropped.merges

theorem spared_mergeDropped (other : ViewId) (w : World α κ δ) :
    Spared id w (CachedView.invalidate (mergeCache other) w).2 := by
  have seen := unseen_invalidate outside_heldAndChannels.toListFree
    (outside_heldAndChannels.mergeCache other) w
  obtain ⟨aside, same | ⟨-, dropped⟩⟩ := invalidate_leaves (mergeCachePlace other) w
  · exact spared_apart aside (held_of_heldAndChannels seen) same.merges
  · refine spared_aside aside (held_of_heldAndChannels seen) fun _ m here => ?_
    have stands := congrArg (·.get? id) dropped.merges
    simp only [mergeCache, Table.get?_modify, here, Option.map_some] at stands
    by_cases same : id = other
    · subst same
      rw [if_pos rfl, here, Option.map_some, Option.getD_some] at stands
      exact ⟨_, stands, rfl, rfl⟩
    · rw [if_neg same] at stands
      exact ⟨m.cache, stands, rfl, rfl⟩

/-- Telling spares a merged list if subscribers do. -/
theorem leads_spared {call : Call α κ δ} (called : ∀ s k e w, Spared id w (call s k e w).2) :
    Leads call (Spared id) where
  refl := spared_refl
  trans := spared_trans
  still := spared_still
  looked := spared_isFiltered
  filterDropped := spared_filterDropped
  mergeDropped := spared_mergeDropped
  heard := spared_heard
  called := called

omit [Diary δ] in
theorem spared_stirs (stirs : Stirs c w v) (views : SameViews w v) (held : v.held = w.held)
    (apart : ∀ m, w.merges.get? id = some m → ∀ s ∈ m.slaves, s.list ≠ c) : Spared id w v where
  held := by rw [held]
  stands _ m readable := by
    have locks (d : ListId) :
        (v.lists.get? d).map UndoableList.lock = (w.lists.get? d).map UndoableList.lock := by
      by_cases same : d = c
      · exact same ▸ stirs.lock
      · rw [stirs.others d same]
    have free (lock : LockId) (free : w.locks.Free w.thread lock) : v.locks.Free v.thread lock :=
      stirs.thread ▸ Locks.free_eased free stirs.locks
    exact ⟨⟨m.cache, mergeReadable_later readable (views.merges ▸ readable.view) rfl rfl
      (fun d _ => locks d) free⟩, fun s member => stirs.others _ (apart m readable.view s member)⟩

variable [Element α] {call : Call α κ δ} {l : UndoableList α}

theorem spared_mutate (leads : Leads call (Spared id)) (here : w.lists.get? l.context = some l)
    (apart : ∀ m, w.merges.get? id = some m → ∀ s ∈ m.slaves, s.list ≠ l.context) (aloud : Bool)
    (op : Operation α) : Spared id w (mutate call l.context aloud op w).2 := by
  have views := sameViews_iff.mpr (unseen_lockedMutation listFree_views l.context op w)
  have seen := unseen_lockedMutation outside_heldAndChannels.toListFree l.context op w
  have silent :=
    spared_stirs (stirs_lockedMutation here op) views (held_of_heldAndChannels seen) apart
  rw [mutate_eq]
  cases aloud with
  | false => exact silent
  | true => exact spared_trans silent (announce_leads leads _ _ _)

omit [Element α] in
theorem spared_replay (leads : Leads call (Spared id)) (here : w.lists.get? l.context = some l)
    (apart : ∀ m, w.merges.get? id = some m → ∀ s ∈ m.slaves, s.list ≠ l.context) (aloud : Bool)
    (direction : Direction) : Spared id w (replay call l.context aloud direction w).2 := by
  have views := sameViews_iff.mpr (unseen_lockedReplay listFree_views l.context direction w)
  have seen := unseen_lockedReplay outside_heldAndChannels.toListFree l.context direction w
  have silent :=
    spared_stirs (stirs_lockedReplay here direction) views (held_of_heldAndChannels seen) apart
  rw [replay_eq]
  cases aloud with
  | false => exact silent
  | true => exact spared_trans silent (announce_leads leads _ _ _)

end
end UndoableLists.World
