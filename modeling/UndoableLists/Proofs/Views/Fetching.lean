import UndoableLists.Proofs.Cache.Calls
import UndoableLists.Proofs.Views.Reading
import UndoableLists.Proofs.Views.Recall

/-!
Fetching what a cached view shows. Main statements: whatever a fetch comes to, the cache stays true
to its keys; and where the locks are free, a fetch answers the entry under the present key, or else
what building comes to.
-/
namespace UndoableLists.World
variable {K α κ δ : Type}

/-- A place where a view keeps its cache, apart from lists and from everything else that views
have. Where there is no view the cache counts as disposed. -/
structure CachePlace (p : Place (World α κ δ) (CachedView K (Built α))) : Prop where
  aside : ∀ c w, Aside [] w (p.set c w)
  views : ∀ {w v} c, SameViews w v → SameViews (p.set c w) (p.set c v)
  seen : ∀ {w v}, SameViews w v → p.get v = p.get w
  get_set : ∀ {w} c, (p.get w).disposed = false → p.get (p.set c w) = c
  set_get : ∀ w, p.set (p.get w) w = w
  set_set : ∀ a b w, p.set a (p.set b w) = p.set a w

def ownLock (p : Place (World α κ δ) (CachedView K (Built α))) (w : World α κ δ) : LockId :=
  (p.get w).lock.getD w.locks.next

def locked (p : Place (World α κ δ) (CachedView K (Built α))) (w : World α κ δ) : World α κ δ :=
  match (p.get w).lock with
  | some _ => w
  | none => p.set { p.get w with lock := some w.locks.next }
      { w with locks := (w.locks.create (p.get w).settings).2 }

section
variable {p : Place (World α κ δ) (CachedView K (Built α))} {w : World α κ δ}

theorem filterCachePlace (id : ViewId) : CachePlace (filterCache id : Place (World α κ δ) _) where
  aside c w := aside_filterCache id c w
  views c same := ⟨by simp only [filterCache, same.filters], same.merges⟩
  seen same := by simp only [filterCache, same.filters]
  get_set {w} c usable := by
    cases here : w.filters.get? id with
    | none => simp [filterCache, here] at usable
    | some v => simp [filterCache, Table.get?_modify, here]
  set_get w := by
    have same : w.filters.modify id (fun v => { v with cache := (filterCache id).get w }) =
        w.filters := Table.modify_same fun v here => by simp [filterCache, here]
    simp only [filterCache] at same ⊢
    rw [same]
  set_set a b w := by simp only [filterCache, Table.modify_modify]

theorem mergeCachePlace (id : ViewId) : CachePlace (mergeCache id : Place (World α κ δ) _) where
  aside c w := aside_mergeCache id c w
  views c same := ⟨same.filters, by simp only [mergeCache, same.merges]⟩
  seen same := by simp only [mergeCache, same.merges]
  get_set {w} c usable := by
    cases here : w.merges.get? id with
    | none => simp [mergeCache, here] at usable
    | some m => simp [mergeCache, Table.get?_modify, here]
  set_get w := by
    have same : w.merges.modify id (fun m => { m with cache := (mergeCache id).get w }) =
        w.merges := Table.modify_same fun m here => by simp [mergeCache, here]
    simp only [mergeCache] at same ⊢
    rw [same]
  set_set a b w := by simp only [mergeCache, Table.modify_modify]

theorem cache_locked (cachePlace : CachePlace p) (usable : (p.get w).disposed = false) :
    p.get (locked p w) = { p.get w with lock := some (ownLock p w) } ∧
      SameViews (p.set { p.get w with lock := some (ownLock p w) } w) (locked p w) := by
  unfold locked ownLock
  cases has : (p.get w).lock with
  | some own =>
    have same : { p.get w with lock := some own } = p.get w := by rw [← has]
    dsimp only [Option.getD_some]
    rw [same, cachePlace.set_get]
    exact ⟨rfl, sameViews_refl w⟩
  | none =>
    have seen : SameViews w { w with locks := (w.locks.create (p.get w).settings).2 } := ⟨rfl, rfl⟩
    exact ⟨cachePlace.get_set _ (by rw [cachePlace.seen seen]; exact usable),
      cachePlace.views _ seen⟩

theorem free_locked (cachePlace : CachePlace p) {id : LockId} (free : w.locks.Free w.thread id) :
    (locked p w).locks.Free (locked p w).thread id := by
  unfold locked
  split
  · exact free
  · exact free_aside (cachePlace.aside _ _) (Locks.free_created _ free)

theorem free_within (cachePlace : CachePlace p) {x : World α κ δ} {id : LockId}
    (still : Still [ownLock p w] (locked p w) x) (free : w.locks.Free w.thread id)
    (other : id ≠ ownLock p w) : x.locks.Free x.thread id :=
  free_still still (by simpa using other) (free_locked cachePlace free)

theorem free_ownLock (cachePlace : CachePlace p) (fresh : w.locks.next ∉ w.locks.heldBy w.thread)
    (free : ∀ own, (p.get w).lock = some own → w.locks.Free w.thread own) :
    (locked p w).locks.Free (locked p w).thread (ownLock p w) := by
  unfold locked ownLock
  cases has : (p.get w).lock with
  | some own => exact free own has
  | none =>
    exact free_aside (cachePlace.aside _ _) (Locks.free_newly _ fresh)

theorem locked_lists (cachePlace : CachePlace p) (w : World α κ δ) :
    (locked p w).lists = w.lists := by
  unfold locked
  split
  · rfl
  · exact (cachePlace.aside _ _).lists

theorem locked_objects (cachePlace : CachePlace p) (w : World α κ δ) :
    (locked p w).objects = w.objects := by
  unfold locked
  split
  · rfl
  · exact (cachePlace.aside _ _).objects

variable [Diary δ] [DecidableEq K] {u v : World α κ δ} {key : K} {build : Work α κ δ (Built α)}

theorem fetch_eq (usable : (p.get w).disposed = false) :
    CachedView.fetch p key build w = Host.holding ListRefusal.ofLock (ownLock p w) .upgradeable
      (CachedView.serve p (ownLock p w) key build) (locked p w) := CachedView.fetch_eq usable

theorem upgrade_mapped {lock : LockId} {r : Outcome LockRefusal Unit}
    (tried : Host.upgrade lock u = (r, v)) :
    ((Host.upgrade lock).mapError ListRefusal.ofLock : Work α κ δ Unit) u =
      (r.mapError (Fault.map ListRefusal.ofLock), v) := by
  simp only [Act.mapError, tried]

theorem serve_leaves (cachePlace : CachePlace p) (reads : Reads build) {lock : LockId}
    (before : Aside [lock] v u) (key : K) :
    (Aside [lock] v (CachedView.serve p lock key build u).2 ∧
      SameViews u (CachedView.serve p lock key build u).2) ∨
    ∃ x b, Aside [lock] v x ∧ SameViews u x ∧ (build x).1 = .ok b ∧
      Aside [lock] v (CachedView.serve p lock key build u).2 ∧
      SameViews (p.set { p.get u with entry := some (key, b) } u)
        (CachedView.serve p lock key build u).2 := by
  unfold CachedView.serve
  rw [Act.bind_of_ok (show Act.read p.get u = (.ok (p.get u), u) from rfl)]
  cases (p.get u).hit? key with
  | some view => exact .inl ⟨before, sameViews_refl u⟩
  | none =>
    dsimp only
    unfold CachedView.rebuild
    rcases tried : Host.upgrade lock u with ⟨fault | _, x⟩
    all_goals
      have views := unviewed_upgrade lock u
      rw [tried] at views
    · left
      rw [Act.bind_of_error (upgrade_mapped tried)]
      exact ⟨of_upgrade_error before tried, views⟩
    · have aside := of_upgrade_ok before tried
      have read := reads x
      rw [Act.bind_of_ok (upgrade_mapped tried)]
      rcases built : build x with ⟨fault | b, y⟩
      all_goals rw [built] at read
      · left
        rw [Act.bind_of_error built]
        exact ⟨aside_then aside read.toAside, sameViews_trans views read.toSameViews⟩
      · right
        have same := sameViews_trans views read.toSameViews
        have modified : p.modify (fun c => { c with entry := some (key, b) }) y =
            p.set { p.get u with entry := some (key, b) } y := by
          rw [Place.modify, cachePlace.seen same]
        have done : (do
            let view ← build
            Act.modify (p.modify fun c => { c with entry := some (key, view) })
            Act.modify (Journal.note .viewRebuilt)
            return view : Work α κ δ (Built α)) x =
            (.ok b, Journal.note .viewRebuilt
              (p.set { p.get u with entry := some (key, b) } y)) := by
          rw [Act.bind_of_ok built, ← modified]
          rfl
        rw [done]
        have noted := aside_note .viewRebuilt (p.set { p.get u with entry := some (key, b) } y)
        refine ⟨x, b, aside, views, by rw [built], ?_, ?_⟩
        · exact aside_then (aside_then aside read.toAside) (aside_trans (cachePlace.aside ..) noted)
        · exact sameViews_trans (cachePlace.views _ same) (still_note _ _).toSameViews

theorem fetch_leaves (cachePlace : CachePlace p) (reads : Reads build)
    (usable : (p.get w).disposed = false) (key : K) :
    Still [] (locked p w) (CachedView.fetch p key build w).2 ∨
    ∃ x b, Still [ownLock p w] (locked p w) x ∧ (build x).1 = .ok b ∧
      Aside [] (locked p w) (CachedView.fetch p key build w).2 ∧
      SameViews (p.set { p.get (locked p w) with entry := some (key, b) } (locked p w))
        (CachedView.fetch p key build w).2 := by
  rw [fetch_eq usable]
  have views := unviewed_acquire (ownLock p w) .upgradeable (locked p w)
  obtain ⟨fault, u, failed, outcome⟩ | ⟨u, done, outcome⟩ := holding_cases ListRefusal.ofLock
    (ownLock p w) .upgradeable (CachedView.serve p (ownLock p w) key build) (locked p w)
  · rw [failed] at views
    rw [outcome]
    exact .inl ⟨of_acquire_error failed, views⟩
  · rw [done] at views
    rw [outcome]
    obtain ⟨v, inside⟩ := inside_of_acquire done
    obtain ⟨aside, same⟩ | ⟨x, b, aside, same, built, entered, shown⟩ :=
      serve_leaves cachePlace reads inside.taken key
    · exact .inl ⟨(release_framed framed_id inside aside).1,
        sameViews_trans (sameViews_trans views same) ⟨rfl, rfl⟩⟩
    · rw [cachePlace.seen views] at shown
      refine .inr ⟨x, b, ?_, built, ?_⟩
      · exact ⟨aside_trans inside.before aside, sameViews_trans views same⟩
      · have put := cachePlace.views { p.get (locked p w) with entry := some (key, b) } views
        exact ⟨(release_framed framed_id inside entered).1,
          sameViews_trans (sameViews_trans put shown) ⟨rfl, rfl⟩⟩

/-- All that a fetch leaves behind is another cache, with its lock and perhaps an entry for what was
built. -/
theorem fetch_changes (cachePlace : CachePlace p) (reads : Reads build)
    (usable : (p.get w).disposed = false) (key : K) :
    Aside [] (locked p w) (CachedView.fetch p key build w).2 ∧
    ∃ c, c.disposed = false ∧ c.lock = some (ownLock p w) ∧
      SameViews (p.set c w) (CachedView.fetch p key build w).2 ∧
      (c.entry = (p.get w).entry ∨ ∃ x b, Still [ownLock p w] (locked p w) x ∧
        (build x).1 = .ok b ∧ c.entry = some (key, b)) := by
  obtain ⟨given, views⟩ := cache_locked cachePlace usable
  obtain still | ⟨x, b, within, built, aside, shown⟩ := fetch_leaves cachePlace reads usable key
  · exact ⟨still.toAside, { p.get w with lock := some (ownLock p w) }, usable, rfl,
      sameViews_trans views still.toSameViews, .inl rfl⟩
  · have entered := cachePlace.views { p.get (locked p w) with entry := some (key, b) } views
    rw [cachePlace.set_set] at entered
    refine ⟨aside, _, ?_, ?_, sameViews_trans entered shown, .inr ⟨x, b, within, built, rfl⟩⟩
    all_goals rw [given]
    exact usable

theorem fetch_of_free (cachePlace : CachePlace p) (usable : (p.get w).disposed = false)
    (free : (locked p w).locks.Free (locked p w).thread (ownLock p w)) (key : K)
    (build : Work α κ δ (Built α)) :
    match (p.get w).hit? key with
    | some b => (CachedView.fetch p key build w).1 = .ok b
    | none => ∃ x, Still [ownLock p w] (locked p w) x ∧
      (CachedView.fetch p key build w).1 = (build x).1 := by
  have kept : (p.get w).hit? key = (p.get (locked p w)).hit? key := by
    rw [(cache_locked cachePlace usable).1]
    rfl
  rw [kept]
  obtain ⟨u, x, done, upgraded⟩ := upgrade_of_free free
  have taken := still_acquired done
  rw [fetch_eq usable]
  simp only [Host.holding, done, Act.ensuring]
  unfold CachedView.serve
  rw [Act.bind_of_ok (show Act.read p.get u = (.ok (p.get u), u) from rfl),
    cachePlace.seen taken.toSameViews]
  cases (p.get (locked p w)).hit? key with
  | some b => rfl
  | none =>
    have views := unviewed_upgrade (ownLock p w) u
    rw [upgraded] at views
    refine ⟨x, ⟨of_upgrade_ok taken.toAside upgraded, sameViews_trans taken.toSameViews views⟩, ?_⟩
    dsimp only
    rw [CachedView.rebuild, Act.bind_of_ok (upgrade_mapped upgraded)]
    rcases built : build x with ⟨fault | b, y⟩
    · rw [Act.bind_of_error built]
    · rw [Act.bind_of_ok built]
      rfl

end

section
variable {V : Type} {p : Place (World α κ δ) (CachedView (UInt64 × V) (Built α))}
  {v w : World α κ δ} {r : Recipe V α} {lock : LockId}

theorem onward_still {taken : List LockId} (still : Still taken w v)
    (made : ∀ id ∈ taken, id < w.locks.next) : Onward w v where
  contexts := Nat.le_of_eq still.nextContext.symm
  locks := Nat.le_of_eq still.locks.next.symm
  ledger old id member := by
    rw [still.thread, still.locks.ledger, List.mem_append] at member
    rw [still.locks.next]
    exact member.elim (old id) (made id)
  lists _ m there := .inl ⟨m, still.lists ▸ there, UndoableList.later_refl m⟩

theorem onward_createLock (settings : Patience) (w : World α κ δ) :
    Onward w { w with locks := (w.locks.create settings).2 } where
  contexts := Nat.le_refl _
  locks := Nat.le_succ _
  ledger old id member := Nat.lt_succ_of_lt (old id member)
  lists _ m there := .inl ⟨m, there, UndoableList.later_refl m⟩

theorem onward_viewCreated {u : World α κ δ}
    (followed : Still [] { w with nextView := w.nextView + 1 } u) (settings : Patience) :
    Onward w { u with locks := (u.locks.create settings).2 } := by
  have numbered : Onward w { w with nextView := w.nextView + 1 } :=
    onward_congr (onward_refl w) rfl rfl rfl rfl
  have begun := onward_trans numbered (onward_aside followed.toAside)
  exact onward_trans begun (onward_createLock settings u)

theorem onward_locked (cachePlace : CachePlace p) (w : World α κ δ) : Onward w (locked p w) := by
  unfold locked
  split
  · exact onward_refl w
  · exact onward_trans (onward_createLock _ w) (onward_aside (cachePlace.aside _ _))

theorem kept_locked (cachePlace : CachePlace p) (grounded : Grounded w)
    (kept : Kept w lock r (p.get w)) :
    Kept (locked p w) lock r { p.get w with lock := some (ownLock p w) } := by
  have older := kept_onward kept (onward_locked cachePlace w)
  refine ⟨older.made, fun own has => ?_, older.entry⟩
  obtain rfl := Option.some.inj has
  cases had : (p.get w).lock with
  | some own =>
    rw [show ownLock p w = own by rw [ownLock, had]; rfl]
    exact older.own own had
  | none =>
    have mine : ownLock p w = w.locks.next := by rw [ownLock, had]; rfl
    have next : (locked p w).locks.next = w.locks.next + 1 := by
      rw [locked, had]
      exact (cachePlace.aside _ _).locks.next
    rw [mine, next, locked_lists cachePlace]
    refine ⟨Nat.lt_succ_self _, Nat.ne_of_gt kept.made, fun id l here => ?_⟩
    exact Nat.ne_of_lt (grounded.enrolled id l here).2

variable [Diary δ] {build : Work α κ δ (Built α)}

theorem fetch_keeps [DecidableEq V] (cachePlace : CachePlace p) (reads : Reads build)
    (w : World α κ δ)
    (key : UInt64 × V) :
    let u := (CachedView.fetch p key build w).2
    Onward w u ∧ ∃ c, SameViews (p.set c w) u ∧
      ∀ lock (r : Recipe V α), Grounded w → (word r.generation, r.key w.version) = key →
        Kept w lock r (p.get w) →
        (∀ x b, Still [ownLock p w] (locked p w) x → (build x).1 = .ok b →
          (∀ c ∈ r.places, ∃ l, x.lists.get? c = some l) ∧ r.makes x.contentsOf b.items) →
        Kept u lock r c := by
  intro u
  cases usable : (p.get w).disposed with
  | true =>
    have same : u = w := congrArg Prod.snd (CachedView.fetch_gone usable)
    rw [same]
    exact ⟨onward_refl w, p.get w, by rw [cachePlace.set_get]; exact sameViews_refl w,
      fun _ _ _ _ kept _ => kept⟩
  | false =>
    obtain ⟨given, views⟩ := cache_locked cachePlace usable
    have begun := onward_locked cachePlace w
    obtain still | ⟨x, b, still, built, aside, shown⟩ := fetch_leaves cachePlace reads usable key
    · have moved := onward_still still (by simp)
      refine ⟨onward_trans begun moved, _, sameViews_trans views still.toSameViews, ?_⟩
      intro lock r grounded _ kept _
      exact kept_onward (kept_locked cachePlace grounded kept) moved
    · have moved := onward_aside aside
      have entered := cachePlace.views { p.get (locked p w) with entry := some (key, b) } views
      rw [cachePlace.set_set] at entered
      refine ⟨onward_trans begun moved, _, sameViews_trans entered shown, ?_⟩
      intro lock r grounded present kept answers
      obtain ⟨there, made⟩ := answers x b still built
      have versions := version_congr (locked_lists cachePlace w)
      have recalls : Recalls (locked p w) r key b.items := by
        rw [← present, ← versions]
        refine recalls_made (grounded_onward grounded begun) ?_ ?_
        · exact still.lists ▸ there
        · exact contentsOf_congr still.lists ▸ made
      rw [given]
      exact kept_onward (kept_entered (kept_locked cachePlace grounded kept) recalls) moved

theorem entry_of_hit [DecidableEq V] {c : CachedView (UInt64 × V) (Built α)} {key : UInt64 × V}
    {b : Built α} (hit : c.hit? key = some b) : c.entry = some (key, b) := by
  unfold CachedView.hit? at hit
  split at hit
  · cases hit
  · rename_i cached built entry
    split at hit
    · rename_i same
      obtain rfl := Option.some.inj hit
      rw [entry, same]
    · cases hit

/-- A fetch that no lock stops answers what the recipe makes of the present contents, or else what
building comes to. -/
theorem fetch_answers [DecidableEq V] (cachePlace : CachePlace p) (kept : Kept w lock r (p.get w))
    (usable : (p.get w).disposed = false)
    (free : (locked p w).locks.Free (locked p w).thread (ownLock p w))
    (few : ∀ n ∈ w.counters r, n < 2 ^ 64) (present : ∀ c ∈ r.places, ∃ l, w.lists.get? c = some l)
    (build : Work α κ δ (Built α)) :
    (∃ b, (CachedView.fetch p (word r.generation, r.key w.version) build w).1 = .ok b ∧
      r.makes w.contentsOf b.items) ∨
    ∃ x, Still [ownLock p w] (locked p w) x ∧
      (CachedView.fetch p (word r.generation, r.key w.version) build w).1 = (build x).1 := by
  have answered := fetch_of_free cachePlace usable free (word r.generation, r.key w.version) build
  split at answered
  · rename_i b hit
    have recalls := kept.entry usable _ b (entry_of_hit hit)
    exact .inl ⟨b, answered, makes_of_recalls recalls few present⟩
  · exact .inr answered

end

section
variable [Diary δ] {p : Place (World α κ δ) (CachedView K (Built α))} {w : World α κ δ}

theorem holding_leaves {β : Type} {m : Work α κ δ β} (aside : ∀ x, Aside [] x (m x).2)
    (lock : LockId) (access : Access) (w : World α κ δ) :
    (∃ fault u, Still [] w u ∧
      Host.holding ListRefusal.ofLock lock access m w = (.error fault, u)) ∨
    ∃ x u, SameViews w x ∧ Aside [] w u ∧ SameViews (m x).2 u ∧
      Host.holding ListRefusal.ofLock lock access m w = ((m x).1, u) := by
  have seen := unviewed_acquire lock access w
  obtain ⟨fault, u, failed, outcome⟩ | ⟨u, done, outcome⟩ :=
    holding_cases ListRefusal.ofLock lock access m w
  · rw [failed] at seen
    exact .inl ⟨_, u, ⟨of_acquire_error failed, seen⟩, outcome⟩
  · rw [done] at seen
    obtain ⟨v, inside⟩ := inside_of_acquire done
    have released := (release_framed framed_id inside (aside_then inside.taken (aside u))).1
    exact .inr ⟨u, _, seen, released, ⟨rfl, rfl⟩, outcome⟩

theorem invalidate_leaves (cachePlace : CachePlace p) (w : World α κ δ) :
    let u := (CachedView.invalidate p w).2
    Aside [] w u ∧ (SameViews w u ∨
      (p.get w).disposed = false ∧ SameViews (p.set { p.get w with entry := none } w) u) := by
  intro u
  cases usable : (p.get w).disposed with
  | true =>
    rw [show u = w from congrArg Prod.snd (CachedView.invalidate_gone usable)]
    exact ⟨aside_refl w, .inl (sameViews_refl w)⟩
  | false =>
    cases has : (p.get w).lock with
    | none =>
      rw [show u = w from congrArg Prod.snd (CachedView.invalidate_unmade usable has)]
      exact ⟨aside_refl w, .inl (sameViews_refl w)⟩
    | some own =>
      have begun := CachedView.invalidate_made usable has
      obtain ⟨fault, x, still, outcome⟩ | ⟨y, x, seen, aside, shown, outcome⟩ :=
        holding_leaves (m := Act.modify (p.modify fun c => { c with entry := none }))
          (fun x => cachePlace.aside _ x) own .write w
      · rw [Act.bind_of_error outcome] at begun
        rw [show u = x from congrArg Prod.snd begun]
        exact ⟨still.toAside, .inl still.toSameViews⟩
      · rw [Act.bind_of_ok outcome] at begun
        have noted : u = Journal.note .viewInvalidated x := congrArg Prod.snd begun
        have put : SameViews (p.set { p.get w with entry := none } w)
            (p.set { p.get y with entry := none } y) := by
          rw [cachePlace.seen seen]
          exact cachePlace.views _ seen
        rw [noted]
        exact ⟨aside_trans aside (aside_note _ x), .inr ⟨rfl, sameViews_trans put
          (sameViews_trans shown (still_note _ x).toSameViews)⟩⟩

end

section
variable [Diary δ] {V : Type} {p : Place (World α κ δ) (CachedView (UInt64 × V) (Built α))}
  {w : World α κ δ}

theorem kept_invalidated (cachePlace : CachePlace p) (w : World α κ δ) :
    let u := (CachedView.invalidate p w).2
    Onward w u ∧ ∃ c, SameViews (p.set c w) u ∧
      ∀ lock (r : Recipe V α), Kept w lock r (p.get w) → Kept u lock r c := by
  obtain ⟨aside, same | ⟨-, dropped⟩⟩ := invalidate_leaves cachePlace w
  all_goals have moved := onward_aside aside
  · exact ⟨moved, p.get w, by rw [cachePlace.set_get]; exact same,
      fun _ _ kept => kept_onward kept moved⟩
  · exact ⟨moved, _, dropped, fun _ _ kept => kept_onward (kept_dropped kept) moved⟩

theorem kept_given_up (cachePlace : CachePlace p) (w : World α κ δ) :
    let u := (CachedView.dispose p w).2
    Onward w u ∧ ∃ c, SameViews (p.set c w) u ∧ c.disposed = true ∧
      ∀ lock (r : Recipe V α), Kept w lock r (p.get w) → Kept u lock r c := by
  intro u
  cases closed : (p.get w).disposed with
  | true =>
    have same : u = w := congrArg Prod.snd (CachedView.dispose_gone closed)
    rw [same]
    exact ⟨onward_refl w, p.get w, by rw [cachePlace.set_get]; exact sameViews_refl w, closed,
      fun _ _ kept => kept⟩
  | false =>
    have moved : Onward w u ∧ SameViews (p.set { p.get w with disposed := true } w) u := by
      have put := onward_aside (cachePlace.aside { p.get w with disposed := true } w)
      cases has : (p.get w).lock with
      | none =>
        have given : u = p.set { p.get w with disposed := true } w := by
          simp [u, CachedView.dispose, closed, has]
        rw [given]
        exact ⟨put, sameViews_refl _⟩
      | some own =>
        have given : u = { p.set { p.get w with disposed := true } w with locks :=
            ((p.set { p.get w with disposed := true } w).locks.dispose own).2 } := by
          simp [u, CachedView.dispose, closed, has]
          rfl
        rw [given]
        exact ⟨onward_trans put (onward_disposeLock own _), ⟨rfl, rfl⟩⟩
    refine ⟨moved.1, _, moved.2, rfl, fun lock r kept => kept_onward ?_ moved.1⟩
    exact ⟨kept.made, kept.own, fun usable => by cases usable⟩

end

end UndoableLists.World
