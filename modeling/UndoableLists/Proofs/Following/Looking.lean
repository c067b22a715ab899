import UndoableLists.Proofs.Following.ViewCopies

/-!
Looking at views, and dropping what they have cached. Main statements: neither is anything to those
who follow another view or the same one; and where all locks are free, whoever looks at a view that
has cached nothing wrong sees what is to be seen there.
-/
namespace UndoableLists.World
variable {K α κ δ : Type}

structure CacheOf (h : Handle) (p : Place (World α κ δ) (CachedView K (Built α))) : Prop
    extends CachePlace p where
  lock : ∀ w, w.cacheLock h = (p.get w).lock
  items : ∀ w, w.cached h = (p.get w).entry.map fun e => e.2.items
  apart : ∀ {k}, k ≠ h → ∀ c w,
    (p.set c w).cacheLock k = w.cacheLock k ∧ (p.set c w).cached k = w.cached k
  filters : ∀ {c w}, c.disposed = (p.get w).disposed → ∀ id,
    ((p.set c w).filters.get? id).map FilteredView.bare =
      (w.filters.get? id).map FilteredView.bare
  merges : ∀ {c w}, c.disposed = (p.get w).disposed → ∀ id,
    ((p.set c w).merges.get? id).map MergedList.bare = (w.merges.get? id).map MergedList.bare
  clientState : ∀ c w, World.clientState (p.set c w) = World.clientState w

theorem filterCacheOf (id : ViewId) :
    CacheOf (.filter id) (filterCache id : Place (World α κ δ) _) where
  toCachePlace := filterCachePlace id
  lock _ := rfl
  items _ := rfl
  apart {k} differs c w := by
    cases k with
    | filter other =>
      have apart : other ≠ id := fun same => differs (congrArg Handle.filter same)
      simp [cacheLock, cached, filterCache, Table.get?_modify, apart]
    | _ => exact ⟨rfl, rfl⟩
  filters {c w} disposed other := by
    simp only [filterCache, Table.get?_modify]
    split
    · rename_i same
      subst same
      cases here : w.filters.get? other with
      | none => rfl
      | some f =>
        rw [filterCache_present here] at disposed
        simp [FilteredView.bare, disposed]
    · rfl
  merges _ _ := rfl
  clientState _ _ := rfl

theorem mergeCacheOf (id : ViewId) :
    CacheOf (.merge id) (mergeCache id : Place (World α κ δ) _) where
  toCachePlace := mergeCachePlace id
  lock _ := rfl
  items _ := rfl
  apart {k} differs c w := by
    cases k with
    | merge other =>
      have apart : other ≠ id := fun same => differs (congrArg Handle.merge same)
      simp [cacheLock, cached, mergeCache, Table.get?_modify, apart]
    | _ => exact ⟨rfl, rfl⟩
  filters _ _ := rfl
  merges {c w} disposed other := by
    simp only [mergeCache, Table.get?_modify]
    split
    · rename_i same
      subst same
      cases here : w.merges.get? other with
      | none => rfl
      | some m =>
        rw [mergeCache_present here] at disposed
        simp [MergedList.bare, disposed]
    · rfl
  clientState _ _ := rfl

section
variable {h k : Handle} {p : Place (World α κ δ) (CachedView K (Built α))} {v w : World α κ δ}

theorem cache_seen (views : SameViews w v) (h : Handle) :
    v.cacheLock h = w.cacheLock h ∧ v.cached h = w.cached h := by
  cases h <;>
    simp only [cacheLock, cached, filterCache, mergeCache, views.filters, views.merges, and_self]

theorem unseen_withFilter {look : World α κ δ → β} {γ : Type}
    {body : FilteredView α → Work α κ δ γ} (id : ViewId) (work : ∀ f, Unseen look (body f)) :
    Unseen look (withFilter id body) := by
  intro w
  unfold withFilter
  split
  · rfl
  · exact work _ w

theorem unseen_withMerge {look : World α κ δ → β} {γ : Type}
    {body : MergedList α → Work α κ δ γ} (id : ViewId) (work : ∀ m, Unseen look (body m)) :
    Unseen look (withMerge id body) := by
  intro w
  unfold withMerge
  split
  · rfl
  · exact work _ w

variable [Diary δ]

theorem unseen_fetch [DecidableEq K] {look : World α κ δ → β} (listFree : ListFree look)
    (quiet : ∀ c w, look (p.set c w) = look w) {build : Work α κ δ (Built α)}
    (unseen : Unseen look build) (key : K) : Unseen look (CachedView.fetch p key build) := by
  have locked : Unseen look (CachedView.theLock p) := by
    intro w
    unfold CachedView.theLock
    dsimp only
    split
    · rfl
    · split
      · rfl
      · exact (quiet _ _).trans (listFree.locks w _ _)
  have rebuilt (lock : LockId) : Unseen look (CachedView.rebuild p lock key build) :=
    unseen_bind (unseen_mapError _ (unseen_upgrade listFree lock)) fun _ =>
      unseen_bind unseen fun _ => unseen_bind (unseen_modify fun w => quiet _ w) fun _ =>
        unseen_bind (unseen_modify fun w => listFree.noted _ w) fun _ => unseen_pure _
  refine unseen_bind locked fun lock => unseen_holding listFree (unseen_bind (unseen_read _) ?_)
  intro c
  cases c.hit? key with
  | some view => exact unseen_pure view
  | none => exact rebuilt lock

theorem unseen_invalidate {look : World α κ δ → β} (listFree : ListFree look)
    (quiet : ∀ c w, look (p.set c w) = look w) : Unseen look (CachedView.invalidate p) := by
  refine unseen_bind (unseen_read _) fun c => ?_
  cases c.disposed with
  | true => exact fun _ => rfl
  | false =>
    cases c.lock with
    | none => exact unseen_pure _
    | some lock =>
      exact unseen_bind (unseen_holding listFree (unseen_modify fun w => quiet _ w)) fun _ =>
        unseen_modify fun w => listFree.noted _ w

end

section
variable [Element α] {value : α → Value} {h k : Handle} {x : SubscriberId}
  {p : Place (World α κ (ViewCopies α)) (CachedView K (Built α))} {u v w : World α κ (ViewCopies α)}

theorem unmoved_cached (cache : CacheOf k p) (before : Unmoved value h x u w)
    {c : CachedView K (Built α)} (views : SameViews (p.set c w) v)
    (disposed : c.disposed = (p.get w).disposed) (lists : v.lists = w.lists)
    (same : clientState v = clientState w)
    (free : ∀ lock, w.locks.Free w.thread lock → v.locks.Free v.thread lock)
    (run : Run u → Run v) (tended : k = h → Run w → Tended h w → Tended h v)
    (truthful : k = h → Truthful value h w →
      ∀ xs, v.cached h = some xs → w.shown value h = .ok xs) :
    Unmoved value h x u v := by
  have filters (id : ViewId) : (v.filters.get? id).map FilteredView.bare =
      (w.filters.get? id).map FilteredView.bare := by
    rw [views.filters, cache.filters disposed]
  have merges (id : ViewId) : (v.merges.get? id).map MergedList.bare =
      (w.merges.get? id).map MergedList.bare := by
    rw [views.merges, cache.merges disposed]
  have shows := shown_eq (contentsOf_congr lists) filters merges value h
  have client : v.client = w.client := client_of_clientState same
  have other (differs : k ≠ h) : v.cacheLock h = w.cacheLock h ∧ v.cached h = w.cached h := by
    obtain ⟨lock, items⟩ := cache_seen views h
    obtain ⟨lock', items'⟩ := cache.apart (Ne.symm differs) c w
    exact ⟨lock.trans lock', items.trans items'⟩
  refine ⟨⟨lists.trans before.lists, fun id => (filters id).trans (before.filters id),
    fun id => (merges id).trans (before.merges id),
    (held_of_clientState same).trans before.held,
    fun k t => (living_of_clientState same k t).trans (before.living k t),
    (next_of_clientState same).trans before.next,
    fun lock unheld => free lock (before.free lock unheld), fun run was => ?_, fun was => ?_, run,
    client ▸ before.told⟩, client ▸ before.copy⟩
  · have between := before.tended run was
    by_cases mine : k = h
    · exact tended mine (before.run run) between
    · obtain ⟨lock, items⟩ := other mine
      exact ⟨fun own has => free own (between.free own (lock ▸ has)),
        fun without => items.trans (between.vacant (lock.symm.trans without))⟩
  · intro xs holds
    rw [shows]
    by_cases mine : k = h
    · exact truthful mine (before.truthful was) xs holds
    · exact before.truthful was xs ((other mine).2.symm.trans holds)

theorem unmoved_fetch [DecidableEq K] (cache : CacheOf k p) (before : Unmoved value h x u w)
    {build : Work α κ (ViewCopies α) (Built α)} (reads : Reads build)
    (unseen : Unseen clientState build)
    (key : K) (run : Run u → Run (CachedView.fetch p key build w).2)
    (builds : k = h → ∀ y b, Still [ownLock p w] (locked p w) y → (build y).1 = .ok b →
      w.shown value h = .ok b.items) :
    Unmoved value h x u (CachedView.fetch p key build w).2 := by
  cases usable : (p.get w).disposed with
  | true =>
    rw [CachedView.fetch_gone usable]
    exact before
  | false =>
    have same := unseen_fetch listFree_clientState cache.clientState unseen key w
    obtain ⟨aside, c, stays, has, views, entry⟩ :=
      fetch_changes cache.toCachePlace reads usable key
    have lists := aside.lists.trans (locked_lists cache.toCachePlace w)
    have disposed : c.disposed = (p.get w).disposed := stays.trans usable.symm
    have free (lock : LockId) (free : w.locks.Free w.thread lock) :=
      free_aside aside (free_locked cache.toCachePlace free)
    have put := cache.get_set c usable
    rw [← cache.seen views] at put
    apply unmoved_cached cache before views disposed lists same free run
    · rintro rfl run tended
      have grounded := (coherent_of_run (Element.current w.objects) run).grounded
      have fresh : w.locks.next ∉ w.locks.heldBy w.thread :=
        fun member => absurd (grounded.ledger _ member) (Nat.lt_irrefl _)
      have own := free_ownLock cache.toCachePlace fresh fun own mine =>
        tended.free own ((cache.lock w).trans mine)
      constructor
      · intro lock mine
        rw [cache.lock, put, has] at mine
        obtain rfl := Option.some.inj mine
        exact free_aside aside own
      · intro without
        rw [cache.lock, put, has] at without
        cases without
    · rintro rfl truthful xs holds
      rw [cache.items, put] at holds
      obtain kept | ⟨y, b, still, built, entered⟩ := entry
      · rw [kept, ← cache.items] at holds
        exact truthful xs holds
      · rw [entered] at holds
        obtain rfl := Option.some.inj holds
        exact builds rfl y b still built

omit [Element α] in
theorem clientState_invalidated (cache : CacheOf k p) (w : World α κ (ViewCopies α)) :
    clientState (CachedView.invalidate p w).2 = clientState w :=
  unseen_invalidate listFree_clientState cache.clientState w

theorem unmoved_invalidate (cache : CacheOf k p)
    (run : Run w → Run (CachedView.invalidate p w).2) :
    Unmoved value h x w (CachedView.invalidate p w).2 := by
  have same := clientState_invalidated cache w
  obtain ⟨aside, seen | ⟨usable, dropped⟩⟩ := invalidate_leaves cache.toCachePlace w
  · exact unmoved_still ⟨aside, seen⟩ same
  · have put := cache.get_set { p.get w with entry := none } usable
    rw [← cache.seen dropped] at put
    apply unmoved_cached cache (unmoved_refl w) dropped rfl aside.lists same
      (fun _ => free_aside aside) run
    · rintro rfl _ tended
      constructor
      · intro own has
        rw [cache.lock, put, ← cache.lock] at has
        exact free_aside aside (tended.free own has)
      · intro _
        rw [cache.items, put]
        rfl
    · rintro rfl _ xs holds
      rw [cache.items, put] at holds
      cases holds

omit [Element α] in
theorem invalidate_drops (cache : CacheOf h p) (usable : (p.get w).disposed = false)
    (tended : Tended h w) : (CachedView.invalidate p w).1 = .ok () ∧
      (CachedView.invalidate p w).2.cached h = none := by
  cases has : (p.get w).lock with
  | none =>
    rw [CachedView.invalidate_unmade usable has]
    exact ⟨rfl, tended.vacant ((cache.lock w).trans has)⟩
  | some own =>
    have taken : Host.acquire own .write w = _ :=
      acquire_of_free (tended.free own ((cache.lock w).trans has))
    obtain ⟨u, named⟩ : ∃ u, u = { w with locks := w.locks.grant w.thread own .write } := ⟨_, rfl⟩
    rw [← named] at taken
    have seen : p.get u = p.get w := cache.seen (named ▸ ⟨rfl, rfl⟩)
    have put : p.get (p.set { p.get u with entry := none } u) = _ :=
      cache.get_set _ (seen ▸ usable)
    have dropped : CachedView.invalidate p w = (.ok (), Journal.note .viewInvalidated
        (Host.releaseFor u.thread own (p.set { p.get u with entry := none } u))) := by
      rw [CachedView.invalidate_made usable has]
      simp only [Act.bind_apply, Host.holding, taken, Act.ensuring]
      rfl
    have released : SameViews (p.set { p.get u with entry := none } u)
        (CachedView.invalidate p w).2 := dropped ▸ ⟨rfl, rfl⟩
    rw [cache.items, cache.seen released, put, dropped]
    exact ⟨rfl, rfl⟩

end

def look [Element α] [Diary δ] : Handle → Work α κ δ (List α)
  | .list id => contents id
  | .filter id => return (← filteredItems id).items
  | .merge id => return (← mergedItems id).items

section
variable [Diary δ] {look : World α κ δ → β}

theorem unseen_readList {γ : Type} (listFree : ListFree look) (id : ListId)
    (f : UndoableList α → γ) : Unseen look (readList id f : Work α κ δ γ) :=
  unseen_withList id fun _ => unseen_holding listFree (unseen_withList id fun _ => unseen_pure _)

theorem unseen_contents (listFree : ListFree look) (id : ListId) :
    Unseen look (contents id : Work α κ δ (List α)) := unseen_readList listFree id _

theorem unseen_contentsOfAll (listFree : ListFree look) (ids : List ListId) :
    Unseen look (contentsOfAll ids : Work α κ δ (List α)) := by
  induction ids with
  | nil => exact unseen_pure _
  | cons id rest ih =>
    exact unseen_bind (unseen_contents listFree id) fun _ => unseen_bind ih fun _ => unseen_pure _

theorem unseen_filterOf (listFree : ListFree look) (id : ViewId) :
    Unseen look (filterOf id : Work α κ δ (Option Filter)) :=
  unseen_withFilter id fun _ =>
    unseen_holding listFree (unseen_withFilter id fun _ => unseen_pure _)

theorem unseen_slaveLists (listFree : ListFree look) (id : ViewId) :
    Unseen look (slaveLists id : Work α κ δ (List ListId)) :=
  unseen_withMerge id fun _ =>
    unseen_holding listFree (unseen_withMerge id fun _ => unseen_pure _)

/-- A look that sees nothing of caches either, nor of how often views were built. -/
structure Outside (look : World α κ δ → β) : Prop extends ListFree look where
  built : ∀ w builds, look { w with builds } = look w
  filterCache : ∀ id c w, look ((World.filterCache id).set c w) = look w
  mergeCache : ∀ id c w, look ((World.mergeCache id).set c w) = look w

theorem unseen_buildFiltered [Element α] (outside : Outside look) (id : ViewId)
    (f : FilteredView α) : Unseen look (buildFiltered id f : Work α κ δ (Built α)) := by
  refine unseen_bind (unseen_filterOf outside.toListFree id) fun filter =>
    unseen_bind (unseen_contents outside.toListFree f.base) fun items =>
      unseen_bind (fun w => ?_) fun _ w => outside.built w _
  unfold selected
  cases filter with
  | none => rfl
  | some filter =>
    dsimp only
    cases Filter.select (f.predicate filter) (Element.current w.objects) items <;> rfl

theorem unseen_buildMerged (outside : Outside look) (id : ViewId) (m : MergedList α) :
    Unseen look (buildMerged id m : Work α κ δ (Built α)) :=
  unseen_bind (unseen_contents outside.toListFree m.master) fun _ =>
    unseen_bind (unseen_slaveLists outside.toListFree id) fun slaves =>
      unseen_bind (unseen_contentsOfAll outside.toListFree slaves) fun _ w => outside.built w _

theorem unseen_mergedItems (outside : Outside look) (id : ViewId) :
    Unseen look (mergedItems id : Work α κ δ (Built α)) :=
  unseen_withMerge id fun m => unseen_bind (unseen_slaveLists outside.toListFree id) fun _ =>
    unseen_bind (unseen_read _) fun key =>
      unseen_fetch outside.toListFree (outside.mergeCache id) (unseen_buildMerged outside id m) key

theorem outside_clientState : Outside (clientState : World α κ (ViewCopies α) → _) :=
  { listFree_clientState with
    built := fun _ _ => rfl
    filterCache := fun _ _ _ => rfl
    mergeCache := fun _ _ _ => rfl }

end

section
variable [Element α] {value : α → Value} {h : Handle} {x : SubscriberId}
  {v w : World α κ (ViewCopies α)}

theorem unmoved_filteredItems (immutable : ∀ id, h = .filter id → Fixed value) (id : ViewId)
    (w : World α κ (ViewCopies α)) : Unmoved value h x w (filteredItems id w).2 := by
  have run : Run w → Run (filteredItems id w).2 := fun run => run.filter (.read id)
  cases here : w.filters.get? id with
  | none =>
    rw [filteredItems, withFilter_absent here]
    exact unmoved_refl w
  | some f =>
    rw [filteredItems_eq value here] at run ⊢
    apply unmoved_fetch (filterCacheOf id) (unmoved_refl w) (reads_buildFiltered id f)
      (unseen_buildFiltered outside_clientState id f) _ run
    rintro rfl y b still built
    obtain ⟨c, standing⟩ := filter_locked here
    have there := still.filters ▸ standing
    obtain ⟨-, made⟩ := buildFiltered_answers (f := { f with cache := c }) there rfl built
    have lists := still.lists.trans (locked_lists (filterCachePlace id) w)
    rw [shown, here, ← contentsOf_congr lists]
    exact made (immutable id rfl)

theorem unmoved_mergedItems (id : ViewId) (w : World α κ (ViewCopies α)) :
    Unmoved value h x w (mergedItems id w).2 := by
  have run : Run w → Run (mergedItems id w).2 := fun run => run.merge (.read id)
  cases here : w.merges.get? id with
  | none =>
    rw [mergedItems, withMerge_absent here]
    exact unmoved_refl w
  | some m =>
    have same := unseen_slaveLists listFree_clientState id w
    obtain ⟨y, seen, there, still, ⟨fault, failed⟩ | reads⟩ := mergedItems_cases here
    all_goals rw [← seen] at same
    · rw [failed]
      exact unmoved_still still same
    · rw [reads] at run ⊢
      apply unmoved_fetch (mergeCacheOf id) (unmoved_still still same) (reads_buildMerged id m)
        (unseen_buildMerged outside_clientState id m) _ run
      rintro rfl z b within built
      obtain ⟨c, standing⟩ := merge_locked there
      obtain ⟨-, made⟩ := buildMerged_answers (g := { m with cache := c })
        (within.merges ▸ standing) rfl built
      have lists := within.lists.trans (locked_lists (mergeCachePlace id) y)
      rw [shown, there, ← contentsOf_congr lists, made]
      rfl

omit [Element α] in
theorem items_returned (m : Work α κ (ViewCopies α) (Built α)) (w : World α κ (ViewCopies α)) :
    (do return (← m).items : Work α κ (ViewCopies α) (List α)) w =
      ((m w).1.map Built.items, (m w).2) := by
  rw [Act.bind_apply]
  rcases m w with ⟨_ | b, v⟩ <;> rfl

theorem unmoved_look (immutable : ∀ id, h = .filter id → Fixed value) (k : Handle)
    (w : World α κ (ViewCopies α)) : Unmoved value h x w (look k w).2 := by
  cases k with
  | list id => exact unmoved_still (reads_contents id w) (unseen_contents listFree_clientState id w)
  | filter id =>
    rw [look, items_returned]
    exact unmoved_filteredItems immutable id w
  | merge id =>
    rw [look, items_returned]
    exact unmoved_mergedItems id w

end

/-- The view can be read: neither it nor a list that it shows is disposed of, and the locks are
free. -/
def Open (w : World α κ δ) : Handle → Prop
  | .list _ => False
  | .filter id => ∃ f l, FilterReadable w id f l
  | .merge id => ∃ m, MergeReadable w id m

theorem open_follows {h : Handle} {v w : World α κ δ} (views : SameViews w v)
    (lists : ∀ c l, w.lists.get? c = some l → w.locks.Free w.thread l.lock →
      ∃ m, v.lists.get? c = some m ∧ v.locks.Free v.thread m.lock)
    (free : ∀ lock, w.locks.Free w.thread lock → v.locks.Free v.thread lock)
    (readable : w.Open h) : v.Open h := by
  cases h with
  | list id => exact readable
  | filter id =>
    obtain ⟨f, l, readable⟩ := readable
    obtain ⟨m, there, unlocked⟩ := lists f.base l readable.base readable.free
    exact ⟨f, m, views.filters ▸ readable.view, there, readable.usable, unlocked,
      free _ readable.unlocked, fun own has => free own (readable.own own has)⟩
  | merge id =>
    obtain ⟨m, readable⟩ := readable
    refine ⟨m, views.merges ▸ readable.view, readable.usable, fun place member => ?_,
      free _ readable.unlocked, fun own has => free own (readable.own own has)⟩
    obtain ⟨l, here, unlocked⟩ := readable.free place member
    exact lists place l here unlocked

theorem open_same {h : Handle} {v w : World α κ δ} (readable : w.Open h) (views : SameViews w v)
    (lists : v.lists = w.lists) (locks : v.locks = w.locks) (thread : v.thread = w.thread) :
    v.Open h :=
  have free (lock : LockId) (free : w.locks.Free w.thread lock) : v.locks.Free v.thread lock := by
    rw [locks, thread]
    exact free
  open_follows views (fun _ l here unlocked => ⟨l, lists ▸ here, free _ unlocked⟩) free readable

section
variable [Element α] {value : α → Value} {h : Handle} {x : SubscriberId} {id : ViewId}
  {v w : World α κ (ViewCopies α)}

theorem filter_alike (alike : Alike value h w v) {f : FilteredView α}
    (here : w.filters.get? id = some f) :
    ∃ c, v.filters.get? id = some { f with cache := c } ∧ c.disposed = f.cache.disposed := by
  have same := alike.filters id
  rw [here] at same
  obtain ⟨g, there, bare⟩ := Option.map_eq_some_iff.mp same
  have disposed := congrArg (fun f : FilteredView α => f.cache.disposed) bare
  obtain ⟨base, lock, predicate, filter, generation, cache, subscriptions⟩ := g
  simp only [FilteredView.bare, FilteredView.mk.injEq] at bare
  obtain ⟨rfl, rfl, rfl, rfl, rfl, -, rfl⟩ := bare
  exact ⟨cache, there, disposed⟩

theorem merge_alike (alike : Alike value h w v) {m : MergedList α}
    (here : w.merges.get? id = some m) :
    ∃ c, v.merges.get? id = some { m with cache := c } ∧ c.disposed = m.cache.disposed := by
  have same := alike.merges id
  rw [here] at same
  obtain ⟨n, there, bare⟩ := Option.map_eq_some_iff.mp same
  have disposed := congrArg (fun m : MergedList α => m.cache.disposed) bare
  obtain ⟨master, lock, slaves, generation, cache, subscriptions⟩ := n
  simp only [MergedList.bare, MergedList.mk.injEq] at bare
  obtain ⟨rfl, rfl, rfl, rfl, -, rfl⟩ := bare
  exact ⟨cache, there, disposed⟩

theorem open_alike (alike : Alike value h w v) (tended : Tended h v) (readable : w.Open h) :
    v.Open h := by
  cases h with
  | list id => exact readable
  | filter id =>
    obtain ⟨f, l, readable⟩ := readable
    obtain ⟨c, there, disposed⟩ := filter_alike alike readable.view
    refine ⟨{ f with cache := c }, l, there, alike.lists ▸ readable.base,
      disposed.trans readable.usable, alike.free _ readable.free,
      alike.free _ readable.unlocked, ?_⟩
    intro own has
    exact tended.free own (by rw [cacheLock, filterCache_present there]; exact has)
  | merge id =>
    obtain ⟨m, readable⟩ := readable
    obtain ⟨c, there, disposed⟩ := merge_alike alike readable.view
    refine ⟨{ m with cache := c }, there, disposed.trans readable.usable, fun place member => ?_,
      alike.free _ readable.unlocked, fun own has => ?_⟩
    · obtain ⟨l, here, free⟩ := readable.free place member
      exact ⟨l, alike.lists ▸ here, alike.free _ free⟩
    · exact tended.free own (by rw [cacheLock, mergeCache_present there]; exact has)

omit [Element α] in
theorem items_fetched {V : Type} [DecidableEq V]
    {p : Place (World α κ (ViewCopies α)) (CachedView (UInt64 × V) (Built α))}
    (cachePlace : CachePlace p) (usable : (p.get w).disposed = false)
    (free : (locked p w).locks.Free (locked p w).thread (ownLock p w)) {key : UInt64 × V}
    {build : Work α κ (ViewCopies α) (Built α)} {shows : Outcome ListRefusal (List α)}
    (kept : ∀ b, (p.get w).entry = some (key, b) → .ok b.items = shows)
    (built : ∀ y, Still [ownLock p w] (locked p w) y → (build y).1.map Built.items = shows) :
    (CachedView.fetch p key build w).1.map Built.items = shows := by
  have answered := fetch_of_free cachePlace usable free key build
  split at answered
  · rename_i b hit
    rw [answered]
    exact kept b (entry_of_hit hit)
  · obtain ⟨y, still, answered⟩ := answered
    rw [answered]
    exact built y still

/-- Where the locks are free, whoever looks at a view that has cached nothing wrong sees what is to
be seen. -/
theorem look_answers (immutable : ∀ id, h = .filter id → Fixed value) (run : Run w)
    (readable : w.Open h) (truthful : Truthful value h w) :
    (look h w).1 = (w.shown value h).mapError Fault.panicked := by
  have coherent := coherent_of_run value run
  cases h with
  | list id => exact readable.elim
  | filter id =>
    obtain ⟨f, l, readable⟩ := readable
    have fixed := immutable id rfl
    have usable := filterCache_usable readable
    have shows : w.shown value (.filter id) = f.shown value l.contents := by
      rw [shown, readable.view, Option.map_some, Option.getD_some, contentsOf, readable.base]
      rfl
    rw [look, items_returned, filteredItems_eq value readable.view]
    refine items_fetched (filterCachePlace id) usable
      (filter_ownLock_free coherent.grounded readable) (fun b entry => ?_) fun y still => ?_
    · have kept : w.cached (.filter id) = some b.items := by
        rw [cached, entry]
        rfl
      rw [truthful b.items kept]
      rfl
    · rw [shows]
      exact buildFiltered_within fixed coherent readable still
  | merge id =>
    obtain ⟨m, readable⟩ := readable
    obtain ⟨y, still, coherent, again, reads⟩ := mergedItems_of_free coherent readable
    have usable := mergeCache_usable again
    have shows : w.shown value (.merge id) = .ok (m.places.flatMap y.contentsOf) := by
      rw [shown, readable.view, contentsOf_congr still.lists]
      rfl
    rw [look, items_returned, reads]
    refine items_fetched (mergeCachePlace id) usable (merge_ownLock_free coherent.grounded again)
      (fun b entry => ?_) fun z within => ?_
    · have kept : w.cached (.merge id) = some b.items := by
        rw [← (cache_seen still.toSameViews _).2, cached, entry]
        rfl
      rw [truthful b.items kept]
      rfl
    · rw [shows]
      exact buildMerged_within coherent.grounded (coherent.merges id m again.view) again within

end

end UndoableLists.World
