import UndoableLists.Proofs.Views.Answers

/-!
Views whose sources are gone. A view looks at its own entry before it looks at its lists, and
disposing of a list goes through nothing that moves the entry's key. Main statement: once a source
is disposed of, a view that keeps nothing under the present key refuses every reading, and one that
keeps something goes on showing that; disposing itself makes no difference to what is kept, only a
change of a source does.
-/
namespace UndoableLists

theorem Locks.attempt_disposed {ls : Locks} {id : LockId} (disposed : ls.isDisposed id = true)
    (thread : Thread) (access : Access) (timeout : Option Duration) :
    ls.attempt thread id access timeout = .refused .disposed := by
  unfold Locks.isDisposed at disposed
  unfold Locks.attempt
  cases there : ls.get? id with
  | none => rfl
  | some l =>
    rw [there] at disposed
    exact if_pos disposed

namespace World
open Session Session.Stage
variable {K V α κ δ β : Type}

def Gone (w : World α κ δ) (c : ListId) : Prop :=
  ∀ l, w.lists.get? c = some l → w.locks.isDisposed l.lock = true

def Answering (w : World α κ δ) (c : ListId) : Prop :=
  Gone w c ∨ ∃ l, w.lists.get? c = some l ∧ w.locks.Free w.thread l.lock

section
variable {taken : List LockId} {v w : World α κ δ} {c : ListId}

theorem gone_still (still : Still taken w v) (gone : Gone w c) : Gone v c := by
  intro l there
  rw [Locks.isDisposed_eased still.locks]
  exact gone l (still.lists ▸ there)

theorem gone_locked {p : Place (World α κ δ) (CachedView (UInt64 × V) (Built α))}
    (cachePlace : CachePlace p) (grounded : Grounded w) (gone : Gone w c) :
    Gone (locked p w) c := by
  intro l there
  have here : w.lists.get? c = some l := locked_lists cachePlace w ▸ there
  have made := (grounded.enrolled c l here).2
  unfold locked
  split
  · exact gone l here
  · have lasts : (w.locks.create (p.get w).settings).2.isDisposed l.lock = true := by
      rw [Locks.isDisposed, Locks.get?, Locks.create,
        Table.get?_insert_of_ne _ (Nat.ne_of_lt made)]
      exact gone l here
    rw [Locks.isDisposed_eased (cachePlace.aside _ _).locks]
    exact lasts

variable [Diary δ]

theorem acquire_disposed {lock : LockId} (disposed : w.locks.isDisposed lock = true)
    (access : Access) : Host.acquire lock access w = (.error (.refused .disposed), w) := by
  rw [acquire_eq, Host.settle,
    show (Host.locks w).attempt w.thread lock access none = .refused .disposed from
      Locks.attempt_disposed disposed ..]

theorem holding_disposed {lock : LockId} (disposed : w.locks.isDisposed lock = true)
    (access : Access) (m : Work α κ δ β) :
    Host.holding ListRefusal.ofLock lock access m w = (.error (.refused .disposed), w) := by
  simp only [Host.holding, acquire_disposed disposed access]
  rfl

theorem contents_gone (gone : Gone w c) : contents c w = (.error (.refused .disposed), w) := by
  unfold contents readList
  cases here : w.lists.get? c with
  | none => exact withList_absent here _
  | some l =>
    rw [withList_present here]
    exact holding_disposed (gone l here) ..

theorem contentsOfAll_barren {ids : List ListId} (member : c ∈ ids) (gone : Gone w c)
    (items : List α) : (contentsOfAll ids w).1 ≠ .ok items := by
  induction ids generalizing w items with
  | nil => cases member
  | cons id rest ih =>
    intro answer
    rw [contentsOfAll] at answer
    obtain ⟨first, u, read, asked, joins⟩ := bind_answers (reads_contents id) answer
    obtain ⟨others, x, -, more, -⟩ := bind_answers (reads_contentsOfAll rest) joins
    obtain rfl | later := List.mem_cons.mp member
    · rw [contents_gone gone] at asked
      cases asked
    · exact ih later (gone_still read gone) others more

theorem contentsOfAll_gone {ids : List ListId} (member : c ∈ ids) (gone : Gone w c)
    (answering : ∀ id ∈ ids, Answering w id) :
    (contentsOfAll ids w).1 = .error (.refused .disposed) := by
  induction ids generalizing w with
  | nil => cases member
  | cons id rest ih =>
    obtain first | ⟨l, here, free⟩ := answering id List.mem_cons_self
    · rw [contentsOfAll, Act.bind_of_error (contents_gone first)]
    · obtain ⟨u, read, asked⟩ := bind_given (reads_contents id) (contents_of_free here free)
      have later : c ∈ rest := by
        obtain rfl | later := List.mem_cons.mp member
        · have usable := Locks.usable_of_free free
          rw [gone l here] at usable
          cases usable
        · exact later
      have refused := ih later (gone_still read gone) fun other place => by
        obtain away | ⟨m, there, free⟩ := answering other (List.mem_cons_of_mem _ place)
        · exact .inl (gone_still read away)
        · exact .inr ⟨m, read.lists ▸ there, free_still read (by simp) free⟩
      rcases more : contentsOfAll rest u with ⟨r, x⟩
      rw [more] at refused
      obtain rfl : r = .error (.refused .disposed) := refused
      rw [contentsOfAll, asked, Act.bind_of_error more]

end

/-- What a cache shows under a key without building anything. -/
def recalled [DecidableEq K] (c : CachedView K (Built α)) (key : K) : Option (List α) :=
  if c.disposed then none else (c.hit? key).map Built.items

def fromMemory (kept : Option (List α)) : Outcome ListRefusal (List α) :=
  match kept with
  | some items => .ok items
  | none => .error (.refused .disposed)

theorem recalled_usable [DecidableEq K] {c : CachedView K (Built α)}
    (usable : c.disposed = false) (key : K) : recalled c key = (c.hit? key).map Built.items := by
  simp only [recalled, usable, Bool.false_eq_true, ↓reduceIte]

section
variable {p : Place (World α κ δ) (CachedView (UInt64 × V) (Built α))} {u v w : World α κ δ}
  [Diary δ] [DecidableEq V] {key : UInt64 × V} {build : Work α κ δ (Built α)} {b : Built α}

theorem fetch_ok (cachePlace : CachePlace p) (usable : (p.get w).disposed = false)
    (answer : (CachedView.fetch p key build w).1 = .ok b) :
    (p.get w).hit? key = some b ∨
      ∃ x, Still [ownLock p w] (locked p w) x ∧ (build x).1 = .ok b := by
  rw [fetch_eq usable] at answer
  obtain ⟨u, still, answer⟩ := holding_answers answer
  have kept : p.get u = { p.get w with lock := some (ownLock p w) } := by
    rw [cachePlace.seen still.toSameViews, (cache_locked cachePlace usable).1]
  unfold CachedView.serve at answer
  rw [Act.bind_of_ok (show Act.read p.get u = (.ok (p.get u), u) from rfl), kept,
    show CachedView.hit? { p.get w with lock := some (ownLock p w) } key = (p.get w).hit? key from
      rfl] at answer
  cases hit : (p.get w).hit? key with
  | some view =>
    rw [hit] at answer
    exact .inl (congrArg some (Except.ok.inj answer))
  | none =>
    right
    rw [hit] at answer
    dsimp only at answer
    unfold CachedView.rebuild at answer
    have views := unviewed_upgrade (ownLock p w) u
    rcases tried : Host.upgrade (ownLock p w) u with ⟨fault | _, x⟩
    all_goals rw [tried] at views
    · rw [Act.bind_of_error (upgrade_mapped tried)] at answer
      cases answer
    · rw [Act.bind_of_ok (upgrade_mapped tried)] at answer
      refine ⟨x, ⟨of_upgrade_ok still.toAside tried, sameViews_trans still.toSameViews views⟩, ?_⟩
      rcases built : build x with ⟨fault | view, y⟩
      · rw [Act.bind_of_error built] at answer
        cases answer
      · rw [Act.bind_of_ok built] at answer
        exact answer

structure OnlyKept (p : Place (World α κ δ) (CachedView (UInt64 × V) (Built α)))
    (key : UInt64 × V) (w : World α κ δ) (r : Outcome ListRefusal (Built α)) (u : World α κ δ) :
    Prop where
  lists : u.lists = w.lists
  objects : u.objects = w.objects
  gone : ∀ c, Gone w c → Gone u c
  views : ∃ lock, SameViews (p.set { p.get w with lock := lock } w) u
  shows : ∀ b, r = .ok b → recalled (p.get w) key = some b.items

theorem fetch_barren (cachePlace : CachePlace p) (grounded : Grounded w) (reads : Reads build)
    (barren : ∀ x b, Still [ownLock p w] (locked p w) x → (build x).1 ≠ .ok b) :
    OnlyKept p key w (CachedView.fetch p key build w).1 (CachedView.fetch p key build w).2 := by
  cases usable : (p.get w).disposed with
  | true =>
    rw [CachedView.fetch_gone usable]
    refine ⟨rfl, rfl, fun _ gone => gone, ⟨(p.get w).lock, ?_⟩, fun b answer => by cases answer⟩
    rw [cachePlace.set_get]
    exact sameViews_refl w
  | false =>
    obtain still | ⟨x, b, still, built, -⟩ := fetch_leaves cachePlace reads usable key
    · refine ⟨still.lists.trans (locked_lists cachePlace w),
        still.objects.trans (locked_objects cachePlace w), ?_, ⟨some (ownLock p w), ?_⟩, ?_⟩
      · intro c gone
        exact gone_still still (gone_locked cachePlace grounded gone)
      · exact sameViews_trans (cache_locked cachePlace usable).2 still.toSameViews
      · intro b answer
        obtain hit | ⟨x, still, built⟩ := fetch_ok cachePlace usable answer
        · rw [recalled_usable usable, hit]
          rfl
        · exact absurd built (barren x b still)
    · exact absurd built (barren x b still)

theorem fetch_refused (cachePlace : CachePlace p)
    (free : (p.get w).disposed = false →
      (locked p w).locks.Free (locked p w).thread (ownLock p w))
    (refused : (p.get w).disposed = false → ∀ x, Still [ownLock p w] (locked p w) x →
      (build x).1 = .error (.refused .disposed)) :
    (CachedView.fetch p key build w).1.map Built.items =
      fromMemory (recalled (p.get w) key) := by
  cases usable : (p.get w).disposed with
  | true =>
    rw [CachedView.fetch_gone usable, recalled, if_pos usable]
    rfl
  | false =>
    have answered := fetch_of_free cachePlace usable (free usable) key build
    rw [recalled_usable usable]
    cases hit : (p.get w).hit? key with
    | some b =>
      rw [hit] at answered
      rw [answered]
      rfl
    | none =>
      rw [hit] at answered
      obtain ⟨x, still, answer⟩ := answered
      rw [answer, refused usable x still]
      rfl

omit [Diary δ] in
theorem onlyKept_failed (cachePlace : CachePlace p) (still : Still [] w u)
    (fault : Fault ListRefusal) : OnlyKept p key w (.error fault) u where
  lists := still.lists
  objects := still.objects
  gone _ gone := gone_still still gone
  views := ⟨(p.get w).lock, by rw [cachePlace.set_get]; exact still.toSameViews⟩
  shows _ answer := by cases answer

omit [Diary δ] in
theorem onlyKept_after (cachePlace : CachePlace p) (still : Still [] w v)
    {r : Outcome ListRefusal (Built α)} (kept : OnlyKept p key v r u) : OnlyKept p key w r u where
  lists := kept.lists.trans still.lists
  objects := kept.objects.trans still.objects
  gone c gone := kept.gone c (gone_still still gone)
  views := by
    obtain ⟨lock, views⟩ := kept.views
    rw [cachePlace.seen still.toSameViews] at views
    exact ⟨lock, sameViews_trans (cachePlace.views _ still.toSameViews) views⟩
  shows b answer := cachePlace.seen still.toSameViews ▸ kept.shows b answer

omit [Diary δ] [DecidableEq V] in
theorem answering_within (cachePlace : CachePlace p) (grounded : Grounded w) {lock : LockId}
    {r : Recipe V α} (kept : Kept w lock r (p.get w)) (still : Still [ownLock p w] (locked p w) v)
    {c : ListId} (answering : Answering w c) : Answering v c := by
  obtain gone | ⟨l, here, free⟩ := answering
  · exact .inl (gone_still still (gone_locked cachePlace grounded gone))
  · have lists := locked_lists cachePlace w
    obtain ⟨-, -, others⟩ := (kept_locked cachePlace grounded kept).own _ rfl
    exact .inr ⟨l, still.lists.trans lists ▸ here,
      free_within cachePlace still free (others c l (lists ▸ here))⟩

end

section
variable [Diary δ] {w : World α κ δ} {id : ViewId} {c : ListId}

theorem buildFiltered_barren [Element α] {v : FilteredView α} (gone : Gone w v.base)
    (b : Built α) : (buildFiltered id v w).1 ≠ .ok b := by
  intro answer
  rw [buildFiltered] at answer
  obtain ⟨filter, u, read, -, later⟩ := bind_answers (reads_filterOf id) answer
  rw [Act.bind_of_error (contents_gone (gone_still read gone))] at later
  cases later

theorem buildFiltered_gone [Element α] {f v : FilteredView α}
    (here : w.filters.get? id = some f) (unlocked : w.locks.Free w.thread f.lock)
    (gone : Gone w v.base) : (buildFiltered id v w).1 = .error (.refused .disposed) := by
  obtain ⟨u, read, asked⟩ := bind_given (reads_filterOf id) (filterOf_of_free here unlocked)
  rw [buildFiltered, asked, Act.bind_of_error (contents_gone (gone_still read gone))]

theorem buildMerged_barren {g m : MergedList α} (here : w.merges.get? id = some g)
    (slaves : g.slaves = m.slaves) (place : c ∈ m.places) (gone : Gone w c) (b : Built α) :
    (buildMerged id m w).1 ≠ .ok b := by
  intro answer
  rw [buildMerged] at answer
  obtain ⟨first, u, read, asked, later⟩ := bind_answers (reads_contents m.master) answer
  obtain ⟨ids, x, reread, named, gathers⟩ := bind_answers (reads_slaveLists id) later
  obtain ⟨others, y, -, taken, -⟩ := bind_answers (reads_contentsOfAll ids) gathers
  obtain rfl := slaveLists_answers (read.merges ▸ here) named
  obtain rfl | member := List.mem_cons.mp place
  · rw [contents_gone gone] at asked
    cases asked
  · have away := gone_still (still_trans read reread) gone
    exact contentsOfAll_barren (slaves ▸ member) away others taken

theorem buildMerged_gone {g m : MergedList α} (here : w.merges.get? id = some g)
    (slaves : g.slaves = m.slaves) (unlocked : w.locks.Free w.thread g.lock)
    (answering : ∀ d ∈ m.places, Answering w d) (place : c ∈ m.places) (gone : Gone w c) :
    (buildMerged id m w).1 = .error (.refused .disposed) := by
  obtain first | ⟨l, there, free⟩ := answering m.master List.mem_cons_self
  · rw [buildMerged, Act.bind_of_error (contents_gone first)]
  · obtain ⟨u, read, asked⟩ := bind_given (reads_contents m.master) (contents_of_free there free)
    obtain ⟨x, reread, named⟩ := bind_given (reads_slaveLists id)
      (slaveLists_of_free (read.merges ▸ here) (free_still read (by simp) unlocked))
    have still := still_trans read reread
    have member : c ∈ g.slaves.map (·.list) := by
      obtain rfl | member := List.mem_cons.mp place
      · have usable := Locks.usable_of_free free
        rw [gone l there] at usable
        cases usable
      · exact slaves ▸ member
    have refused := contentsOfAll_gone member (gone_still still gone) fun d member => by
      obtain away | ⟨k, there, free⟩ := answering d (List.mem_cons_of_mem _ (slaves ▸ member))
      · exact .inl (gone_still still away)
      · exact .inr ⟨k, still.lists ▸ there, free_still still (by simp) free⟩
    rcases taken : contentsOfAll (g.slaves.map (·.list)) x with ⟨r, y⟩
    rw [taken] at refused
    obtain rfl : r = .error (.refused .disposed) := refused
    rw [buildMerged, asked, named, Act.bind_of_error taken]

end

def sources (w : World α κ δ) : Handle → List ListId
  | .list id => [id]
  | .filter id => ((w.filters.get? id).map fun v => [v.base]).getD []
  | .merge id => ((w.merges.get? id).map MergedList.places).getD []

def remembered (w : World α κ δ) : Handle → Option (List α)
  | .list _ => none
  | .filter id => (w.filters.get? id).bind fun v =>
    recalled v.cache (word v.generation, word (w.version v.base))
  | .merge id => (w.merges.get? id).bind fun m =>
    recalled m.cache (word m.recipe.generation, m.recipe.key w.version)

def Unlocked (w : World α κ δ) (h : Handle) : Prop :=
  (∀ c ∈ sources w h, Answering w c) ∧
  match h with
  | .list _ => True
  | .filter id => ∀ v, w.filters.get? id = some v → w.locks.Free w.thread v.lock ∧
    ∀ own, v.cache.lock = some own → w.locks.Free w.thread own
  | .merge id => ∀ m, w.merges.get? id = some m → w.locks.Free w.thread m.lock ∧
    ∀ own, m.cache.lock = some own → w.locks.Free w.thread own

def inspect [Diary δ] [Element α] (h : Handle) (q : Question) : Work α κ δ Answer :=
  match h with
  | .list id => do
    let items ← contents id
    Act.read fun w => askItems w items q
  | .filter id => askFilter id q
  | .merge id => askMerge id q

section
variable [Element α] [Diary δ] {value : α → Value} {v w : World α κ δ} {id : ViewId} {c : ListId}
  {q : Question}

theorem filtered_onlyKept {f : FilteredView α} (coherent : Coherent value w)
    (here : w.filters.get? id = some f) (gone : Gone w f.base) :
    OnlyKept (filterCache id) (word f.generation, word (w.version f.base)) w
      (filteredItems id w).1 (filteredItems id w).2 := by
  rw [filteredItems_eq value here]
  refine fetch_barren (filterCachePlace id) coherent.grounded (reads_buildFiltered id f) ?_
  intro x b still
  exact buildFiltered_barren
    (gone_still still (gone_locked (filterCachePlace id) coherent.grounded gone)) b

theorem merged_onlyKept {m : MergedList α} (coherent : Coherent value w)
    (here : w.merges.get? id = some m) (place : c ∈ m.places) (gone : Gone w c) :
    OnlyKept (mergeCache id) (word m.recipe.generation, m.recipe.key w.version) w
      (mergedItems id w).1 (mergedItems id w).2 := by
  obtain ⟨x, -, there, still, ⟨fault, failed⟩ | reads⟩ := mergedItems_cases here
  · rw [failed]
    exact onlyKept_failed (mergeCachePlace id) still fault
  · rw [reads, version_congr still.lists]
    refine onlyKept_after (mergeCachePlace id) still ?_
    have grounded := grounded_onward coherent.grounded (onward_still still (by simp))
    refine fetch_barren (mergeCachePlace id) grounded (reads_buildMerged id m) ?_
    intro y b within
    obtain ⟨cache, standing⟩ := merge_locked there
    exact buildMerged_barren (g := { m with cache }) (within.merges ▸ standing) rfl place
      (gone_still within (gone_locked (mergeCachePlace id) grounded (gone_still still gone))) b

theorem filtered_refused {f : FilteredView α} (coherent : Coherent value w)
    (here : w.filters.get? id = some f) (gone : Gone w f.base)
    (unlocked : Unlocked w (.filter id)) :
    (filteredItems id w).1.map Built.items = fromMemory (remembered w (.filter id)) := by
  obtain ⟨lock, own⟩ := unlocked.2 f here
  have cache := filterCache_present here
  have kept : Kept w f.lock (f.dated value) ((filterCache id).get w) :=
    cache ▸ coherent.filters id f here
  have mine : remembered w (.filter id) =
      recalled ((filterCache id).get w) (word f.generation, word (w.version f.base)) := by
    rw [remembered, here, cache]
    rfl
  rw [filteredItems_eq value here, mine]
  refine fetch_refused (filterCachePlace id) (fun _ => ?_) fun _ x still => ?_
  · refine free_ownLock (filterCachePlace id) ?_ (cache ▸ own)
    exact fun member => absurd (coherent.grounded.ledger _ member) (Nat.lt_irrefl _)
  · obtain ⟨c, standing⟩ := filter_locked here
    obtain ⟨-, apart, -⟩ :=
      (kept_locked (filterCachePlace id) coherent.grounded kept).own _ rfl
    exact buildFiltered_gone (f := { f with cache := c }) (still.filters ▸ standing)
      (free_within (filterCachePlace id) still lock apart.symm)
      (gone_still still (gone_locked (filterCachePlace id) coherent.grounded gone))

theorem merged_refused {m : MergedList α} (coherent : Coherent value w)
    (here : w.merges.get? id = some m) (place : c ∈ m.places) (gone : Gone w c)
    (unlocked : Unlocked w (.merge id)) :
    (mergedItems id w).1.map Built.items = fromMemory (remembered w (.merge id)) := by
  obtain ⟨lock, own⟩ := unlocked.2 m here
  have answering : ∀ d ∈ m.places, Answering w d := by
    have all := unlocked.1
    rw [sources, here] at all
    exact all
  obtain ⟨x, there, still, reads⟩ := mergedItems_given here lock
  have onward := onward_still still (by simp)
  have grounded := grounded_onward coherent.grounded onward
  have cache := mergeCache_present there
  have kept : Kept x m.lock m.recipe ((mergeCache id).get x) :=
    cache ▸ kept_onward (coherent.merges id m here) onward
  have mine : remembered w (.merge id) =
      recalled ((mergeCache id).get x) (word m.recipe.generation, m.recipe.key x.version) := by
    rw [remembered, here, cache, version_congr still.lists]
    rfl
  rw [reads, mine]
  refine fetch_refused (mergeCachePlace id) (fun _ => ?_) fun _ y within => ?_
  · refine free_ownLock (mergeCachePlace id) ?_ ?_
    · exact fun member => absurd (grounded.ledger _ member) (Nat.lt_irrefl _)
    · rw [cache]
      exact fun key has => free_aside still.toAside (own key has)
  · obtain ⟨c, standing⟩ := merge_locked there
    obtain ⟨-, apart, -⟩ := (kept_locked (mergeCachePlace id) grounded kept).own _ rfl
    refine buildMerged_gone (g := { m with cache := c }) (within.merges ▸ standing) rfl
      (free_within (mergeCachePlace id) within (free_aside still.toAside lock) apart.symm)
      (fun d member => ?_) place
      (gone_still within (gone_locked (mergeCachePlace id) grounded (gone_still still gone)))
    obtain away | ⟨l, standing, free⟩ := answering d member
    · exact answering_within (mergeCachePlace id) grounded kept within
        (.inl (gone_still still away))
    · exact answering_within (mergeCachePlace id) grounded kept within
        (.inr ⟨l, still.lists ▸ standing, free_aside still.toAside free⟩)

omit [Element α] [Diary δ] in
theorem remembered_filter {f : FilteredView α} (here : w.filters.get? id = some f)
    {r : Outcome ListRefusal (Built α)}
    (only : OnlyKept (filterCache id) (word f.generation, word (w.version f.base)) w r v) :
    remembered v (.filter id) = remembered w (.filter id) ∧
      sources v (.filter id) = sources w (.filter id) := by
  obtain ⟨lock, views⟩ := only.views
  have there : v.filters.get? id = some { f with cache := { f.cache with lock := lock } } := by
    rw [views.filters, filterCache_present here]
    exact (Table.get?_modify_present here id _).trans (if_pos rfl)
  simp only [remembered, sources, here, there, version_congr only.lists]
  exact ⟨rfl, rfl⟩

omit [Element α] [Diary δ] in
theorem remembered_merge {m : MergedList α} (here : w.merges.get? id = some m)
    {r : Outcome ListRefusal (Built α)}
    (only : OnlyKept (mergeCache id) (word m.recipe.generation, m.recipe.key w.version) w r v) :
    remembered v (.merge id) = remembered w (.merge id) ∧
      sources v (.merge id) = sources w (.merge id) := by
  obtain ⟨lock, views⟩ := only.views
  have there : v.merges.get? id = some { m with cache := { m.cache with lock := lock } } := by
    rw [views.merges, mergeCache_present here]
    exact (Table.get?_modify_present here id _).trans (if_pos rfl)
  simp only [remembered, sources, here, there, version_congr only.lists]
  exact ⟨rfl, rfl⟩

end

/-- What becomes of a question to a handle one of whose lists is gone: it is answered from what is
kept if at all, and leaves things as they are. -/
structure FromMemory [Diary δ] [Element α] (h : Handle) (q : Question) (w : World α κ δ) :
    Prop where
  only : ∀ a, (inspect h q w).1 = .ok a →
    ∃ items, remembered w h = some items ∧ a = askItems w items q
  answer : Unlocked w h →
    (inspect h q w).1 = (fromMemory (remembered w h)).map fun items => askItems w items q
  remembered : remembered (inspect h q w).2 h = remembered w h
  sources : sources (inspect h q w).2 h = sources w h
  gone : ∀ c, Gone w c → Gone (inspect h q w).2 c

section
variable [Element α] [Diary δ] {value : α → Value} {v w : World α κ δ} {h : Handle} {c : ListId}
  {q : Question}

theorem fromMemory_of_view (items : Work α κ δ (Built α))
    (asks : inspect h q w = ((items w).1.map fun b => askItems w b.items q, (items w).2))
    (only : ∀ b, (items w).1 = .ok b → remembered w h = some b.items)
    (answer : Unlocked w h → (items w).1.map Built.items = fromMemory (remembered w h))
    (kept : remembered (items w).2 h = remembered w h ∧ sources (items w).2 h = sources w h)
    (gone : ∀ c, Gone w c → Gone (items w).2 c) : FromMemory h q w where
  only a answered := by
    rw [asks] at answered
    cases read : (items w).1 with
    | error fault =>
      rw [read] at answered
      cases answered
    | ok b =>
      rw [read] at answered
      exact ⟨b.items, only b read, (Except.ok.inj answered).symm⟩
  answer unlocked := by
    rw [asks, ← answer unlocked]
    cases (items w).1 <;> rfl
  remembered := by rw [asks]; exact kept.1
  sources := by rw [asks]; exact kept.2
  gone c away := by rw [asks]; exact gone c away

theorem fromMemory_of_gone (coherent : Coherent value w) (source : c ∈ sources w h)
    (gone : Gone w c) (asked : q.ofItems = true) : FromMemory h q w := by
  cases h with
  | list id =>
    obtain rfl := List.mem_singleton.mp source
    have refused : inspect (.list c) q w = (.error (.refused .disposed), w) :=
      Act.bind_of_error (contents_gone gone) _
    refine ⟨fun a answered => ?_, fun _ => ?_, ?_, ?_, fun _ away => ?_⟩
    all_goals rw [refused] at *
    · cases answered
    · rfl
    · exact away
  | filter id =>
    cases here : w.filters.get? id with
    | none => simp [sources, here] at source
    | some f =>
      obtain rfl : c = f.base := by simpa [sources, here] using source
      have only := filtered_onlyKept coherent here gone
      have mine : remembered w (.filter id) =
          recalled ((filterCache id).get w) (word f.generation, word (w.version f.base)) := by
        rw [remembered, here, filterCache_present here]
        rfl
      refine fromMemory_of_view (filteredItems id) ?_ (mine ▸ only.shows)
        (filtered_refused coherent here gone) (remembered_filter here only) only.gone
      rw [← askView_eq asked only.objects]
      cases q <;> first | rfl | cases asked
  | merge id =>
    cases here : w.merges.get? id with
    | none => simp [sources, here] at source
    | some m =>
      have place : c ∈ m.places := by simpa [sources, here] using source
      have only := merged_onlyKept coherent here place gone
      have mine : remembered w (.merge id) =
          recalled ((mergeCache id).get w) (word m.recipe.generation, m.recipe.key w.version) := by
        rw [remembered, here, mergeCache_present here]
        rfl
      refine fromMemory_of_view (mergedItems id) ?_ (mine ▸ only.shows)
        (merged_refused coherent here place gone) (remembered_merge here only) only.gone
      rw [← askView_eq asked only.objects]
      cases q <;> first | rfl | cases asked

omit [Element α] in
theorem dispose_gone (keyed : Keyed w) (id : ListId) :
    Gone (dispose id w).2 id ∧ (dispose id w).2.version = w.version := by
  cases here : w.lists.get? id with
  | none =>
    rw [dispose_absent here]
    refine ⟨fun l there => ?_, rfl⟩
    rw [here] at there
    cases there
  | some l =>
    obtain rfl := keyed id l here
    obtain ⟨gone, same⟩ | ⟨-, x, ends, outcome⟩ := dispose_ends here
    · rw [same]
      refine ⟨fun m there => ?_, rfl⟩
      obtain rfl := Option.some.inj (here.symm.trans there)
      exact gone
    · have lists : (dispose l.context w).2.lists = x.lists := by rw [outcome]; rfl
      have found (c : ListId) : ∃ f : UndoableList α → UndoableList α,
          (∀ m, (f m).lock = m.lock ∧ (f m).version = m.version) ∧
            x.lists.get? c = (w.lists.get? c).map f := by
        obtain freed | aside := ends
        · refine ⟨if c = l.context then UndoableList.forgetful else id, fun m => ?_, ?_⟩
          · split <;> exact ⟨rfl, rfl⟩
          · rw [freed.lists, freed_lists]
            split
            · rename_i same
              rw [same, here]
              rfl
            · simp
        · exact ⟨id, fun _ => ⟨rfl, rfl⟩, by simp [aside.lists]⟩
      refine ⟨fun m there => ?_, ?_⟩
      · obtain ⟨f, kept, same⟩ := found l.context
        rw [lists, same, here] at there
        cases there
        rw [outcome, (kept l).1]
        change (x.locks.dispose l.lock).2.isDisposed l.lock = true
        rw [isDisposed_dispose, decide_eq_true rfl, Bool.true_or]
      · funext c
        obtain ⟨f, kept, same⟩ := found c
        rw [version, version, lists, same]
        cases w.lists.get? c with
        | none => rfl
        | some m => exact (kept m).2

omit [Element α] in
theorem dispose_remembers (keyed : Keyed w) (id : ListId) (h : Handle) :
    remembered (dispose id w).2 h = remembered w h := by
  have views := sameViews_iff.mpr (unseen_dispose listFree_views id w)
  obtain ⟨-, versions⟩ := dispose_gone keyed id
  cases h with
  | list => rfl
  | filter id => simp only [remembered, views.filters, versions]
  | merge id => simp only [remembered, views.merges, versions]

end

def tallies (w : World α κ δ) : Handle → List Nat
  | .list _ => []
  | .filter id => ((w.filters.get? id).map fun f => [f.generation, w.version f.base]).getD []
  | .merge id => ((w.merges.get? id).map fun m => w.counters m.recipe).getD []

section
variable [Element α] [Diary δ] {value : α → Value} {v w : World α κ δ} {h : Handle} {c : ListId}

omit [Element α] [Diary δ] in
/-- What was kept before a source changed is not under the present key. -/
theorem recalled_of_changed [DecidableEq V] {r : Recipe V α} {lock : LockId}
    {cache : CachedView (UInt64 × V) (Built α)} (kept : Kept w lock r cache)
    (onward : Onward w v) (place : c ∈ r.places) (changed : w.version c < v.version c)
    (present : ∀ d ∈ r.places, ∃ l, v.lists.get? d = some l)
    (few : ∀ n ∈ v.counters r, n < 2 ^ 64) :
    recalled cache (word r.generation, r.key v.version) = none := by
  unfold recalled
  split
  · rfl
  · rename_i usable
    rw [Option.map_eq_none_iff, Option.eq_none_iff_forall_ne_some]
    intro b hit
    have recalls := kept.entry (by simpa using usable) _ b (entry_of_hit hit)
    obtain ⟨old, key, -, enrolled, later⟩ :=
      remembered_of_recalls recalls (few r.generation List.mem_cons_self)
    have grown : ∀ d ∈ r.places, (old d).version ≤ w.version d ∧ w.version d ≤ v.version d := by
      intro d place
      obtain ⟨m, there⟩ := present d place
      obtain ⟨l, here, moved⟩ | come := onward.lists d m there
      · rw [version_present here, version_present there]
        exact ⟨(later d place l here).version, moved.version⟩
      · exact absurd (enrolled d place) (Nat.not_lt.mpr come.late)
    have same := r.distinguishes (fun d => (old d).version) v.version
      (fun d place => Nat.le_trans (grown d place).1 (grown d place).2)
      (fun n member => few n (List.mem_cons_of_mem _ member)) key c place
    have before := (grown c place).1
    omega

omit [Diary δ] in
theorem forgotten_of_changed (coherent : Coherent value w) (onward : Onward w v)
    (views : SameViews w v) (source : c ∈ sources w h) (changed : w.version c < v.version c)
    (present : ∀ d ∈ sources w h, ∃ l, v.lists.get? d = some l)
    (few : ∀ n ∈ tallies v h, n < 2 ^ 64) : remembered v h = none := by
  cases h with
  | list => rfl
  | filter id =>
    cases here : w.filters.get? id with
    | none => simp only [remembered, views.filters, here, Option.bind_none]
    | some f =>
      have there : v.filters.get? id = some f := views.filters ▸ here
      simp only [sources, here, Option.map_some, Option.getD_some] at source present
      simp only [tallies, there, Option.map_some, Option.getD_some] at few
      simp only [remembered, there, Option.bind_some]
      exact recalled_of_changed (coherent.filters id f here) onward source changed present few
  | merge id =>
    cases here : w.merges.get? id with
    | none => simp only [remembered, views.merges, here, Option.bind_none]
    | some m =>
      have there : v.merges.get? id = some m := views.merges ▸ here
      simp only [sources, here, Option.map_some, Option.getD_some] at source present
      simp only [tallies, there, Option.map_some, Option.getD_some] at few
      simp only [remembered, there, Option.bind_some]
      exact recalled_of_changed (coherent.merges id m here) onward source changed present few

theorem run_askView {items : Work α κ δ (Built α)} (asked : q.ofItems = true)
    (read : Run (items w).2) : Run (askView items q w).2 := by
  cases q <;> first | exact Act.keeps_bind read fun _ _ _ run => run | cases asked

theorem run_inspect (run : Run w) (h : Handle) (asked : q.ofItems = true) :
    Run (inspect h q w).2 := by
  cases h with
  | list id => exact Act.keeps_bind (run_still run (reads_contents id w)) fun _ _ _ run => run
  | filter id =>
    have read := run_askView asked (run.filter (.read id))
    cases q <;> first | exact read | cases asked
  | merge id =>
    have read := run_askView asked (run.merge (.read id))
    cases q <;> first | exact read | cases asked

/-- In every run, what a view answers once one of its lists is gone depends on whether it keeps
something under the present key. If it does not, no reading of it succeeds, and where no lock stops
a reading it is refused as disposed; if it does, readings are answered from that. Either way a
reading leaves this as it is, and so does disposing of a list, by which the list is gone. A change
of a list makes the view forget, as long as no counter has come round. -/
theorem gone_source_shown_from_memory (run : Run w) :
    (∀ c, Gone (dispose c w).2 c ∧ ∀ h, remembered (dispose c w).2 h = remembered w h) ∧
    (∀ h c, c ∈ sources w h → Gone w c → ∀ q : Question, q.ofItems = true →
      FromMemory h q w ∧ Run (inspect h q w).2) ∧
    ∀ v h c, ListDeed w v → c ∈ sources w h → w.version c < v.version c →
      (∀ d ∈ sources w h, ∃ l, v.lists.get? d = some l) → (∀ n ∈ tallies v h, n < 2 ^ 64) →
      remembered v h = none := by
  have coherent := coherent_of_run (Element.current w.objects) run
  refine ⟨fun c => ?_, fun h c source gone q asked => ?_, fun v h c deed source changed => ?_⟩
  · exact ⟨(dispose_gone coherent.grounded.keyed c).1,
      dispose_remembers coherent.grounded.keyed c⟩
  · exact ⟨fromMemory_of_gone coherent source gone asked, run_inspect run h asked⟩
  · obtain ⟨onward, views⟩ := onward_listDeed coherent.grounded.keyed deed
    exact forgotten_of_changed coherent onward views source changed

end

def unseenViewWorld : World Value Unit Unit :=
  createFilter 1 Filter.judge {} (createList { items := [.int 1] } { client := () }).2

def seenViewWorld : World Value Unit Unit := (filteredItems 0 unseenViewWorld).2

theorem run_unseenView : Run unseenViewWorld := by
  have empty : Run ({ client := () } : World Value Unit Unit) := run_start ()
  have made := empty.list (.created { items := [.int 1] })
  exact made.filter (.made 1 Filter.judge {})

/-- Without an earlier look the view of a disposed list refuses, after one it answers, and a push
would have made it forget. -/
theorem shut_list_is_refused_or_recalled :
    (inspect (.filter 0) .contents (dispose 1 unseenViewWorld).2).1 =
      .error (.refused .disposed) ∧
    (inspect (.filter 0) .contents (dispose 1 seenViewWorld).2).1 = .ok (.values [.int 1]) ∧
    remembered (lockedMutation 1 (.push (.int 2)) seenViewWorld).2 (.filter 0) = none := by
  have seen : Run seenViewWorld := run_unseenView.filter (.read 0)
  have shown {w : World Value Unit Unit} (run : Run w) (view : FilteredView Value)
      (there : (dispose 1 w).2.filters.get? 0 = some view) (base : view.base = 1)
      (lock : (dispose 1 w).2.locks.Free (dispose 1 w).2.thread view.lock)
      (own : ∀ own, view.cache.lock = some own →
        (dispose 1 w).2.locks.Free (dispose 1 w).2.thread own) :
      (inspect (.filter 0) .contents (dispose 1 w).2).1 = (fromMemory
        (remembered w (.filter 0))).map fun items => askItems (dispose 1 w).2 items .contents := by
    obtain ⟨disposing, -, -⟩ := gone_source_shown_from_memory run
    obtain ⟨-, reading, -⟩ := gone_source_shown_from_memory (run.list (.disposed 1))
    obtain ⟨gone, keeps⟩ := disposing 1
    have one : sources (dispose 1 w).2 (.filter 0) = [1] := by
      simp only [sources, there, base, Option.map_some, Option.getD_some]
    rw [← keeps]
    refine (reading (.filter 0) 1 (by simp [one]) gone .contents rfl).1.answer ⟨?_, ?_⟩
    · intro c source
      rw [one] at source
      exact .inl (List.mem_singleton.mp source ▸ gone)
    · intro v same
      obtain rfl := Option.some.inj (there.symm.trans same)
      exact ⟨lock, own⟩
  refine ⟨?_, ?_, ?_⟩
  · refine (shown run_unseenView _ rfl rfl ⟨by decide, _, rfl, rfl, rfl⟩ ?_).trans rfl
    intro own has
    cases has
  · refine (shown seen _ rfl rfl ⟨by decide, _, rfl, rfl, rfl⟩ ?_).trans rfl
    intro own has
    cases has
    exact ⟨by decide, _, rfl, rfl, rfl⟩
  · obtain ⟨-, -, forgets⟩ := gone_source_shown_from_memory seen
    have one : sources seenViewWorld (.filter 0) = [1] := rfl
    have before : seenViewWorld.version 1 = 0 := rfl
    have after : (lockedMutation 1 (.push (.int 2)) seenViewWorld).2.version 1 = 1 := rfl
    refine forgets _ (.filter 0) 1 (.mutated 1 _) (by simp [one]) (by omega) ?_ ?_
    · intro d source
      rw [one] at source
      obtain rfl := List.mem_singleton.mp source
      exact ⟨_, rfl⟩
    · rw [show tallies (lockedMutation 1 (.push (.int 2)) seenViewWorld).2 (.filter 0) = [0, 1] from
        rfl]
      decide

/-- A view goes on showing a list that is disposed of, if it was looked at before. -/
theorem disposed_list_is_still_shown :
    Run (dispose 1 seenViewWorld).2 ∧ Gone (dispose 1 seenViewWorld).2 1 ∧
    sources (dispose 1 seenViewWorld).2 (.filter 0) = [1] ∧
    (askFilter 0 .contents (dispose 1 seenViewWorld).2).1 = .ok (.values [.int 1]) := by
  refine ⟨(run_unseenView.filter (.read 0)).list (.disposed 1), ?_, rfl, rfl⟩
  intro l here
  cases here
  rfl

end World
end UndoableLists
