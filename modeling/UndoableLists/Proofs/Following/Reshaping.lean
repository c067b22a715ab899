import UndoableLists.Proofs.Following.Moving

/-!
Views that change themselves: another filter is set, slaves are added or taken out. Each of these
drops what the view has cached and makes its followers read it anew. Main statement: after such a
call the copy is right again, and all who asked for properties were told of the count.
-/
namespace UndoableLists.World
variable {α κ δ : Type}

section
variable [Element α] {value : α → Value} {h : Handle} {x : SubscriberId}
  {u v w : World α κ (ViewCopies α)}
  {call : Call α κ (ViewCopies α)}

theorem setting_again (setting : Setting value h x w) (lists : v.lists = w.lists)
    (frees : ∀ lock, w.locks.Free w.thread lock → v.locks.Free v.thread lock)
    (lock : v.cacheLock h = w.cacheLock h) (items : v.cached h = w.cached h) (run : Run v)
    (tidy : Tidy v) (readable : v.Open h)
    (watching : ∃ before i after, v.roster h .changes = before ++ (x, .client i) :: after ∧
      ∀ p ∈ before ++ after, p.1 ≠ x)
    (elsewhere : ∀ k, k ≠ h → ∀ p ∈ v.roster k .changes, p.1 ≠ x) (wired : Wired v h)
    (fresh : ∀ k t, ∀ s ∈ v.living k t, s.id < v.nextSubscriber) : Setting value h x v where
  run
  tidy
  tended := {
    free := fun own has => frees _ (setting.tended.free own (lock ▸ has))
    vacant := fun without => items.trans (setting.tended.vacant (lock ▸ without)) }
  readable
  watching
  elsewhere
  lists c l there := by
    obtain ⟨kind, free⟩ := setting.lists c l (lists ▸ there)
    exact ⟨kind, frees _ free⟩
  wired
  fresh

theorem told_anew (immutable : ∀ id, h = .filter id → Fixed value)
    (attends : Attends call value h x) (setting : Setting value h x u)
    (copied : (u.client.copies x).isSome) (unmoved : Unmoved value h x u v)
    (truthful : Truthful value h v) : Abreast value h x (tellReset call h v) ∧
      ∀ y i, (y, .client i) ∈ u.roster h .properties →
        Informed y (.property .count) u (tellReset call h v) := by
  have there := setting_alike setting unmoved.toAlike
  obtain ⟨alike, right, current⟩ := tellChange_heard immutable attends there.toScene truthful
    (behind_reset (unmoved.copy ▸ copied))
  have told := unmoved_tellProperties attends h [.count, .items] (tellChange call h .reset v)
  refine ⟨abreast_unmoved ⟨setting_alike there alike, right, current⟩ told, fun y i listens => ?_⟩
  have again : (y, .client i) ∈ (tellChange call h .reset v).roster h .properties := by
    rw [roster_alike alike, roster_alike unmoved.toAlike]
    exact listens
  exact told_after (unmoved.told.trans alike.told)
    (tellProperties_informs attends again List.mem_cons_self)

omit [Element α] in
theorem counted_told (client : u.client = w.client)
    (same : u.living h .properties = w.living h .properties)
    (informed : ∀ y i, (y, .client i) ∈ u.roster h .properties →
      Informed y (.property .count) u v) : Counted value h w v := by
  intro _ _ _ _ _ y i listens
  rw [roster, ← same] at listens
  obtain ⟨more, told, member⟩ := informed y i listens
  exact ⟨more, client ▸ told, member⟩

omit [Element α] in
theorem unseen_exchangeFilter (id : ViewId) (filter : Option Filter) :
    Unseen clientState (exchangeFilter id filter : Work α κ (ViewCopies α) Unit) :=
  unseen_withFilter id fun _ =>
    unseen_bind (unseen_holding listFree_clientState (unseen_modify fun _ => rfl)) fun _ =>
      unseen_modify fun _ => rfl

omit [Element α] in
theorem tidy_refiltered {id : ViewId} {filter : Option Filter} (tidy : Tidy w)
    (lists : v.lists = w.lists) (merges : v.merges = w.merges)
    (filters : v.filters = w.filters.modify id fun f =>
      { f with filter, generation := f.generation + 1 }) (held : v.held = w.held) : Tidy v := by
  have kept (other : ViewId) : (v.filters.get? other).map FilteredView.base =
      (w.filters.get? other).map FilteredView.base := by
    rw [filters]
    exact Table.map_get?_modify w.filters id other fun _ => rfl
  refine ⟨fun other g here => ?_, fun other m here => held ▸ tidy.merges other m (merges ▸ here),
    fun c n here => ?_⟩
  · obtain ⟨g, before, -⟩ := Option.map_eq_some_iff.mp
      ((kept other).symm.trans (congrArg (Option.map FilteredView.base) here))
    exact held ▸ tidy.filters other g before
  · have led := mem_reachable.mp (tidy.lists c n (lists ▸ here))
    rw [mem_reachable, held, merges]
    refine led.imp_right (Or.imp_left ?_)
    rintro ⟨other, g, before, based⟩
    obtain ⟨g', after, base⟩ := Option.map_eq_some_iff.mp
      ((kept other).trans (congrArg (Option.map FilteredView.base) before))
    exact ⟨other, g', after, base.trans based⟩

theorem exchangeFilter_done {id : ViewId} (setting : Setting value (.filter id) x w)
    (filter : Option Filter) : ∃ u, exchangeFilter id filter w = (.ok (), u) ∧
      clientState u = clientState w ∧ Setting value (.filter id) x u := by
  obtain ⟨f, l, readable⟩ := setting.readable
  have same := unseen_exchangeFilter id filter w
  have run := setting.run.filter (.set id filter)
  obtain ⟨fault, u, -, -, locked⟩ | ⟨u, outcome, aside, merges, filters⟩ :=
    exchangeFilter_leaves readable.view filter
  · exact absurd readable.unlocked locked
  · rw [outcome] at same run
    have living := living_of_clientState same
    have held : u.held = w.held := held_of_clientState same
    have next : u.nextSubscriber = w.nextSubscriber := next_of_clientState same
    have standing : u.filters.get? id =
        some { f with filter, generation := f.generation + 1 } := by
      rw [filters, Table.get?_modify_present readable.view, if_pos rfl]
    have tidy := tidy_refiltered setting.tidy aside.lists merges filters held
    refine ⟨u, outcome, same, setting_again setting aside.lists (fun _ => free_aside aside) ?_ ?_
      run tidy ?_ ?_ ?_ ?_ ?_⟩
    · simp [cacheLock, filterCache, standing, readable.view]
    · simp [cached, filterCache, standing, readable.view]
    · exact ⟨_, l, standing, aside.lists ▸ readable.base, readable.usable,
        free_aside aside readable.free, free_aside aside readable.unlocked,
        fun own has => free_aside aside (readable.own own has)⟩
    · rw [roster, living]
      exact setting.watching
    · intro k differs p member
      rw [roster, living] at member
      exact setting.elsewhere k differs p member
    · intro g there
      obtain rfl := Option.some.inj (standing.symm.trans there)
      exact filterWired_congr living (setting.wired f readable.view)
    · intro k t s member
      rw [next]
      rw [living] at member
      exact setting.fresh k t s member

theorem setFilter_abreast {id : ViewId}
    (immutable : ∀ k, Handle.filter id = .filter k → Fixed value)
    (attends : Attends call value (.filter id) x) (abreast : Abreast value (.filter id) x w)
    (filter : Option Filter) : Abreast value (.filter id) x (setFilter call id filter w).2 ∧
      Counted value (.filter id) w (setFilter call id filter w).2 := by
  obtain ⟨u, exchanged, same, setting⟩ := exchangeFilter_done abreast.toSetting filter
  have client : u.client = w.client := client_of_clientState same
  obtain ⟨done, empty⟩ := invalidate_drops (filterCacheOf id) (filterCache_open setting.readable)
    setting.tended
  have unmoved : Unmoved value (.filter id) x u _ :=
    unmoved_invalidate (filterCacheOf id) fun run => run.filter (.dropped id)
  rcases dropped : CachedView.invalidate (filterCache id) u with ⟨r, v⟩
  rw [dropped] at done empty unmoved
  obtain rfl : r = .ok () := done
  have truthful : Truthful value (.filter id) v := fun items kept => by
    rw [empty] at kept
    cases kept
  have whole : setFilter call id filter w = (.ok (), tellReset call (.filter id) v) := by
    rw [setFilter, Act.bind_of_ok exchanged, Act.bind_of_ok dropped]
    rfl
  obtain ⟨after, informed⟩ := told_anew immutable attends setting
    (client ▸ abreast.current.copied) unmoved truthful
  rw [whole]
  exact ⟨after, counted_told client (living_of_clientState same ..) informed⟩

end

end UndoableLists.World
