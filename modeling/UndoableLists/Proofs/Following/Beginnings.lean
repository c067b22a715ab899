import UndoableLists.Proofs.Following.Slaves

/-!
How following begins. Main statements: views can be made in all worlds that came from nothing, list
by list, view by view and subscriber by subscriber; and whoever subscribes to a new view and takes a
copy of its list is abreast of the view.
-/
namespace UndoableLists.World
variable {α κ : Type}

/-- All lists can be told of and have free locks, everything is held, and no number was given out
that is still to come. -/
structure Grounds [Element α] (w : World α κ (ViewCopies α)) : Prop where
  run : Run w
  tidy : Tidy w
  lists : ∀ c l, w.lists.get? c = some l → Tellable c l ∧ w.locks.Free w.thread l.lock
  filters : ∀ id f, w.filters.get? id = some f → id < w.nextView
  merges : ∀ id m, w.merges.get? id = some m → id < w.nextView
  fresh : ∀ k t, ∀ s ∈ w.living k t, s.id < w.nextSubscriber
  known : ∀ k t, ∀ s ∈ w.living k t, ∀ id, s.listener.view = some (.filter id) ∨
    s.listener.view = some (.merge id) → id < w.nextView

structure Furnished [Element α] (h : Handle) (w : World α κ (ViewCopies α)) : Prop where
  run : Run w
  tidy : Tidy w
  tended : Tended h w
  readable : w.Open h
  lists : ∀ c l, w.lists.get? c = some l → Tellable c l ∧ w.locks.Free w.thread l.lock
  wired : Wired w h
  fresh : ∀ k t, ∀ s ∈ w.living k t, s.id < w.nextSubscriber

section
variable [Element α] {value : α → Value} {h : Handle} {x : SubscriberId} {c : ListId}
  {v w : World α κ (ViewCopies α)}

theorem furnished_of_setting (setting : Setting value h x w) : Furnished h w :=
  { setting with }

def Joined (w v : World α κ (ViewCopies α)) : Prop :=
  ∀ k t, ∃ more : List (Subscriber (Listener κ)), v.living k t = w.living k t ++ more ∧
    ∀ s ∈ more, s.id = w.nextSubscriber ∧ s.listener.view = none

omit [Element α] in
theorem joined_subscribe (k : Handle) (t : Topic) (i : κ) (w : World α κ (ViewCopies α)) :
    Joined w (w.subscribe k t (.client i)).2 := by
  intro h s
  refine ⟨_, living_subscribe k t (.client i) w h s, fun s member => ?_⟩
  split at member
  · obtain rfl := List.mem_singleton.mp member
    exact ⟨rfl, rfl⟩
  · exact absurd member List.not_mem_nil

omit [Element α] in
theorem soleAt_joined (joined : Joined w v)
    (fresh : ∀ k t, ∀ s ∈ w.living k t, s.id < w.nextSubscriber) {t : Topic} {l : Listener κ}
    {i : SubscriberId} (sole : SoleAt w h c t l i) : SoleAt v h c t l i := by
  obtain ⟨before, after, living, others⟩ := sole
  obtain ⟨more, grown, new⟩ := joined (.list c) t
  have older := fresh (.list c) t ⟨i, l, 1⟩ (by simp [living])
  refine ⟨before, after ++ more, by rw [grown, living]; simp, fun s member => ?_⟩
  rw [← List.append_assoc] at member
  rcases List.mem_append.mp member with old | late
  · exact others s old
  · obtain ⟨number, view⟩ := new s late
    refine ⟨?_, by simp [view]⟩
    rw [number]
    exact Nat.ne_of_gt older

omit [Element α] in
theorem deaf_joined (joined : Joined w v) (deaf : Deaf w h c) : Deaf v h c := by
  intro t p member
  obtain ⟨more, grown, new⟩ := joined (.list c) t
  rw [roster, grown, List.map_append] at member
  rcases List.mem_append.mp member with old | late
  · exact deaf t p old
  · obtain ⟨s, among, rfl⟩ := List.mem_map.mp late
    simp [(new s among).2]

omit [Element α] in
theorem wired_joined (joined : Joined w v) (views : SameViews w v)
    (fresh : ∀ k t, ∀ s ∈ w.living k t, s.id < w.nextSubscriber) (wired : Wired w h) :
    Wired v h := by
  have subscribed {c : ListId} {t : Topic} {l : Listener κ} {i : SubscriberId}
      (sole : SoleAt w h c t l i) : SoleAt v h c t l i := soleAt_joined joined fresh sole
  cases h with
  | list id => exact wired
  | filter id =>
    intro f there
    obtain ⟨listens, deaf⟩ := wired f (views.filters ▸ there)
    exact ⟨fun t => (listens t).imp fun _ => subscribed,
      fun c differs => deaf_joined joined (deaf c differs)⟩
  | merge id =>
    intro m there
    obtain ⟨distinct, listens, attached, deaf⟩ := wired m (views.merges ▸ there)
    refine ⟨distinct, fun t => (listens t).imp fun _ => subscribed, fun s member => ?_,
      fun c outside => deaf_joined joined (deaf c outside)⟩
    obtain ⟨i, j, subscriptions, changes, properties⟩ := attached s member
    exact ⟨i, j, subscriptions, subscribed changes, subscribed properties⟩

omit [Element α] in
theorem fresh_subscribe (k : Handle) (t : Topic) (i : κ)
    (fresh : ∀ k t, ∀ s ∈ w.living k t, s.id < w.nextSubscriber) :
    ∀ h s, ∀ p ∈ (w.subscribe k t (.client i)).2.living h s,
      p.id < (w.subscribe k t (.client i)).2.nextSubscriber := by
  intro h s p member
  have next : (w.subscribe k t (.client i)).2.nextSubscriber = w.nextSubscriber + 1 := rfl
  obtain ⟨more, grown, new⟩ := joined_subscribe k t i w h s
  rw [grown] at member
  rw [next]
  rcases List.mem_append.mp member with old | late
  · exact Nat.lt_succ_of_lt (fresh h s p old)
  · rw [(new p late).1]
    exact Nat.lt_succ_self _

theorem furnished_subscribe (furnished : Furnished h w) (k : Handle) (t : Topic) (i : κ) :
    Furnished h (w.subscribe k t (.client i)).2 where
  run := run_congr furnished.run rfl ⟨rfl, rfl⟩ rfl rfl rfl
  tidy := ⟨furnished.tidy.filters, furnished.tidy.merges, furnished.tidy.lists⟩
  tended := ⟨furnished.tended.free, furnished.tended.vacant⟩
  readable := open_same furnished.readable ⟨rfl, rfl⟩ rfl rfl rfl
  lists := furnished.lists
  wired := wired_joined (joined_subscribe k t i w) ⟨rfl, rfl⟩ furnished.fresh furnished.wired
  fresh := fresh_subscribe k t i furnished.fresh

theorem grounds_subscribe (grounds : Grounds w) (k : Handle) (t : Topic) (i : κ) :
    Grounds (w.subscribe k t (.client i)).2 where
  run := run_congr grounds.run rfl ⟨rfl, rfl⟩ rfl rfl rfl
  tidy := ⟨grounds.tidy.filters, grounds.tidy.merges, grounds.tidy.lists⟩
  lists := grounds.lists
  filters := grounds.filters
  merges := grounds.merges
  fresh := fresh_subscribe k t i grounds.fresh
  known h s p member id sees := by
    obtain ⟨more, grown, new⟩ := joined_subscribe k t i w h s
    rw [grown] at member
    rcases List.mem_append.mp member with old | late
    · exact grounds.known h s p old id sees
    · simp [(new p late).2] at sees

theorem abreast_subscribe (abreast : Abreast value h x w) (k : Handle) (t : Topic) (i : κ) :
    Abreast value h x (w.subscribe k t (.client i)).2 := by
  obtain ⟨before, j, after, order, others⟩ := abreast.watching
  have older := follower_older abreast.toSetting
  have grown (k' : Handle) : ∃ more, (w.subscribe k t (.client i)).2.roster k' .changes =
      w.roster k' .changes ++ more ∧ ∀ p ∈ more, p.1 ≠ x := by
    obtain ⟨more, living, new⟩ := joined_subscribe k t i w k' .changes
    refine ⟨more.map fun s => (s.id, s.listener), by rw [roster, living, List.map_append]; rfl, ?_⟩
    intro p member
    obtain ⟨s, late, rfl⟩ := List.mem_map.mp member
    exact (new s late).1 ▸ Nat.ne_of_gt older
  have furnished := furnished_subscribe (furnished_of_setting abreast.toSetting) k t i
  refine ⟨⟨⟨furnished.run, furnished.tidy, furnished.tended, furnished.readable, ?_, ?_⟩,
    furnished.lists, furnished.wired, furnished.fresh⟩, abreast.truthful,
    abreast.current.copied, abreast.current.right⟩
  · obtain ⟨more, roster, new⟩ := grown h
    refine ⟨before, j, after ++ more, by rw [roster, order]; simp, fun p member => ?_⟩
    rw [← List.append_assoc] at member
    exact (List.mem_append.mp member).elim (others p) (new p)
  · intro k' differs p member
    obtain ⟨more, roster, new⟩ := grown k'
    rw [roster] at member
    exact (List.mem_append.mp member).elim (abreast.elsewhere k' differs p) (new p)

def begin (h : Handle) (i : κ) (items : List α) (w : World α κ (ViewCopies α)) :
    World α κ (ViewCopies α) :=
  recopied w.nextSubscriber (some items) (w.subscribe h .changes (.client i)).2

theorem abreast_begin (furnished : Furnished h w) (truthful : Truthful value h w)
    {items : List α} (shows : w.shown value h = .ok items) (i : κ) :
    Abreast value h w.nextSubscriber (w.begin h i items) := by
  have again := furnished_subscribe furnished h .changes i
  have kept : Alike value h (w.subscribe h .changes (.client i)).2 (w.begin h i items) :=
    alike_recopied w.nextSubscriber (some items) _
  have roster (k : Handle) : (w.subscribe h .changes (.client i)).2.roster k .changes =
      w.roster k .changes ++ if k = h then [(w.nextSubscriber, .client i)] else [] := by
    rw [World.roster, living_subscribe, List.map_append]
    by_cases here : k = h <;> simp [here, World.roster]
  have older (k : Handle) : ∀ p ∈ w.roster k .changes, p.1 ≠ w.nextSubscriber := by
    intro p member
    obtain ⟨s, there, rfl⟩ := List.mem_map.mp member
    exact Nat.ne_of_lt (furnished.fresh k _ s there)
  have setting : Setting value h w.nextSubscriber (w.subscribe h .changes (.client i)).2 := by
    refine ⟨⟨again.run, again.tidy, again.tended, again.readable, ?_, ?_⟩, again.lists, again.wired,
      again.fresh⟩
    · refine ⟨w.roster h .changes, i, [], by rw [roster, if_pos rfl], fun p member => ?_⟩
      rw [List.append_nil] at member
      exact older h p member
    · intro k differs p member
      rw [roster, if_neg differs, List.append_nil] at member
      exact older k p member
  have copy : (w.begin h i items).client.copies w.nextSubscriber = some items :=
    Function.update_self ..
  refine ⟨setting_alike setting kept, kept.truthful truthful,
    Option.isSome_iff_exists.mpr ⟨items, copy⟩, fun others shown => ?_⟩
  rw [show (w.begin h i items).shown value h = .ok items from
    (shown_alike kept h).trans shows] at shown
  exact copy.trans (congrArg some (Except.ok.inj shown))

theorem grounds_empty (objects : Objects) (client : ViewCopies α) :
    Grounds ({ objects, client } : World α κ (ViewCopies α)) where
  run := .start (fun _ => rfl) (fun _ => rfl) (fun _ => rfl) (fun _ member => nomatch member)
  tidy := ⟨fun _ _ here => (nomatch here), fun _ _ here => (nomatch here),
    fun _ _ here => (nomatch here)⟩
  lists _ _ here := nomatch here
  filters _ _ here := nomatch here
  merges _ _ here := nomatch here
  fresh k t s member := by cases t <;> cases member
  known k t s member := by cases t <;> cases member

omit [Element α] in
theorem createList_eq (b : Blueprint α) (w : World α κ (ViewCopies α)) :
    (createList b w).2 = w.enrolled b := by
  have silent (ns : List Notice) (w : World α κ (ViewCopies α)) : Journal.noteAll ns w = w := by
    unfold Journal.noteAll
    exact List.foldl_fixed' (fun _ => rfl) ns
  exact silent _ _

theorem free_next (run : Run w) (settings : Patience) :
    (w.locks.create settings).2.Free w.thread w.locks.next :=
  Locks.free_newly settings fun member => absurd
    ((coherent_of_run (Element.current w.objects) run).grounded.ledger _ member) (Nat.lt_irrefl _)

theorem grounds_createList (grounds : Grounds w) (b : Blueprint α) :
    Grounds (createList b w).2 where
  run := grounds.run.list (.created b)
  tidy := by
    rw [createList_eq]
    refine ⟨fun id f here => List.mem_cons_of_mem _ (grounds.tidy.filters id f here),
      fun id m here => List.mem_cons_of_mem _ (grounds.tidy.merges id m here), fun c l here => ?_⟩
    rw [mem_reachable]
    rw [enrolled_lists] at here
    split at here
    · rename_i same
      exact .inl (same ▸ List.mem_cons_self)
    · exact (mem_reachable.mp (grounds.tidy.lists c l here)).imp_left (List.mem_cons_of_mem _)
  lists c l here := by
    have made : Orderly w.nextContext (createList b w).2 := .created b rfl
    rw [createList_eq] at here made ⊢
    by_cases new : c = w.nextContext
    · subst new
      obtain ⟨n, there, named, replayable⟩ := standing_of_orderly made
      obtain rfl := Option.some.inj (here.symm.trans there)
      rw [enrolled_lists, if_pos rfl] at here
      obtain rfl := Option.some.inj here
      exact ⟨⟨named, rfl, replayable rfl⟩, free_next grounds.run b.settings⟩
    · rw [enrolled_lists, if_neg new] at here
      obtain ⟨kind, free⟩ := grounds.lists c l here
      exact ⟨kind, Locks.free_created b.settings free⟩
  filters := by
    rw [createList_eq]
    exact grounds.filters
  merges := by
    rw [createList_eq]
    exact grounds.merges
  fresh := by
    rw [createList_eq]
    exact grounds.fresh
  known := by
    rw [createList_eq]
    exact grounds.known

/-- A view has been made that hears of the list `c` through `l`. -/
structure NewView (h : Handle) (c : ListId) (l : Listener κ) (w v : World α κ (ViewCopies α)) :
    Prop where
  view : l.view = some h
  number : h = .filter w.nextView ∨ h = .merge w.nextView
  lists : v.lists = w.lists
  free : Run w → ∀ lock, lock = w.locks.next ∨ w.locks.Free w.thread lock →
    v.locks.Free v.thread lock
  held : v.held = h :: w.held
  living : ∀ k t, v.living k t = w.living k t ++
    if k = .list c then [⟨w.nextFor t, l, 1⟩] else []
  next : v.nextSubscriber = w.nextSubscriber + 2
  nextView : v.nextView = w.nextView + 1

section
variable {l : Listener κ}

theorem unheard_newView (grounds : Grounds w) (made : NewView h c l w v) :
    ∀ k t, ∀ s ∈ w.living k t, s.listener.view ≠ some h := by
  intro k t s member same
  refine Nat.lt_irrefl w.nextView (grounds.known k t s member _ ?_)
  obtain rfl | rfl := made.number
  · exact .inl same
  · exact .inr same

theorem soleAt_newView (grounds : Grounds w) (made : NewView h c l w v) :
    (∀ t, SoleAt v h c t l (w.nextFor t)) ∧ ∀ d, d ≠ c → Deaf v h d := by
  have unheard := unheard_newView grounds made
  have deaf (d : ListId) : Deaf w h d := by
    intro t p member
    obtain ⟨s, among, rfl⟩ := List.mem_map.mp member
    exact unheard _ t s among
  refine ⟨fun t => soleAt_followed (deaf c) (grounds.fresh _ t) ?_, fun d differs => ?_⟩
  · rw [made.living, if_pos rfl]
  · refine deaf_congr (fun t => ?_) (deaf d)
    rw [made.living, if_neg fun same => differs (Handle.list.inj same), List.append_nil]

theorem grounds_newView (grounds : Grounds w) (made : NewView h c l w v) (run : Run v)
    (filters : ∀ id f, v.filters.get? id = some f →
      h = .filter id ∨ ∃ f, w.filters.get? id = some f)
    (merges : ∀ id m, v.merges.get? id = some m → h = .merge id ∨ ∃ m, w.merges.get? id = some m)
    (leads : ∀ c ∈ w.reachable, c ∈ v.reachable) : Grounds v where
  run
  tidy := by
    refine ⟨fun id f there => ?_, fun id m there => ?_, fun c l there => ?_⟩
    · rw [made.held]
      obtain rfl | ⟨f, here⟩ := filters id f there
      · exact List.mem_cons_self
      · exact List.mem_cons_of_mem _ (grounds.tidy.filters id f here)
    · rw [made.held]
      obtain rfl | ⟨m, here⟩ := merges id m there
      · exact List.mem_cons_self
      · exact List.mem_cons_of_mem _ (grounds.tidy.merges id m here)
    · exact leads c (grounds.tidy.lists c l (made.lists ▸ there))
  lists c l there := by
    obtain ⟨kind, free⟩ := grounds.lists c l (made.lists ▸ there)
    exact ⟨kind, made.free grounds.run _ (.inr free)⟩
  filters id f there := by
    rw [made.nextView]
    obtain rfl | ⟨f, here⟩ := filters id f there
    · obtain same | same := made.number
      · exact Handle.filter.inj same ▸ Nat.lt_succ_self _
      · cases same
    · exact Nat.lt_succ_of_lt (grounds.filters id f here)
  merges id m there := by
    rw [made.nextView]
    obtain rfl | ⟨m, here⟩ := merges id m there
    · obtain same | same := made.number
      · cases same
      · exact Handle.merge.inj same ▸ Nat.lt_succ_self _
    · exact Nat.lt_succ_of_lt (grounds.merges id m here)
  fresh := fresh_followed grounds.fresh made.living made.next
  known k t s member id sees := by
    rw [made.nextView]
    rw [made.living] at member
    rcases List.mem_append.mp member with old | new
    · exact Nat.lt_succ_of_lt (grounds.known k t s old id sees)
    · split at new
      · obtain rfl := List.mem_singleton.mp new
        rw [made.view] at sees
        obtain rfl | rfl := made.number <;> simp at sees <;> simp [sees]
      · exact absurd new List.not_mem_nil

end

theorem newView_filter (base : ListId) (predicate : Predicate) (settings : Patience)
    (w : World α κ (ViewCopies α)) : NewView (.filter w.nextView) base (.filter w.nextView) w
      (createFilter base predicate settings w) where
  view := rfl
  number := .inl rfl
  lists := rfl
  free run lock := by
    rintro (rfl | free)
    · exact free_next run settings
    · exact Locks.free_created settings free
  held := rfl
  living := living_follow base (.filter w.nextView) { w with nextView := w.nextView + 1 }
  next := rfl
  nextView := rfl

theorem grounds_createFilter (grounds : Grounds w) (base : ListId) (predicate : Predicate)
    (settings : Patience) : Grounds (createFilter base predicate settings w) := by
  refine grounds_newView grounds (newView_filter base predicate settings w)
    (grounds.run.filter (.made base predicate settings)) (fun id f there => ?_)
    (fun id m there => .inr ⟨m, there⟩) (fun c led => ?_)
  · rw [show (createFilter base predicate settings w).filters.get? id = _ from
      Table.get?_insert ..] at there
    split at there
    · rename_i same
      exact .inl (congrArg _ same.symm)
    · exact .inr ⟨f, there⟩
  · rw [mem_reachable] at led ⊢
    refine led.imp (List.mem_cons_of_mem _) (Or.imp_left ?_)
    rintro ⟨id, f, here, based⟩
    have other : id ≠ w.nextView := Nat.ne_of_lt (grounds.filters id f here)
    exact ⟨id, f, (Table.get?_insert_of_ne _ other _).trans here, based⟩

theorem furnished_createFilter (grounds : Grounds w) {l : UndoableList α}
    (here : w.lists.get? c = some l) (predicate : Predicate) (settings : Patience) :
    Furnished (.filter w.nextView) (createFilter c predicate settings w) ∧
      Truthful value (.filter w.nextView) (createFilter c predicate settings w) ∧
      (createFilter c predicate settings w).shown value (.filter w.nextView) = .ok l.contents := by
  have new := newView_filter c predicate settings w
  have made := grounds_createFilter grounds c predicate settings
  obtain ⟨subscribed, deaf⟩ := soleAt_newView grounds new
  obtain ⟨f, standing, base, lock, filter, cache⟩ : ∃ f,
      (createFilter c predicate settings w).filters.get? w.nextView = some f ∧ f.base = c ∧
        f.lock = w.locks.next ∧ f.filter = none ∧ f.cache = { settings } :=
    ⟨_, Table.get?_insert_self .., rfl, rfl, rfl, rfl⟩
  have empty : (createFilter c predicate settings w).cached (.filter w.nextView) = none := by
    simp [cached, filterCache, standing, cache]
  refine ⟨⟨made.run, made.tidy, ⟨fun own has => ?_, fun _ => empty⟩, ?_, made.lists, ?_,
    made.fresh⟩,
    fun items kept => ?_, ?_⟩
  · simp [cacheLock, filterCache, standing, cache] at has
  · refine ⟨f, l, standing, base ▸ here, by rw [cache], ?_, ?_, fun own has => ?_⟩
    · exact new.free grounds.run _ (.inr (grounds.lists c l here).2)
    · exact new.free grounds.run _ (.inl lock)
    · simp [cache] at has
  · intro g there
    obtain rfl := Option.some.inj (standing.symm.trans there)
    subst base
    exact ⟨fun t => ⟨_, subscribed t⟩, deaf⟩
  · rw [empty] at kept
    cases kept
  · have contents : (createFilter c predicate settings w).contentsOf c = l.contents := by
      rw [contentsOf, new.lists, here]
      rfl
    simp [shown, standing, FilteredView.shown, filter, base, contents]

theorem newView_merge (master : ListId) (settings : Patience) (w : World α κ (ViewCopies α)) :
    NewView (.merge w.nextView) master (.master w.nextView) w (createMerge master settings w) where
  view := rfl
  number := .inr rfl
  lists := rfl
  free run lock := by
    rintro (rfl | free)
    · exact free_next run settings
    · exact Locks.free_created settings free
  held := rfl
  living := living_follow master (.master w.nextView) { w with nextView := w.nextView + 1 }
  next := rfl
  nextView := rfl

theorem grounds_createMerge (grounds : Grounds w) (master : ListId) (settings : Patience) :
    Grounds (createMerge master settings w) := by
  refine grounds_newView grounds (newView_merge master settings w)
    (grounds.run.merge (.made master settings)) (fun id f there => .inr ⟨f, there⟩)
    (fun id m there => ?_) (fun c led => ?_)
  · rw [show (createMerge master settings w).merges.get? id = _ from
      Table.get?_insert ..] at there
    split at there
    · rename_i same
      exact .inl (congrArg _ same.symm)
    · exact .inr ⟨m, there⟩
  · rw [mem_reachable] at led ⊢
    refine led.imp (List.mem_cons_of_mem _) (Or.imp_right ?_)
    rintro ⟨id, m, here, placed⟩
    have other : id ≠ w.nextView := Nat.ne_of_lt (grounds.merges id m here)
    exact ⟨id, m, (Table.get?_insert_of_ne _ other _).trans here, placed⟩

theorem furnished_createMerge (grounds : Grounds w) {l : UndoableList α}
    (here : w.lists.get? c = some l) (settings : Patience) :
    Furnished (.merge w.nextView) (createMerge c settings w) ∧
      Truthful value (.merge w.nextView) (createMerge c settings w) ∧
      (createMerge c settings w).shown value (.merge w.nextView) = .ok l.contents := by
  have new := newView_merge c settings w
  have made := grounds_createMerge grounds c settings
  obtain ⟨subscribed, deaf⟩ := soleAt_newView grounds new
  obtain ⟨m, standing, master, lock, slaves, cache⟩ : ∃ m,
      (createMerge c settings w).merges.get? w.nextView = some m ∧ m.master = c ∧
        m.lock = w.locks.next ∧ m.slaves = [] ∧ m.cache = { settings } :=
    ⟨_, Table.get?_insert_self .., rfl, rfl, rfl, rfl⟩
  have places : m.places = [c] := by rw [MergedList.places, master, slaves]; rfl
  have empty : (createMerge c settings w).cached (.merge w.nextView) = none := by
    simp [cached, mergeCache, standing, cache]
  refine ⟨⟨made.run, made.tidy, ⟨fun own has => ?_, fun _ => empty⟩, ?_, made.lists, ?_,
    made.fresh⟩,
    fun items kept => ?_, ?_⟩
  · simp [cacheLock, mergeCache, standing, cache] at has
  · refine ⟨m, standing, by rw [cache], fun d place => ?_, ?_, fun own has => ?_⟩
    · rw [places, List.mem_singleton] at place
      subst place
      exact ⟨l, here, new.free grounds.run _ (.inr (grounds.lists d l here).2)⟩
    · exact new.free grounds.run _ (.inl lock)
    · simp [cache] at has
  · intro g there
    obtain rfl := Option.some.inj (standing.symm.trans there)
    subst master
    rw [slaves]
    refine ⟨by simp, fun t => ⟨_, subscribed t⟩, by simp, fun d outside => deaf d ?_⟩
    simpa using outside
  · rw [empty] at kept
    cases kept
  · have contents : (createMerge c settings w).contentsOf c = l.contents := by
      rw [contentsOf, new.lists, here]
      rfl
    simp [shown, standing, places, contents]

/-- A world that came from nothing: lists and views were made in it, and clients subscribed. -/
inductive Made : World α κ (ViewCopies α) → Prop
  | nothing (client : ViewCopies α) : Made { client }
  | list {w : World α κ (ViewCopies α)} (made : Made w) (b : Blueprint α) : Made (createList b w).2
  | filter {w : World α κ (ViewCopies α)} (made : Made w) (base : ListId) (predicate : Predicate)
    (settings : Patience) : Made (createFilter base predicate settings w)
  | merge {w : World α κ (ViewCopies α)} (made : Made w) (master : ListId) (settings : Patience) :
    Made (createMerge master settings w)
  | joined {w : World α κ (ViewCopies α)} (made : Made w) (k : Handle) (t : Topic) (i : κ) :
    Made (w.subscribe k t (.client i)).2

theorem grounds_of_made (made : Made w) : Grounds w := by
  induction made with
  | nothing client => exact grounds_empty {} client
  | list _ b ih => exact grounds_createList ih b
  | filter _ base predicate settings ih => exact grounds_createFilter ih base predicate settings
  | merge _ master settings ih => exact grounds_createMerge ih master settings
  | joined _ k t i ih => exact grounds_subscribe ih k t i

end

end UndoableLists.World
