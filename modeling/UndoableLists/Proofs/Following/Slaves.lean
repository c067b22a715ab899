import UndoableLists.Proofs.Following.Reshaping

/-!
Slaves that come and go. A merged list subscribes twice to a list that is added, and unsubscribes
from one that is taken out. Main statement: after such a call the merged list is wired to the lists
that it shows now, and its followers have read it anew.
-/
namespace UndoableLists.World
variable {α κ δ : Type}

section
variable {h : Handle} {c : ListId} {t : Topic} {l : Listener κ} {i : SubscriberId} {id : ViewId}
  {v w : World α κ δ}

theorem deaf_subset (fewer : ∀ t, v.roster (.list c) t ⊆ w.roster (.list c) t) (deaf : Deaf w h c) :
    Deaf v h c := fun t p member => deaf t p (fewer t member)

theorem gone_of_soleAt (sole : SoleAt w h c t l i) : ∀ s ∈
    ((⟨w.living (.list c) t⟩ : Audience (Listener κ)).unguarded [i]).struckOff.subscribers,
      s.listener.view ≠ some h := by
  obtain ⟨before, after, living, others⟩ := sole
  intro s member
  obtain ⟨among, alive⟩ := List.mem_filter.mp member
  obtain ⟨s, there, rfl⟩ := List.mem_map.mp among
  rw [living] at there
  have known : s ∈ before ++ after ∨ s = ⟨i, l, 1⟩ := by
    simp only [List.mem_append, List.mem_cons] at there ⊢
    tauto
  obtain other | rfl := known
  · obtain ⟨apart, differs⟩ := others s other
    rw [if_neg (by simpa using apart)]
    exact differs
  · simp at alive

theorem unsubscribeAll_append (first second : List Subscription) (w : World α κ δ) :
    w.unsubscribeAll (first ++ second) = (w.unsubscribeAll first).unsubscribeAll second :=
  List.foldl_append

theorem attached_sources {s : Slave} (attached : Attached w id s) :
    ∀ q ∈ s.subscriptions, q.source = .list s.list := by
  obtain ⟨i, j, subscriptions, -⟩ := attached
  simp [subscriptions]

theorem deaf_detached {s : Slave} (attached : Attached w id s) :
    Deaf (w.unsubscribeAll s.subscriptions) (.merge id) s.list := by
  obtain ⟨i, j, subscriptions, changes, properties⟩ := attached
  have twice : w.unsubscribeAll s.subscriptions =
      (w.unsubscribe ⟨.list s.list, .changes, i⟩).unsubscribe ⟨.list s.list, .properties, j⟩ := by
    rw [subscriptions]
    rfl
  intro t p member
  rw [twice] at member
  obtain ⟨q, among, rfl⟩ := List.mem_map.mp member
  cases t with
  | changes =>
    simp only [living_unsubscribe, and_false, and_self, if_true, reduceCtorEq, if_false] at among
    exact gone_of_soleAt changes q among
  | properties =>
    simp only [living_unsubscribe, and_false, and_self, if_true, reduceCtorEq, if_false] at among
    exact gone_of_soleAt properties q among

/-- Nobody is left at the lists that are taken out; the induction is on the slaves. -/
theorem deaf_of_gone {gone : List Slave} (attached : ∀ s ∈ gone, Attached w id s)
    (distinct : (gone.map (·.list)).Nodup) : ∀ s ∈ gone,
      Deaf (w.unsubscribeAll (gone.flatMap (·.subscriptions))) (.merge id) s.list := by
  induction gone generalizing w with
  | nil => exact fun s member => absurd member List.not_mem_nil
  | cons first rest ih =>
    obtain ⟨apart, distinct⟩ := List.nodup_cons.mp distinct
    have here := attached first List.mem_cons_self
    have others (s : Slave) (member : s ∈ rest) :
        Attached (w.unsubscribeAll first.subscriptions) id s := by
      refine attached_congr (fun t => living_unsubscribeAll (fun q among same => ?_) w t)
        (attached s (List.mem_cons_of_mem _ member))
      rw [attached_sources here q among] at same
      exact apart (List.mem_map.mpr ⟨s, member, Handle.list.inj same⟩)
    intro s member
    rw [List.flatMap_cons, unsubscribeAll_append]
    rcases List.mem_cons.mp member with rfl | member
    · exact deaf_subset (fun t => roster_unsubscribeAll _ _ _ t) (deaf_detached here)
    · exact ih others distinct s member

end

section
variable [Element α] {value : α → Value} {x : SubscriberId} {id : ViewId} {m : MergedList α}
  {slaves : List Slave} {u v w : World α κ (ViewCopies α)} {call : Call α κ (ViewCopies α)}

omit [Element α] in
theorem tidy_reshaped (tidy : Tidy w) (here : w.merges.get? id = some m) (lists : v.lists = w.lists)
    (filters : v.filters = w.filters)
    (merges : v.merges = w.merges.modify id fun m =>
      { m with slaves, generation := m.generation + 1 })
    (held : w.held ⊆ v.held)
    (leads : ∀ c ∈ m.places, c ∈ m.master :: slaves.map (·.list) ∨ .list c ∈ v.held) : Tidy v := by
  have standing : v.merges.get? id = some { m with slaves, generation := m.generation + 1 } := by
    rw [merges, Table.get?_modify_present here, if_pos rfl]
  have kept (other : ViewId) : (v.merges.get? other).map MergedList.master =
      (w.merges.get? other).map MergedList.master := by
    rw [merges]
    exact Table.map_get?_modify w.merges id other fun _ => rfl
  refine ⟨fun other f there => held (tidy.filters other f (filters ▸ there)),
    fun other g there => ?_, fun c n there => ?_⟩
  · obtain ⟨g, before, -⟩ := Option.map_eq_some_iff.mp
      ((kept other).symm.trans (congrArg (Option.map MergedList.master) there))
    exact held (tidy.merges other g before)
  · rw [mem_reachable, filters]
    obtain listed | based | ⟨other, g, before, placed⟩ :=
      mem_reachable.mp (tidy.lists c n (lists ▸ there))
    · exact .inl (held listed)
    · exact .inr (.inl based)
    · by_cases moved : other = id
      · subst moved
        obtain rfl := Option.some.inj (here.symm.trans before)
        obtain still | listed := leads c placed
        · exact .inr (.inr ⟨other, _, standing, still⟩)
        · exact .inl listed
      · refine .inr (.inr ⟨other, g, ?_, placed⟩)
        rw [merges, Table.get?_modify, if_neg moved]
        exact before

theorem setting_reshaped (setting : Setting value (.merge id) x w)
    (here : w.merges.get? id = some m) (run : Run v) (lists : v.lists = w.lists)
    (frees : ∀ lock, w.locks.Free w.thread lock → v.locks.Free v.thread lock)
    (filters : v.filters = w.filters)
    (merges : v.merges = w.merges.modify id fun m =>
      { m with slaves, generation := m.generation + 1 })
    (held : w.held ⊆ v.held)
    (leads : ∀ c ∈ m.places, c ∈ m.master :: slaves.map (·.list) ∨ .list c ∈ v.held)
    (present : ∀ s ∈ slaves, ∃ l, w.lists.get? s.list = some l)
    (same : ∀ t, v.living (.merge id) t = w.living (.merge id) t)
    (elsewhere : ∀ k, k ≠ .merge id → ∀ p ∈ v.roster k .changes, p.1 ≠ x)
    (wired : MergeWired v id m.master slaves)
    (fresh : ∀ k t, ∀ s ∈ v.living k t, s.id < v.nextSubscriber) :
    Setting value (.merge id) x v := by
  obtain ⟨g, readable⟩ := setting.readable
  obtain rfl := Option.some.inj (here.symm.trans readable.view)
  have standing : v.merges.get? id = some { m with slaves, generation := m.generation + 1 } := by
    rw [merges, Table.get?_modify_present here, if_pos rfl]
  have tidy := tidy_reshaped setting.tidy here lists filters merges held leads
  refine setting_again setting lists frees ?_ ?_ run tidy ?_ ?_ elsewhere ?_ fresh
  · simp [cacheLock, mergeCache, standing, here]
  · simp [cached, mergeCache, standing, here]
  · refine ⟨_, standing, readable.usable, fun c place => ?_, frees _ readable.unlocked,
      fun own has => frees _ (readable.own own has)⟩
    have listed : ∃ l, w.lists.get? c = some l := by
      rcases List.mem_cons.mp place with rfl | member
      · obtain ⟨l, there, -⟩ := readable.free _ List.mem_cons_self
        exact ⟨l, there⟩
      · obtain ⟨s, among, rfl⟩ := List.mem_map.mp member
        exact present s among
    obtain ⟨l, there⟩ := listed
    exact ⟨l, lists ▸ there, frees _ (setting.lists c l there).2⟩
  · rw [roster, same]
    exact setting.watching
  · intro g there
    obtain rfl := Option.some.inj (standing.symm.trans there)
    exact wired

theorem tellSlaves_abreast (immutable : ∀ k, Handle.merge id = .filter k → Fixed value)
    (attends : Attends call value (.merge id) x) (setting : Setting value (.merge id) x u)
    (copied : (u.client.copies x).isSome) :
    Abreast value (.merge id) x (tellSlaves call id u) ∧
      ∀ y i, (y, .client i) ∈ u.roster (.merge id) .properties →
        Informed y (.property .count) u (tellSlaves call id u) := by
  obtain ⟨v, unmoved, truthful, next⟩ := mergeInvalidating_open setting.toScene
  rw [tellSlaves, next]
  exact told_anew immutable attends setting copied unmoved truthful

omit [Element α] in
theorem unseen_exchangeSlaves (id : ViewId)
    (choose : List Slave → Except ListRefusal (List Slave × List Slave)) :
    Unseen clientState (exchangeSlaves id choose : Work α κ (ViewCopies α) (List Slave)) :=
  unseen_withMerge id fun _ => unseen_bind (unseen_holding listFree_clientState
    (unseen_withMerge id fun _ => unseen_bind (fun _ => rfl) fun _ =>
      unseen_bind (unseen_modify fun _ => rfl) fun _ => unseen_pure _)) fun _ =>
    unseen_bind (unseen_modify fun _ => rfl) fun _ => unseen_pure _

def newSlave (w : World α κ (ViewCopies α)) (id : ViewId) (c : ListId) : Slave :=
  ⟨c, (w.follow c (.slave id)).1⟩

omit [Element α] in
theorem wired_added {master : ListId} {c : ListId} (wired : MergeWired w id master slaves)
    (outside : c ∉ master :: slaves.map (·.list))
    (fresh : ∀ t, ∀ s ∈ w.living (.list c) t, s.id < w.nextSubscriber)
    (living : ∀ k t, u.living k t = w.living k t ++
      if k = .list c then [⟨w.nextFor t, .slave id, 1⟩] else []) :
    MergeWired u id master (slaves ++ [newSlave w id c]) := by
  have beside {d : ListId} (differs : d ≠ c) (t : Topic) :
      u.living (.list d) t = w.living (.list d) t := by
    rw [living, if_neg fun same => differs (Handle.list.inj same), List.append_nil]
  have sole (t : Topic) : SoleAt u (.merge id) c t (.slave id) (w.nextFor t) :=
    soleAt_followed (wired.deaf c outside) (fresh t) (by rw [living, if_pos rfl])
  have places : (slaves ++ [newSlave w id c]).map (·.list) = slaves.map (·.list) ++ [c] := by
    rw [List.map_append]
    rfl
  constructor
  · rw [places, ← List.cons_append]
    refine List.nodup_append.mpr ⟨wired.distinct, List.nodup_singleton c, ?_⟩
    rintro d member e last rfl
    exact outside (List.mem_singleton.mp last ▸ member)
  · intro t
    obtain ⟨i, sole⟩ := wired.listens t
    exact ⟨i, soleAt_congr (beside (fun same => outside (same ▸ List.mem_cons_self)) t) sole⟩
  · intro s member
    rcases List.mem_append.mp member with old | new
    · refine attached_congr (beside fun same => outside ?_) (wired.attached s old)
      exact List.mem_cons_of_mem _ (List.mem_map.mpr ⟨s, old, same⟩)
    · obtain rfl := List.mem_singleton.mp new
      exact ⟨_, _, rfl, sole .changes, sole .properties⟩
  · intro d member
    rw [places, ← List.cons_append, List.mem_append, not_or] at member
    exact deaf_congr (beside fun same => member.2 (List.mem_singleton.mpr same))
      (wired.deaf d member.1)

theorem setting_added (setting : Setting value (.merge id) x w) {c : ListId}
    (present : ∃ l, w.lists.get? c = some l) (apart : c ∉ w.sources (.merge id)) :
    ∃ gone u, exchangeSlaves id (fun slaves => .ok ([], slaves ++ [newSlave w id c]))
        (w.follow c (.slave id)).2 = (.ok gone, u) ∧ u.client = w.client ∧
      (∀ t, u.living (.merge id) t = w.living (.merge id) t) ∧
      Setting value (.merge id) x u := by
  obtain ⟨m, readable⟩ := setting.readable
  have outside : c ∉ m.places := by simpa [sources, readable.view] using apart
  have followed := still_follow c (.slave id) w
  obtain ⟨y, named⟩ : ∃ y, y = (w.follow c (.slave id)).2 := ⟨_, rfl⟩
  rw [← named] at followed ⊢
  have run := (run_still setting.run followed).merge (.set id
    fun slaves => .ok ([], slaves ++ [newSlave w id c]))
  have same := unseen_exchangeSlaves id
    (fun slaves => .ok ([], slaves ++ [newSlave w id c])) y
  obtain ⟨fault, u, -, -, refuses⟩ | ⟨gone, slaves, u, chosen, outcome, aside, filters, merges⟩ :=
    exchangeSlaves_leaves (followed.merges ▸ readable.view : y.merges.get? id = some m)
      fun slaves => .ok ([], slaves ++ [newSlave w id c])
  · obtain ⟨cause, refused⟩ := refuses (free_aside followed.toAside readable.unlocked)
    cases refused
  · cases chosen
    rw [outcome] at run same
    have living (k : Handle) (t : Topic) : u.living k t = w.living k t ++
        if k = .list c then [⟨w.nextFor t, .slave id, 1⟩] else [] := by
      rw [living_of_clientState same, named, living_follow]
    have beside {k : Handle} (differs : k ≠ .list c) (t : Topic) : u.living k t = w.living k t := by
      rw [living, if_neg differs, List.append_nil]
    have held : u.held = w.held :=
      (held_of_clientState same).trans (named ▸ rfl)
    have next : u.nextSubscriber = w.nextSubscriber + 2 :=
      (next_of_clientState same).trans (named ▸ rfl)
    have client : u.client = w.client :=
      (client_of_clientState same).trans (named ▸ rfl)
    refine ⟨[], u, outcome, client, beside (by simp), ?_⟩
    have alone := aside_trans followed.toAside aside
    refine setting_reshaped setting readable.view run alone.lists (fun _ => free_aside alone)
      (filters.trans followed.filters) (followed.merges ▸ merges) (held ▸ List.Subset.refl _)
      ?_ ?_ (beside (by simp)) ?_ ?_ ?_
    · intro d place
      left
      rw [List.map_append, ← List.cons_append]
      exact List.mem_append_left _ place
    · intro s member
      rcases List.mem_append.mp member with old | new
      · obtain ⟨l, there, -⟩ := readable.free s.list
          (List.mem_cons_of_mem _ (List.mem_map_of_mem old))
        exact ⟨l, there⟩
      · obtain rfl := List.mem_singleton.mp new
        exact present
    · intro k differs p member
      rw [roster, living, List.map_append] at member
      rcases List.mem_append.mp member with old | new
      · exact setting.elsewhere k differs p old
      · split at new
        · obtain rfl := List.mem_singleton.mp new
          exact Nat.ne_of_gt (follower_older setting)
        · exact absurd new List.not_mem_nil
    · exact wired_added (setting.wired m readable.view) outside (setting.fresh _) living
    · exact fresh_followed setting.fresh living next

theorem addSlave_abreast (immutable : ∀ k, Handle.merge id = .filter k → Fixed value)
    (attends : Attends call value (.merge id) x) (abreast : Abreast value (.merge id) x w)
    {c : ListId} (present : ∃ l, w.lists.get? c = some l) (apart : c ∉ w.sources (.merge id)) :
    Abreast value (.merge id) x (addSlave call id c w).2 ∧
      Counted value (.merge id) w (addSlave call id c w).2 := by
  obtain ⟨m, readable⟩ := abreast.readable
  obtain ⟨gone, u, outcome, client, same, setting⟩ :=
    setting_added abreast.toSetting present apart
  have whole : addSlave call id c w = (.ok (), tellSlaves call id u) := by
    refine (withMerge_present readable.view).trans ?_
    dsimp only
    split <;> rename_i done
    · cases done.symm.trans outcome
      rfl
    · cases done.symm.trans outcome
  obtain ⟨after, informed⟩ := tellSlaves_abreast immutable attends setting
    (client ▸ abreast.current.copied)
  rw [whole]
  exact ⟨after, counted_told client (same _) informed⟩

omit [Element α] in
theorem wired_detached {master : ListId} {gone kept : List Slave}
    (wired : MergeWired w id master slaves) (parts : slaves.Perm (gone ++ kept)) :
    MergeWired (w.unsubscribeAll (gone.flatMap (·.subscriptions))) id master kept := by
  have distinct : (master :: (gone.map (·.list) ++ kept.map (·.list))).Nodup := by
    rw [← List.map_append]
    exact ((parts.map _).cons master).nodup_iff.mp wired.distinct
  obtain ⟨alone, distinct⟩ := List.nodup_cons.mp distinct
  obtain ⟨among, remain, apart⟩ := List.nodup_append.mp distinct
  have attached (s : Slave) (member : s ∈ gone ++ kept) : Attached w id s :=
    wired.attached s (parts.mem_iff.mpr member)
  have beside {d : ListId} (differs : d ∉ gone.map (·.list)) (t : Topic) :
      (w.unsubscribeAll (gone.flatMap (·.subscriptions))).living (.list d) t =
        w.living (.list d) t := by
    refine living_unsubscribeAll (fun q member same => ?_) w t
    obtain ⟨s, left, kept⟩ := List.mem_flatMap.mp member
    rw [attached_sources (attached s (List.mem_append_left _ left)) q kept] at same
    exact differs (List.mem_map.mpr ⟨s, left, (Handle.list.inj same).symm⟩)
  constructor
  · exact List.nodup_cons.mpr ⟨fun member => alone (List.mem_append_right _ member), remain⟩
  · intro t
    obtain ⟨i, sole⟩ := wired.listens t
    exact ⟨i, soleAt_congr (beside (fun member => alone (List.mem_append_left _ member)) t) sole⟩
  · intro s member
    refine attached_congr (beside fun left => ?_) (attached s (List.mem_append_right _ member))
    exact apart s.list left s.list (List.mem_map_of_mem member) rfl
  · intro d outside
    by_cases left : d ∈ gone.map (·.list)
    · obtain ⟨s, member, rfl⟩ := List.mem_map.mp left
      exact deaf_of_gone (fun s member => attached s (List.mem_append_left _ member)) among s member
    · refine deaf_congr (beside left) (wired.deaf d fun place => outside ?_)
      rcases List.mem_cons.mp place with rfl | member
      · exact List.mem_cons_self
      · rw [(parts.map _).mem_iff, List.map_append] at member
        exact List.mem_cons_of_mem _ ((List.mem_append.mp member).resolve_left left)

omit [Element α] in
theorem held_gone (gone : List Slave) (w : World α κ (ViewCopies α)) :
    ∃ held, gone.foldl (fun w s => w.hold (.list s.list)) w = { w with held } ∧
      w.held ⊆ held ∧ ∀ s ∈ gone, .list s.list ∈ held := by
  induction gone generalizing w with
  | nil => exact ⟨w.held, rfl, List.Subset.refl _, by simp⟩
  | cons first rest ih =>
    obtain ⟨held, done, more, each⟩ := ih (w.hold (.list first.list))
    refine ⟨held, done, fun k member => more (List.mem_cons_of_mem _ member), fun s member => ?_⟩
    rcases List.mem_cons.mp member with rfl | member
    · exact more List.mem_cons_self
    · exact each s member

def released (gone : List Slave) (w : World α κ (ViewCopies α)) : World α κ (ViewCopies α) :=
  (gone.foldl (fun w s => w.hold (.list s.list)) w).unsubscribeAll (gone.flatMap (·.subscriptions))

omit [Element α] in
/-- Nothing is different in the world in which slaves have been released but what is held, which is
more, and the audiences, in which there are fewer. -/
theorem released_leaves (gone : List Slave) (w : World α κ (ViewCopies α)) :
    ∃ held, w.held ⊆ held ∧ (∀ s ∈ gone, .list s.list ∈ held) ∧
      ChannelsOnly { w with held } (released gone w) ∧ Still [] { w with held } (released gone w) ∧
      (∀ k t, (released gone w).roster k t ⊆ w.roster k t) ∧
      ∀ k, (∀ q ∈ gone.flatMap (·.subscriptions), k ≠ q.source) → ∀ t,
        (released gone w).living k t = w.living k t := by
  obtain ⟨held, done, more, each⟩ := held_gone gone w
  have reached : released gone w =
      unsubscribeAll (gone.flatMap (·.subscriptions)) { w with held } := congrArg _ done
  rw [reached]
  exact ⟨held, more, each, channelsOnly_unsubscribeAll _ _, still_unsubscribeAll _ _,
    roster_unsubscribeAll _ _, fun k elsewhere => living_unsubscribeAll elsewhere _⟩

omit [Element α] in
theorem wired_released {master : ListId} {gone kept : List Slave}
    (wired : MergeWired w id master slaves) (parts : slaves.Perm (gone ++ kept)) :
    MergeWired (released gone w) id master kept := by
  obtain ⟨held, done, -⟩ := held_gone gone w
  have carried : MergeWired { w with held } id master slaves :=
    mergeWired_congr (w := w) (fun _ _ => rfl) wired
  rw [released, done]
  exact wired_detached carried parts

omit [Element α] in
theorem fresh_fewer (fresh : ∀ k t, ∀ s ∈ w.living k t, s.id < w.nextSubscriber)
    (fewer : ∀ k t, v.roster k t ⊆ w.roster k t) (next : v.nextSubscriber = w.nextSubscriber) :
    ∀ k t, ∀ s ∈ v.living k t, s.id < v.nextSubscriber := by
  intro k t s member
  obtain ⟨older, there, same⟩ := List.mem_map.mp (fewer k t (List.mem_map_of_mem member))
  rw [next, ← show older.id = s.id from congrArg Prod.fst same]
  exact fresh k t older there

theorem setting_detached (setting : Setting value (.merge id) x w)
    {choose : List Slave → Except ListRefusal (List Slave × List Slave)}
    (parts : ∀ slaves gone kept, choose slaves = .ok (gone, kept) → slaves.Perm (gone ++ kept)) :
    (∃ fault u, exchangeSlaves id choose w = (.error fault, u) ∧ Unmoved value (.merge id) x w u) ∨
    ∃ gone u, exchangeSlaves id choose w = (.ok gone, u) ∧ (released gone u).client = w.client ∧
      (∀ t, (released gone u).living (.merge id) t = w.living (.merge id) t) ∧
      Setting value (.merge id) x (released gone u) := by
  obtain ⟨m, readable⟩ := setting.readable
  have same := unseen_exchangeSlaves id choose w
  have run := setting.run.merge (.set id choose)
  obtain ⟨fault, u, outcome, still, -⟩ | ⟨gone, kept, u, chosen, outcome, aside, filters, merges⟩ :=
    exchangeSlaves_leaves readable.view choose
  all_goals rw [outcome] at same run
  · exact .inl ⟨fault, u, outcome, unmoved_still still same⟩
  · have divides := parts m.slaves gone kept chosen
    have wired := wired_released
      (mergeWired_congr (living_of_clientState same) (setting.wired m readable.view)) divides
    have apart : ∀ q ∈ gone.flatMap (·.subscriptions), Handle.merge id ≠ q.source := by
      intro q member here
      obtain ⟨s, left, kept⟩ := List.mem_flatMap.mp member
      have attached := (setting.wired m readable.view).attached s
        (divides.mem_iff.mpr (List.mem_append_left _ left))
      rw [attached_sources attached q kept] at here
      cases here
    obtain ⟨held, more, each, ⟨channels, after⟩, ended, fewer, others⟩ := released_leaves gone u
    have roster (k : Handle) (t : Topic) : (released gone u).roster k t ⊆ w.roster k t := by
      intro p member
      have before := fewer k t member
      rwa [World.roster, living_of_clientState same] at before
    have living (t : Topic) : (released gone u).living (.merge id) t = w.living (.merge id) t :=
      (others _ apart t).trans (living_of_clientState same ..)
    have client : (released gone u).client = w.client := by
      rw [after]
      exact client_of_clientState (v := u) same
    have next : (released gone u).nextSubscriber = w.nextSubscriber := by
      rw [after]
      exact next_of_clientState (v := u) same
    have frees (lock : LockId) (free : w.locks.Free w.thread lock) : u.locks.Free u.thread lock :=
      free_aside aside free
    have holds : (released gone u).held = held := by rw [after]
    have before : u.held = w.held := held_of_clientState same
    have carried : Run { u with held } := run_congr run rfl ⟨rfl, rfl⟩ rfl rfl rfl
    refine .inr ⟨gone, u, outcome, client, living, setting_reshaped setting readable.view
      (run_still carried ended) (ended.lists.trans aside.lists)
      (fun _ free => free_aside ended.toAside (frees _ free)) (ended.filters.trans filters)
      (ended.merges.trans merges) ?_ ?_ ?_ living ?_ wired (fresh_fewer setting.fresh roster next)⟩
    · rw [holds, ← before]
      exact more
    · intro c place
      rw [holds]
      rcases List.mem_cons.mp place with rfl | member
      · exact .inl List.mem_cons_self
      · obtain ⟨s, slave, rfl⟩ := List.mem_map.mp member
        rcases List.mem_append.mp (divides.mem_iff.mp slave) with left | stays
        · exact .inr (each s left)
        · exact .inl (List.mem_cons_of_mem _ (List.mem_map_of_mem stays))
    · intro s stays
      obtain ⟨l, there, -⟩ := readable.free s.list (List.mem_cons_of_mem _
        (List.mem_map_of_mem (divides.mem_iff.mpr (List.mem_append_right _ stays))))
      exact ⟨l, there⟩
    · exact fun k differs p member => setting.elsewhere k differs p (roster k _ member)

theorem detach_abreast (immutable : ∀ k, Handle.merge id = .filter k → Fixed value)
    (attends : Attends call value (.merge id) x) (abreast : Abreast value (.merge id) x w)
    {choose : List Slave → Except ListRefusal (List Slave × List Slave)}
    (parts : ∀ slaves gone kept, choose slaves = .ok (gone, kept) → slaves.Perm (gone ++ kept)) :
    Abreast value (.merge id) x (detach call id choose w).2 ∧
      Counted value (.merge id) w (detach call id choose w).2 := by
  obtain ⟨fault, u, outcome, unmoved⟩ | ⟨gone, u, outcome, client, same, setting⟩ :=
    setting_detached abreast.toSetting parts
  · rw [detach, Act.bind_of_error outcome]
    exact ⟨abreast_unmoved abreast unmoved, counted_unmoved unmoved⟩
  · obtain ⟨after, informed⟩ := tellSlaves_abreast immutable attends setting
      (client ▸ abreast.current.copied)
    rw [show detach call id choose w =
        (.ok (gone.map (·.list)), tellSlaves call id (released gone u)) by
      rw [detach, Act.bind_of_ok outcome]
      rfl]
    exact ⟨after, counted_told client (same _) informed⟩

theorem removeSlave_abreast (immutable : ∀ k, Handle.merge id = .filter k → Fixed value)
    (attends : Attends call value (.merge id) x) (abreast : Abreast value (.merge id) x w)
    (index : Nat) : Abreast value (.merge id) x (removeSlave call id index w).2 ∧
      Counted value (.merge id) w (removeSlave call id index w).2 := by
  refine detach_abreast immutable attends abreast fun slaves gone kept chosen => ?_
  split at chosen
  · cases chosen
  · rename_i s found
    cases chosen
    obtain ⟨inside, rfl⟩ := List.getElem?_eq_some_iff.mp found
    exact (List.getElem_cons_eraseIdx_perm inside).symm

theorem clearSlaves_abreast (immutable : ∀ k, Handle.merge id = .filter k → Fixed value)
    (attends : Attends call value (.merge id) x) (abreast : Abreast value (.merge id) x w) :
    Abreast value (.merge id) x (clearSlaves call id w).2 ∧
      Counted value (.merge id) w (clearSlaves call id w).2 := by
  refine detach_abreast immutable attends abreast fun slaves gone kept chosen => ?_
  cases chosen
  rw [List.append_nil]

end

end UndoableLists.World
