import UndoableLists.Proofs.Following.Announcing
import UndoableLists.Proofs.Mirrors.Reactions
import UndoableLists.Proofs.Views.Disposal

/-!
How a view is wired to its lists. It subscribes once to each kind of event of each of them, and to
nothing else; a merged list shows no list twice, and what it keeps of a slave are its two
subscriptions there. Main statements: nothing of this is lost where only caches change; and a view
shows the contents of a list at whose positions it hears, and some more after them that are not the
list's.
-/
namespace UndoableLists.World
variable {α κ δ : Type}

/-- The subscriber `i` is the only one through whom the view hears of a list, and nothing but its
subscription guards it. -/
def SoleAt (w : World α κ δ) (h : Handle) (c : ListId) (t : Topic) (l : Listener κ)
    (i : SubscriberId) : Prop :=
  ∃ before after, w.living (.list c) t = before ++ ⟨i, l, 1⟩ :: after ∧
    ∀ s ∈ before ++ after, s.id ≠ i ∧ s.listener.view ≠ some h

def Attached (w : World α κ δ) (id : ViewId) (s : Slave) : Prop :=
  ∃ i j, s.subscriptions = [⟨.list s.list, .changes, i⟩, ⟨.list s.list, .properties, j⟩] ∧
    SoleAt w (.merge id) s.list .changes (.slave id) i ∧
    SoleAt w (.merge id) s.list .properties (.slave id) j

structure FilterWired (w : World α κ δ) (id : ViewId) (base : ListId) : Prop where
  listens : ∀ t, ∃ i, SoleAt w (.filter id) base t (.filter id) i
  deaf : ∀ c, c ≠ base → Deaf w (.filter id) c

structure MergeWired (w : World α κ δ) (id : ViewId) (master : ListId) (slaves : List Slave) :
    Prop where
  distinct : (master :: slaves.map (·.list)).Nodup
  listens : ∀ t, ∃ i, SoleAt w (.merge id) master t (.master id) i
  attached : ∀ s ∈ slaves, Attached w id s
  deaf : ∀ c, c ∉ master :: slaves.map (·.list) → Deaf w (.merge id) c

def Wired (w : World α κ δ) : Handle → Prop
  | .list _ => False
  | .filter id => ∀ f, w.filters.get? id = some f → FilterWired w id f.base
  | .merge id => ∀ m, w.merges.get? id = some m → MergeWired w id m.master m.slaves

/-- A scene in which all locks of lists are free, no list has signalled, and the view is wired. -/
structure Setting [Element α] (value : α → Value) (h : Handle) (x : SubscriberId)
    (w : World α κ (ViewCopies α)) : Prop extends Scene value h x w where
  lists : ∀ c l, w.lists.get? c = some l → Tellable c l ∧ w.locks.Free w.thread l.lock
  wired : Wired w h
  fresh : ∀ k t, ∀ s ∈ w.living k t, s.id < w.nextSubscriber

section
variable {h : Handle} {c : ListId} {t : Topic} {l : Listener κ} {i : SubscriberId} {id : ViewId}
  {v w : World α κ δ}

theorem soleAt_congr (same : v.living (.list c) t = w.living (.list c) t)
    (sole : SoleAt w h c t l i) : SoleAt v h c t l i := by
  rw [SoleAt, same]
  exact sole

theorem deaf_congr (same : ∀ t, v.living (.list c) t = w.living (.list c) t)
    (deaf : Deaf w h c) : Deaf v h c := by
  intro t
  rw [roster, same]
  exact deaf t

theorem soleAt_followed (deaf : Deaf w h c)
    (fresh : ∀ s ∈ w.living (.list c) t, s.id < w.nextSubscriber)
    (living : v.living (.list c) t = w.living (.list c) t ++ [⟨w.nextFor t, l, 1⟩]) :
    SoleAt v h c t l (w.nextFor t) := by
  refine ⟨w.living (.list c) t, [], living, fun s member => ?_⟩
  rw [List.append_nil] at member
  have older := fresh s member
  refine ⟨?_, deaf t (s.id, s.listener) (List.mem_map_of_mem member)⟩
  cases t with
  | changes => exact Nat.ne_of_lt older
  | properties => exact Nat.ne_of_lt (Nat.lt_succ_of_lt older)

theorem fresh_followed (fresh : ∀ k t, ∀ s ∈ w.living k t, s.id < w.nextSubscriber)
    (living : ∀ k t, v.living k t = w.living k t ++
      if k = .list c then [⟨w.nextFor t, l, 1⟩] else [])
    (next : v.nextSubscriber = w.nextSubscriber + 2) :
    ∀ k t, ∀ s ∈ v.living k t, s.id < v.nextSubscriber := by
  intro k t s member
  rw [living] at member
  rw [next]
  rcases List.mem_append.mp member with old | new
  · exact Nat.lt_add_right 2 (fresh k t s old)
  · split at new
    · obtain rfl := List.mem_singleton.mp new
      cases t with
      | changes => exact Nat.lt_succ_of_lt (Nat.lt_succ_self _)
      | properties => exact Nat.lt_succ_self _
    · exact absurd new List.not_mem_nil

theorem attached_congr {s : Slave}
    (same : ∀ t, v.living (.list s.list) t = w.living (.list s.list) t)
    (attached : Attached w id s) : Attached v id s := by
  obtain ⟨i, j, subscriptions, changes, properties⟩ := attached
  exact ⟨i, j, subscriptions, soleAt_congr (same _) changes, soleAt_congr (same _) properties⟩

theorem filterWired_congr {base : ListId} (same : ∀ k t, v.living k t = w.living k t)
    (wired : FilterWired w id base) : FilterWired v id base where
  listens t := (wired.listens t).imp fun _ => soleAt_congr (same ..)
  deaf c differs := deaf_congr (fun _ => same ..) (wired.deaf c differs)

theorem mergeWired_congr {master : ListId} {slaves : List Slave}
    (same : ∀ k t, v.living k t = w.living k t) (wired : MergeWired w id master slaves) :
    MergeWired v id master slaves where
  distinct := wired.distinct
  listens t := (wired.listens t).imp fun _ => soleAt_congr (same ..)
  attached s member := attached_congr (fun _ => same ..) (wired.attached s member)
  deaf c outside := deaf_congr (fun _ => same ..) (wired.deaf c outside)

theorem wired_views (same : ∀ k t, v.living k t = w.living k t) (views : SameViews w v)
    (wired : Wired w h) : Wired v h := by
  cases h with
  | list id => exact wired
  | filter id => exact fun f there => filterWired_congr same (wired f (views.filters ▸ there))
  | merge id => exact fun m there => mergeWired_congr same (wired m (views.merges ▸ there))

theorem hears_of_soleAt {raw : Bool} (relay : Relay w h c l raw)
    (sole : ∀ t, ∃ i, SoleAt w h c t l i) : Hears w h c l raw where
  relay := relay
  once t := by
    obtain ⟨i, before, after, living, others⟩ := sole t
    refine ⟨before.map fun s => (s.id, s.listener), i, after.map fun s => (s.id, s.listener),
      ?_, ?_⟩
    · rw [roster, living, List.map_append, List.map_cons]
    · intro p member
      rw [← List.map_append] at member
      obtain ⟨s, among, rfl⟩ := List.mem_map.mp member
      exact (others s among).2

theorem hears_or_deaf (wired : Wired w h) (readable : w.Open h) (c : ListId) :
    (∃ l raw, Hears w h c l raw) ∨ Deaf w h c ∧ c ∉ w.sources h := by
  cases h with
  | list id => exact readable.elim
  | filter id =>
    obtain ⟨f, l, readable⟩ := readable
    have here := wired f readable.view
    by_cases base : c = f.base
    · subst base
      exact .inl ⟨_, _, hears_of_soleAt (.filter readable.view) here.listens⟩
    · exact .inr ⟨here.deaf c base, by simpa [sources, readable.view] using base⟩
  | merge id =>
    obtain ⟨m, readable⟩ := readable
    have here := wired m readable.view
    by_cases place : c ∈ m.places
    · rcases List.mem_cons.mp place with rfl | slave
      · exact .inl ⟨_, _, hears_of_soleAt (.master readable.view) here.listens⟩
      · obtain ⟨s, member, rfl⟩ := List.mem_map.mp slave
        obtain ⟨i, j, -, changes, properties⟩ := here.attached s member
        refine .inl ⟨_, _, hears_of_soleAt (.slave readable.view member) fun t => ?_⟩
        cases t with
        | changes => exact ⟨i, changes⟩
        | properties => exact ⟨j, properties⟩
    · exact .inr ⟨here.deaf c place, by simpa [sources, readable.view] using place⟩

theorem shown_of_sources (views : SameViews w v)
    (same : ∀ d ∈ w.sources h, v.contentsOf d = w.contentsOf d) (value : α → Value) :
    v.shown value h = w.shown value h := by
  cases h with
  | list id => exact congrArg Except.ok (same id (List.mem_singleton_self id))
  | filter id =>
    simp only [shown, views.filters]
    cases here : w.filters.get? id with
    | none => rfl
    | some f => simp [same f.base (by simp [sources, here])]
  | merge id =>
    simp only [shown, views.merges]
    cases here : w.merges.get? id with
    | none => rfl
    | some m =>
      have each : m.places.flatMap v.contentsOf = m.places.flatMap w.contentsOf :=
        List.flatMap_congr fun d member => same d (by simpa [sources, here] using member)
      simp [each]

theorem shown_raw {raw : Bool} (relay : Relay w h c l raw) (whole : raw = true) (wired : Wired w h)
    (value : α → Value) : ∃ rest, ∀ v : World α κ δ, SameViews w v →
      (∀ d, d ≠ c → v.contentsOf d = w.contentsOf d) →
      v.shown value h = .ok (v.contentsOf c ++ rest) := by
  cases relay with
  | @filter id f here =>
    refine ⟨[], fun v views _ => ?_⟩
    simp [shown, views.filters, here, FilteredView.shown, Option.isNone_iff_eq_none.mp whole]
  | @master id m here =>
    refine ⟨(m.slaves.map (·.list)).flatMap w.contentsOf, fun v views others => ?_⟩
    have distinct := List.nodup_cons.mp (wired m here).distinct
    have rest : (m.slaves.map (·.list)).flatMap v.contentsOf =
        (m.slaves.map (·.list)).flatMap w.contentsOf :=
      List.flatMap_congr fun d member => others d fun same => distinct.1 (same ▸ member)
    simp only [shown, views.merges, here, Option.map_some, Option.getD_some, MergedList.places,
      List.flatMap_cons, rest]
  | slave here member => cases whole

end

section
variable [Element α] {value : α → Value} {h : Handle} {x : SubscriberId}
  {v w : World α κ (ViewCopies α)}

theorem follower_older (setting : Setting value h x w) : x < w.nextSubscriber := by
  obtain ⟨before, i, after, order, -⟩ := setting.watching
  have among : (x, Listener.client i) ∈ w.roster h .changes := by simp [order]
  obtain ⟨s, there, same⟩ := List.mem_map.mp among
  rw [← show s.id = x from congrArg Prod.fst same]
  exact setting.fresh _ _ s there

theorem setting_alike (setting : Setting value h x w) (alike : Alike value h w v) :
    Setting value h x v where
  toScene := scene_alike setting.toScene alike
  lists c l there := by
    obtain ⟨kind, free⟩ := setting.lists c l (alike.lists ▸ there)
    exact ⟨kind, alike.free _ free⟩
  wired := by
    have wired := setting.wired
    cases h with
    | list id => exact wired
    | filter id =>
      intro g there
      obtain ⟨f, l, readable⟩ := setting.readable
      obtain ⟨cache, again, -⟩ := filter_alike alike readable.view
      obtain rfl := Option.some.inj (again.symm.trans there)
      exact filterWired_congr alike.living (wired f readable.view)
    | merge id =>
      intro n there
      obtain ⟨m, readable⟩ := setting.readable
      obtain ⟨cache, again, -⟩ := merge_alike alike readable.view
      obtain rfl := Option.some.inj (again.symm.trans there)
      exact mergeWired_congr alike.living (wired m readable.view)
  fresh k t s member := by
    rw [alike.next]
    rw [alike.living] at member
    exact setting.fresh k t s member

end

end UndoableLists.World
