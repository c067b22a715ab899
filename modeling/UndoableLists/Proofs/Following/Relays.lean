import UndoableLists.Proofs.Following.Telling

/-!
Views that hear of a list. A view passes a change on as it is while positions in the list are
positions in the view, and as a reset otherwise. Main statements: what other views do when they hear
of a list is nothing to those who follow a view; and a subscriber that is behind by what the view
passes on has a right copy when the view has heard.
-/
namespace UndoableLists

def Listener.view {κ : Type} : Listener κ → Option Handle
  | .client _ => none
  | .filter id => some (.filter id)
  | .master id => some (.merge id)
  | .slave id => some (.merge id)

namespace World
variable {K α κ δ : Type}

/-- The view hears of the list through the listener; the flag says whether positions in the list
are positions in the view. -/
inductive Relay (w : World α κ δ) : Handle → ListId → Listener κ → Bool → Prop
  | filter {id f} (here : w.filters.get? id = some f) :
    Relay w (.filter id) f.base (.filter id) f.filter.isNone
  | master {id m} (here : w.merges.get? id = some m) :
    Relay w (.merge id) m.master (.master id) true
  | slave {id m s} (here : w.merges.get? id = some m) (member : s ∈ m.slaves) :
    Relay w (.merge id) s.list (.slave id) false

def relayed (raw : Bool) (change : Change α) : Change α := if raw then change else .reset

def relayedAll (raw : Bool) : Property → List Property
  | .items => if raw then [.items] else [.count, .items]
  | .count => if raw then [.count] else []

section
variable [Element α] {value : α → Value} {h k : Handle} {x s : SubscriberId} {id : ViewId}
  {event : Event α} {u v w : World α κ (ViewCopies α)} {call : Call α κ (ViewCopies α)}

theorem scene_hold (scene : Scene value h x w) (k : Handle) : Scene value h x (w.hold k) where
  run := run_congr scene.run rfl ⟨rfl, rfl⟩ rfl rfl rfl
  tidy := {
    filters := fun id f here => List.mem_cons_of_mem _ (scene.tidy.filters id f here)
    merges := fun id m here => List.mem_cons_of_mem _ (scene.tidy.merges id m here)
    lists := fun c l here =>
      mem_reachable.mpr ((mem_reachable.mp (scene.tidy.lists c l here)).imp_left
        (List.mem_cons_of_mem _)) }
  tended := ⟨scene.tended.free, scene.tended.vacant⟩
  readable := open_same scene.readable ⟨rfl, rfl⟩ rfl rfl rfl
  watching := scene.watching
  elsewhere := scene.elsewhere

omit [Element α] in
theorem hear_eq {alive : World α κ (ViewCopies α) → Bool} (lives : alive w = true) (k : Handle)
    (react : World α κ (ViewCopies α) → World α κ (ViewCopies α)) :
    hear k alive react w = (.ok (), letGo k (react (w.hold k))) := if_pos lives

theorem unmoved_letGo (scene : Scene value h x w) (between : Unmoved value h x (w.hold k) u) :
    Unmoved value h x w (letGo k u) := by
  obtain ⟨left, after⟩ := held_meanwhile scene.tidy between.toAlike
  refine ⟨after, ?_⟩
  rw [left]
  exact between.copy

theorem unmoved_hear (scene : Scene value h x w) (k : Handle)
    (alive : World α κ (ViewCopies α) → Bool)
    {react : World α κ (ViewCopies α) → World α κ (ViewCopies α)}
    (quiet : Unmoved value h x (w.hold k) (react (w.hold k))) :
    Unmoved value h x w (hear k alive react w).2 := by
  cases lives : alive w with
  | true =>
    rw [hear_eq lives]
    exact unmoved_letGo scene quiet
  | false =>
    rw [show hear k alive react w = (.ok (), w) from if_neg (by simp [lives])]
    exact unmoved_refl w

theorem unmoved_isFiltered (id : ViewId) (w : World α κ (ViewCopies α)) :
    Unmoved value h x w (isFiltered id w).2 :=
  isFiltered_leaves id w ▸
    unmoved_still (reads_filterOf id w) (unseen_filterOf listFree_clientState id w)

theorem unmoved_afterInvalidating {p : Place (World α κ (ViewCopies α)) (CachedView K (Built α))}
    (cache : CacheOf k p) (run : Run (CachedView.invalidate p w).2)
    {next : World α κ (ViewCopies α) → World α κ (ViewCopies α)}
    (each : ∀ v, Unmoved value h x w v → Unmoved value h x v (next v)) :
    Unmoved value h x w (afterInvalidating p next w) := by
  have dropped : Unmoved value h x w (CachedView.invalidate p w).2 :=
    unmoved_invalidate cache fun _ => run
  unfold afterInvalidating
  split <;> rename_i outcome <;> rw [outcome] at dropped
  · exact unmoved_trans dropped (each _ dropped)
  · exact dropped

theorem elsewhere_unmoved (scene : Scene value h x w) (unmoved : Unmoved value h x w v)
    (differs : k ≠ h) : ∀ p ∈ v.roster k .changes, p.1 ≠ x := by
  rw [roster_alike unmoved.toAlike]
  exact scene.elsewhere k differs

theorem unmoved_hearAsFilter (attends : Attends call value h x) (scene : Scene value h x w)
    (differs : .filter id ≠ h) (event : Event α) :
    Unmoved value h x w (hearAsFilter call id event w) := by
  cases event with
  | collection change =>
    refine unmoved_afterInvalidating (filterCacheOf id) (scene.run.filter (.dropped id)) ?_
    intro v begun
    have looked : Unmoved value h x v (isFiltered id v).2 := unmoved_isFiltered id v
    exact unmoved_trans looked (unmoved_tellChange attends
      (elsewhere_unmoved scene (unmoved_trans begun looked) differs) _)
  | property p =>
    have looked : Unmoved value h x w (isFiltered id w).2 := unmoved_isFiltered id w
    have told (ps : List Property) :=
      unmoved_trans looked (unmoved_tellProperties attends (.filter id) ps _)
    unfold hearAsFilter
    dsimp only
    split
    · exact unmoved_refl w
    · split
      · exact told _
      · split
        · exact told _
        · exact looked

theorem unmoved_hearFromMaster (attends : Attends call value h x) (scene : Scene value h x w)
    (differs : .merge id ≠ h) (event : Event α) :
    Unmoved value h x w (hearFromMaster call id event w) := by
  refine unmoved_afterInvalidating (mergeCacheOf id) (scene.run.merge (.dropped id)) ?_
  intro v begun
  cases event with
  | collection change =>
    exact unmoved_tellChange attends (elsewhere_unmoved scene begun differs) change
  | property p => exact unmoved_tellProperties attends _ _ v

theorem unmoved_hearFromSlave (attends : Attends call value h x) (scene : Scene value h x w)
    (differs : .merge id ≠ h) (event : Event α) :
    Unmoved value h x w (hearFromSlave call id event w) := by
  refine unmoved_afterInvalidating (mergeCacheOf id) (scene.run.merge (.dropped id)) ?_
  intro v begun
  cases event with
  | collection change =>
    exact unmoved_tellChange attends (elsewhere_unmoved scene begun differs) .reset
  | property p =>
    cases p with
    | items => exact unmoved_tellProperties attends _ _ v
    | count => exact unmoved_refl v

theorem unmoved_callListener (attends : Attends call value h x) (scene : Scene value h x w)
    {l : Listener κ} (differs : l.view ≠ some h) (apart : s ≠ x ∨ ∃ q, event = .property q) :
    Unmoved value h x w (callListener call s l event w).2 := by
  cases l with
  | client i => exact unmoved_call attends apart w
  | filter id =>
    exact unmoved_hear scene _ _ (unmoved_hearAsFilter attends (scene_hold scene _)
      (fun same => differs (congrArg some same)) event)
  | master id =>
    exact unmoved_hear scene _ _ (unmoved_hearFromMaster attends (scene_hold scene _)
      (fun same => differs (congrArg some same)) event)
  | slave id =>
    exact unmoved_hear scene _ _ (unmoved_hearFromSlave attends (scene_hold scene _)
      (fun same => differs (congrArg some same)) event)

omit [Element α] in
theorem isFiltered_open (readable : w.Open (.filter id)) {f : FilteredView α}
    (here : w.filters.get? id = some f) : (isFiltered id w).1 = f.filter.isSome := by
  obtain ⟨g, l, readable⟩ := readable
  obtain rfl := Option.some.inj (readable.view.symm.trans here)
  have read := filterOf_of_free here readable.unlocked
  unfold isFiltered
  split <;> rename_i outcome <;> rw [outcome] at read
  · rw [Except.ok.inj read]
  · cases read

omit [Element α] in
theorem filterCache_open (readable : w.Open (.filter id)) :
    ((filterCache id).get w).disposed = false := by
  obtain ⟨f, l, readable⟩ := readable
  exact filterCache_usable readable

omit [Element α] in
theorem mergeCache_open (readable : w.Open (.merge id)) :
    ((mergeCache id).get w).disposed = false := by
  obtain ⟨m, readable⟩ := readable
  exact mergeCache_usable readable

theorem afterInvalidating_open (value : α → Value) (x : SubscriberId)
    {p : Place (World α κ (ViewCopies α)) (CachedView K (Built α))} (cache : CacheOf h p)
    (usable : (p.get w).disposed = false) (tended : Tended h w)
    (run : Run (CachedView.invalidate p w).2) :
    ∃ v, Unmoved value h x w v ∧ Truthful value h v ∧
      ∀ next, afterInvalidating p next w = next v := by
  have moved : Unmoved value h x w (CachedView.invalidate p w).2 :=
    unmoved_invalidate cache fun _ => run
  obtain ⟨done, empty⟩ := invalidate_drops cache usable tended
  rcases outcome : CachedView.invalidate p w with ⟨r, v⟩
  rw [outcome] at moved done empty
  obtain rfl : r = .ok () := done
  refine ⟨v, moved, fun items kept => ?_, fun next => by rw [afterInvalidating, outcome]⟩
  rw [empty] at kept
  cases kept

theorem mergeInvalidating_open (scene : Scene value (.merge id) x w) :
    ∃ v, Unmoved value (.merge id) x w v ∧ Truthful value (.merge id) v ∧
      ∀ next, afterInvalidating (mergeCache id) next w = next v :=
  afterInvalidating_open value x (mergeCacheOf id) (mergeCache_open scene.readable) scene.tended
    (scene.run.merge (.dropped id))

theorem relay_alike {c : ListId} {l : Listener κ} {raw : Bool} (relay : Relay w h c l raw)
    (alike : Alike value k w v) : Relay v h c l raw := by
  cases relay with
  | filter here =>
    obtain ⟨cache, there, -⟩ := filter_alike alike here
    have again := Relay.filter there
    exact again
  | master here =>
    obtain ⟨cache, there, -⟩ := merge_alike alike here
    have again := Relay.master there
    exact again
  | slave here member =>
    obtain ⟨cache, there, -⟩ := merge_alike alike here
    exact .slave there member

variable {c : ListId} {l : Listener κ} {raw : Bool}

theorem relay_takes_change (scene : Scene value h x w) (relay : Relay w h c l raw)
    (call : Call α κ (ViewCopies α)) (s : SubscriberId) (change : Change α) :
    ∃ u, Unmoved value h x (w.hold h) u ∧ Truthful value h u ∧
      (callListener call s l (.collection change) w).2 =
        letGo h (tellChange call h (relayed raw change) u) := by
  have held := scene_hold scene h
  cases relay with
  | @filter id f here =>
    obtain ⟨v, moved, truthful, next⟩ := afterInvalidating_open value x (filterCacheOf id)
      (filterCache_open held.readable) held.tended (held.run.filter (.dropped id))
    have there := scene_alike held moved.toAlike
    have looked : Unmoved value (.filter id) x v (isFiltered id v).2 := unmoved_isFiltered id v
    obtain ⟨cache, standing, -⟩ := filter_alike moved.toAlike here
    have filtered := isFiltered_open there.readable standing
    rcases answer : isFiltered id v with ⟨b, u⟩
    rw [answer] at looked filtered
    obtain rfl : b = f.filter.isSome := filtered
    refine ⟨u, unmoved_trans moved looked, looked.truthful truthful, ?_⟩
    rw [callListener, hear_eq (by rw [here]; rfl), hearAsFilter, next, answer]
    cases f.filter <;> rfl
  | @master id m here =>
    obtain ⟨v, moved, truthful, next⟩ := mergeInvalidating_open held
    refine ⟨v, moved, truthful, ?_⟩
    rw [callListener, hear_eq (by rw [here]; rfl), hearFromMaster, next]
    rfl
  | @slave id m s here member =>
    obtain ⟨v, moved, truthful, next⟩ := mergeInvalidating_open held
    refine ⟨v, moved, truthful, ?_⟩
    rw [callListener, hear_eq (by rw [here]; rfl), hearFromSlave, next]
    rfl

theorem relay_takes_property (scene : Scene value h x w) (relay : Relay w h c l raw)
    (call : Call α κ (ViewCopies α)) (s : SubscriberId) (p : Property) :
    ∃ u, Unmoved value h x (w.hold h) u ∧
      (callListener call s l (.property p) w).2 =
        letGo h (tellProperties call h (relayedAll raw p) u) := by
  have held := scene_hold scene h
  cases relay with
  | @filter id f here =>
    have looked : Unmoved value (.filter id) x _ (isFiltered id (w.hold (.filter id))).2 :=
      unmoved_isFiltered id _
    have filtered := isFiltered_open held.readable here
    rcases answer : isFiltered id (w.hold (.filter id)) with ⟨b, u⟩
    rw [answer] at looked filtered
    obtain rfl : b = f.filter.isSome := filtered
    refine ⟨u, looked, ?_⟩
    rw [callListener, hear_eq (by rw [here]; rfl), hearAsFilter, filterCache_open held.readable,
      answer]
    cases f.filter <;> cases p <;> rfl
  | @master id m here =>
    obtain ⟨v, moved, -, next⟩ := mergeInvalidating_open held
    refine ⟨v, moved, ?_⟩
    rw [callListener, hear_eq (by rw [here]; rfl), hearFromMaster, next]
    cases p <;> rfl
  | @slave id m s here member =>
    obtain ⟨v, moved, -, next⟩ := mergeInvalidating_open held
    refine ⟨v, moved, ?_⟩
    rw [callListener, hear_eq (by rw [here]; rfl), hearFromSlave, next]
    cases p <;> rfl

/-- Who is behind by what the view passes on has a right copy when the view has heard. -/
theorem change_relayed (immutable : ∀ id, h = .filter id → Fixed value)
    (attends : Attends call value h x) (scene : Scene value h x w) (relay : Relay w h c l raw)
    (s : SubscriberId) {change : Change α} (behind : Behind value h x (relayed raw change) w) :
    let v := (callListener call s l (.collection change) w).2
    Alike value h w v ∧ Truthful value h v ∧ Current value h x v := by
  obtain ⟨u, moved, truthful, outcome⟩ := relay_takes_change scene relay call s change
  have lagging : Behind value h x (relayed raw change) (w.hold h) := ⟨behind.copied, behind.right⟩
  obtain ⟨alike, right, current⟩ := tellChange_heard immutable attends
    (scene_alike (scene_hold scene h) moved.toAlike) truthful (behind_unmoved lagging moved)
  obtain ⟨left, after⟩ := held_meanwhile scene.tidy (alike_trans moved.toAlike alike)
  dsimp only
  rw [outcome]
  refine ⟨after, ?_⟩
  rw [left]
  exact ⟨right, current.copied, current.right⟩

theorem property_relayed (attends : Attends call value h x) (scene : Scene value h x w)
    (relay : Relay w h c l raw) (s : SubscriberId) (p : Property) :
    let v := (callListener call s l (.property p) w).2
    Unmoved value h x w v ∧ ∀ q ∈ relayedAll raw p, ∀ y i,
      (y, .client i) ∈ w.roster h .properties → Informed y (.property q) w v := by
  obtain ⟨u, moved, outcome⟩ := relay_takes_property scene relay call s p
  have told := unmoved_tellProperties attends h (relayedAll raw p) u
  have between := unmoved_trans moved told
  obtain ⟨left, -⟩ := held_meanwhile scene.tidy between.toAlike
  dsimp only
  rw [outcome]
  refine ⟨unmoved_letGo scene between, fun q passed y i listens => ?_⟩
  have there : (y, .client i) ∈ u.roster h .properties := by
    rw [roster_alike moved.toAlike]
    exact listens
  rw [left]
  exact told_after moved.told (tellProperties_informs attends there passed)

end

end World

end UndoableLists
