import UndoableLists.Proofs.Following.Copying

/-!
Telling those who follow a view. Main statements: whoever is behind by a change that the subscribers
of the view are told of has a right copy afterwards; being told of properties, or of what becomes of
other views, is nothing to those who follow a view; and every subscriber to properties is told of
each of them.
-/
namespace UndoableLists.World
variable {α κ δ : Type}

/-- Where a view is followed: all is in order, the view can be read, and once among those who hear
of its changes, and nowhere else, there is `x`. -/
structure Scene [Element α] (value : α → Value) (h : Handle) (x : SubscriberId)
    (w : World α κ (ViewCopies α)) : Prop where
  run : Run w
  tidy : Tidy w
  tended : Tended h w
  readable : w.Open h
  watching : ∃ before i after, w.roster h .changes = before ++ (x, .client i) :: after ∧
    ∀ p ∈ before ++ after, p.1 ≠ x
  elsewhere : ∀ k, k ≠ h → ∀ p ∈ w.roster k .changes, p.1 ≠ x

section
variable [Element α] {value : α → Value} {h k : Handle} {x s : SubscriberId} {t : Topic}
  {event : Event α} {change : Change α} {u v w z : World α κ (ViewCopies α)}

theorem roster_alike (alike : Alike value h w v) (k : Handle) (t : Topic) :
    v.roster k t = w.roster k t := by
  rw [roster, roster, alike.living]

theorem scene_alike (scene : Scene value h x w) (alike : Alike value h w v) :
    Scene value h x v where
  run := alike.run scene.run
  tidy := tidy_alike scene.tidy alike
  tended := alike.tended scene.run scene.tended
  readable := open_alike alike (alike.tended scene.run scene.tended) scene.readable
  watching := by
    rw [roster_alike alike]
    exact scene.watching
  elsewhere k differs := by
    rw [roster_alike alike]
    exact scene.elsewhere k differs

theorem scene_channelsOnly (scene : Scene value h x w) (only : ChannelsOnly w v)
    (same : ∀ k t, v.roster k t = w.roster k t) : Scene value h x v := by
  obtain ⟨channels, rfl⟩ := only
  exact {
    run := run_congr scene.run rfl ⟨rfl, rfl⟩ rfl rfl rfl
    tidy := ⟨scene.tidy.filters, scene.tidy.merges, scene.tidy.lists⟩
    tended := ⟨scene.tended.free, scene.tended.vacant⟩
    readable := open_same scene.readable ⟨rfl, rfl⟩ rfl rfl rfl
    watching := by
      rw [same]
      exact scene.watching
    elsewhere := fun k differs => by
      rw [same]
      exact scene.elsewhere k differs }

omit [Element α] in
theorem current_channelsOnly (current : Current value h x w) (only : ChannelsOnly w v) :
    Current value h x v := by
  obtain ⟨channels, rfl⟩ := only
  exact ⟨current.copied, current.right⟩

omit [Element α] in
theorem behind_channelsOnly (behind : Behind value h x change w) (only : ChannelsOnly w v) :
    Behind value h x change v := by
  obtain ⟨channels, rfl⟩ := only
  exact ⟨behind.copied, behind.right⟩

/-- A delivery in which every call is nothing to those who follow the view. -/
theorem unmoved_raise {P : World α κ (ViewCopies α) → Prop}
    {call : Audience.Call (World α κ (ViewCopies α)) (Listener κ) (Event α) ListRefusal}
    {events : List (Event α)} (lasts : ∀ w v, P w → Unmoved value h x w v → P v)
    (start : ∀ u, ChannelsOnly w u → (∀ k s, u.roster k s = w.roster k s) → P u)
    (each : ∀ e ∈ events, ∀ p ∈ w.roster k t, ∀ w, P w → Unmoved value h x w (call p.1 p.2 e w).2) :
    Unmoved value h x w (Audience.raise (channel k t) call events w).2 := by
  obtain ⟨u, first, rosters, last, same⟩ := raise_spreads call k t events w
  have between : Unmoved value h x u (events.foldl (spread call (w.roster k t)) u) :=
    foldl_relates_while unmoved_refl unmoved_trans lasts
      (fun e asked w there => foldl_relates_while unmoved_refl unmoved_trans lasts
        (fun p member => each e asked p member) there)
      (start u first rosters)
  have after := alike_around first between.toAlike last (same between.living)
  obtain ⟨channels, rfl⟩ := first
  obtain ⟨others, left⟩ := last
  refine ⟨after, ?_⟩
  rw [left]
  exact between.copy

omit [Element α] in
theorem truthful_channelsOnly (truthful : Truthful value h w) (only : ChannelsOnly w v) :
    Truthful value h v := by
  obtain ⟨channels, rfl⟩ := only
  exact truthful

omit [Element α] in
theorem informed_channelsOnly (first : ChannelsOnly w u) (informed : Informed s event u z)
    (last : ChannelsOnly z v) : Informed s event w v := by
  obtain ⟨channels, rfl⟩ := first
  obtain ⟨others, rfl⟩ := last
  exact informed

/-- A delivery of one event in which one call, in its turn, sets the copy right, and all others are
nothing to those who follow the view. -/
theorem raised_once {P : World α κ (ViewCopies α) → Prop}
    {call : Audience.Call (World α κ (ViewCopies α)) (Listener κ) (Event α) ListRefusal}
    {before after : List (SubscriberId × Listener κ)} {l : Listener κ}
    (order : w.roster k t = before ++ (s, l) :: after)
    (lasts : ∀ w v, P w → Unmoved value h x w v → P v) (seen : ∀ w, P w → Scene value h x w)
    (others : ∀ p ∈ before ++ after, ∀ w, Scene value h x w →
      Unmoved value h x w (call p.1 p.2 event w).2)
    (turn : ∀ w, P w → let v := (call s l event w).2
      Alike value h w v ∧ Truthful value h v ∧ Current value h x v)
    (start : ∀ u, ChannelsOnly w u → (∀ k s, u.roster k s = w.roster k s) → P u) :
    let v := (Audience.raise (channel k t) call [event] w).2
    Alike value h w v ∧ Truthful value h v ∧ Current value h x v := by
  obtain ⟨u, first, rosters, last, same⟩ := raise_spreads call k t [event] w
  rw [order, List.foldl_cons, List.foldl_nil, spread, List.foldl_append, List.foldl_cons]
    at last same
  have ahead : Unmoved value h x u (before.foldl (fun w p => (call p.1 p.2 event w).2) u) :=
    foldl_relates_while unmoved_refl unmoved_trans lasts (fun p member w there =>
      others p (List.mem_append_left _ member) w (seen w there)) (start u first rosters)
  have there := lasts _ _ (start u first rosters) ahead
  obtain ⟨alike, truthful, current⟩ := turn _ there
  have later := foldl_relates_while unmoved_refl unmoved_trans
    (fun w v scene unmoved => scene_alike scene unmoved.toAlike)
    (fun p member w => others p (List.mem_append_right _ member) w)
    (scene_alike (seen _ there) alike)
  have whole := alike_trans ahead.toAlike (alike_trans alike later.toAlike)
  exact ⟨alike_around first whole last (same whole.living),
    truthful_channelsOnly (later.truthful truthful) last,
    current_channelsOnly (current_unmoved current later) last⟩

theorem informed_foldl {P : World α κ (ViewCopies α) → Prop} {ν : Type}
    {f : World α κ (ViewCopies α) → ν → World α κ (ViewCopies α)} {ys : List ν} {y : ν}
    (lasts : ∀ w v, P w → Unmoved value h x w v → P v)
    (each : ∀ y ∈ ys, ∀ w, P w → Unmoved value h x w (f w y)) (start : P w) (member : y ∈ ys)
    (one : ∀ w, P w → Informed s event w (f w y)) : Informed s event w (ys.foldl f w) := by
  obtain ⟨before, after, rfl⟩ := List.append_of_mem member
  have ahead : Unmoved value h x w (before.foldl f w) :=
    foldl_relates_while unmoved_refl unmoved_trans lasts
      (fun z member => each z (List.mem_append_left _ member)) start
  have there := lasts _ _ start ahead
  have turn := each y (List.mem_append_right _ List.mem_cons_self) _ there
  have later := foldl_relates_while unmoved_refl unmoved_trans lasts (fun z member =>
    each z (List.mem_append_right _ (List.mem_cons_of_mem _ member))) (lasts _ _ there turn)
  rw [List.foldl_append, List.foldl_cons]
  exact told_after ahead.told (told_before (one _ there) later.told)

theorem informed_raise {P : World α κ (ViewCopies α) → Prop}
    {call : Audience.Call (World α κ (ViewCopies α)) (Listener κ) (Event α) ListRefusal}
    {events : List (Event α)} {e : Event α} {p : SubscriberId × Listener κ}
    (lasts : ∀ w v, P w → Unmoved value h x w v → P v)
    (start : ∀ u, ChannelsOnly w u → (∀ k s, u.roster k s = w.roster k s) → P u)
    (each : ∀ e ∈ events, ∀ p ∈ w.roster k t, ∀ w, P w → Unmoved value h x w (call p.1 p.2 e w).2)
    (asked : e ∈ events) (listens : p ∈ w.roster k t)
    (one : ∀ w, P w → Informed s event w (call p.1 p.2 e w).2) :
    Informed s event w (Audience.raise (channel k t) call events w).2 := by
  obtain ⟨u, first, rosters, last, -⟩ := raise_spreads call k t events w
  refine informed_channelsOnly first (informed_foldl lasts ?_ (start u first rosters) asked ?_) last
  · intro e asked w there
    exact foldl_relates_while unmoved_refl unmoved_trans lasts
      (fun p member => each e asked p member) there
  · intro w there
    exact informed_foldl lasts (fun p member => each e asked p member) there listens one

variable {call : Call α κ (ViewCopies α)}

theorem unmoved_call (attends : Attends call value h x) {i : κ}
    (apart : s ≠ x ∨ ∃ q, event = .property q) (w : World α κ (ViewCopies α)) :
    Unmoved value h x w (call s i event w).2 := by
  by_cases same : s = x
  · subst same
    obtain ⟨q, rfl⟩ := apart.resolve_left fun differs => differs rfl
    rw [attends.copies, copying_property]
    exact unmoved_logged s _ w
  · exact attends.others s i event w same

theorem unmoved_callClient (attends : Attends call value h x) {l : Listener κ}
    (apart : s ≠ x ∨ ∃ q, event = .property q) (w : World α κ (ViewCopies α)) :
    Unmoved value h x w (callClient call s l event w).2 := by
  cases l with
  | client i => exact unmoved_call attends apart w
  | _ => exact unmoved_refl w

theorem unmoved_properties (attends : Attends call value h x) {ps : List Property}
    {people : List (SubscriberId × Listener κ)} :
    ∀ e ∈ ps.map Event.property, ∀ p ∈ people, ∀ w, True →
      Unmoved value h x w (callClient call p.1 p.2 e w).2 := by
  intro e asked p _ w _
  obtain ⟨q, -, rfl⟩ := List.mem_map.mp asked
  exact unmoved_callClient attends (.inr ⟨q, rfl⟩) w

theorem unmoved_tellProperties (attends : Attends call value h x) (k : Handle)
    (ps : List Property) (w : World α κ (ViewCopies α)) :
    Unmoved value h x w (tellProperties call k ps w) :=
  unmoved_raise (fun _ _ _ _ => trivial) (fun _ _ _ => trivial) (unmoved_properties attends)

theorem unmoved_tellChange (attends : Attends call value h x)
    (elsewhere : ∀ p ∈ w.roster k .changes, p.1 ≠ x) (change : Change α) :
    Unmoved value h x w (tellChange call k change w) := by
  refine unmoved_raise (P := fun _ => True) (fun _ _ _ _ => trivial) (fun _ _ _ => trivial) ?_
  intro e _ p member w _
  exact unmoved_callClient attends (.inl (elsewhere p member)) w

theorem tellChange_heard (immutable : ∀ id, h = .filter id → Fixed value)
    (attends : Attends call value h x) (scene : Scene value h x w)
    (truthful : Truthful value h w) (behind : Behind value h x change w) :
    let v := tellChange call h change w
    Alike value h w v ∧ Truthful value h v ∧ Current value h x v := by
  obtain ⟨before, i, after, order, others⟩ := scene.watching
  refine raised_once (P := fun w => Scene value h x w ∧ Truthful value h w ∧
    Behind value h x change w) order ?_ (fun _ there => there.1) ?_ ?_ ?_
  · rintro w v ⟨scene, truthful, behind⟩ unmoved
    exact ⟨scene_alike scene unmoved.toAlike, unmoved.truthful truthful,
      behind_unmoved behind unmoved⟩
  · intro p member w _
    exact unmoved_callClient attends (.inl (others p member)) w
  · rintro w ⟨scene, truthful, behind⟩
    have heard :=
      copying_hears immutable scene.run scene.readable scene.tended truthful behind i
    rw [← attends.copies] at heard
    exact ⟨heard.1, heard.1.truthful truthful, heard.2⟩
  · intro u first rosters
    exact ⟨scene_channelsOnly scene first rosters, truthful_channelsOnly truthful first,
      behind_channelsOnly behind first⟩

theorem tellProperties_informs (attends : Attends call value h x) {k : Handle} {i : κ}
    (listens : (s, .client i) ∈ w.roster k .properties) {p : Property} {ps : List Property}
    (told : p ∈ ps) : Informed s (.property p) w (tellProperties call k ps w) :=
  informed_raise (fun _ _ _ _ => trivial) (fun _ _ _ => trivial) (unmoved_properties attends)
    (List.mem_map_of_mem told) listens (fun w _ => attends.tells s i _ w)

end

end UndoableLists.World
