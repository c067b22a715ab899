import UndoableLists.Proofs.Following.Relays

/-!
Announcements of a list, as the followers of a view see them. Main statements: what is announced of
a list that the view does not hear of is nothing to them; and a change that is announced where the
view hears of it sets a copy right, and the view's subscribers to properties are told of those that
the view passes on.
-/
namespace UndoableLists.World
variable {α κ δ : Type}

def Deaf (w : World α κ δ) (h : Handle) (c : ListId) : Prop :=
  ∀ t, ∀ p ∈ w.roster (.list c) t, p.2.view ≠ some h

structure Hears (w : World α κ δ) (h : Handle) (c : ListId) (l : Listener κ) (raw : Bool) :
    Prop where
  relay : Relay w h c l raw
  once : ∀ t, ∃ before s after, w.roster (.list c) t = before ++ (s, l) :: after ∧
    ∀ p ∈ before ++ after, p.2.view ≠ some h

section
variable [Element α] {value : α → Value} {h : Handle} {x : SubscriberId} {c : ListId}
  {l : Listener κ} {raw : Bool} {u v w : World α κ (ViewCopies α)} {call : Call α κ (ViewCopies α)}

omit [Element α] in
theorem open_view (readable : w.Open h) (c : ListId) : .list c ≠ h := by
  rintro rfl
  exact readable

omit [Element α] in
theorem relay_congr (relay : Relay w h c l raw) (views : SameViews w v) : Relay v h c l raw := by
  cases relay with
  | filter here => exact .filter (views.filters ▸ here)
  | master here => exact .master (views.merges ▸ here)
  | slave here member => exact .slave (views.merges ▸ here) member

omit [Element α] in
theorem relay_channelsOnly (relay : Relay w h c l raw) (only : ChannelsOnly w v) :
    Relay v h c l raw := by
  obtain ⟨channels, rfl⟩ := only
  exact relay_congr relay ⟨rfl, rfl⟩

omit [Element α] in
theorem hears_congr (hears : Hears w h c l raw) (views : SameViews w v)
    (rosters : ∀ t, v.roster (.list c) t = w.roster (.list c) t) : Hears v h c l raw where
  relay := relay_congr hears.relay views
  once t := by
    rw [rosters]
    exact hears.once t

omit [Element α] in
theorem relay_among (hears : Hears w h c l raw) {t : Topic} {p : SubscriberId × Listener κ}
    (member : p ∈ w.roster (.list c) t) : p.2.view ≠ some h ∨ p.2 = l := by
  obtain ⟨before, s, after, order, others⟩ := hears.once t
  rw [order] at member
  rcases List.mem_append.mp member with early | late
  · exact .inl (others p (List.mem_append_left _ early))
  · rcases List.mem_cons.mp late with rfl | late
    · exact .inr rfl
    · exact .inl (others p (List.mem_append_right _ late))

theorem hears_alike (hears : Hears w h c l raw) (alike : Alike value h w v) :
    Hears v h c l raw where
  relay := relay_alike hears.relay alike
  once t := by
    rw [roster_alike alike]
    exact hears.once t

theorem announce_deaf (attends : Attends call value h x) (scene : Scene value h x w)
    (deaf : Deaf w h c) (b : Bulletin α) : Unmoved value h x w (announce call c b w) := by
  have lasts (w v : World α κ (ViewCopies α)) (scene : Scene value h x w)
      (unmoved : Unmoved value h x w v) := scene_alike scene unmoved.toAlike
  have changes : Unmoved value h x w (Audience.raise (channel (.list c) .changes)
      (callListener call) (b.changes.map .collection) w).2 := by
    refine unmoved_raise lasts (fun u first => scene_channelsOnly scene first) ?_
    intro e _ p member w there
    exact unmoved_callListener attends there (deaf .changes p member)
      (.inl (scene.elsewhere _ (open_view scene.readable c) p member))
  have there := scene_alike scene changes.toAlike
  refine unmoved_trans changes
    (unmoved_raise lasts (fun u first => scene_channelsOnly there first) ?_)
  intro e asked p member w there
  obtain ⟨q, -, rfl⟩ := List.mem_map.mp asked
  rw [roster_alike changes.toAlike] at member
  exact unmoved_callListener attends there (deaf .properties p member) (.inr ⟨q, rfl⟩)

/-- The scene with the view's relay at a list, and with those who ask for the view's properties. -/
structure Attuned (value : α → Value) (h : Handle) (x : SubscriberId) (c : ListId)
    (l : Listener κ) (raw : Bool) (people : List (SubscriberId × Listener κ))
    (w : World α κ (ViewCopies α)) : Prop extends Scene value h x w where
  relay : Relay w h c l raw
  people : w.roster h .properties = people

theorem attuned_unmoved {people : List (SubscriberId × Listener κ)}
    (attuned : Attuned value h x c l raw people w) (unmoved : Unmoved value h x w v) :
    Attuned value h x c l raw people v where
  toScene := scene_alike attuned.toScene unmoved.toAlike
  relay := relay_alike attuned.relay unmoved.toAlike
  people := (roster_alike unmoved.toAlike ..).trans attuned.people

theorem attuned_channelsOnly {people : List (SubscriberId × Listener κ)}
    (attuned : Attuned value h x c l raw people w) (only : ChannelsOnly w v)
    (same : ∀ k t, v.roster k t = w.roster k t) : Attuned value h x c l raw people v where
  toScene := scene_channelsOnly attuned.toScene only same
  relay := relay_channelsOnly attuned.relay only
  people := (same ..).trans attuned.people

theorem property_unmoved (attends : Attends call value h x) (hears : Hears w h c l raw)
    {people : List (SubscriberId × Listener κ)} {ps : List Property} :
    ∀ e ∈ ps.map Event.property, ∀ p ∈ w.roster (.list c) .properties, ∀ u,
      Attuned value h x c l raw people u →
        Unmoved value h x u (callListener call p.1 p.2 e u).2 := by
  intro e asked p member u attuned
  obtain ⟨q, -, rfl⟩ := List.mem_map.mp asked
  rcases relay_among hears member with differs | same
  · exact unmoved_callListener attends attuned.toScene differs (.inr ⟨q, rfl⟩)
  · exact (property_relayed attends attuned.toScene (same ▸ attuned.relay) p.1 q).1

theorem properties_passed (attends : Attends call value h x) (scene : Scene value h x w)
    (hears : Hears w h c l raw) (ps : List Property) :
    let v := (Audience.raise (channel (.list c) .properties) (callListener call)
      (ps.map .property) w).2
    Unmoved value h x w v ∧ ∀ p ∈ ps, ∀ q ∈ relayedAll raw p, ∀ y i,
      (y, .client i) ∈ w.roster h .properties → Informed y (.property q) w v := by
  have attuned : Attuned value h x c l raw (w.roster h .properties) w := ⟨scene, hears.relay, rfl⟩
  refine ⟨unmoved_raise (fun _ _ => attuned_unmoved)
    (fun u first => attuned_channelsOnly attuned first)
    (property_unmoved attends hears), ?_⟩
  intro p announced q passed y i listens
  obtain ⟨before, s, after, order, -⟩ := hears.once .properties
  refine informed_raise (p := (s, l)) (fun _ _ => attuned_unmoved)
    (fun u first => attuned_channelsOnly attuned first) (property_unmoved attends hears)
    (List.mem_map_of_mem announced) (by simp [order]) ?_
  intro u there
  exact (property_relayed attends there.toScene there.relay s p).2 q passed y i
    (there.people ▸ listens)

theorem announce_properties (attends : Attends call value h x) (scene : Scene value h x w)
    (hears : Hears w h c l raw) {b : Bulletin α} (silent : b.changes = []) :
    Unmoved value h x w (announce call c b w) := by
  rw [announce_silent silent]
  exact (properties_passed attends scene hears b.properties).1

theorem announce_change (immutable : ∀ id, h = .filter id → Fixed value)
    (attends : Attends call value h x) (scene : Scene value h x w) (hears : Hears w h c l raw)
    {b : Bulletin α} {change : Change α} (single : b.changes = [change])
    (behind : Behind value h x (relayed raw change) w) :
    let v := announce call c b w
    Alike value h w v ∧ Truthful value h v ∧ Current value h x v ∧
      ∀ p ∈ b.properties, ∀ q ∈ relayedAll raw p, ∀ y i,
        (y, .client i) ∈ w.roster h .properties → Informed y (.property q) w v := by
  obtain ⟨before, s, after, order, others⟩ := hears.once .changes
  have apart := scene.elsewhere _ (open_view scene.readable c)
  have changed : let v := (Audience.raise (channel (.list c) .changes) (callListener call)
        [.collection change] w).2
      Alike value h w v ∧ Truthful value h v ∧ Current value h x v := by
    refine raised_once (P := fun w => Scene value h x w ∧ Relay w h c l raw ∧
      Behind value h x (relayed raw change) w) order ?_ (fun _ there => there.1) ?_ ?_ ?_
    · rintro w v ⟨scene, relay, behind⟩ unmoved
      exact ⟨scene_alike scene unmoved.toAlike, relay_alike relay unmoved.toAlike,
        behind_unmoved behind unmoved⟩
    · intro p member w there
      have among : p ∈ before ++ (s, l) :: after :=
        (List.sublist_cons_self _ _).append_left _ |>.subset member
      exact unmoved_callListener attends there (others p member) (.inl (apart p (order ▸ among)))
    · rintro w ⟨scene, relay, behind⟩
      exact change_relayed immutable attends scene relay s behind
    · intro u first rosters
      exact ⟨scene_channelsOnly scene first rosters, relay_channelsOnly hears.relay first,
        behind_channelsOnly behind first⟩
  obtain ⟨alike, truthful, current⟩ := changed
  obtain ⟨unmoved, informed⟩ := properties_passed attends (scene_alike scene alike)
    (hears_alike hears alike) b.properties
  dsimp only [announce]
  rw [single]
  refine ⟨alike_trans alike unmoved.toAlike, unmoved.truthful truthful,
    current_unmoved current unmoved, fun p announced q passed y i listens => ?_⟩
  rw [← roster_alike alike] at listens
  exact told_after alike.told (informed p announced q passed y i listens)

end

end UndoableLists.World
