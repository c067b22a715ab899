import UndoableLists.Proofs.Following.ViewCopies
import UndoableLists.Proofs.Mirrors.Delivery

/-!
Audiences while those who follow a view are told. A delivery guards everyone it has to reach and
takes the guards away again; a view that hears is held meanwhile and let go of after that. Main
statements: a delivery in which nothing happens to those who follow a view is nothing to them, nor
is one view's being held where all views are held and all lists are led to.
-/
namespace UndoableLists

namespace Audience
variable {κ : Type} {n : Audience κ}

theorem struckOff_struckOff (n : Audience κ) : n.struckOff.struckOff = n.struckOff := by
  simp only [struckOff, List.filter_filter, Bool.and_self]

theorem struckOff_guarded (n : Audience κ) :
    (n.guarded (n.subscribers.map (·.id))).struckOff = n.guarded (n.subscribers.map (·.id)) := by
  refine congrArg Audience.mk (List.filter_eq_self.mpr fun s member => ?_)
  obtain ⟨s, there, rfl⟩ := List.mem_map.mp member
  have named : (n.subscribers.map (·.id)).contains s.id = true :=
    List.contains_iff_mem.mpr (List.mem_map_of_mem there)
  rw [if_pos named]
  exact decide_eq_true (Nat.succ_ne_zero _)

theorem struckOff_unguarded (n : Audience κ) (ids : List SubscriberId) :
    (n.unguarded ids).struckOff = (n.struckOff.unguarded ids).struckOff := by
  simp only [struckOff, unguarded, List.filter_map, List.filter_filter]
  congr 2
  refine List.filter_congr fun s _ => ?_
  rw [Function.comp_apply]
  split
  · by_cases dead : s.guards = 0 <;> simp [dead]
  · simp

end Audience

namespace World
variable {α κ δ : Type}

def roster (w : World α κ δ) (h : Handle) (t : Topic) : List (SubscriberId × Listener κ) :=
  (w.living h t).map fun s => (s.id, s.listener)

def ChannelsOnly (w v : World α κ δ) : Prop := ∃ channels, v = { w with channels }

section
variable {h k : Handle} {t : Topic} {u v w z : World α κ δ}

theorem channel_set_other (differs : k ≠ h) (t u : Topic) (n : Audience (Listener κ))
    (w : World α κ δ) : (channel k u).get ((channel h t).set n w) = (channel k u).get w := by
  simp only [channel, Table.get?_insert_of_ne _ differs]

theorem living_set (h : Handle) (t : Topic) (n : Audience (Listener κ)) (w : World α κ δ)
    (k : Handle) (u : Topic) : ((channel h t).set n w).living k u =
      if k = h ∧ u = t then n.struckOff.subscribers else w.living k u := by
  by_cases here : k = h
  · subst here
    by_cases same : u = t
    · simp [living, channel_set, same]
    · simp [living, channel_set, same]
  · simp [living, channel_set_other here, here]

theorem living_entered (h : Handle) (t : Topic) {n : Audience (Listener κ)}
    (same : ∀ k s, ((channel h t).set n w).living k s = w.living k s)
    (k : Handle) (s : Topic) :
    ((channel h t).set (n.guarded (n.subscribers.map (·.id)))
      ((channel h t).set n w)).living k s =
        if k = h ∧ s = t then (n.guarded (n.subscribers.map (·.id))).subscribers
        else w.living k s := by
  rw [living_set, same, Audience.struckOff_guarded]

theorem roster_entered (h : Handle) (t : Topic) {n : Audience (Listener κ)}
    {ids : List SubscriberId}
    (audience : w.roster h t = n.subscribers.map fun s => (s.id, s.listener))
    (entered : ∀ k s, u.living k s =
      if k = h ∧ s = t then (n.guarded ids).subscribers else w.living k s)
    (k : Handle) (s : Topic) : u.roster k s = w.roster k s := by
  rw [roster, entered]
  split
  · rename_i here
    rw [here.1, here.2, audience, Audience.guarded, List.map_map]
    refine List.map_congr_left fun s _ => ?_
    rw [Function.comp_apply]
    split <;> rfl
  · rfl

theorem living_left (h : Handle) (t : Topic) {n : Audience (Listener κ)} {ids : List SubscriberId}
    (quiet : n.struckOff = n) (left : z.living h t = (n.guarded ids).subscribers)
    (k : Handle) (s : Topic) : ((channel h t).modify (·.unguarded ids) z).living k s =
      if k = h ∧ s = t then n.subscribers else z.living k s := by
  have there : ((channel h t).get z).struckOff = n.guarded ids := congrArg Audience.mk left
  rw [Place.modify, living_set, Audience.struckOff_unguarded, there, Audience.unguarded_guarded,
    quiet]

theorem channelsOnly_modify (h : Handle) (t : Topic)
    (f : Audience (Listener κ) → Audience (Listener κ)) (w : World α κ δ) :
    ChannelsOnly w ((channel h t).modify f w) := ⟨_, rfl⟩

theorem channelsOnly_trans (first : ChannelsOnly w u) (second : ChannelsOnly u v) :
    ChannelsOnly w v := by
  obtain ⟨_, rfl⟩ := first
  obtain ⟨channels, rfl⟩ := second
  exact ⟨channels, rfl⟩

theorem living_subscribe (h : Handle) (t : Topic) (l : Listener κ) (w : World α κ δ) (k : Handle)
    (s : Topic) : (w.subscribe h t l).2.living k s =
      w.living k s ++ if k = h ∧ s = t then [⟨w.nextSubscriber, l, 1⟩] else [] := by
  rw [subscribe, Place.modify, living_set]
  split
  · rename_i here
    rw [here.1, here.2, Audience.struckOff, Audience.subscribe, List.filter_append]
    rfl
  · rw [List.append_nil]
    rfl

def nextFor (w : World α κ δ) : Topic → SubscriberId
  | .changes => w.nextSubscriber
  | .properties => w.nextSubscriber + 1

theorem living_follow (c : ListId) (l : Listener κ) (w : World α κ δ) (k : Handle) (s : Topic) :
    (w.follow c l).2.living k s =
      w.living k s ++ if k = .list c then [⟨w.nextFor s, l, 1⟩] else [] := by
  have twice : (w.follow c l).2 =
      ((w.subscribe (.list c) .changes l).2.subscribe (.list c) .properties l).2 := rfl
  have next : (w.subscribe (.list c) .changes l).2.nextSubscriber = w.nextSubscriber + 1 := rfl
  rw [twice, living_subscribe, living_subscribe, next]
  cases s <;> simp [nextFor]

theorem living_unsubscribe (s : Subscription) (w : World α κ δ) (k : Handle) (t : Topic) :
    (w.unsubscribe s).living k t =
      if k = s.source ∧ t = s.topic then
        ((⟨w.living k t⟩ : Audience (Listener κ)).unguarded [s.id]).struckOff.subscribers
      else w.living k t := by
  unfold unsubscribe
  split
  · rename_i absent
    have nobody : w.living s.source t = [] := by
      simp only [living, channel, Option.isNone_iff_eq_none.mp absent]
      cases t <;> rfl
    split
    · rename_i here
      rw [here.1, nobody]
      rfl
    · rfl
  · rw [Place.modify, living_set]
    split
    · rename_i here
      rw [here.1, here.2, Audience.struckOff_unguarded]
      rfl
    · rfl

theorem channelsOnly_unsubscribeAll (ss : List Subscription) (w : World α κ δ) :
    ChannelsOnly w (w.unsubscribeAll ss) := by
  unfold unsubscribeAll
  induction ss generalizing w with
  | nil => exact ⟨_, rfl⟩
  | cons s rest ih =>
    have one : ChannelsOnly w (w.unsubscribe s) := by
      unfold unsubscribe
      split
      · exact ⟨_, rfl⟩
      · exact channelsOnly_modify _ _ _ w
    exact channelsOnly_trans one (ih _)

theorem roster_unsubscribeAll (ss : List Subscription) (w : World α κ δ) (k : Handle) (t : Topic) :
    (w.unsubscribeAll ss).roster k t ⊆ w.roster k t := by
  unfold unsubscribeAll
  induction ss generalizing w with
  | nil => exact List.Subset.refl _
  | cons s rest ih =>
    intro p member
    have member := ih (w.unsubscribe s) member
    rw [roster, living_unsubscribe] at member
    split at member
    · obtain ⟨s, among, rfl⟩ := List.mem_map.mp member
      obtain ⟨s, there, rfl⟩ := List.mem_map.mp (List.mem_filter.mp among).1
      exact List.mem_map.mpr ⟨s, there, by split <;> rfl⟩
    · exact member

theorem living_unsubscribeAll {ss : List Subscription} (elsewhere : ∀ s ∈ ss, k ≠ s.source)
    (w : World α κ δ) (t : Topic) : (w.unsubscribeAll ss).living k t = w.living k t := by
  unfold unsubscribeAll
  induction ss generalizing w with
  | nil => rfl
  | cons s rest ih =>
    refine (ih (fun s member => elsewhere s (List.mem_cons_of_mem _ member)) _).trans ?_
    rw [living_unsubscribe, if_neg fun here => elsewhere s List.mem_cons_self here.1]

end

section
variable [Element α] {value : α → Value} {h k : Handle} {t : Topic}
  {u v w z : World α κ (ViewCopies α)}

theorem alike_restored {held later : List Handle} {channels ended : Table Handle (Channels κ)}
    (between : Alike value h { w with held, channels } z) (handles : later = w.held)
    (same : ∀ k t, ({ z with held := later, channels := ended }).living k t = w.living k t) :
    Alike value h w { z with held := later, channels := ended } := by
  have begun (run : Run w) : Run { w with held, channels } :=
    run_congr run rfl ⟨rfl, rfl⟩ rfl rfl rfl
  exact {
    lists := between.lists
    filters := between.filters
    merges := between.merges
    held := handles
    living := same
    next := between.next
    free := between.free
    tended := fun run tended =>
      have done := between.tended (begun run) ⟨tended.free, tended.vacant⟩
      ⟨done.free, done.vacant⟩
    truthful := between.truthful
    run := fun run => run_congr (between.run (begun run)) rfl ⟨rfl, rfl⟩ rfl rfl rfl
    told := between.told }

theorem alike_around (first : ChannelsOnly w u) (between : Alike value h u z)
    (last : ChannelsOnly z v)
    (same : ∀ k t, v.living k t = w.living k t) : Alike value h w v := by
  obtain ⟨channels, rfl⟩ := first
  obtain ⟨_, rfl⟩ := last
  exact alike_restored between between.held same

def spread (call : Audience.Call (World α κ (ViewCopies α)) (Listener κ) (Event α) ListRefusal)
    (people : List (SubscriberId × Listener κ)) (w : World α κ (ViewCopies α)) (event : Event α) :
    World α κ (ViewCopies α) :=
  people.foldl (fun w p => (call p.1 p.2 event w).2) w

omit [Element α] in
theorem deliverEvent_eq
    (call : Audience.Call (World α κ (ViewCopies α)) (Listener κ) (Event α) ListRefusal)
    (audience : List (Subscriber (Listener κ))) (w : World α κ (ViewCopies α)) (event : Event α) :
    Audience.deliverEvent call audience w event =
      spread call (audience.map fun s => (s.id, s.listener)) w event := by
  rw [spread, List.foldl_map, Audience.deliverEvent]
  congr 1
  funext w s
  unfold Audience.deliverTo
  rcases call s.id s.listener event w with ⟨_ | _, v⟩ <;> rfl

omit [Element α] in
/-- Everyone hears of every event in order. Audiences are written anew meanwhile, with the same
subscribers in them, and are in the end as they were if the calls leave them alone. -/
theorem raise_spreads
    (call : Audience.Call (World α κ (ViewCopies α)) (Listener κ) (Event α) ListRefusal)
    (h : Handle)
    (t : Topic) (events : List (Event α)) (w : World α κ (ViewCopies α)) :
    ∃ u, ChannelsOnly w u ∧ (∀ k s, u.roster k s = w.roster k s) ∧
      let z := events.foldl (spread call (w.roster h t)) u
      let v := (Audience.raise (channel h t) call events w).2
      ChannelsOnly z v ∧
        ((∀ k s, z.living k s = u.living k s) → ∀ k s, v.living k s = w.living k s) := by
  obtain ⟨n, alive⟩ : ∃ n, n = ((channel h t).get w).struckOff := ⟨_, rfl⟩
  have quiet : n.struckOff = n := alive ▸ Audience.struckOff_struckOff _
  have struck (k : Handle) (s : Topic) : ((channel h t).set n w).living k s = w.living k s := by
    rw [living_set, quiet]
    split
    · rename_i here
      rw [here.1, here.2, living, alive]
    · rfl
  unfold Audience.raise
  split
  · rename_i nothing
    obtain rfl : events = [] := List.isEmpty_iff.mp nothing
    exact ⟨w, ⟨_, rfl⟩, fun _ _ => rfl, ⟨_, rfl⟩, fun same => same⟩
  · have begun : (channel h t).modify Audience.struckOff w = (channel h t).set n w := by
      rw [Place.modify, alive]
    have present : (channel h t).get ((channel h t).set n w) = n :=
      (channel_set ..).trans (if_pos rfl)
    simp only [begun, present]
    have audience : w.roster h t = n.subscribers.map fun s => (s.id, s.listener) := by
      rw [roster, living, alive]
    split
    · rename_i nobody
      have still : events.foldl (spread call (w.roster h t)) ((channel h t).set n w) =
          (channel h t).set n w := by
        rw [audience, List.isEmpty_iff.mp nobody]
        exact List.foldl_fixed' (fun _ => rfl) events
      refine ⟨(channel h t).set n w, ⟨_, rfl⟩, fun k s => by rw [roster, roster, struck], ?_⟩
      rw [still]
      exact ⟨⟨_, rfl⟩, fun _ => struck⟩
    · have guarding : (channel h t).modify (·.guarded (n.subscribers.map (·.id)))
          ((channel h t).set n w) = (channel h t).set (n.guarded (n.subscribers.map (·.id)))
            ((channel h t).set n w) := by
        rw [Place.modify, present]
      have each : Audience.deliverEvent call n.subscribers = spread call (w.roster h t) := by
        rw [audience]
        funext w e
        exact deliverEvent_eq ..
      have entered := living_entered h t struck
      refine ⟨_, ⟨_, rfl⟩, roster_entered h t audience entered, ?_⟩
      rw [guarding, each]
      refine ⟨⟨_, rfl⟩, fun left k s => (living_left h t quiet ?_ k s).trans ?_⟩
      · exact (left h t).trans ((entered h t).trans (if_pos ⟨rfl, rfl⟩))
      · split
        · rename_i here
          rw [here.1, here.2, living, alive]
        · rename_i elsewhere
          exact (left k s).trans ((entered k s).trans (if_neg elsewhere))

end

/-- All views are held, and something leads to every list. -/
structure Tidy (w : World α κ δ) : Prop where
  filters : ∀ id f, w.filters.get? id = some f → .filter id ∈ w.held
  merges : ∀ id m, w.merges.get? id = some m → .merge id ∈ w.held
  lists : ∀ c l, w.lists.get? c = some l → c ∈ w.reachable

section
variable {v w : World α κ δ} {c : ListId}

theorem mem_reachable : c ∈ w.reachable ↔ .list c ∈ w.held ∨
    (∃ id f, w.filters.get? id = some f ∧ f.base = c) ∨
    ∃ id m, w.merges.get? id = some m ∧ c ∈ m.places := by
  simp only [reachable, List.mem_append, List.mem_filterMap, List.mem_map, List.mem_flatMap,
    Prod.exists, ← Table.get?_eq_some_iff, MergedList.places, or_assoc]
  constructor
  · rintro (⟨k, member, named⟩ | led | led)
    · cases k with
      | list id => exact .inl (Option.some.inj named ▸ member)
      | _ => cases named
    · exact .inr (.inl led)
    · exact .inr (.inr led)
  · rintro (member | led | led)
    · exact .inl ⟨.list c, member, rfl⟩
    · exact .inr (.inl led)
    · exact .inr (.inr led)

theorem foldl_same {β γ : Type} {f : β → γ → β} {b : β} (cs : List γ)
    (each : ∀ c ∈ cs, f b c = b) : cs.foldl f b = b :=
  List.foldlRecOn cs f (motive := (· = b)) rfl fun _ same c member => same ▸ each c member

/-- Where all is held and led to, nothing is swept away. -/
theorem sweep_tidy (tidy : Tidy w) : w.sweep = w := by
  rw [sweep, foldl_same w.filters.entries, foldl_same w.merges.entries,
    foldl_same w.lists.entries]
  · rintro ⟨id, l⟩ member
    exact if_pos (List.contains_iff_mem.mpr (tidy.lists id l (Table.get?_eq_some_iff.mpr member)))
  · rintro ⟨id, m⟩ member
    exact if_pos (List.contains_iff_mem.mpr (tidy.merges id m (Table.get?_eq_some_iff.mpr member)))
  · rintro ⟨id, f⟩ member
    exact if_pos (List.contains_iff_mem.mpr (tidy.filters id f (Table.get?_eq_some_iff.mpr member)))

end

section
variable [Element α] {value : α → Value} {h k : Handle} {u v w : World α κ (ViewCopies α)}

theorem reachable_alike (alike : Alike value h w v) {c : ListId} :
    c ∈ v.reachable ↔ c ∈ w.reachable := by
  rw [mem_reachable, mem_reachable, alike.held]
  refine or_congr_right (or_congr (exists_congr fun id => ?_) (exists_congr fun id => ?_))
  · have same := congrArg (Option.map FilteredView.base) (alike.filters id)
    simp only [Option.map_map] at same
    have led (o : Option (FilteredView α)) : (∃ f, o = some f ∧ f.base = c) ↔
        o.map (FilteredView.base ∘ FilteredView.bare) = some c := Option.map_eq_some_iff.symm
    rw [led, led, same]
  · have same := congrArg (Option.map MergedList.places) (alike.merges id)
    simp only [Option.map_map] at same
    have led (o : Option (MergedList α)) : (∃ m, o = some m ∧ c ∈ m.places) ↔
        ∃ places, o.map (MergedList.places ∘ MergedList.bare) = some places ∧ c ∈ places := by
      cases o with
      | none => simp
      | some m => simp [MergedList.places, MergedList.bare]
    rw [led, led, same]

theorem tidy_alike (tidy : Tidy w) (alike : Alike value h w v) : Tidy v where
  filters id f there := by
    have same := alike.filters id
    rw [there] at same
    obtain ⟨g, here, -⟩ := Option.map_eq_some_iff.mp same.symm
    exact alike.held ▸ tidy.filters id g here
  merges id m there := by
    have same := alike.merges id
    rw [there] at same
    obtain ⟨n, here, -⟩ := Option.map_eq_some_iff.mp same.symm
    exact alike.held ▸ tidy.merges id n here
  lists c l there := (reachable_alike alike).mpr (tidy.lists c l (alike.lists ▸ there))

theorem held_meanwhile (tidy : Tidy w) (between : Alike value h (w.hold k) u) :
    letGo k u = { u with held := w.held } ∧ Alike value h w (letGo k u) := by
  have after : Alike value h w { u with held := w.held } :=
    alike_restored between rfl between.living
  have given : letGo k u = sweep { u with held := w.held } := by
    have held : u.held.erase k = w.held := by
      rw [between.held]
      exact List.erase_cons_head ..
    rw [letGo, held]
  rw [given, sweep_tidy (tidy_alike tidy after)]
  exact ⟨rfl, after⟩

end

end World

end UndoableLists
