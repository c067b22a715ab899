import UndoableLists.Proofs.Following.Setting

/-!
Lists that move on under a view. A mutation, an undo or a redo of a list leaves a copy of the view
behind by what the view will pass on. Main statement: after such a call, told to everybody, the copy
is right again, and if the view's length differs, all who asked for properties were told so.
-/
namespace UndoableLists.World
variable {α κ δ : Type}

section
variable {l : UndoableList α} {op : Operation α} {b : Bulletin α}
  {direction : Direction} {w : World α κ δ}

theorem described_mutation [Element α] {m : UndoableList α} {r : Outcome ListRefusal (Reply α)}
    (tells : TellsMutation w l op b m r) : b.changes = [] ∨ b.Describes l.contents m.contents := by
  cases r with
  | error fault => exact .inl (by rw [tells.1])
  | ok reply =>
    rw [TellsMutation] at tells
    split at tells
    · exact .inl (by rw [tells.1])
    · exact .inr tells

theorem described_replay {m : UndoableList α} {r : Outcome ListRefusal Bool}
    (tells : TellsReplay l direction b m r) :
    b.changes = [] ∨ b.Describes l.contents m.contents := by
  match r, tells with
  | .error fault, tells => exact .inl (by rw [tells.1])
  | .ok false, tells => exact .inl (by rw [tells.1])
  | .ok true, tells => exact .inr tells.1

end

/-- The list `c` has moved on from `l` to `m`, and nobody was told yet of what there is to tell. -/
structure Moved [Element α] (c : ListId) (l m : UndoableList α) (b : Bulletin α)
    (w v : World α κ (ViewCopies α)) : Prop extends Hands l b w v m where
  here : w.lists.get? c = some l
  named : l.context = c
  fresh : l.store.stale = false
  others : ∀ d, d ≠ c → v.lists.get? d = w.lists.get? d
  views : SameViews w v
  tells : b.changes = [] ∨ b.Describes l.contents m.contents
  run : Run w → Run v
  clientState : World.clientState v = World.clientState w

def Counted (value : α → Value) (h : Handle) (w v : World α κ (ViewCopies α)) : Prop :=
  ∀ before after, w.shown value h = .ok before → v.shown value h = .ok after →
    before.length ≠ after.length →
    ∀ y i, (y, .client i) ∈ w.roster h .properties → Informed y (.property .count) w v

/-- A setting in which the view has cached nothing wrong, and `x` has a right copy. -/
structure Abreast [Element α] (value : α → Value) (h : Handle) (x : SubscriberId)
    (w : World α κ (ViewCopies α)) : Prop extends Setting value h x w where
  truthful : Truthful value h w
  current : Current value h x w

section
variable [Element α] {value : α → Value} {h : Handle} {x : SubscriberId} {c : ListId}
  {l m : UndoableList α} {b : Bulletin α} {change : Change α} {u v w : World α κ (ViewCopies α)}
  {call : Call α κ (ViewCopies α)}

theorem lockedMutation_moves (here : w.lists.get? c = some l) (tellable : Tellable c l)
    (op : Operation α) : ∃ m,
      Moved c l m (handed (lockedMutation c op w).1) w (lockedMutation c op w).2 := by
  obtain ⟨rfl, fresh, replayable⟩ := tellable
  have views := sameViews_iff.mpr (unseen_lockedMutation listFree_views l.context op w)
  have same := unseen_lockedMutation listFree_clientState l.context op w
  have run : Run w → Run (lockedMutation l.context op w).2 := fun run => run.list (.mutated _ op)
  obtain ⟨m, hands⟩ := lockedMutation_hands here fresh replayable op
  obtain ⟨b, r, v, mutated, -, told⟩ := lockedMutation_ends here op
  obtain ⟨handed, -, world⟩ := of_tells told
  rw [handed, world] at hands
  rw [world] at views same run
  rw [handed, world]
  cases mutated with
  | fresh _ ended =>
    obtain ⟨n, there, -, -, tells⟩ := told_of_ended here replayable ended
    obtain rfl := Option.some.inj (hands.there.symm.trans there)
    exact ⟨m, hands, here, rfl, fresh, (stirs_ended here ended).others, views,
      described_mutation tells,
      run, same⟩
  | barred stale => simp [fresh] at stale
  | lost stale => simp [fresh] at stale
  | heard stale => simp [fresh] at stale

theorem lockedReplay_moves (here : w.lists.get? c = some l) (tellable : Tellable c l)
    (direction : Direction) : ∃ m,
      Moved c l m (handed (lockedReplay c direction w).1) w (lockedReplay c direction w).2 := by
  obtain ⟨rfl, fresh, replayable⟩ := tellable
  have views := sameViews_iff.mpr (unseen_lockedReplay listFree_views l.context direction w)
  have same := unseen_lockedReplay listFree_clientState l.context direction w
  have run : Run w → Run (lockedReplay l.context direction w).2 :=
    fun run => run.list (.replayed _ direction)
  obtain ⟨m, hands⟩ := lockedReplay_hands here fresh replayable direction
  obtain ⟨b, r, v, replayed, -, told⟩ := lockedReplay_ends here direction
  obtain ⟨handed, -, world⟩ := of_tells told
  rw [handed, world] at hands
  rw [world] at views same run
  rw [handed, world]
  cases replayed with
  | barred _ aside =>
    obtain rfl := Option.some.inj (hands.there.symm.trans (aside.lists ▸ here))
    exact ⟨m, hands, here, rfl, fresh, fun d _ => by rw [aside.lists], views, .inl rfl, run, same⟩
  | fresh _ _ turned =>
    obtain ⟨n, there, -, -, tells⟩ := told_of_turned here replayable turned
    obtain rfl := Option.some.inj (hands.there.symm.trans there)
    exact ⟨m, hands, here, rfl, fresh, (stirs_turned here turned).others, views,
      described_replay tells,
      run, same⟩
  | heard stale => simp [fresh] at stale

theorem moved_contents (moved : Moved c l m b w v) : w.contentsOf c = l.contents ∧
    v.contentsOf c = m.contents ∧ ∀ d, d ≠ c → v.contentsOf d = w.contentsOf d := by
  have there := moved.there
  rw [moved.named] at there
  refine ⟨by rw [contentsOf, moved.here]; rfl, by rw [contentsOf, there]; rfl, fun d differs => ?_⟩
  rw [contentsOf, contentsOf, moved.others d differs]

theorem setting_moved (setting : Setting value h x w) (moved : Moved c l m b w v) :
    Setting value h x v := by
  have living := living_of_clientState moved.clientState
  have held : v.held = w.held := held_of_clientState moved.clientState
  have next : v.nextSubscriber = w.nextSubscriber := next_of_clientState moved.clientState
  have there : v.lists.get? c = some m := moved.named ▸ moved.there
  have roster (k : Handle) (t : Topic) : v.roster k t = w.roster k t := by
    rw [World.roster, World.roster, living]
  have led (d : ListId) : d ∈ v.reachable ↔ d ∈ w.reachable := by
    rw [mem_reachable, mem_reachable, held, moved.views.filters, moved.views.merges]
  -- Whatever list was there with a free lock is there with a free lock, in its place or as `m`.
  have stands (d : ListId) (n : UndoableList α) (standing : w.lists.get? d = some n)
      (free : w.locks.Free w.thread n.lock) :
      ∃ n, v.lists.get? d = some n ∧ v.locks.Free v.thread n.lock := by
    by_cases same : d = c
    · subst same
      obtain rfl := Option.some.inj (standing.symm.trans moved.here)
      exact ⟨m, there, moved.lock ▸ moved.free _ free⟩
    · exact ⟨n, (moved.others d same).trans standing, moved.free _ free⟩
  exact {
    run := moved.run setting.run
    tidy := {
      filters := fun id f here => held ▸ setting.tidy.filters id f (moved.views.filters ▸ here)
      merges := fun id g here => held ▸ setting.tidy.merges id g (moved.views.merges ▸ here)
      lists := fun d n present => by
        rw [led]
        by_cases same : d = c
        · exact same ▸ setting.tidy.lists c l moved.here
        · exact setting.tidy.lists d n (moved.others d same ▸ present) }
    tended := {
      free := fun own has => moved.free _ (setting.tended.free own
        ((cache_seen moved.views h).1 ▸ has))
      vacant := fun without => (cache_seen moved.views h).2.trans
        (setting.tended.vacant ((cache_seen moved.views h).1 ▸ without)) }
    readable := open_follows moved.views stands moved.free setting.readable
    watching := by
      rw [roster]
      exact setting.watching
    elsewhere := fun k differs => by
      rw [roster]
      exact setting.elsewhere k differs
    lists := fun d n present => by
      by_cases same : d = c
      · subst same
        obtain rfl := Option.some.inj (present.symm.trans there)
        exact ⟨⟨moved.context.trans moved.named, moved.stale.trans moved.fresh, moved.replayable⟩,
          moved.lock ▸ moved.free _ (setting.lists d l moved.here).2⟩
      · obtain ⟨kind, free⟩ := setting.lists d n (moved.others d same ▸ present)
        exact ⟨kind, moved.free _ free⟩
    wired := wired_views living moved.views setting.wired
    fresh := fun k t s member => by
      rw [next]
      rw [living] at member
      exact setting.fresh k t s member }

theorem shown_moved (moved : Moved c l m b w v)
    (unseen : b.changes = [] ∨ c ∉ w.sources h) : v.shown value h = w.shown value h := by
  obtain ⟨before, after, others⟩ := moved_contents moved
  refine shown_of_sources moved.views (fun d member => ?_) value
  by_cases same : d = c
  · subst same
    obtain silent | outside := unseen
    · have makes := moved.makes
      rw [silent] at makes
      exact after.trans ((Eq.symm makes).trans before.symm)
    · exact absurd member outside
  · exact others d same

theorem behind_moved (abreast : Abreast value h x w) (moved : Moved c l m b w v) {s : Listener κ}
    {raw : Bool} (hears : Hears w h c s raw) (single : b.changes = [change]) :
    Behind value h x (relayed raw change) v := by
  have client : v.client = w.client := client_of_clientState moved.clientState
  have copied : (v.client.copies x).isSome := client ▸ abreast.current.copied
  obtain ⟨before, after, others⟩ := moved_contents moved
  have makes := moved.makes
  rw [single] at makes
  obtain ⟨_, makes, rfl⟩ := makes
  cases whole : raw with
  | false => exact behind_reset copied
  | true =>
    by_cases reset : change = .reset
    · subst reset
      exact behind_reset copied
    · obtain ⟨rest, shows⟩ := shown_raw hears.relay whole abreast.wired value
      have now := shows v moved.views others
      have then' := shows w ⟨rfl, rfl⟩ fun _ _ => rfl
      rw [after] at now
      rw [before] at then'
      refine ⟨copied, .inr ⟨_, now, ?_⟩⟩
      rw [client, abreast.current.right _ then']
      exact Change.replay?_of_makes (Change.makes_before makes reset _ rest)

omit [Element α] in
theorem counted_same (same : v.shown value h = w.shown value h) : Counted value h w v := by
  intro before after was is differ
  rw [same, was] at is
  exact absurd (congrArg List.length (Except.ok.inj is)) differ

theorem count_passed (abreast : Abreast value h x w) (moved : Moved c l m b w v) {s : Listener κ}
    {raw : Bool} (hears : Hears w h c s raw) (describes : b.Describes l.contents m.contents)
    {before after : List α} (was : w.shown value h = .ok before)
    (is : v.shown value h = .ok after) (differ : before.length ≠ after.length) :
    ∃ p ∈ b.properties, .count ∈ relayedAll raw p := by
  rw [describes.properties]
  cases whole : raw with
  | false =>
    refine ⟨.items, ?_, List.mem_cons_self⟩
    split <;> simp
  | true =>
    obtain ⟨rest, shows⟩ := shown_raw hears.relay whole abreast.wired value
    obtain ⟨old, new, others⟩ := moved_contents moved
    have now := (shows v moved.views others).symm.trans is
    have then' := (shows w ⟨rfl, rfl⟩ fun _ _ => rfl).symm.trans was
    rw [new] at now
    rw [old] at then'
    obtain rfl := Except.ok.inj now
    obtain rfl := Except.ok.inj then'
    have lengths : l.contents.length ≠ m.contents.length := by
      intro same
      simp [same] at differ
    exact ⟨.count, by simp [lengths], List.mem_cons_self⟩

/-- A list that has moved on is announced: the copy is right again. -/
theorem moved_followed (immutable : ∀ id, h = .filter id → Fixed value)
    (attends : Attends call value h x) (abreast : Abreast value h x w) (moved : Moved c l m b w v) :
    Abreast value h x (announce call c b v) ∧ Counted value h w (announce call c b v) := by
  have setting := setting_moved abreast.toSetting moved
  have client : v.client = w.client := client_of_clientState moved.clientState
  have roster (k : Handle) (t : Topic) : v.roster k t = w.roster k t := by
    rw [World.roster, World.roster, living_of_clientState moved.clientState]
  -- Where the view shows what it showed, the copy is right all along.
  have unchanged (unseen : b.changes = [] ∨ c ∉ w.sources h)
      (quiet : Unmoved value h x v (announce call c b v)) :
      Abreast value h x (announce call c b v) ∧ Counted value h w (announce call c b v) := by
    have same : v.shown value h = w.shown value h := shown_moved moved unseen
    have truthful : Truthful value h v := fun items kept =>
      same.trans (abreast.truthful items ((cache_seen moved.views h).2 ▸ kept))
    have current : Current value h x v :=
      ⟨client ▸ abreast.current.copied, fun items shows => client ▸ abreast.current.right items
        (same ▸ shows)⟩
    exact ⟨⟨setting_alike setting quiet.toAlike, quiet.truthful truthful,
      current_unmoved current quiet⟩, counted_same ((shown_alike quiet.toAlike h).trans same)⟩
  obtain ⟨s, raw, hears⟩ | ⟨deaf, outside⟩ := hears_or_deaf abreast.wired abreast.readable c
  · have there : Hears v h c s raw := hears_congr hears moved.views (roster _)
    rcases changes : b.changes with _ | ⟨change, _ | ⟨next, rest⟩⟩
    · exact unchanged (.inl changes) (announce_properties attends setting.toScene there changes)
    · obtain ⟨alike, truthful, current, informed⟩ := announce_change immutable attends
        setting.toScene there changes (behind_moved abreast moved hears changes)
      refine ⟨⟨setting_alike setting alike, truthful, current⟩, ?_⟩
      intro before after was is differ y i listens
      have describes := moved.tells.resolve_left (by simp [changes])
      rw [shown_alike alike] at is
      obtain ⟨p, announced, passed⟩ := count_passed abreast moved hears describes was is differ
      obtain ⟨more, told, member⟩ := informed p announced .count passed y i (roster .. ▸ listens)
      exact ⟨more, client ▸ told, member⟩
    · have single := moved.single
      simp [changes] at single
  · have far : Deaf v h c := deaf_congr (fun _ => living_of_clientState moved.clientState ..) deaf
    exact unchanged (.inr outside) (announce_deaf attends setting.toScene far b)

theorem abreast_unmoved (abreast : Abreast value h x w) (unmoved : Unmoved value h x w v) :
    Abreast value h x v where
  toSetting := setting_alike abreast.toSetting unmoved.toAlike
  truthful := unmoved.truthful abreast.truthful
  current := current_unmoved abreast.current unmoved

theorem counted_unmoved (unmoved : Unmoved value h x w v) : Counted value h w v :=
  counted_same (shown_alike unmoved.toAlike h)

theorem counted_after (unmoved : Unmoved value h x w u) (counted : Counted value h u v) :
    Counted value h w v := by
  intro before after was is differ y i listens
  rw [← shown_alike unmoved.toAlike] at was
  rw [← roster_alike unmoved.toAlike] at listens
  exact told_after unmoved.told (counted before after was is differ y i listens)

theorem mutate_abreast (immutable : ∀ id, h = .filter id → Fixed value)
    (attends : Attends call value h x) (abreast : Abreast value h x w) (c : ListId)
    (op : Operation α) : Abreast value h x (mutate call c true op w).2 ∧
      Counted value h w (mutate call c true op w).2 := by
  cases here : w.lists.get? c with
  | none =>
    rw [mutate_absent here]
    exact ⟨abreast, counted_same rfl⟩
  | some l =>
    obtain ⟨m, moved⟩ := lockedMutation_moves here (abreast.lists c l here).1 op
    rw [mutate_eq]
    exact moved_followed immutable attends abreast moved

theorem replay_abreast (immutable : ∀ id, h = .filter id → Fixed value)
    (attends : Attends call value h x) (abreast : Abreast value h x w) (c : ListId)
    (direction : Direction) : Abreast value h x (replay call c true direction w).2 ∧
      Counted value h w (replay call c true direction w).2 := by
  cases here : w.lists.get? c with
  | none =>
    rw [replay_absent here]
    exact ⟨abreast, counted_same rfl⟩
  | some l =>
    obtain ⟨m, moved⟩ := lockedReplay_moves here (abreast.lists c l here).1 direction
    rw [replay_eq]
    exact moved_followed immutable attends abreast moved

theorem unmoved_bind {β γ : Type} {first : Work α κ (ViewCopies α) β}
    {next : β → Work α κ (ViewCopies α) γ} (begun : Unmoved value h x w (first w).2)
    (goes : ∀ b v, Unmoved value h x v (next b v).2) :
    Unmoved value h x w ((first >>= next) w).2 := by
  rcases outcome : first w with ⟨fault | b, v⟩
  all_goals rw [outcome] at begun
  · rw [Act.bind_of_error outcome]
    exact begun
  · rw [Act.bind_of_ok outcome]
    exact unmoved_trans begun (goes b v)

theorem unmoved_ensureWritable (id : ViewId) (m : MergedList α) (index : Nat) (inserting : Bool)
    (w : World α κ (ViewCopies α)) :
    Unmoved value h x w (ensureWritable id m index inserting w).2 := by
  have measured : Unmoved value h x w (readList m.master (fun l => l.store.length) w).2 :=
    unmoved_still (reads_readList m.master _ w) (unseen_readList listFree_clientState m.master _ w)
  refine unmoved_bind measured fun length v => ?_
  split
  · exact unmoved_refl v
  · refine unmoved_bind (unmoved_mergedItems id v) fun built u => ?_
    by_cases inside : index < built.items.length
    · rw [if_pos inside]
      exact unmoved_refl u
    · rw [if_neg inside]
      exact unmoved_refl u

theorem unmoved_ensurePlaced (id : ViewId) (m : MergedList α) (op : Operation α)
    (w : World α κ (ViewCopies α)) : Unmoved value h x w (ensurePlaced id m op w).2 := by
  rw [ensurePlaced]
  cases op.place? with
  | none => exact unmoved_refl w
  | some place => exact unmoved_ensureWritable id m place.1 place.2 w

theorem mutateMaster_abreast (immutable : ∀ id, h = .filter id → Fixed value)
    (attends : Attends call value h x) (abreast : Abreast value h x w) (id : ViewId)
    (op : Operation α) : Abreast value h x (mutateMaster call id op w).2 ∧
      Counted value h w (mutateMaster call id op w).2 := by
  cases here : w.merges.get? id with
  | none =>
    rw [mutateMaster, withMerge_absent here]
    exact ⟨abreast, counted_same rfl⟩
  | some g =>
    have begun : Unmoved value h x w _ := unmoved_ensurePlaced id g op w
    rw [mutateMaster_eq here]
    rcases outcome : ensurePlaced id g op w with ⟨fault | _, u⟩
    all_goals rw [outcome] at begun
    · rw [Act.bind_of_error outcome]
      exact ⟨abreast_unmoved abreast begun, counted_unmoved begun⟩
    · rw [Act.bind_of_ok outcome]
      obtain ⟨after, counted⟩ :=
        mutate_abreast immutable attends (abreast_unmoved abreast begun) g.master op
      exact ⟨after, counted_after begun counted⟩

end

end UndoableLists.World
