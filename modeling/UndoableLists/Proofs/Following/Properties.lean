import UndoableLists.Proofs.Following.Telling

/-!
Telling of properties and of nothing else. Main statements: what subscribers would do on hearing of
a change does not matter then; and if on hearing of a property they only take note of it, nobody is
told of a change, no copy is touched, and what a filtered view keeps is what it kept before, or
nothing.
-/
namespace UndoableLists.World
variable {α κ δ : Type}

section
variable [Diary δ] {call other : Call α κ δ} {b : Bulletin α} {w : World α κ δ}

theorem raise_congr {call other : Audience.Call (World α κ δ) (Listener κ) (Event α) ListRefusal}
    {events : List (Event α)} (agree : ∀ e ∈ events, ∀ s l, call s l e = other s l e)
    (place : Place (World α κ δ) (Audience (Listener κ))) (w : World α κ δ) :
    Audience.raise place call events w = Audience.raise place other events w := by
  have each (audience : List (Subscriber (Listener κ))) (w : World α κ δ) :
      events.foldl (Audience.deliverEvent call audience) w =
        events.foldl (Audience.deliverEvent other audience) w := by
    refine List.foldl_ext _ _ w fun v e asked => ?_
    refine List.foldl_ext _ _ v fun u s _ => ?_
    rw [Audience.deliverTo, Audience.deliverTo, agree e asked]
  simp only [Audience.raise, each]

variable (agree : ∀ s i p, call s i (.property p) = other s i (.property p))
include agree

theorem tellProperties_congr (h : Handle) (ps : List Property) :
    tellProperties call h ps = tellProperties other h ps := by
  funext w
  refine congrArg Prod.snd (raise_congr (fun e asked s l => ?_) _ w)
  obtain ⟨p, -, rfl⟩ := List.mem_map.mp asked
  cases l with
  | client i => exact agree s i p
  | _ => rfl

theorem callListener_congr (s : SubscriberId) (l : Listener κ) (p : Property) :
    callListener call s l (.property p) = callListener other s l (.property p) := by
  cases l with
  | client i => exact agree s i p
  | filter id =>
    have same : hearAsFilter call id (.property p) = hearAsFilter other id (.property p) := by
      funext w
      simp only [hearAsFilter, tellProperties_congr agree]
    simp only [callListener, same]
  | master id => simp only [callListener, hearFromMaster, tellProperties_congr agree]
  | slave id =>
    have same : hearFromSlave call id (.property p) = hearFromSlave other id (.property p) := by
      cases p <;> simp only [hearFromSlave, tellProperties_congr agree]
    simp only [callListener, same]

theorem announce_congr (silent : b.changes = []) (c : ListId) (w : World α κ δ) :
    announce call c b w = announce other c b w := by
  rw [announce_silent silent, announce_silent silent]
  refine congrArg Prod.snd (raise_congr (fun e asked s l => ?_) _ w)
  obtain ⟨p, -, rfl⟩ := List.mem_map.mp asked
  exact callListener_congr agree s l p

end

def TakesNote (call : Call α κ (ViewCopies α)) : Prop :=
  ∀ s i p w, call s i (.property p) w = (.ok (), logged s (.property p) w)

/-- Between the two worlds properties were told and nothing else, copies and objects are the same,
and the filtered view `id` keeps what it kept before, or nothing. -/
structure Hushed (id : ViewId) (w v : World α κ (ViewCopies α)) : Prop where
  told : ∃ more, v.client.told = w.client.told ++ more ∧ ∀ p ∈ more, ∃ q, p.2 = .property q
  copies : v.client.copies = w.client.copies
  objects : v.objects = w.objects
  entry : ∀ e, ((filterCache id).get v).entry = some e → ((filterCache id).get w).entry = some e

section
variable {id : ViewId} {u v w : World α κ (ViewCopies α)}

theorem hushed_trans (first : Hushed id w u) (second : Hushed id u v) : Hushed id w v where
  told := by
    obtain ⟨more, before, early⟩ := first.told
    obtain ⟨further, after, late⟩ := second.told
    refine ⟨more ++ further, by rw [after, before, List.append_assoc], fun p member => ?_⟩
    exact (List.mem_append.mp member).elim (early p) (late p)
  copies := second.copies.trans first.copies
  objects := second.objects.trans first.objects
  entry e kept := first.entry e (second.entry e kept)

theorem hushed_same (client : v.client = w.client) (objects : v.objects = w.objects)
    (filters : v.filters = w.filters) : Hushed id w v where
  told := ⟨[], by rw [client, List.append_nil], fun _ member => absurd member List.not_mem_nil⟩
  copies := by rw [client]
  objects
  entry e kept := by
    simp only [filterCache, filters] at kept
    exact kept

theorem hushed_refl (w : World α κ (ViewCopies α)) : Hushed id w w := hushed_same rfl rfl rfl

theorem hushed_still (still : Still [] w v) (same : clientState v = clientState w) :
    Hushed id w v :=
  hushed_same (client_of_clientState same) still.objects still.filters

theorem hushed_channelsOnly (only : ChannelsOnly w v) : Hushed id w v := by
  obtain ⟨channels, rfl⟩ := only
  exact hushed_same rfl rfl rfl

theorem hushed_hold (h : Handle) (w : World α κ (ViewCopies α)) : Hushed id w (w.hold h) :=
  hushed_same rfl rfl rfl

theorem hushed_removeFilter (other : ViewId) (f : FilteredView α) (w : World α κ (ViewCopies α)) :
    Hushed id w (w.removeFilter other f) := by
  obtain ⟨channels, ended⟩ := channelsOnly_unsubscribeAll f.subscriptions w
  have same : Hushed id w w := hushed_refl w
  rw [removeFilter, ended]
  refine ⟨same.told, rfl, rfl, fun e kept => ?_⟩
  simp only [filterCache, Table.get?_erase] at kept ⊢
  split at kept
  · cases kept
  · exact kept

theorem hushed_removeMerge (other : ViewId) (m : MergedList α) (w : World α κ (ViewCopies α)) :
    Hushed id w (w.removeMerge other m) := by
  obtain ⟨channels, ended⟩ :=
    channelsOnly_unsubscribeAll (m.subscriptions ++ m.slaves.flatMap (·.subscriptions)) w
  rw [removeMerge, ended]
  exact hushed_same rfl rfl rfl

theorem hushed_letGo (h : Handle) (w : World α κ (ViewCopies α)) : Hushed id w (letGo h w) := by
  refine swept_keeps (P := Hushed id w) (fun other f _ left => ?_) (fun other m _ left => ?_)
    (fun _ _ left => ?_) (hushed_same rfl rfl rfl)
  · exact hushed_trans left (hushed_removeFilter other f _)
  · exact hushed_trans left (hushed_removeMerge other m _)
  · exact hushed_trans left (hushed_same rfl rfl rfl)

theorem hushed_raise
    {call : Audience.Call (World α κ (ViewCopies α)) (Listener κ) (Event α) ListRefusal}
    {events : List (Event α)} (each : ∀ e ∈ events, ∀ s l w, Hushed id w (call s l e w).2)
    (h : Handle) (t : Topic) (w : World α κ (ViewCopies α)) :
    Hushed id w (Audience.raise (channel h t) call events w).2 := by
  obtain ⟨u, first, -, last, -⟩ := raise_spreads call h t events w
  have between : Hushed id u (events.foldl (spread call (w.roster h t)) u) :=
    foldl_relates hushed_refl hushed_trans
      (fun e asked => foldl_relates hushed_refl hushed_trans fun p _ => each e asked p.1 p.2) u
  exact hushed_trans (hushed_channelsOnly first) (hushed_trans between (hushed_channelsOnly last))

theorem hushed_isFiltered (other : ViewId) (w : World α κ (ViewCopies α)) :
    Hushed id w (isFiltered other w).2 :=
  isFiltered_leaves other w ▸
    hushed_still (reads_filterOf other w) (unseen_filterOf listFree_clientState other w)

theorem hushed_dropped (other : ViewId) {next : World α κ (ViewCopies α) → World α κ (ViewCopies α)}
    (goes : ∀ v, Hushed id v (next v)) (w : World α κ (ViewCopies α)) :
    Hushed id w (afterInvalidating (mergeCache other) next w) := by
  have dropped : Hushed id w (CachedView.invalidate (mergeCache other) w).2 := by
    have client := client_of_clientState (clientState_invalidated (mergeCacheOf other) w)
    obtain ⟨aside, seen | ⟨-, seen⟩⟩ := invalidate_leaves (mergeCachePlace other) w
    all_goals exact hushed_same client aside.objects seen.filters
  unfold afterInvalidating
  split <;> rename_i outcome <;> rw [outcome] at dropped
  · exact hushed_trans dropped (goes _)
  · exact dropped

theorem hushed_hear (h : Handle) (alive : World α κ (ViewCopies α) → Bool)
    {react : World α κ (ViewCopies α) → World α κ (ViewCopies α)}
    (quiet : ∀ w, Hushed id w (react w))
    (w : World α κ (ViewCopies α)) : Hushed id w (hear h alive react w).2 := by
  unfold hear
  split
  · exact hushed_trans (hushed_hold h w) (hushed_trans (quiet _) (hushed_letGo h _))
  · exact hushed_refl w

theorem hushed_logged (s : SubscriberId) (p : Property) (w : World α κ (ViewCopies α)) :
    Hushed id w (logged s (.property p) w) where
  told := by
    refine ⟨[(s, .property p)], rfl, fun q member => ⟨p, ?_⟩⟩
    rw [List.mem_singleton.mp member]
  copies := rfl
  objects := rfl
  entry _ kept := kept

variable {call : Call α κ (ViewCopies α)}

theorem hushed_tellProperties (notes : TakesNote call) (h : Handle) (ps : List Property)
    (w : World α κ (ViewCopies α)) : Hushed id w (tellProperties call h ps w) := by
  refine hushed_raise (fun e asked s l w => ?_) h .properties w
  obtain ⟨p, -, rfl⟩ := List.mem_map.mp asked
  cases l with
  | client i =>
    rw [callClient, notes]
    exact hushed_logged s p w
  | _ => exact hushed_refl w

theorem hushed_hearAsFilter (notes : TakesNote call) (other : ViewId) (p : Property)
    (w : World α κ (ViewCopies α)) : Hushed id w (hearAsFilter call other (.property p) w) := by
  have looked : Hushed id w (isFiltered other w).2 := hushed_isFiltered other w
  have told (ps : List Property) :=
    hushed_trans looked (hushed_tellProperties notes (.filter other) ps _)
  unfold hearAsFilter
  dsimp only
  split
  · exact hushed_refl w
  · split
    · exact told _
    · split
      · exact told _
      · exact looked

theorem hushed_callListener (notes : TakesNote call) (s : SubscriberId) (l : Listener κ)
    (p : Property) (w : World α κ (ViewCopies α)) :
    Hushed id w (callListener call s l (.property p) w).2 := by
  cases l with
  | client i =>
    rw [callListener, notes]
    exact hushed_logged s p w
  | filter other => exact hushed_hear _ _ (hushed_hearAsFilter notes other p) w
  | master other =>
    exact hushed_hear _ _ (hushed_dropped other (hushed_tellProperties notes _ _)) w
  | slave other =>
    refine hushed_hear _ _ (hushed_dropped other fun v => ?_) w
    cases p with
    | items => exact hushed_tellProperties notes _ _ v
    | count => exact hushed_refl v

theorem hushed_announce (notes : TakesNote call) (c : ListId) {b : Bulletin α}
    (silent : b.changes = []) (w : World α κ (ViewCopies α)) :
    Hushed id w (announce call c b w) := by
  rw [announce_silent silent]
  refine hushed_raise (fun e asked s l w => ?_) _ _ w
  obtain ⟨p, -, rfl⟩ := List.mem_map.mp asked
  exact hushed_callListener notes s l p w

end

def attending [Element α] (h : Handle) (x : SubscriberId) : Call α κ (ViewCopies α) :=
  fun s i event w => if s = x then copying h s i event w else (.ok (), logged s event w)

theorem attends_attending [Element α] (value : α → Value) (h : Handle) (x : SubscriberId) :
    Attends (attending h x : Call α κ (ViewCopies α)) value h x where
  copies k event := by
    funext w
    exact if_pos rfl
  tells s k event w := by
    unfold attending
    split
    · exact copying_tells h s k event w
    · exact told_logged s event w
  others s k event w differs := by
    rw [attending, if_neg differs]
    exact unmoved_logged s event w

theorem attending_agrees [Element α] {call : Call α κ (ViewCopies α)} (notes : TakesNote call)
    (h : Handle) (x s : SubscriberId) (i : κ) (p : Property) :
    call s i (.property p) = attending h x s i (.property p) := by
  funext w
  rw [notes, attending]
  split
  · exact (copying_property h s i p w).symm
  · rfl

end UndoableLists.World
