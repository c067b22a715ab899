import UndoableLists.Proofs.World.Aside
import UndoableLists.World.Mutation

/-!
What telling subscribers can do. Telling a list's subscribers runs the clients' callbacks;
everything around them is work aside, and lists that nobody holds may go away. Main statements:
what these three keep, telling keeps; and where views matter, for which work aside is too much to
ask for, telling leads to a world as each of its steps does.
-/
namespace UndoableLists.World
variable {α κ δ : Type}

section
variable {w : World α κ δ}

theorem aside_channel (h : Handle) (t : Topic) (n : Audience (Listener κ)) (w : World α κ δ) :
    Aside [] w ((channel h t).set n w) :=
  ⟨rfl, rfl, rfl, rfl, rfl, fun _ => rfl, Locks.eased_refl _⟩

theorem aside_filterCache (id : ViewId) (c : CachedView (UInt64 × UInt64) (Built α))
    (w : World α κ δ) : Aside [] w ((filterCache id).set c w) :=
  ⟨rfl, rfl, rfl, rfl, rfl, fun _ => rfl, Locks.eased_refl _⟩

theorem aside_mergeCache (id : ViewId) (c : CachedView (UInt64 × UInt64 × UInt64) (Built α))
    (w : World α κ δ) : Aside [] w ((mergeCache id).set c w) :=
  ⟨rfl, rfl, rfl, rfl, rfl, fun _ => rfl, Locks.eased_refl _⟩

theorem aside_held {held : List Handle}
    (same : ∀ id, held.count (.list id) = w.held.count (.list id)) :
    Aside [] w { w with held } :=
  ⟨rfl, rfl, rfl, rfl, rfl, same, Locks.eased_refl _⟩

theorem aside_unsubscribe (s : Subscription) (w : World α κ δ) : Aside [] w (w.unsubscribe s) := by
  unfold unsubscribe
  split
  · exact aside_refl w
  · exact aside_channel ..

theorem aside_unsubscribeAll (ss : List Subscription) (w : World α κ δ) :
    Aside [] w (w.unsubscribeAll ss) := by
  unfold unsubscribeAll
  induction ss generalizing w with
  | nil => exact aside_refl w
  | cons s rest ih => exact aside_trans (aside_unsubscribe s w) (ih (w.unsubscribe s))

theorem aside_removeFilter (id : ViewId) (v : FilteredView α) (w : World α κ δ) :
    Aside [] w (w.removeFilter id v) :=
  { aside_unsubscribeAll v.subscriptions w with }

theorem aside_removeMerge (id : ViewId) (m : MergedList α) (w : World α κ δ) :
    Aside [] w (w.removeMerge id m) :=
  { aside_unsubscribeAll (m.subscriptions ++ m.slaves.flatMap (·.subscriptions)) w with }

end

theorem aside_bind {ε β γ : Type} {m : Act (World α κ δ) ε β} {f : β → Act (World α κ δ) ε γ}
    (first : ∀ w, Aside [] w (m w).2) (second : ∀ b w, Aside [] w (f b w).2) (w : World α κ δ) :
    Aside [] w ((m >>= f) w).2 := by
  have begun := first w
  rw [Act.bind_apply]
  split <;> rename_i outcome <;> rw [outcome] at begun
  · exact aside_trans begun (second _ _)
  · exact begun

section
variable [Diary δ]

theorem aside_invalidate {K V : Type} {place : Place (World α κ δ) (CachedView K V)}
    (quiet : ∀ c w, Aside [] w (place.set c w)) (w : World α κ δ) :
    Aside [] w (CachedView.invalidate place w).2 := by
  unfold CachedView.invalidate
  refine aside_bind (fun w => aside_refl w) (fun c => ?_) w
  cases c.disposed with
  | true => exact fun w => aside_refl w
  | false =>
    simp only [Bool.false_eq_true, ↓reduceIte]
    cases c.lock with
    | none => exact fun w => aside_refl w
    | some lock =>
      exact aside_bind (aside_holding fun v => quiet _ v) fun _ w => aside_note _ w

theorem aside_filterOf (id : ViewId) (w : World α κ δ) : Aside [] w (filterOf id w).2 := by
  unfold filterOf withFilter
  cases w.filters.get? id with
  | none => exact aside_refl w
  | some v =>
    refine aside_holding (fun u => ?_) w
    cases u.filters.get? id with
    | none => exact aside_refl u
    | some v => exact aside_refl u

theorem isFiltered_leaves (id : ViewId) (w : World α κ δ) :
    (w.isFiltered id).2 = (filterOf id w).2 := by
  unfold isFiltered
  split <;> rename_i outcome <;> rw [outcome]

theorem aside_isFiltered (id : ViewId) (w : World α κ δ) : Aside [] w (w.isFiltered id).2 :=
  isFiltered_leaves id w ▸ aside_filterOf id w

end

/-- A way in which worlds follow each other that holds for all that is done while subscribers are
told: what leaves lists, views and handles alone, looking for a filter, dropping what views have
cached, what is done while one more handle leads to a view, and whatever the clients' subscribers
do. -/
structure Leads (call : Call α κ δ) [Diary δ] (R : World α κ δ → World α κ δ → Prop) : Prop where
  refl : ∀ w, R w w
  trans : ∀ {w u v}, R w u → R u v → R w v
  still : ∀ {w v}, Still [] w v → v.held = w.held → R w v
  looked : ∀ id w, R w (w.isFiltered id).2
  filterDropped : ∀ id w, R w (CachedView.invalidate (filterCache id) w).2
  mergeDropped : ∀ id w, R w (CachedView.invalidate (mergeCache id) w).2
  heard : ∀ {h w v}, (∀ id, h ≠ .list id) → R (w.hold h) v → R w (letGo h v)
  called : ∀ subscriber k event w, R w (call subscriber k event w).2

/-- A property of worlds that outlasts all that is done while subscribers are told: what leaves
lists and views alone, looking for a filter, dropping what views have cached, the end of views and
lists, and whatever the clients' subscribers do. -/
structure Outlasts (call : Call α κ δ) [Diary δ] (P : World α κ δ → Prop) : Prop where
  still : ∀ {w v}, Still [] w v → P w → P v
  looked : ∀ {w} id, P w → P (w.isFiltered id).2
  filterDropped : ∀ {w} id, P w → P (CachedView.invalidate (filterCache id) w).2
  mergeDropped : ∀ {w} id, P w → P (CachedView.invalidate (mergeCache id) w).2
  filterRemoved : ∀ {w} id v, P w → P (w.removeFilter id v)
  mergeRemoved : ∀ {w} id m, P w → P (w.removeMerge id m)
  removed : ∀ {w id l}, w.lists.get? id = some l → .list id ∉ w.held → P w → P (w.removeList id l)
  called : ∀ subscriber k event w, P w → P (call subscriber k event w).2

/-- A property of worlds that outlasts work aside, the end of lists that nobody holds, and whatever
the clients' subscribers do. -/
structure Keeps (call : Call α κ δ) (P : World α κ δ → Prop) : Prop where
  aside : ∀ {w v}, Aside [] w v → P w → P v
  removed : ∀ {w id l}, w.lists.get? id = some l → .list id ∉ w.held → P w → P (w.removeList id l)
  called : ∀ subscriber k event w, P w → P (call subscriber k event w).2

section
variable {P : World α κ δ → Prop} {w : World α κ δ}

theorem still_channel (h : Handle) (t : Topic) (n : Audience (Listener κ)) (w : World α κ δ) :
    Still [] w ((channel h t).set n w) :=
  ⟨aside_channel h t n w, ⟨rfl, rfl⟩⟩

theorem still_held {held : List Handle}
    (same : ∀ id, held.count (.list id) = w.held.count (.list id)) :
    Still [] w { w with held } :=
  ⟨aside_held same, ⟨rfl, rfl⟩⟩

theorem removed_keeps {live : List ListId} {entries : List (ListId × UndoableList α)}
    (removed : ∀ {w id l}, w.lists.get? id = some l → id ∉ w.reachable → P w →
      P (w.removeList id l))
    (led : live = w.reachable) (distinct : (entries.map (·.1)).Nodup)
    (present : ∀ e ∈ entries, w.lists.get? e.1 = some e.2) (start : P w) :
    P (entries.foldl (fun w e => if live.contains e.1 then w else w.removeList e.1 e.2) w) := by
  induction entries generalizing w with
  | nil => exact start
  | cons e rest ih =>
    obtain ⟨absent, distinct⟩ := List.nodup_cons.mp distinct
    have others : ∀ e ∈ rest, w.lists.get? e.1 = some e.2 :=
      fun e member => present e (List.mem_cons_of_mem _ member)
    rw [List.foldl_cons]
    by_cases kept : e.1 ∈ live
    · rw [if_pos (by simpa using kept)]
      exact ih led distinct others start
    · rw [if_neg (by simpa using kept)]
      -- What leads to lists is the same without one of them.
      refine ih led distinct (fun f member => ?_)
        (removed (present e List.mem_cons_self) (led ▸ kept) start)
      have differs : f.1 ≠ e.1 := fun same =>
        absent (List.mem_map.mpr ⟨f, member, same⟩)
      exact (Table.get?_erase ..).trans ((if_neg differs).trans (others f member))

/-- What the end of views that nobody holds keeps, and of lists that nothing leads to, sweeping
keeps. -/
theorem swept_keeps
    (filterRemoved : ∀ {w} id v, .filter id ∉ w.held → P w → P (w.removeFilter id v))
    (mergeRemoved : ∀ {w} id m, .merge id ∉ w.held → P w → P (w.removeMerge id m))
    (removed : ∀ {w id l}, w.lists.get? id = some l → id ∉ w.reachable → P w →
      P (w.removeList id l)) (start : P w) : P w.sweep := by
  unfold sweep
  refine removed_keeps removed rfl (Table.distinct _) ?_ ?_
  · rintro ⟨id, l⟩ member
    exact Table.get?_eq_some_iff.mpr member
  · refine List.foldlRecOn _ _ (List.foldlRecOn _ _ start ?_) ?_
    · rintro w kept ⟨id, v⟩ -
      dsimp only
      split
      · exact kept
      · rename_i loose
        exact filterRemoved id v (by simpa using loose) kept
    · rintro w kept ⟨id, m⟩ -
      dsimp only
      split
      · exact kept
      · rename_i loose
        exact mergeRemoved id m (by simpa using loose) kept

theorem reachable_of_held {id : ListId} (held : .list id ∈ w.held) : id ∈ w.reachable := by
  simp only [reachable, List.mem_append]
  exact .inl (.inl (List.mem_filterMap.mpr ⟨.list id, held, rfl⟩))

theorem sweep_keeps (aside : ∀ {w v}, Aside [] w v → P w → P v)
    (removed : ∀ {w id l}, w.lists.get? id = some l → .list id ∉ w.held → P w →
      P (w.removeList id l)) (start : P w) : P w.sweep :=
  swept_keeps (fun id v _ => aside (aside_removeFilter id v _))
    (fun id m _ => aside (aside_removeMerge id m _))
    (fun here unled => removed here fun held => unled (reachable_of_held held)) start

variable [Diary δ]

theorem still_note (n : Notice) (w : World α κ δ) : Still [] w (Journal.note n w) :=
  ⟨aside_note n w, ⟨rfl, rfl⟩⟩

section
variable {R : World α κ δ → World α κ δ → Prop} {call : Call α κ δ}

theorem raise_leads (leads : Leads call R)
    {reach : Audience.Call (World α κ δ) (Listener κ) (Event α) ListRefusal}
    (reached : ∀ subscriber k event w, R w (reach subscriber k event w).2) (h : Handle)
    (t : Topic) (events : List (Event α)) (w : World α κ δ) :
    R w (Audience.raise (channel h t) reach events w).2 := by
  have placed (f : Audience (Listener κ) → Audience (Listener κ)) (w : World α κ δ) :
      R w ((channel h t).modify f w) := leads.still (still_channel ..) rfl
  have noted (n : Notice) (w : World α κ δ) : R w (Journal.note n w) :=
    leads.still (still_note ..) rfl
  have delivered (event : Event α) (w : World α κ δ) (s : Subscriber (Listener κ)) :
      R w (Audience.deliverTo reach event s w) := by
    have called := reached s.id s.listener event w
    unfold Audience.deliverTo
    split <;> rename_i outcome <;> rw [outcome] at called
    · exact called
    · exact leads.trans called (noted ..)
  unfold Audience.raise
  split
  · exact leads.refl w
  · simp only
    split
    · exact placed _ w
    · refine leads.trans ?_ (noted ..)
      refine leads.trans ?_ (placed _ _)
      refine leads.trans ?_ (foldl_relates leads.refl leads.trans (fun event _ w => ?_) _)
      · exact leads.trans (placed _ _) (placed _ _)
      · exact foldl_relates leads.refl leads.trans (fun s _ w => delivered event w s) w

theorem tell_leads (leads : Leads call R) (h : Handle) (t : Topic) (events : List (Event α))
    (w : World α κ δ) : R w (tell call h t events w) := by
  refine raise_leads leads (fun subscriber listener event w => ?_) h t events w
  cases listener with
  | client k => exact leads.called subscriber k event w
  | filter id => exact leads.refl w
  | master id => exact leads.refl w
  | slave id => exact leads.refl w

theorem tellReset_leads (leads : Leads call R) (h : Handle) (w : World α κ δ) :
    R w (tellReset call h w) :=
  leads.trans (tell_leads leads _ _ _ w) (tell_leads leads _ _ _ _)

theorem afterInvalidating_leads (leads : Leads call R) {K V : Type}
    {cache : Place (World α κ δ) (CachedView K V)}
    (dropped : ∀ w, R w (CachedView.invalidate cache w).2)
    {next : World α κ δ → World α κ δ} (onward : ∀ w, R w (next w)) (w : World α κ δ) :
    R w (afterInvalidating cache next w) := by
  have dropped := dropped w
  unfold afterInvalidating
  split <;> rename_i outcome <;> rw [outcome] at dropped
  · exact leads.trans dropped (onward _)
  · exact dropped

theorem hearAsFilter_leads (leads : Leads call R) (id : ViewId) (event : Event α)
    (w : World α κ δ) : R w (hearAsFilter call id event w) := by
  cases event with
  | collection change =>
    refine afterInvalidating_leads leads (leads.filterDropped id) (fun w => ?_) w
    exact leads.trans (leads.looked id w) (tell_leads leads _ _ _ _)
  | property property =>
    have told (ps : List Property) : R w (tellProperties call (.filter id) ps _) :=
      leads.trans (leads.looked id w) (tell_leads leads _ _ _ _)
    simp only [hearAsFilter]
    split
    · exact leads.refl w
    · split
      · exact told [property]
      · split
        · exact told [.count, .items]
        · exact leads.looked id w

theorem hearFromMaster_leads (leads : Leads call R) (id : ViewId) (event : Event α)
    (w : World α κ δ) : R w (hearFromMaster call id event w) := by
  refine afterInvalidating_leads leads (leads.mergeDropped id) (fun w => ?_) w
  cases event <;> exact tell_leads leads _ _ _ w

theorem hearFromSlave_leads (leads : Leads call R) (id : ViewId) (event : Event α)
    (w : World α κ δ) : R w (hearFromSlave call id event w) := by
  refine afterInvalidating_leads leads (leads.mergeDropped id) (fun w => ?_) w
  cases event with
  | collection change => exact tell_leads leads _ _ _ w
  | property property =>
    cases property with
    | count => exact leads.refl w
    | items => exact tell_leads leads _ _ _ w

theorem hear_leads (leads : Leads call R) {h : Handle} (view : ∀ id, h ≠ .list id)
    {alive : World α κ δ → Bool} {reaction : World α κ δ → World α κ δ}
    (reacts : ∀ w, R w (reaction w)) (w : World α κ δ) : R w (hear h alive reaction w).2 := by
  unfold hear
  split
  · exact leads.heard view (reacts (w.hold h))
  · exact leads.refl w

/-- Telling a list's subscribers leads to a world as each step of it does. -/
theorem announce_leads (leads : Leads call R) (id : ListId) (b : Bulletin α) (w : World α κ δ) :
    R w (announce call id b w) := by
  have reached (subscriber : SubscriberId) (listener : Listener κ) (event : Event α)
      (w : World α κ δ) : R w (callListener call subscriber listener event w).2 := by
    cases listener with
    | client k => exact leads.called subscriber k event w
    | filter id => exact hear_leads leads (fun _ => by simp) (hearAsFilter_leads leads id event) w
    | master id => exact hear_leads leads (fun _ => by simp) (hearFromMaster_leads leads id event) w
    | slave id => exact hear_leads leads (fun _ => by simp) (hearFromSlave_leads leads id event) w
  exact leads.trans (raise_leads leads reached _ _ _ w) (raise_leads leads reached _ _ _ _)

end

variable {call : Call α κ δ}

theorem outlasts_of_keeps (keeps : Keeps call P) : Outlasts call P where
  still still := keeps.aside still.toAside
  looked id := keeps.aside (aside_isFiltered id _)
  filterDropped id := keeps.aside (aside_invalidate (fun c w => aside_filterCache id c w) _)
  mergeDropped id := keeps.aside (aside_invalidate (fun c w => aside_mergeCache id c w) _)
  filterRemoved id v := keeps.aside (aside_removeFilter id v _)
  mergeRemoved id m := keeps.aside (aside_removeMerge id m _)
  removed := keeps.removed
  called := keeps.called

theorem leads_of_outlasts (lasts : Outlasts call P) : Leads call fun w v => P w → P v where
  refl _ kept := kept
  trans first second kept := second (first kept)
  still still _ kept := lasts.still still kept
  looked id _ kept := lasts.looked id kept
  filterDropped id _ kept := lasts.filterDropped id kept
  mergeDropped id _ kept := lasts.mergeDropped id kept
  heard view later kept := by
    have left := later (lasts.still (still_held fun id => by simp [view id]) kept)
    refine swept_keeps (fun id v _ => lasts.filterRemoved id v)
      (fun id m _ => lasts.mergeRemoved id m)
      (fun here unled => lasts.removed here fun held => unled (reachable_of_held held))
      (lasts.still (still_held fun id => ?_) left)
    exact List.count_erase_of_ne (view id).symm
  called s k e w kept := lasts.called s k e w kept

theorem tellReset_keeps (lasts : Outlasts call P) (h : Handle) (start : P w) :
    P (tellReset call h w) :=
  tellReset_leads (leads_of_outlasts lasts) h w start

/-- Telling a list's subscribers leaves what outlasts it. -/
theorem announce_outlasted (lasts : Outlasts call P) (id : ListId) (b : Bulletin α) (start : P w) :
    P (announce call id b w) :=
  announce_leads (leads_of_outlasts lasts) id b w start

theorem announce_keeps (keeps : Keeps call P) (id : ListId) (b : Bulletin α) (start : P w) :
    P (announce call id b w) :=
  announce_outlasted (outlasts_of_keeps keeps) id b start

theorem told_outlasted (lasts : Outlasts call P) (id : ListId) (b : Bulletin α) (aloud : Bool)
    (start : P w) : P (if aloud then announce call id b w else w) := by
  cases aloud with
  | false => exact start
  | true => exact announce_outlasted lasts id b start

theorem told_keeps (keeps : Keeps call P) (id : ListId) (b : Bulletin α) (aloud : Bool)
    (start : P w) : P (if aloud then announce call id b w else w) :=
  told_outlasted (outlasts_of_keeps keeps) id b aloud start

theorem telling_outlasted {β : Type} {body : Work α κ δ (Told α β)} (lasts : Outlasts call P)
    {id : ListId} (silent : P (telling call id false body w).2) (aloud : Bool) :
    P (telling call id aloud body w).2 := by
  unfold telling at silent ⊢
  rcases outcome : body w with ⟨_ | ⟨b, r⟩, v⟩
  all_goals rw [outcome] at silent
  · exact silent
  · exact told_outlasted lasts id b aloud silent

theorem telling_keeps {β : Type} {body : Work α κ δ (Told α β)} (keeps : Keeps call P)
    {id : ListId} (silent : P (telling call id false body w).2) (aloud : Bool) :
    P (telling call id aloud body w).2 :=
  telling_outlasted (outlasts_of_keeps keeps) silent aloud

end

end UndoableLists.World
