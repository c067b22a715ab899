import UndoableLists.Proofs.Views.Filtered
import UndoableLists.Proofs.Views.Merged

/-!
Runs of lists and views. A run is a series of deeds from an empty world: things done with a list, a
filtered view or a merged list up to the moment at which its lock is free again, and things that
have nothing to do with either. What subscribers do when they are told are further deeds. Main
statements: every cache stays true to its keys, deed by deed and so in a whole run; and calls that
are told are parts of runs, whatever subscribers do, as long as that is part of a run too.
-/
namespace UndoableLists.World
variable {α κ δ : Type}

/-- Every view's cache is true to its keys. -/
structure Coherent [Element α] (value : α → Value) (w : World α κ δ) : Prop where
  grounded : Grounded w
  filters : ∀ id f, w.filters.get? id = some f → f.Faithful value w
  merges : ∀ id m, w.merges.get? id = some m → m.KeptIn w

section
variable [Element α] {value : α → Value} {v w : World α κ δ} {id : ViewId}

theorem coherent_onward (coherent : Coherent value w) (onward : Onward w v)
    (views : SameViews w v) : Coherent value v where
  grounded := grounded_onward coherent.grounded onward
  filters id f there := faithful_onward (coherent.filters id f (views.filters ▸ there)) onward
  merges id m there := kept_onward (coherent.merges id m (views.merges ▸ there)) onward

theorem coherent_filterStep (coherent : Coherent value w) (step : FilterStep value id w v) :
    Coherent value v where
  grounded := grounded_onward coherent.grounded step.onward
  filters :=
    all_right step (fun _ faithful => faithful_onward faithful step.onward) coherent.filters
  merges other m there := kept_onward (coherent.merges other m (step.apart ▸ there)) step.onward

theorem coherent_mergeStep (coherent : Coherent value w) (step : MergeStep id w v) :
    Coherent value v where
  grounded := grounded_onward coherent.grounded step.onward
  filters other f there :=
    faithful_onward (coherent.filters other f (step.apart ▸ there)) step.onward
  merges := all_right step (fun _ kept => kept_onward kept step.onward) coherent.merges

end

variable [Diary δ] [Element α]

inductive ListDeed (w : World α κ δ) : World α κ δ → Prop
  | created (b : Blueprint α) : ListDeed w (createList b w).2
  | mutated (id : ListId) (op : Operation α) : ListDeed w (lockedMutation id op w).2
  | replayed (id : ListId) (direction : Direction) : ListDeed w (lockedReplay id direction w).2
  | cleared (id : ListId) : ListDeed w (clearHistory id w).2
  | edited (e : Edit) (id : ListId) : ListDeed w (enterEdit e id w).2
  | reworked {β : Type} (id : ListId) (r : Rework α β)
    (returns : ∀ l, w.lists.get? id = some l → ∃ b, (r.on l.store).1 = .ok b) :
    ListDeed w (aloneWithStore id (rework id r) w).2
  | signalled (id : ListId) : ListDeed w (w.signal id)
  | disposed (id : ListId) : ListDeed w (dispose id w).2
  | removed (id : ListId) (l : UndoableList α) : ListDeed w (w.removeList id l)

inductive FilterDeed (w : World α κ δ) : ViewId → World α κ δ → Prop
  | made (base : ListId) (predicate : Predicate) (settings : Patience) :
    FilterDeed w w.nextView (createFilter base predicate settings w)
  | set (id : ViewId) (filter : Option Filter) : FilterDeed w id (exchangeFilter id filter w).2
  | read (id : ViewId) : FilterDeed w id (filteredItems id w).2
  | dropped (id : ViewId) : FilterDeed w id (CachedView.invalidate (filterCache id) w).2
  | disposed (id : ViewId) : FilterDeed w id (disposeFilter id w).2
  | removed (id : ViewId) (f : FilteredView α) : FilterDeed w id (w.removeFilter id f)

inductive MergeDeed (w : World α κ δ) : ViewId → World α κ δ → Prop
  | made (master : ListId) (settings : Patience) :
    MergeDeed w w.nextView (createMerge master settings w)
  | set (id : ViewId) (choose : List Slave → Except ListRefusal (List Slave × List Slave)) :
    MergeDeed w id (exchangeSlaves id choose w).2
  | read (id : ViewId) : MergeDeed w id (mergedItems id w).2
  | dropped (id : ViewId) : MergeDeed w id (CachedView.invalidate (mergeCache id) w).2
  | closed (id : ViewId) : MergeDeed w id (closeMerge id w).2
  | removed (id : ViewId) (m : MergedList α) : MergeDeed w id (w.removeMerge id m)

/-- The worlds that runs lead to. `elsewhere` is whatever leaves lists and views as they are, also
what other threads do with locks. -/
inductive Run : World α κ δ → Prop
  | start {w} (lists : ∀ c, w.lists.get? c = none) (filters : ∀ id, w.filters.get? id = none)
    (merges : ∀ id, w.merges.get? id = none)
    (ledger : ∀ id ∈ w.locks.heldBy w.thread, id < w.locks.next) : Run w
  | list {w v} (run : Run w) (deed : ListDeed w v) : Run v
  | filter {w v id} (run : Run w) (deed : FilterDeed w id v) : Run v
  | merge {w v id} (run : Run w) (deed : MergeDeed w id v) : Run v
  | elsewhere {w v} (run : Run w) (lists : v.lists = w.lists) (views : SameViews w v)
    (contexts : w.nextContext ≤ v.nextContext) (locks : w.locks.next ≤ v.locks.next)
    (ledger : (∀ id ∈ w.locks.heldBy w.thread, id < w.locks.next) →
      ∀ id ∈ v.locks.heldBy v.thread, id < v.locks.next) : Run v

theorem run_start (client : δ) : Run ({ client } : World α κ δ) :=
  .start (fun _ => rfl) (fun _ => rfl) (fun _ => rfl)
    fun _ member => absurd member List.not_mem_nil

section
variable {value : α → Value} {v w : World α κ δ} {id : ViewId}

theorem onward_listDeed (keyed : Keyed w) (deed : ListDeed w v) : Onward w v ∧ SameViews w v := by
  have leaves {u : World α κ δ} (onward : Onward w u) (same : u.views = w.views) :
      Onward w u ∧ SameViews w u := ⟨onward, sameViews_iff.mpr same⟩
  cases deed with
  | created b =>
    exact leaves (onward_created b w) ((look_noteAll listFree_views _ _).trans rfl)
  | mutated id op =>
    exact leaves (onward_lockedMutation keyed id op) (unseen_lockedMutation listFree_views id op w)
  | replayed id direction =>
    exact leaves (onward_lockedReplay keyed id direction)
      (unseen_lockedReplay listFree_views id direction w)
  | cleared id => exact leaves (onward_clearHistory id) (unseen_clearHistory listFree_views id w)
  | edited e id => exact leaves (onward_enterEdit id e) (unseen_enterEdit listFree_views e id w)
  | reworked id r returns =>
    exact leaves (onward_reworked keyed id r returns) (unseen_aloneWithStore listFree_views id r w)
  | signalled id => exact ⟨onward_signal id, rfl, rfl⟩
  | disposed id => exact leaves (onward_dispose keyed id) (unseen_dispose listFree_views id w)
  | removed id l => exact ⟨onward_removed w id l, rfl, rfl⟩

theorem filterStep_deed (grounded : Grounded w) (deed : FilterDeed w id v) :
    FilterStep value id w v := by
  cases deed with
  | made base predicate settings => exact filterStep_created base predicate settings w
  | set _ filter => exact filterStep_exchanged id filter w
  | read => exact filterStep_read grounded id
  | dropped => exact filterStep_invalidated id w
  | disposed => exact filterStep_disposed id w
  | removed _ f => exact filterStep_removed id f w

theorem mergeStep_deed (grounded : Grounded w) (deed : MergeDeed w id v) :
    MergeStep id w v := by
  cases deed with
  | made master settings => exact mergeStep_created master settings w
  | set _ choose => exact mergeStep_exchanged id choose w
  | read => exact mergeStep_read grounded id
  | dropped => exact mergeStep_invalidated id w
  | closed => exact mergeStep_closed id w
  | removed _ m => exact mergeStep_removed id m w

/-- In a run every cache stays true to its keys. -/
theorem coherent_of_run (value : α → Value) (run : Run w) : Coherent value w := by
  induction run with
  | start lists filters merges ledger =>
    refine ⟨⟨ledger, ?_, ?_⟩, ?_, ?_⟩
    · intro c l here
      simp [lists] at here
    · intro c l here
      simp [lists] at here
    · intro id f here
      simp [filters] at here
    · intro id m here
      simp [merges] at here
  | list run deed coherent =>
    obtain ⟨onward, views⟩ := onward_listDeed coherent.grounded.keyed deed
    exact coherent_onward coherent onward views
  | filter run deed coherent =>
    exact coherent_filterStep coherent (filterStep_deed coherent.grounded deed)
  | merge run deed coherent =>
    exact coherent_mergeStep coherent (mergeStep_deed coherent.grounded deed)
  | elsewhere run lists views contexts locks ledger coherent =>
    refine coherent_onward coherent ⟨contexts, locks, ledger, ?_⟩ views
    intro c m there
    exact .inl ⟨m, lists ▸ there, UndoableList.later_refl m⟩

theorem run_still (run : Run w) (still : Still [] w v) : Run v := by
  refine run.elsewhere still.lists still.toSameViews (Nat.le_of_eq still.nextContext.symm)
    (Nat.le_of_eq still.locks.next.symm) (fun made id member => ?_)
  rw [still.thread, ledger_aside still.toAside] at member
  rw [still.locks.next]
  exact made id member

theorem run_congr (run : Run w) (lists : v.lists = w.lists) (views : SameViews w v)
    (contexts : v.nextContext = w.nextContext) (locks : v.locks = w.locks)
    (thread : v.thread = w.thread) : Run v := by
  refine run.elsewhere lists views (Nat.le_of_eq contexts.symm) (by rw [locks]) ?_
  rw [locks, thread]
  exact fun made => made

theorem run_sweep (run : Run w) : Run w.sweep := by
  apply swept_keeps _ _ _ run
  · intro w id f _ run
    exact run.filter (.removed id f)
  · intro w id m _ run
    exact run.merge (.removed id m)
  · intro w id l _ _ run
    exact run.list (.removed id l)

theorem run_letGo (run : Run w) (h : Handle) : Run (letGo h w) :=
  run_sweep (run_congr run rfl ⟨rfl, rfl⟩ rfl rfl rfl)

theorem run_disposeMerge (run : Run w) (id : ViewId) : Run (disposeMerge id w).2 := by
  apply Act.keeps_bind (run.merge (.closed id))
  intro first v _ closed
  exact run_sweep closed

theorem run_ensureWritable (run : Run w) (id : ViewId) (m : MergedList α) (index : Nat)
    (inserting : Bool) : Run (ensureWritable id m index inserting w).2 := by
  apply Act.keeps_bind (run_still run (reads_readList m.master (fun l => l.store.length) w))
  intro length u _ run
  split
  · exact run
  · apply Act.keeps_bind (run.merge (.read id))
    intro built v _ run
    by_cases inside : index < built.items.length
    · rw [if_pos inside]
      exact run
    · rw [if_neg inside]
      exact run

theorem run_ensurePlaced (run : Run w) (id : ViewId) (m : MergedList α) (op : Operation α) :
    Run (ensurePlaced id m op w).2 := by
  rw [ensurePlaced]
  cases op.place? with
  | none => exact run
  | some place => exact run_ensureWritable run id m place.1 place.2

variable {call : Call α κ δ}

theorem outlasts_run (called : ∀ s k e w, Run w → Run (call s k e w).2) : Outlasts call Run where
  still still run := run_still run still
  looked {w} id run := isFiltered_leaves id w ▸ run_still run (reads_filterOf id w)
  filterDropped id run := run.filter (.dropped id)
  mergeDropped id run := run.merge (.dropped id)
  filterRemoved id f run := run.filter (.removed id f)
  mergeRemoved id m run := run.merge (.removed id m)
  removed {_ id l} _ _ run := run.list (.removed id l)
  called := called

section
variable (called : ∀ s k e w, Run w → Run (call s k e w).2)
include called

theorem run_mutate (run : Run w) (id : ListId) (aloud : Bool) (op : Operation α) :
    Run (mutate call id aloud op w).2 := by
  rw [mutate_eq]
  exact told_outlasted (outlasts_run called) _ _ aloud (run.list (.mutated id op))

theorem run_mutateMaster (run : Run w) (id : ViewId) (op : Operation α) :
    Run (mutateMaster call id op w).2 := by
  cases here : w.merges.get? id with
  | none =>
    rw [mutateMaster, withMerge_absent here]
    exact run
  | some m =>
    rw [mutateMaster_eq here]
    apply Act.keeps_bind (run_ensurePlaced run id m op)
    intro _ v _ run
    exact run_mutate called run m.master true op

theorem run_replay (run : Run w) (id : ListId) (aloud : Bool) (direction : Direction) :
    Run (replay call id aloud direction w).2 := by
  rw [replay_eq]
  exact told_outlasted (outlasts_run called) _ _ aloud (run.list (.replayed id direction))

theorem run_withStore {β : Type} (run : Run w) (id : ListId) (r : Rework α β)
    (returns : ∀ l, w.lists.get? id = some l → ∃ b, (r.on l.store).1 = .ok b) :
    Run (withStore call id (rework id r) w).2 := by
  apply Act.keeps_bind (run.list (.reworked id r returns))
  intro out v _ run
  exact announce_outlasted (outlasts_run called) id .reset run

theorem run_notifyReset (run : Run w) (id : ListId) : Run (notifyReset call id w).2 := by
  unfold notifyReset withList
  split
  · exact run
  · apply Act.keeps_bind run
    intro disposed v same run
    cases disposed with
    | true => exact run
    | false => exact announce_outlasted (outlasts_run called) id .reset run

theorem run_setFilter (run : Run w) (id : ViewId) (filter : Option Filter) :
    Run (setFilter call id filter w).2 := by
  apply Act.keeps_bind (run.filter (.set id filter))
  intro _ u _ run
  apply Act.keeps_bind (run.filter (.dropped id))
  intro _ v _ run
  exact tellReset_keeps (outlasts_run called) _ (run_still run (still_note _ v))

theorem run_tellSlaves (run : Run w) (id : ViewId) : Run (tellSlaves call id w) := by
  refine afterInvalidating_leads (leads_of_outlasts (outlasts_run called))
    (fun _ run => run.merge (.dropped id)) (fun w run => ?_) w run
  exact tellReset_keeps (outlasts_run called) _ (run_still run (still_note _ w))

theorem run_addSlave (run : Run w) (id : ViewId) (list : ListId) :
    Run (addSlave call id list w).2 := by
  unfold addSlave withMerge
  split
  · exact run
  · have followed := run_still run (still_follow list (.slave id) w)
    have exchanged := followed.merge (.set id fun slaves =>
      .ok ([], slaves ++ [⟨list, (w.follow list (.slave id)).1⟩]))
    dsimp only
    split <;> rename_i outcome <;> rw [outcome] at exchanged
    · exact run_tellSlaves called exchanged id
    · exact run_still exchanged (still_unsubscribeAll _ _)

theorem run_detach (run : Run w) (id : ViewId)
    (choose : List Slave → Except ListRefusal (List Slave × List Slave)) :
    Run (detach call id choose w).2 := by
  apply Act.keeps_bind (run.merge (.set id choose))
  intro gone u _ run
  refine Act.keeps_bind (P := Run) ?_ ?_
  · apply List.foldlRecOn gone _ run
    intro w run s _
    exact run_congr run rfl ⟨rfl, rfl⟩ rfl rfl rfl
  · intro _ v _ run
    exact run_tellSlaves called (run_still run (still_unsubscribeAll _ v)) id

theorem run_recordEdit (run : Run w) (e : Edit) (id : ListId) : Run (recordEdit call e id w) := by
  have entered := run.list (.edited e id)
  unfold recordEdit
  split <;> rename_i outcome <;> rw [outcome] at entered
  · exact announce_outlasted (outlasts_run called) _ _ entered
  · exact entered
  · exact run_still entered (still_note _ _)

theorem run_editObject (run : Run w) (object : ObjectId) (value : Int) :
    Run (editObject call object value w).2 := by
  have assigned : Run { w with objects := w.objects.assign object value } :=
    run_congr run rfl ⟨rfl, rfl⟩ rfl rfl rfl
  apply run_still _ (still_note _ _)
  apply List.foldlRecOn _ _ assigned
  intro w run handler _
  have held : Run (w.hold (.list handler.2)) := run_congr run rfl ⟨rfl, rfl⟩ rfl rfl rfl
  exact run_letGo (run_recordEdit called held _ handler.2) (.list handler.2)

/-- Calls on lists and views, told or not, are parts of runs. -/
theorem calls_run (run : Run w) :
    (∀ id aloud op, Run (mutate call id aloud op w).2) ∧
    (∀ id aloud direction, Run (replay call id aloud direction w).2) ∧
    (∀ {β : Type} id (r : Rework α β),
      (∀ l, w.lists.get? id = some l → ∃ b, (r.on l.store).1 = .ok b) →
      Run (withStore call id (rework id r) w).2) ∧
    (∀ id, Run (notifyReset call id w).2) ∧
    (∀ id filter, Run (setFilter call id filter w).2) ∧
    (∀ id list, Run (addSlave call id list w).2) ∧
    (∀ id choose, Run (detach call id choose w).2) ∧
    (∀ id op, Run (mutateMaster call id op w).2) ∧
    (∀ id, Run (disposeMerge id w).2) ∧
    (∀ object value, Run (editObject call object value w).2) ∧
    ∀ h, Run (letGo h w) :=
  ⟨run_mutate called run, run_replay called run, run_withStore called run,
    run_notifyReset called run, run_setFilter called run, run_addSlave called run,
    run_detach called run, run_mutateMaster called run, run_disposeMerge run,
    run_editObject called run, run_letGo run⟩

end

end

end UndoableLists.World
