import UndoableLists.Proofs.Rework
import UndoableLists.Proofs.World.Replaying
import UndoableLists.Proofs.World.Mutating

/-!
What calls do not touch while they hold their list's lock: views, audiences and whatever a client
keeps that notices do not enter. Views come to know of such work only by what they are told and by
the versions they look at. Main statement: mutations, replays, edits, work on the store and
disposals leave alone whatever has nothing to do with locks, lists, items and notices.
-/
namespace UndoableLists.World
variable {α κ δ ε ζ β γ σ : Type}

/-- A look at the world that sees nothing of locks, lists and items, and no notices. -/
structure ListFree [Diary δ] (look : World α κ δ → σ) : Prop where
  locks : ∀ w locks yields, look { w with locks, yields } = look w
  lists : ∀ w lists cells, look { w with lists, cells } = look w
  objects : ∀ w objects, look { w with objects } = look w
  noted : ∀ n w, look (Journal.note n w) = look w
  replayed : ∀ name direction value w,
    look { w with client := Diary.replayed name direction value w.client } = look w

def Unseen (look : World α κ δ → σ) (m : Act (World α κ δ) ε β) : Prop :=
  ∀ w, look (m w).2 = look w

section
variable {look : World α κ δ → σ} {w : World α κ δ} {m : Act (World α κ δ) ε β}

theorem unseen_foldl {ν : Type} {f : World α κ δ → ν → World α κ δ}
    (step : ∀ w x, look (f w x) = look w) (xs : List ν) (w : World α κ δ) :
    look (xs.foldl f w) = look w :=
  List.foldlRecOn xs f (motive := (look · = look w)) rfl fun u same x _ => (step u x).trans same

theorem unseen_pure (b : β) : Unseen look (pure b : Act (World α κ δ) ε β) := fun _ => rfl

theorem unseen_read (f : World α κ δ → β) : Unseen look (Act.read f : Act (World α κ δ) ε β) :=
  fun _ => rfl

theorem unseen_fail (fault : Fault ε) : Unseen look (Act.fail fault : Act (World α κ δ) ε β) :=
  fun _ => rfl

theorem unseen_modify {f : World α κ δ → World α κ δ} (same : ∀ w, look (f w) = look w) :
    Unseen look (Act.modify f : Act (World α κ δ) ε Unit) := same

theorem unseen_bind {f : β → Act (World α κ δ) ε γ} (first : Unseen look m)
    (second : ∀ b, Unseen look (f b)) : Unseen look (m >>= f) := by
  intro w
  have begun := first w
  rw [Act.bind_apply]
  split <;> rename_i outcome <;> rw [outcome] at begun
  · exact (second _ _).trans begun
  · exact begun

theorem unseen_outcome (work : Unseen look m) :
    Unseen look (Act.outcome m : Act (World α κ δ) ζ (Outcome ε β)) := work

theorem unseen_mapError (f : ε → ζ) (work : Unseen look m) : Unseen look (Act.mapError f m) := work

theorem unseen_withList {body : UndoableList α → Work α κ δ β} (id : ListId)
    (work : ∀ l, Unseen look (body l)) : Unseen look (withList id body) := by
  intro w
  unfold withList
  split
  · rfl
  · exact work _ w

theorem unseen_atSite {body : Site α → Work α κ δ β} (id : ListId)
    (work : ∀ s, Unseen look (body s)) : Unseen look (atSite id body) :=
  unseen_withList id fun l w => work ⟨l, w.cells⟩ w

end

section
variable [Diary δ] {look : World α κ δ → σ} {m : Act (World α κ δ) ε β}

theorem look_noteAll (listFree : ListFree look) (notices : List Notice) (w : World α κ δ) :
    look (Journal.noteAll notices w) = look w :=
  unseen_foldl (fun w n => listFree.noted n w) notices w

theorem unseen_settle (listFree : ListFree look) (notice : Notice) (attempt : Locks → Attempt) :
    Unseen look (Host.settle notice attempt : Act (World α κ δ) LockRefusal Unit) := by
  intro w
  unfold Host.settle
  cases attempt (Host.locks w) with
  | granted after => exact listFree.locks w _ _
  | refused cause => rfl
  | waits =>
    have noted := listFree.noted notice w
    have yielded : look (Host.othersYield (Journal.note notice w)) = look w :=
      (listFree.locks _ _ _).trans noted
    simp only
    split
    · exact (listFree.locks _ _ _).trans yielded
    · exact yielded

theorem unseen_acquire (listFree : ListFree look) (id : LockId) (access : Access) :
    Unseen look (Host.acquire id access : Act (World α κ δ) LockRefusal Unit) :=
  fun w => unseen_settle listFree _ _ w

theorem unseen_upgrade (listFree : ListFree look) (id : LockId) :
    Unseen look (Host.upgrade id : Act (World α κ δ) LockRefusal Unit) :=
  fun w => unseen_settle listFree _ _ w

theorem unseen_holding (listFree : ListFree look) {ofLock : LockRefusal → ε} {id : LockId}
    {access : Access} (work : Unseen look m) : Unseen look (Host.holding ofLock id access m) := by
  intro w
  have taken := unseen_acquire listFree id access w
  obtain ⟨fault, u, failed, outcome⟩ | ⟨u, done, outcome⟩ := holding_cases ofLock id access m w
  · rw [failed] at taken
    rw [outcome]
    exact taken
  · rw [done] at taken
    rw [outcome]
    exact ((listFree.locks _ _ _).trans (work u)).trans taken

theorem look_settle (listFree : ListFree look) (direction : Direction) (d : Done α)
    (w : World α κ δ) : look (settle direction d w) = look w := by
  have noted := look_noteAll listFree d.notices (w.putSite d.site)
  have turned (w : World α κ δ) (e : Edit) : look (replayEdit direction w e) = look w :=
    (listFree.objects { w with
      client :=
        Diary.replayed (w.objects.get e.object).name direction (e.target direction) w.client }
      _).trans (listFree.replayed _ _ _ w)
  have replayed := unseen_foldl turned d.edits (Journal.noteAll d.notices (w.putSite d.site))
  have entered : look (w.putSite d.site) = look w := listFree.lists w _ _
  exact replayed.trans (noted.trans entered)

theorem unseen_takeSignal (listFree : ListFree look) (id : ListId) :
    Unseen look (takeSignal id : Work α κ δ Bool) :=
  unseen_withList id fun _ => unseen_bind (unseen_modify fun w => listFree.lists w _ _) fun _ =>
    unseen_pure _

theorem unseen_resetList (listFree : ListFree look) (id : ListId) :
    Unseen look (resetList id : Work α κ δ (Bulletin α)) :=
  unseen_atSite id fun s => unseen_bind (unseen_modify fun w =>
    look_settle listFree .forward s.reset w) fun _ => unseen_pure _

omit [Diary δ] in
theorem unseen_andThen (first : Bulletin α) {body : Work α κ δ (Bulletin α × β)}
    (work : Unseen look body) : Unseen look (andThen first body) := by
  apply unseen_bind (unseen_outcome work)
  intro out
  cases out with
  | error fault => exact unseen_pure _
  | ok done => exact unseen_pure _

theorem unseen_carryOut (listFree : ListFree look) (id : ListId) (plan : Operation.Plan α Edit) :
    Unseen look (carryOut id plan : Work α κ δ (Bulletin α × Reply α)) := by
  obtain ⟨_ | record, reply⟩ := plan
  · exact unseen_pure _
  · refine unseen_atSite id fun s => unseen_bind (fun w => rfl) fun d => ?_
    exact unseen_bind (unseen_modify fun w => look_settle listFree .forward d w) fun _ =>
      unseen_bind (unseen_modify fun w => listFree.noted _ w) fun _ => unseen_pure _

theorem unseen_replayNearest (listFree : ListFree look) (first : Bulletin α) (id : ListId)
    (direction : Direction) :
    Unseen look (replayNearest first id direction : Work α κ δ (Told α Bool)) := by
  refine unseen_atSite id fun s => ?_
  rcases s.replay direction with _ | _ | d
  · exact unseen_pure _
  · exact unseen_bind (unseen_modify fun w => listFree.noted _ w) fun _ => unseen_pure _
  · exact unseen_bind (unseen_modify fun w => look_settle listFree direction d w) fun _ =>
      unseen_bind (unseen_modify fun w => listFree.noted _ w) fun _ => unseen_pure _

theorem unseen_lockedReplay (listFree : ListFree look) (id : ListId) (direction : Direction) :
    Unseen look (lockedReplay id direction : Work α κ δ (Told α Bool)) := by
  refine unseen_withList id fun l => unseen_holding listFree ?_
  refine unseen_bind (unseen_takeSignal listFree id) fun signalled => ?_
  cases signalled with
  | false => exact unseen_replayNearest listFree {} id direction
  | true =>
    exact unseen_bind (unseen_resetList listFree id) fun first =>
      unseen_replayNearest listFree first id direction

section
variable [Element α]

omit [Diary δ] in
theorem unseen_planned (id : ListId) (op : Operation α) :
    Unseen look (planned id op : Work α κ δ (Operation.Plan α Edit)) :=
  unseen_withList id fun _ => unseen_bind (unseen_read _) fun _ _ => rfl

theorem unseen_mutation (listFree : ListFree look) (id : ListId) (op : Operation α)
    (lock : LockId) : Unseen look (mutation id op lock : Work α κ δ (Told α (Reply α))) := by
  have alone : Unseen look (upgrade lock : Work α κ δ Unit) :=
    unseen_mapError _ (unseen_upgrade listFree lock)
  refine unseen_bind (unseen_takeSignal listFree id) fun signalled => ?_
  cases signalled with
  | true =>
    refine unseen_bind alone fun _ => unseen_bind (unseen_resetList listFree id) fun first => ?_
    exact unseen_andThen first (unseen_bind (unseen_planned id op) fun plan =>
      unseen_carryOut listFree id plan)
  | false =>
    refine unseen_bind (unseen_planned id op) fun plan => ?_
    obtain ⟨_ | record, reply⟩ := plan
    · exact unseen_pure _
    · have checks : Unseen look (checked id record : Work α κ δ Unit) :=
        unseen_withList id fun _ => unseen_bind (fun _ => rfl) fun _ => unseen_pure _
      exact unseen_bind checks fun _ => unseen_bind alone fun _ =>
        unseen_andThen {} (unseen_carryOut listFree id (some record, reply))

theorem unseen_lockedMutation (listFree : ListFree look) (id : ListId) (op : Operation α) :
    Unseen look (lockedMutation id op : Work α κ δ (Told α (Reply α))) :=
  unseen_withList id fun l => unseen_holding listFree (unseen_mutation listFree id op l.lock)

end

theorem unseen_clearHistory (listFree : ListFree look) (id : ListId) :
    Unseen look (clearHistory id : Work α κ δ Unit) :=
  unseen_withList id fun _ => unseen_holding listFree (unseen_modify fun w => listFree.lists w _ _)

theorem unseen_enterEdit (listFree : ListFree look) (e : Edit) (id : ListId) :
    Unseen look (enterEdit e id : Work α κ δ Unit) :=
  unseen_withList id fun _ => unseen_holding listFree (unseen_modify fun w => listFree.lists w _ _)

theorem unseen_rework (listFree : ListFree look) (id : ListId) (r : Rework α β) :
    Unseen look (rework id r : Work α κ δ β) := by
  induction r with
  | returns b => exact unseen_pure b
  | panics label => exact unseen_fail _
  | access e next ih =>
    refine unseen_bind (unseen_withList id fun l => ?_) ih
    cases l.store.edit? e with
    | none => exact unseen_fail _
    | some result =>
      exact unseen_bind (unseen_modify fun w => listFree.lists w _ _) fun _ => unseen_pure _

theorem unseen_aloneWithStore (listFree : ListFree look) (id : ListId) (r : Rework α β) :
    Unseen look (aloneWithStore id (rework id r) : Work α κ δ β) := by
  have freed : Unseen look (releaseMembers id : Work α κ δ Unit) :=
    unseen_atSite id fun _ => unseen_modify fun w => listFree.lists w _ _
  have heard : Unseen look (resynchronize id : Work α κ δ Unit) :=
    unseen_atSite id fun s => unseen_modify fun w =>
      look_settle listFree .forward s.resynchronized w
  refine unseen_withList id fun _ => unseen_holding listFree (unseen_bind freed fun _ => ?_)
  exact unseen_bind (unseen_rework listFree id r) fun _ => unseen_bind heard fun _ => unseen_pure _

theorem look_disposeList (listFree : ListFree look) (id : ListId) (l : UndoableList α)
    (w : World α κ δ) : look (disposeList id l w).2 = look w := by
  unfold disposeList
  split
  · rfl
  · have taken := unseen_acquire listFree l.lock .write w
    have closed (u : World α κ δ) (same : look u = look w) : look (Journal.note .listDisposed
        { u with locks := (u.locks.dispose l.lock).2 }) = look w :=
      (listFree.noted _ _).trans ((listFree.locks u _ _).trans same)
    cases acquired : Host.acquire l.lock .write w with
    | mk outcome u =>
      rw [acquired] at taken
      cases outcome with
      | ok _ =>
        refine closed _ (((listFree.locks _ _ _).trans ?_).trans taken)
        exact (listFree.lists _ _ _).trans (listFree.lists u _ _)
      | error fault => exact closed _ ((listFree.noted _ u).trans taken)

theorem unseen_dispose (listFree : ListFree look) (id : ListId) :
    Unseen look (dispose id : Work α κ δ Bool) :=
  unseen_withList id fun l w => look_disposeList listFree id l w

end

def Unviewed (m : Act (World α κ δ) ε β) : Prop := ∀ w, SameViews w (m w).2

section
variable {v w : World α κ δ} {m : Act (World α κ δ) ε β}

def views (w : World α κ δ) : Table ViewId (FilteredView α) × Table ViewId (MergedList α) :=
  (w.filters, w.merges)

theorem sameViews_iff : SameViews w v ↔ v.views = w.views :=
  ⟨fun same => Prod.ext same.filters same.merges,
    fun same => ⟨congrArg Prod.fst same, congrArg Prod.snd same⟩⟩

theorem unviewed_iff : Unviewed m ↔ Unseen views m :=
  forall_congr' fun _ => sameViews_iff

theorem unviewed_bind {f : β → Act (World α κ δ) ε γ} (first : Unviewed m)
    (second : ∀ b, Unviewed (f b)) : Unviewed (m >>= f) :=
  unviewed_iff.mpr (unseen_bind (unviewed_iff.mp first) fun b => unviewed_iff.mp (second b))

variable [Diary δ]

theorem listFree_views : ListFree (views : World α κ δ → _) :=
  ⟨fun _ _ _ => rfl, fun _ _ _ => rfl, fun _ _ => rfl, fun _ _ => rfl, fun _ _ _ _ => rfl⟩

theorem unviewed_acquire (id : LockId) (access : Access) :
    Unviewed (Host.acquire id access : Act (World α κ δ) LockRefusal Unit) :=
  unviewed_iff.mpr (unseen_acquire listFree_views id access)

theorem unviewed_upgrade (id : LockId) :
    Unviewed (Host.upgrade id : Act (World α κ δ) LockRefusal Unit) :=
  unviewed_iff.mpr (unseen_upgrade listFree_views id)

theorem unviewed_holding {ofLock : LockRefusal → ε} {id : LockId} {access : Access}
    (work : Unviewed m) : Unviewed (Host.holding ofLock id access m) :=
  unviewed_iff.mpr (unseen_holding listFree_views (unviewed_iff.mp work))

end

end UndoableLists.World
