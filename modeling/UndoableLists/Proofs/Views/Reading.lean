import UndoableLists.Proofs.UndoRedo.Course
import UndoableLists.Proofs.World.ListFree

/-!
Work that only reads. It leaves lists and views as they are, and every lock that it takes it lets go
of again. Main statements: an answer that is read is what lists and views hold, and a reader is
refused nothing whose lock is free.
-/
namespace UndoableLists

namespace Locks
variable {thread : Thread} {taken : List LockId} {id : LockId} {a b : Locks}

theorem free_eased_other (free : a.Free thread id) (eased : Eased thread taken a b)
    (other : id ∉ taken) : b.Free thread id := by
  obtain ⟨fresh, l, there, usable, empty⟩ := free
  obtain ⟨holds, changed, old⟩ := eased.lock id
  refine ⟨?_, l.withHolds holds, by rw [changed, there]; rfl, usable, ?_⟩
  · rw [eased.ledger, List.mem_append]
    rintro (held | took)
    · exact fresh held
    · exact other took
  · rw [List.eq_nil_iff_forall_not_mem]
    intro h member
    have present := (old h member).resolve_right fun took => other took.1
    simp [holdsOf, there, empty] at present

theorem free_newly (settings : Patience) (fresh : a.next ∉ a.heldBy thread) :
    (a.create settings).2.Free thread a.next :=
  ⟨fresh, { settings }, Table.get?_insert_self .., rfl, rfl⟩

theorem free_created (settings : Patience) (free : a.Free thread id) :
    (a.create settings).2.Free thread id := by
  obtain ⟨fresh, l, there, usable, empty⟩ := free
  by_cases new : id = a.next
  · exact new ▸ free_newly settings (new ▸ fresh)
  · exact ⟨fresh, l, (Table.get?_insert_of_ne _ new _).trans there, usable, empty⟩

end Locks

namespace World
variable {α κ δ ε β γ : Type}

def Reads (m : Act (World α κ δ) ε β) : Prop := ∀ w, Still [] w (m w).2

section
variable {taken more : List LockId} {u v w : World α κ δ} {m : Act (World α κ δ) ε β}

theorem free_aside {id : LockId} (aside : Aside [] w v) (free : w.locks.Free w.thread id) :
    v.locks.Free v.thread id := by
  rw [aside.thread]
  exact Locks.free_eased_other free aside.locks (by simp)

theorem free_still {id : LockId} (still : Still taken w v) (other : id ∉ taken)
    (free : w.locks.Free w.thread id) : v.locks.Free v.thread id := by
  rw [still.thread]
  exact Locks.free_eased_other free still.locks other

theorem still_unsubscribeAll (ss : List Subscription) (w : World α κ δ) :
    Still [] w (w.unsubscribeAll ss) := by
  refine ⟨aside_unsubscribeAll ss w, sameViews_iff.mpr (unseen_foldl (fun w s => ?_) ss w)⟩
  unfold unsubscribe
  split <;> rfl

theorem still_follow (list : ListId) (listener : Listener κ) (w : World α κ δ) :
    Still [] w (w.follow list listener).2 :=
  ⟨⟨rfl, rfl, rfl, rfl, rfl, fun _ => rfl, Locks.eased_refl _⟩, ⟨rfl, rfl⟩⟩

theorem reads_pure (b : β) : Reads (pure b : Act (World α κ δ) ε β) := fun w => still_refl w

theorem reads_bind {f : β → Act (World α κ δ) ε γ} (first : Reads m)
    (second : ∀ b, Reads (f b)) : Reads (m >>= f) := fun w =>
  ⟨aside_bind (fun w => (first w).toAside) (fun b w => (second b w).toAside) w,
    unviewed_bind (fun w => (first w).toSameViews) (fun b w => (second b w).toSameViews) w⟩

theorem bind_answers {f : β → Act (World α κ δ) ε γ} {c : γ} (first : Reads m)
    (answer : ((m >>= f) w).1 = .ok c) :
    ∃ b u, Still [] w u ∧ (m w).1 = .ok b ∧ (f b u).1 = .ok c := by
  have read := first w
  rcases outcome : m w with ⟨fault | b, u⟩
  · rw [Act.bind_of_error outcome] at answer
    cases answer
  · rw [outcome] at read
    rw [Act.bind_of_ok outcome] at answer
    exact ⟨b, u, read, rfl, answer⟩

theorem bind_given {b : β} (first : Reads m) (given : (m w).1 = .ok b) :
    ∃ u, Still [] w u ∧
      ∀ {γ : Type} (f : β → Act (World α κ δ) ε γ), (m >>= f) w = f b u := by
  have read := first w
  rcases outcome : m w with ⟨r, u⟩
  rw [outcome] at read given
  obtain rfl : r = .ok b := given
  exact ⟨u, read, Act.bind_of_ok outcome⟩

theorem reads_withList {body : UndoableList α → Work α κ δ β} (id : ListId)
    (reads : ∀ l, Reads (body l)) : Reads (withList id body) := by
  intro w
  unfold withList
  split
  · exact still_refl w
  · exact reads _ w

theorem reads_withFilter {body : FilteredView α → Work α κ δ β} (id : ViewId)
    (reads : ∀ v, Reads (body v)) : Reads (withFilter id body) := by
  intro w
  unfold withFilter
  split
  · exact still_refl w
  · exact reads _ w

theorem reads_withMerge {body : MergedList α → Work α κ δ β} (id : ViewId)
    (reads : ∀ m, Reads (body m)) : Reads (withMerge id body) := by
  intro w
  unfold withMerge
  split
  · exact still_refl w
  · exact reads _ w

theorem reads_build (items : List α) : Reads (build items : Work α κ δ (Built α)) :=
  fun _ => ⟨⟨rfl, rfl, rfl, rfl, rfl, fun _ => rfl, Locks.eased_refl _⟩, ⟨rfl, rfl⟩⟩

theorem reads_selected [Element α] (predicate : Predicate) (f : Option Filter) (items : List α) :
    Reads (selected predicate f items : Work α κ δ (List α)) := by
  intro w
  unfold selected
  cases f with
  | none => exact still_refl w
  | some f =>
    dsimp only
    cases Filter.select (predicate f) (Element.current w.objects) items <;> exact still_refl w

end

section
variable [Diary δ] {m : Act (World α κ δ) ε β} {taken : List LockId} {u v w : World α κ δ}

theorem reads_holding {ofLock : LockRefusal → ε} {lock : LockId} {access : Access}
    (reads : Reads m) : Reads (Host.holding ofLock lock access m) := fun w =>
  ⟨aside_holding (fun v => (reads v).toAside) w,
    unviewed_holding (fun v => (reads v).toSameViews) w⟩

theorem still_acquired {lock : LockId} {access : Access}
    (done : Host.acquire lock access w = (.ok (), u)) : Still [lock] w u := by
  obtain ⟨v, inside⟩ := inside_of_acquire done
  have views := unviewed_acquire lock access w
  rw [done] at views
  exact ⟨aside_trans inside.before inside.taken, views⟩

theorem holding_answers {ofLock : LockRefusal → ε} {lock : LockId} {access : Access} {b : β}
    (answer : (Host.holding ofLock lock access m w).1 = .ok b) :
    ∃ u, Still [lock] w u ∧ (m u).1 = .ok b := by
  obtain ⟨fault, u, -, outcome⟩ | ⟨u, done, outcome⟩ := holding_cases ofLock lock access m w
  · rw [outcome] at answer
    cases answer
  · rw [outcome] at answer
    exact ⟨u, still_acquired done, answer⟩

theorem holding_of_free (ofLock : LockRefusal → ε) {lock : LockId}
    (free : w.locks.Free w.thread lock) (access : Access) (m : Act (World α κ δ) ε β) :
    ∃ u, Still [lock] w u ∧ (Host.holding ofLock lock access m w).1 = (m u).1 := by
  have done : Host.acquire lock access w = _ := acquire_of_free free
  refine ⟨_, still_acquired done, ?_⟩
  simp only [Host.holding, done, Act.ensuring]

theorem reads_readList {β : Type} (id : ListId) (f : UndoableList α → β) :
    Reads (readList id f : Work α κ δ β) :=
  reads_withList id fun _ => reads_holding (reads_withList id fun _ => reads_pure _)

theorem reads_contents (id : ListId) : Reads (contents id : Work α κ δ (List α)) :=
  reads_readList id _

theorem contents_answers {id : ListId} {items : List α} (answer : (contents id w).1 = .ok items) :
    ∃ l, w.lists.get? id = some l ∧ items = l.contents := by
  unfold contents readList at answer
  cases here : w.lists.get? id with
  | none =>
    rw [withList_absent here] at answer
    cases answer
  | some l =>
    rw [withList_present here] at answer
    obtain ⟨u, still, answer⟩ := holding_answers answer
    rw [withList_present (still.lists ▸ here)] at answer
    cases answer
    exact ⟨l, rfl, rfl⟩

theorem contents_of_free {id : ListId} {l : UndoableList α} (here : w.lists.get? id = some l)
    (free : w.locks.Free w.thread l.lock) : (contents id w).1 = .ok l.contents := by
  obtain ⟨u, still, answer⟩ := holding_of_free ListRefusal.ofLock free .read
    (withList id fun l => return l.contents)
  have there : u.lists.get? id = some l := still.lists ▸ here
  rw [contents, readList, withList_present here, answer, withList_present there]
  rfl

theorem reads_filterOf (id : ViewId) : Reads (filterOf id : Work α κ δ (Option Filter)) :=
  reads_withFilter id fun _ => reads_holding (reads_withFilter id fun _ => reads_pure _)

omit [Diary δ] in
theorem withFilter_present {id : ViewId} {body : FilteredView α → Work α κ δ β}
    {f : FilteredView α} (here : w.filters.get? id = some f) : withFilter id body w = body f w := by
  simp only [withFilter, here]

omit [Diary δ] in
theorem withFilter_absent {id : ViewId} (absent : w.filters.get? id = none)
    (body : FilteredView α → Work α κ δ β) :
    withFilter id body w = (.error (.refused .disposed), w) := by
  simp only [withFilter, absent]

omit [Diary δ] in
theorem withMerge_present {id : ViewId} {body : MergedList α → Work α κ δ β} {g : MergedList α}
    (here : w.merges.get? id = some g) : withMerge id body w = body g w := by
  simp only [withMerge, here]

omit [Diary δ] in
theorem withMerge_absent {id : ViewId} (absent : w.merges.get? id = none)
    (body : MergedList α → Work α κ δ β) :
    withMerge id body w = (.error (.refused .disposed), w) := by
  simp only [withMerge, absent]

theorem filterOf_answers {id : ViewId} {f : FilteredView α} {filter : Option Filter}
    (here : w.filters.get? id = some f) (answer : (filterOf id w).1 = .ok filter) :
    filter = f.filter := by
  rw [filterOf, withFilter_present here] at answer
  obtain ⟨u, still, answer⟩ := holding_answers answer
  rw [withFilter_present (still.filters ▸ here)] at answer
  cases answer
  rfl

theorem filterOf_of_free {id : ViewId} {f : FilteredView α} (here : w.filters.get? id = some f)
    (free : w.locks.Free w.thread f.lock) : (filterOf id w).1 = .ok f.filter := by
  obtain ⟨u, still, answer⟩ := holding_of_free ListRefusal.ofLock free .read
    (withFilter id fun v => return v.filter)
  have there : u.filters.get? id = some f := still.filters ▸ here
  rw [filterOf, withFilter_present here, answer, withFilter_present there]
  rfl

theorem reads_slaveLists (id : ViewId) : Reads (slaveLists id : Work α κ δ (List ListId)) :=
  reads_withMerge id fun _ => reads_holding (reads_withMerge id fun _ => reads_pure _)

theorem slaveLists_answers {id : ViewId} {g : MergedList α} {ids : List ListId}
    (here : w.merges.get? id = some g) (answer : (slaveLists id w).1 = .ok ids) :
    ids = g.slaves.map (·.list) := by
  rw [slaveLists, withMerge_present here] at answer
  obtain ⟨u, still, answer⟩ := holding_answers answer
  rw [withMerge_present (still.merges ▸ here)] at answer
  cases answer
  rfl

theorem slaveLists_of_free {id : ViewId} {g : MergedList α} (here : w.merges.get? id = some g)
    (free : w.locks.Free w.thread g.lock) :
    (slaveLists id w).1 = .ok (g.slaves.map (·.list)) := by
  obtain ⟨u, still, answer⟩ := holding_of_free ListRefusal.ofLock free .read
    (withMerge id fun m => return m.slaves.map (·.list))
  have there : u.merges.get? id = some g := still.merges ▸ here
  rw [slaveLists, withMerge_present here, answer, withMerge_present there]
  rfl

theorem reads_contentsOfAll (ids : List ListId) :
    Reads (contentsOfAll ids : Work α κ δ (List α)) := by
  induction ids with
  | nil => exact reads_pure []
  | cons id rest ih =>
    exact reads_bind (reads_contents id) fun _ => reads_bind ih fun _ => reads_pure _

omit [Diary δ] in
theorem contentsOf_congr (lists : v.lists = w.lists) : v.contentsOf = w.contentsOf := by
  funext id
  rw [contentsOf, contentsOf, lists]

omit [Diary δ] in
theorem version_congr (lists : v.lists = w.lists) : v.version = w.version := by
  funext id
  rw [version, version, lists]

theorem contentsOfAll_answers {ids : List ListId} {items : List α}
    (answer : (contentsOfAll ids w).1 = .ok items) :
    (∀ id ∈ ids, (w.lists.get? id).isSome) ∧ items = ids.flatMap w.contentsOf := by
  induction ids generalizing w items with
  | nil =>
    cases answer
    exact ⟨by simp, rfl⟩
  | cons id rest ih =>
    rw [contentsOfAll] at answer
    obtain ⟨first, u, read, asked, later⟩ := bind_answers (reads_contents id) answer
    obtain ⟨others, v, -, more, joins⟩ := bind_answers (reads_contentsOfAll rest) later
    obtain ⟨l, here, rfl⟩ := contents_answers asked
    obtain ⟨present, rfl⟩ := ih more
    cases joins
    constructor
    · intro other member
      obtain rfl | later := List.mem_cons.mp member
      · simp [here]
      · exact read.lists ▸ present other later
    · have same : rest.flatMap u.contentsOf = rest.flatMap w.contentsOf :=
        congrArg rest.flatMap (contentsOf_congr read.lists)
      rw [List.flatMap_cons, same, contentsOf, here]
      rfl

theorem contentsOfAll_of_free {ids : List ListId}
    (free : ∀ id ∈ ids, ∃ l, w.lists.get? id = some l ∧ w.locks.Free w.thread l.lock) :
    (contentsOfAll ids w).1 = .ok (ids.flatMap w.contentsOf) := by
  induction ids generalizing w with
  | nil => rfl
  | cons id rest ih =>
    obtain ⟨l, here, unheld⟩ := free id List.mem_cons_self
    obtain ⟨u, read, asked⟩ := bind_given (reads_contents id) (contents_of_free here unheld)
    have others := ih (w := u) fun other member => by
      obtain ⟨m, there, unheld⟩ := free other (List.mem_cons_of_mem _ member)
      exact ⟨m, read.lists ▸ there, free_still read (by simp) unheld⟩
    obtain ⟨v, -, more⟩ := bind_given (reads_contentsOfAll rest) others
    have same : rest.flatMap u.contentsOf = rest.flatMap w.contentsOf :=
      congrArg rest.flatMap (contentsOf_congr read.lists)
    rw [contentsOfAll, asked, more, List.flatMap_cons, same, contentsOf, here]
    rfl

end

end World

end UndoableLists
