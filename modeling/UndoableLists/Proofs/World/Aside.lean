import UndoableLists.Proofs.Lock.Ease
import UndoableLists.World.Basic

/-!
Work that leaves lists and items alone. Notices, waiting, and taking a lock and letting it go again
are such work, and so is whatever views do for themselves. Main statements: what acquiring a lock
comes to, and that work under a lock is work aside if its body is.
-/
namespace UndoableLists.World
variable {α κ δ β : Type}

/-- The worlds differ only in what has nothing to do with lists and items, and in the locks that
were taken. -/
structure Aside (taken : List LockId) (w v : World α κ δ) : Prop where
  lists : v.lists = w.lists
  cells : v.cells = w.cells
  objects : v.objects = w.objects
  thread : v.thread = w.thread
  nextContext : v.nextContext = w.nextContext
  held : ∀ id, v.held.count (.list id) = w.held.count (.list id)
  locks : w.locks.Eased w.thread taken v.locks

structure SameViews (w v : World α κ δ) : Prop where
  filters : v.filters = w.filters
  merges : v.merges = w.merges

structure Still (taken : List LockId) (w v : World α κ δ) : Prop
    extends Aside taken w v, SameViews w v

section
variable {σ ν : Type} {R : σ → σ → Prop} {P : σ → Prop} {f : σ → ν → σ} {xs : List ν} {s : σ}

/-- A fold leads to where its steps lead, one after the other, as long as each step finds what it
needs and leaves it to the next. -/
theorem foldl_relates_while (refl : ∀ s, R s s) (trans : ∀ {s t u}, R s t → R t u → R s u)
    (lasts : ∀ s t, P s → R s t → P t) (each : ∀ x ∈ xs, ∀ s, P s → R s (f s x)) (start : P s) :
    R s (xs.foldl f s) := by
  refine List.foldlRecOn xs f (refl s) ?_
  intro t before x member
  exact trans before (each x member t (lasts s t start before))

theorem foldl_relates (refl : ∀ s, R s s) (trans : ∀ {s t u}, R s t → R t u → R s u)
    (each : ∀ x ∈ xs, ∀ s, R s (f s x)) (s : σ) : R s (xs.foldl f s) :=
  foldl_relates_while (P := fun _ => True) refl trans (fun _ _ _ _ => trivial)
    (fun x member s _ => each x member s) trivial

end

section
variable {taken more : List LockId} {u v w : World α κ δ}

theorem aside_refl (w : World α κ δ) : Aside [] w w :=
  ⟨rfl, rfl, rfl, rfl, rfl, fun _ => rfl, Locks.eased_refl _⟩

theorem aside_trans (first : Aside taken w u) (second : Aside more u v) :
    Aside (taken ++ more) w v where
  lists := second.lists.trans first.lists
  cells := second.cells.trans first.cells
  objects := second.objects.trans first.objects
  thread := second.thread.trans first.thread
  nextContext := second.nextContext.trans first.nextContext
  held id := (second.held id).trans (first.held id)
  locks := Locks.eased_trans first.locks (first.thread ▸ second.locks)

theorem aside_then (first : Aside taken w u) (second : Aside [] u v) : Aside taken w v :=
  List.append_nil taken ▸ aside_trans first second

theorem sameViews_refl (w : World α κ δ) : SameViews w w := ⟨rfl, rfl⟩

theorem sameViews_trans (first : SameViews w u) (second : SameViews u v) : SameViews w v :=
  ⟨second.filters.trans first.filters, second.merges.trans first.merges⟩

theorem still_refl (w : World α κ δ) : Still [] w w := ⟨aside_refl w, sameViews_refl w⟩

theorem still_trans (first : Still taken w u) (second : Still more u v) :
    Still (taken ++ more) w v :=
  ⟨aside_trans first.toAside second.toAside, sameViews_trans first.toSameViews second.toSameViews⟩

theorem named_of_put {id : ListId} {m : UndoableList α}
    (named : ∀ c l, w.lists.get? c = some l → l.context = c)
    (found : ∀ c, v.lists.get? c = if c = id then some m else w.lists.get? c)
    (own : m.context = id) : ∀ c l, v.lists.get? c = some l → l.context = c := by
  intro c l here
  rw [found] at here
  split at here
  · rename_i same
    cases here
    exact own.trans same.symm
  · exact named c l here

theorem held_aside {id : ListId} (aside : Aside taken w v) :
    .list id ∈ v.held ↔ .list id ∈ w.held := by
  rw [← List.count_pos_iff, ← List.count_pos_iff, aside.held]

theorem ledger_aside (aside : Aside [] w v) :
    v.locks.heldBy w.thread = w.locks.heldBy w.thread := by
  rw [aside.locks.ledger, List.append_nil]

theorem aside_client (w : World α κ δ) (client : δ) : Aside [] w { w with client } :=
  ⟨rfl, rfl, rfl, rfl, rfl, fun _ => rfl, Locks.eased_refl _⟩

theorem aside_locks {ls : Locks} (eased : w.locks.Eased w.thread taken ls) :
    Aside taken w { w with locks := ls } :=
  ⟨rfl, rfl, rfl, rfl, rfl, fun _ => rfl, eased⟩

theorem aside_lists (aside : Aside taken w u)
    (f : Table ListId (UndoableList α) → Table ListId (UndoableList α)) :
    Aside taken { w with lists := f w.lists } { u with lists := f u.lists } :=
  { aside with lists := congrArg f aside.lists }

theorem aside_objects (aside : Aside taken w u) (objects : Objects) :
    Aside taken { w with objects } { u with objects } :=
  { aside with objects := rfl }

/-- A change of a world that nothing aside has a part in, nor the locks. -/
structure Framed (g : World α κ δ → World α κ δ) : Prop where
  aside : ∀ {taken w u}, Aside taken w u → Aside taken (g w) (g u)
  locks : ∀ w, (g w).locks = w.locks
  thread : ∀ w, (g w).thread = w.thread

theorem framed_id : Framed (id : World α κ δ → World α κ δ) :=
  ⟨fun aside => aside, by simp, by simp⟩

theorem framed_lists (f : Table ListId (UndoableList α) → Table ListId (UndoableList α)) :
    Framed fun w : World α κ δ => { w with lists := f w.lists } :=
  ⟨fun aside => aside_lists aside f, fun _ => rfl, fun _ => rfl⟩

theorem framed_comp {f g : World α κ δ → World α κ δ} (second : Framed g) (first : Framed f) :
    Framed fun w => g (f w) :=
  ⟨fun aside => second.aside (first.aside aside), fun w => (second.locks _).trans (first.locks w),
    fun w => (second.thread _).trans (first.thread w)⟩

end

variable [Diary δ] {taken : List LockId} {u v w : World α κ δ} {id : LockId} {access : Access}

theorem aside_note (n : Notice) (w : World α κ δ) : Aside [] w (Journal.note n w) :=
  aside_client w _

theorem aside_noteAll (notices : List Notice) (w : World α κ δ) :
    Aside [] w (Journal.noteAll notices w) := by
  induction notices generalizing w with
  | nil => exact aside_refl w
  | cons n rest ih => exact aside_trans (aside_note n w) (ih (Journal.note n w))

theorem aside_othersYield (w : World α κ δ) : Aside [] w (Host.othersYield w) :=
  ⟨rfl, rfl, rfl, rfl, rfl, fun _ => rfl,
    Locks.eased_releases fun y member => by simpa using (List.mem_filter.mp member).2⟩

theorem settle_granted {notice : Notice} {attempt : Locks → Attempt} {ls : Locks}
    (granted : attempt w.locks = .granted ls) :
    Host.settle notice attempt w = (.ok (), { w with locks := ls }) := by
  unfold Host.settle
  rw [show attempt (Host.locks w) = .granted ls from granted]
  rfl

theorem settle_lists (notice : Notice) (attempt : Locks → Attempt)
    (lists : Table ListId (UndoableList α)) (w : World α κ δ) :
    Host.settle notice attempt { w with lists } =
      ((Host.settle notice attempt w).1, { (Host.settle notice attempt w).2 with lists }) := by
  have tried : attempt (Host.locks { w with lists }) = attempt w.locks := rfl
  have again : attempt (Host.locks (Host.othersYield (Journal.note notice { w with lists }))) =
      attempt (Host.locks (Host.othersYield (Journal.note notice w))) := rfl
  unfold Host.settle
  rw [tried, show attempt (Host.locks w) = attempt w.locks from rfl]
  cases attempt w.locks with
  | granted after => rfl
  | refused cause => rfl
  | waits =>
    simp only [again]
    cases attempt (Host.locks (Host.othersYield (Journal.note notice w))) <;> rfl

theorem of_settle_ok {notice : Notice} {attempt : Locks → Attempt}
    (done : Host.settle notice attempt w = (.ok (), u)) :
    ∃ v ls, Aside [] w v ∧ attempt v.locks = .granted ls ∧ u = { v with locks := ls } := by
  unfold Host.settle at done
  cases first : attempt w.locks with
  | granted after =>
    rw [show attempt (Host.locks w) = .granted after from first] at done
    cases done
    exact ⟨w, after, aside_refl w, first, rfl⟩
  | refused cause =>
    rw [show attempt (Host.locks w) = .refused cause from first] at done
    cases done
  | waits =>
    rw [show attempt (Host.locks w) = .waits from first] at done
    have yielded : Aside [] w (Host.othersYield (Journal.note notice w)) :=
      aside_trans (aside_note notice w) (aside_othersYield _)
    simp only at done
    split at done
    · rename_i after second
      cases done
      exact ⟨_, after, yielded, second, rfl⟩
    · cases done

theorem of_settle_error {notice : Notice} {attempt : Locks → Attempt} {fault : Fault LockRefusal}
    (failed : Host.settle notice attempt w = (.error fault, u)) : Aside [] w u := by
  unfold Host.settle at failed
  cases first : attempt w.locks with
  | granted after =>
    rw [show attempt (Host.locks w) = .granted after from first] at failed
    cases failed
  | refused cause =>
    rw [show attempt (Host.locks w) = .refused cause from first] at failed
    cases failed
    exact aside_refl _
  | waits =>
    rw [show attempt (Host.locks w) = .waits from first] at failed
    have yielded : Aside [] w (Host.othersYield (Journal.note notice w)) :=
      aside_trans (aside_note notice w) (aside_othersYield _)
    simp only at failed
    split at failed
    · cases failed
    · cases failed
      exact yielded

theorem acquire_eq (id : LockId) (access : Access) (w : World α κ δ) :
    Host.acquire id access w =
      Host.settle .acquisitionTimedOut (fun ls => ls.attempt w.thread id access none) w := rfl

theorem upgrade_eq (id : LockId) (w : World α κ δ) :
    Host.upgrade id w =
      Host.settle .upgradeTimedOut (fun ls => ls.attemptUpgrade w.thread id) w := rfl

theorem settle_congr {notice : Notice} {attempt : Locks → Attempt} (locks : v.locks = w.locks)
    (thread : v.thread = w.thread) (yields : v.yields = w.yields) :
    (Host.settle notice attempt).succeeds v = (Host.settle notice attempt).succeeds w := by
  have tried : attempt (Host.locks v) = attempt (Host.locks w) := congrArg attempt locks
  have again : attempt (Host.locks (Host.othersYield (Journal.note notice v))) =
      attempt (Host.locks (Host.othersYield (Journal.note notice w))) := by
    simp only [Host.locks, Host.othersYield, Journal.note, locks, thread, yields]
  unfold Act.succeeds Host.settle
  rw [tried]
  cases attempt (Host.locks w) with
  | granted after => rfl
  | refused cause => rfl
  | waits =>
    simp only [again]
    cases attempt (Host.locks (Host.othersYield (Journal.note notice w))) <;> rfl

theorem acquire_congr (locks : v.locks = w.locks) (thread : v.thread = w.thread)
    (yields : v.yields = w.yields) :
    (Host.acquire id access).succeeds v = (Host.acquire id access).succeeds w := by
  have same : (Host.settle .acquisitionTimedOut
      fun ls => ls.attempt w.thread id access none).succeeds v = _ :=
    settle_congr locks thread yields
  unfold Act.succeeds at same ⊢
  rw [acquire_eq, acquire_eq, thread]
  exact same

/-- The moments of a piece of work under a lock: `v` before the lock was taken, `u` after that. -/
structure Inside (id : LockId) (access : Access) (w v u : World α κ δ) : Prop where
  before : Aside [] w v
  taken : Aside [id] v u
  fresh : id ∉ v.locks.heldBy v.thread
  usable : v.locks.isDisposed id = false
  alone : access = .write → v.locks.Free v.thread id

theorem inside_of_acquire (done : Host.acquire id access w = (.ok (), u)) :
    ∃ v, Inside id access w v u := by
  rw [acquire_eq] at done
  obtain ⟨v, ls, aside, granted, rfl⟩ := of_settle_ok done
  have here : v.locks.attempt v.thread id access none = .granted ls := aside.thread ▸ granted
  obtain ⟨rfl, fresh, l, there, usable, -⟩ := Locks.attempt_granted here
  refine ⟨v, aside, aside_locks (Locks.eased_grant access), fresh, ?_, ?_⟩
  · simp [Locks.isDisposed, there, usable]
  · rintro rfl
    exact Locks.free_of_granted here

omit [Diary δ] in
theorem usable_of_inside (inside : Inside id access w v u) : w.locks.isDisposed id = false :=
  (Locks.isDisposed_eased inside.before.locks).symm.trans inside.usable

theorem of_acquire_error {fault : Fault LockRefusal}
    (failed : Host.acquire id access w = (.error fault, u)) : Aside [] w u := by
  rw [acquire_eq] at failed
  exact of_settle_error failed

theorem of_upgrade_ok (before : Aside [id] w u) (done : Host.upgrade id u = (.ok (), v)) :
    Aside [id] w v := by
  rw [upgrade_eq] at done
  obtain ⟨x, ls, aside, granted, rfl⟩ := of_settle_ok done
  have here : Aside [id] w x := aside_then before aside
  have mine : x.locks.attemptUpgrade w.thread id = .granted ls := before.thread ▸ granted
  exact { here with locks := Locks.eased_upgrade here.locks mine }

theorem of_upgrade_error {fault : Fault LockRefusal} (before : Aside taken w u)
    (failed : Host.upgrade id u = (.error fault, v)) : Aside taken w v := by
  rw [upgrade_eq] at failed
  exact aside_then before (of_settle_error failed)

theorem acquire_of_free (free : w.locks.Free w.thread id) :
    Host.acquire id access w = (.ok (), { w with locks := w.locks.grant w.thread id access }) := by
  rw [acquire_eq]
  exact settle_granted (Locks.attempt_of_free free access none)

theorem upgrade_of_free (free : w.locks.Free w.thread id) :
    ∃ u x, Host.acquire id .upgradeable w = (.ok (), u) ∧ Host.upgrade id u = (.ok (), x) := by
  have taken : Host.acquire id .upgradeable w = _ := acquire_of_free free
  obtain ⟨-, l, there, -, empty⟩ := free
  have held : (w.locks.grant w.thread id .upgradeable).get? id =
      some (l.holdingAs w.thread .upgradeable) :=
    (Table.get?_modify_present there id _).trans (if_pos rfl)
  have alone : (l.holdingAs w.thread .upgradeable).contested w.thread = false := by
    simp [Lock.contested, Lock.holdingAs, empty]
  have granted : (w.locks.grant w.thread id .upgradeable).attemptUpgrade w.thread id =
      .granted { w.locks.grant w.thread id .upgradeable with table :=
        (w.locks.grant w.thread id .upgradeable).table.modify id (·.raised w.thread) } := by
    simp [Locks.attemptUpgrade, held, alone]
  exact ⟨_, _, taken, (upgrade_eq ..).trans (settle_granted granted)⟩

theorem release_framed {x : World α κ δ} {g : World α κ δ → World α κ δ} (framed : Framed g)
    (inside : Inside id access w v u) (work : Aside [id] (g v) x) :
    Aside [] (g w) (Host.releaseFor u.thread id x) ∧
      (access = .write → (Host.releaseFor u.thread id x).locks.Free w.thread id) := by
  have mine : u.thread = (g v).thread := inside.taken.thread.trans (framed.thread v).symm
  have released : Aside [] (g v) (Host.releaseFor u.thread id x) := by
    rw [mine]
    exact { work with locks := Locks.eased_release work.locks }
  refine ⟨aside_trans (framed.aside inside.before) released, fun writing => ?_⟩
  have free : (g v).locks.Free (g v).thread id := by
    rw [framed.locks, framed.thread]
    exact inside.alone writing
  have same : w.thread = (g v).thread := inside.before.thread.symm.trans (framed.thread v).symm
  exact same ▸ Locks.free_eased free released.locks

/-- Work under a lock either is not begun, or is done between taking the lock and letting it go. -/
theorem holding_cases {ε : Type} (ofLock : LockRefusal → ε) (id : LockId) (access : Access)
    (body : Act (World α κ δ) ε β) (w : World α κ δ) :
    (∃ fault u, Host.acquire id access w = (.error fault, u) ∧
      Host.holding ofLock id access body w = (.error (fault.map ofLock), u)) ∨
    ∃ u, Host.acquire id access w = (.ok (), u) ∧
      Host.holding ofLock id access body w =
        ((body u).1, Host.releaseFor u.thread id (body u).2) := by
  cases acquired : Host.acquire id access w with
  | mk r u =>
    cases r with
    | error fault =>
      refine .inl ⟨fault, u, rfl, ?_⟩
      simp [Host.holding, acquired]
    | ok _ =>
      refine .inr ⟨u, rfl, ?_⟩
      simp [Host.holding, acquired, Act.ensuring]
      rfl

theorem holding_modify {ε : Type} (ofLock : LockRefusal → ε) (id : LockId)
    {g : World α κ δ → World α κ δ} (framed : Framed g) (w : World α κ δ) :
    (∃ fault u, (Host.acquire id .write).succeeds w = false ∧ Aside [] w u ∧
      Host.holding ofLock id .write (Act.modify g) w = (.error fault, u)) ∨
    ∃ u, (Host.acquire id .write).succeeds w = true ∧ Aside [] (g w) u ∧
      u.locks.Free w.thread id ∧ Host.holding ofLock id .write (Act.modify g) w = (.ok (), u) := by
  obtain ⟨fault, u, failed, outcome⟩ | ⟨u, done, outcome⟩ :=
    holding_cases ofLock id .write (Act.modify g) w
  · exact .inl ⟨_, u, Act.succeeds_of_error failed, of_acquire_error failed, outcome⟩
  · obtain ⟨v, inside⟩ := inside_of_acquire done
    obtain ⟨released, freed⟩ := release_framed framed inside (framed.aside inside.taken)
    exact .inr ⟨_, Act.succeeds_of_ok done, released, freed rfl, outcome⟩

theorem aside_holding {ε : Type} {ofLock : LockRefusal → ε} {body : Act (World α κ δ) ε β}
    (quiet : ∀ v, Aside [] v (body v).2) (w : World α κ δ) :
    Aside [] w (Host.holding ofLock id access body w).2 := by
  obtain ⟨fault, u, failed, outcome⟩ | ⟨u, done, outcome⟩ :=
    holding_cases ofLock id access body w
  · rw [outcome]
    exact of_acquire_error failed
  · obtain ⟨v, inside⟩ := inside_of_acquire done
    rw [outcome]
    exact (release_framed framed_id inside (aside_then inside.taken (quiet u))).1

end UndoableLists.World
