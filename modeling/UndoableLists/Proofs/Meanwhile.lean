import UndoableLists.Proofs.Ownership.Visits
import UndoableLists.Proofs.Views.Runs

/-!
What other lists are used for in the meantime. Lists share no state: whatever is done with one, told
or not, by whichever thread, another one stays as it is, as long as it is held and subscribers leave
it alone. Main statement: that holds of single calls and of any series of them.
-/
namespace UndoableLists.World
variable {α κ δ : Type}

structure Unchanged (id : ListId) (w v : World α κ δ) : Prop where
  present : Present id v
  list : v.lists.get? id = w.lists.get? id

def Respects (call : Call α κ δ) (id : ListId) : Prop :=
  ∀ s k e w, Present id w → Unchanged id w (call s k e w).2

section
variable {id c : ListId} {taken : List LockId} {u v w : World α κ δ} {m : UndoableList α}
  {call : Call α κ δ}

theorem unchanged_refl (present : Present id w) : Unchanged id w w := ⟨present, rfl⟩

theorem unchanged_trans (first : Unchanged id w u) (second : Unchanged id u v) :
    Unchanged id w v :=
  ⟨second.present, second.list.trans first.list⟩

theorem unchanged_elsewhere {brought : List CellId} (elsewhere : Elsewhere id brought w v) :
    Unchanged id w v :=
  ⟨elsewhere.present, elsewhere.list⟩

structure Idle (w v : World α κ δ) : Prop where
  lists : v.lists = w.lists
  cells : v.cells = w.cells
  objects : v.objects = w.objects
  nextContext : v.nextContext = w.nextContext
  held : ∀ id, v.held.count (.list id) = w.held.count (.list id)

theorem idle_aside (aside : Aside taken w v) : Idle w v :=
  ⟨aside.lists, aside.cells, aside.objects, aside.nextContext, aside.held⟩

theorem idle_locks (w : World α κ δ) (locks : Locks) : Idle w { w with locks } :=
  ⟨rfl, rfl, rfl, rfl, fun _ => rfl⟩

theorem idle_trans (first : Idle w u) (second : Idle u v) : Idle w v where
  lists := second.lists.trans first.lists
  cells := second.cells.trans first.cells
  objects := second.objects.trans first.objects
  nextContext := second.nextContext.trans first.nextContext
  held id := (second.held id).trans (first.held id)

theorem unchanged_idle (present : Present id w) (idle : Idle w v) : Unchanged id w v where
  present := by
    refine ⟨?_, keyed_congr present.keyed idle.lists, idle.nextContext ▸ present.known⟩
    rw [← List.count_pos_iff, idle.held, List.count_pos_iff]
    exact present.held
  list := by rw [idle.lists]

theorem unchanged_removed (present : Present id w) (here : w.lists.get? c = some m)
    (loose : .list c ∉ w.held) : Unchanged id w (w.removeList c m) :=
  unchanged_elsewhere (elsewhere_removed (elsewhere_refl present) here loose)

theorem keeps_unchanged (respects : Respects call id) (w : World α κ δ) :
    Keeps call (Unchanged id w) where
  aside aside kept := unchanged_trans kept (unchanged_idle kept.present (idle_aside aside))
  removed here loose kept := unchanged_trans kept (unchanged_removed kept.present here loose)
  called s k e _ kept := unchanged_trans kept (respects s k e _ kept.present)

variable [Diary δ] [Element α]

omit [Diary δ] [Element α] in
theorem aloof_quiet (id : ListId) : Aloof (fun _ _ _ => pure () : Call α κ δ) id :=
  fun _ _ _ _ present => elsewhere_refl present

theorem unchanged_deed (respects : Respects call id) (present : Present id w) (other : c ≠ id)
    (deed : Deed α) : Unchanged id w (deed.on call c w) := by
  have keeps := keeps_unchanged respects w
  -- What is not told does not depend on the subscribers.
  have silent (deed : Deed α) : Unchanged id w (deed.on (fun _ _ _ => pure ()) c w) :=
    unchanged_elsewhere (elsewhere_deed (aloof_quiet id) present other deed)
  cases deed with
  | mutate aloud op =>
    have kept := silent (.mutate false op)
    rw [Deed.on, mutate_eq] at kept ⊢
    exact told_keeps keeps c _ aloud kept
  | replay aloud direction =>
    have kept := silent (.replay false direction)
    rw [Deed.on, replay_eq] at kept ⊢
    exact told_keeps keeps c _ aloud kept
  | announce b => exact announce_keeps keeps c b (unchanged_refl present)
  | clearHistory => exact silent .clearHistory
  | enterEdit e => exact silent (.enterEdit e)
  | release => exact silent .release
  | access e => exact silent (.access e)
  | resynchronize => exact silent .resynchronize
  | dispose => exact silent .dispose
  | letGo => exact silent .letGo

omit [Element α] in
theorem unchanged_created (present : Present id w) (b : Blueprint α) :
    Unchanged id w (createList b w).2 :=
  unchanged_elsewhere (elsewhere_created present b)

omit [Diary δ] [Element α] in
theorem unchanged_signal (present : Present id w) (other : c ≠ id) :
    Unchanged id w (w.signal c) := by
  have lists (d : ListId) : (w.signal c).lists.get? d = _ := Table.get?_modify w.lists c d _
  refine ⟨⟨present.held, fun d m here => ?_, present.known⟩, (lists id).trans (if_neg other.symm)⟩
  rw [lists] at here
  split at here
  · obtain ⟨l, there, rfl⟩ := Option.map_eq_some_iff.mp here
    exact present.keyed d l there
  · exact present.keyed d m here

omit [Diary δ] [Element α] in
theorem unchanged_letGo (present : Present id w) {h : Handle} (other : h ≠ .list id) :
    Unchanged id w (letGo h w) := by
  have held : .list id ∈ w.held.erase h := (List.mem_erase_of_ne other.symm).mpr present.held
  exact sweep_keeps
    (fun aside kept => unchanged_trans kept (unchanged_idle kept.present (idle_aside aside)))
    (fun here loose kept => unchanged_trans kept (unchanged_removed kept.present here loose))
    ⟨⟨held, present.keyed, present.known⟩, rfl⟩

/-- What a world may come to while nothing is done with a list: other lists are made and used and
given up, and whatever leaves all lists as they are, and held as they were, goes on as well. -/
inductive Meanwhile (call : Call α κ δ) (id : ListId) (w : World α κ δ) : World α κ δ → Prop
  | nothing : Meanwhile call id w w
  | idle {u v : World α κ δ} (before : Meanwhile call id w u) (idle : Idle u v) :
    Meanwhile call id w v
  | did {u : World α κ δ} {c : ListId} (before : Meanwhile call id w u) (other : c ≠ id)
    (deed : Deed α) : Meanwhile call id w (deed.on call c u)
  | created {u : World α κ δ} (before : Meanwhile call id w u) (b : Blueprint α) :
    Meanwhile call id w (createList b u).2
  | signalled {u : World α κ δ} {c : ListId} (before : Meanwhile call id w u) (other : c ≠ id) :
    Meanwhile call id w (u.signal c)
  | gaveUp {u : World α κ δ} {h : Handle} (before : Meanwhile call id w u)
    (other : h ≠ .list id) : Meanwhile call id w (letGo h u)

theorem unchanged_meanwhile (respects : Respects call id) (present : Present id w)
    (meanwhile : Meanwhile call id w v) : Unchanged id w v := by
  induction meanwhile with
  | nothing => exact unchanged_refl present
  | idle _ idle kept => exact unchanged_trans kept (unchanged_idle kept.present idle)
  | did _ other deed kept =>
    exact unchanged_trans kept (unchanged_deed respects kept.present other deed)
  | created _ b kept => exact unchanged_trans kept (unchanged_created kept.present b)
  | signalled _ other kept => exact unchanged_trans kept (unchanged_signal kept.present other)
  | gaveUp _ other kept => exact unchanged_trans kept (unchanged_letGo kept.present other)

theorem meanwhile_rework {β : Type} (before : Meanwhile call id w u) (other : c ≠ id)
    (r : Rework α β) : Meanwhile call id w (rework c r u).2 := by
  induction r generalizing u with
  | returns b => exact before
  | panics label => exact before
  | access e next ih => exact Act.keeps_bind (before.did other (.access e)) fun _ _ _ => ih _

theorem meanwhile_holding {β : Type} {lock : LockId} {access : Access} {m : Work α κ δ β}
    (before : Meanwhile call id w u)
    (work : ∀ v, Meanwhile call id w v → Meanwhile call id w (m v).2) :
    Meanwhile call id w (Host.holding ListRefusal.ofLock lock access m u).2 := by
  obtain ⟨fault, v, failed, outcome⟩ | ⟨v, done, outcome⟩ :=
    holding_cases ListRefusal.ofLock lock access m u
  all_goals rw [outcome]
  · exact before.idle (idle_aside (of_acquire_error failed))
  · obtain ⟨x, inside⟩ := inside_of_acquire done
    have taken := before.idle (idle_aside (aside_trans inside.before inside.taken))
    exact (work v taken).idle (idle_locks _ _)

/-- A client may work on the store of another list meanwhile. -/
theorem meanwhile_withStore {β : Type} (before : Meanwhile call id w u) (other : c ≠ id)
    (r : Rework α β) : Meanwhile call id w (withStore call c (rework c r) u).2 := by
  refine Act.keeps_bind (P := Meanwhile call id w) ?_ fun _ _ _ done =>
    done.did other (.announce .reset)
  unfold aloneWithStore withList
  split
  · exact before
  · refine meanwhile_holding before fun v taken => ?_
    refine Act.keeps_bind (P := Meanwhile call id w) (taken.did other .release)
      fun _ _ _ freed => ?_
    refine Act.keeps_bind (P := Meanwhile call id w) (meanwhile_rework freed other r)
      fun _ _ _ worked => ?_
    exact Act.keeps_bind (P := Meanwhile call id w) (worked.did other .resynchronize)
      fun _ _ _ done => done

end

end UndoableLists.World
