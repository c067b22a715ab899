import UndoableLists.Proofs.Ownership.Sound
import UndoableLists.Proofs.World.Mutating
import UndoableLists.Proofs.World.Replaying
import UndoableLists.Proofs.World.Telling

/-!
The worlds that calls lead to. Main statements: each of them is sound, and calls that are told lead
to such worlds as well, whatever subscribers do, as long as it is calls too.
-/
namespace UndoableLists.World
variable {α κ δ : Type} [Diary δ] [Element α]

/-- The worlds that calls on lists lead to, in any order, from one without lists whose cells are
free. Capture lists are made empty. A call is a step up to the moment at which its lock is free
again; what subscribers do when they are told are further steps. `elsewhere` is whatever leaves
lists and cells as they are and disposes of no list's lock. -/
inductive Reach : World α κ δ → Prop
  | start {w} (empty : ∀ c, w.lists.get? c = none) (free : ∀ x, (w.cells.cell x).BelongsTo none) :
    Reach w
  | created {w} (reach : Reach w) (b : Blueprint α) (empty : b.access.isSome → b.items = []) :
    Reach (createList b w).2
  | mutated {w} (reach : Reach w) (call : Call α κ δ) (id : ListId) (op : Operation α) :
    Reach (mutate call id false op w).2
  | replayed {w} (reach : Reach w) (call : Call α κ δ) (id : ListId) (direction : Direction) :
    Reach (replay call id false direction w).2
  | cleared {w} (reach : Reach w) (id : ListId) : Reach (clearHistory id w).2
  | edited {w} (reach : Reach w) (e : Edit) (id : ListId) : Reach (enterEdit e id w).2
  | disposed {w} (reach : Reach w) (id : ListId)
    (obtained : ∀ l, w.lists.get? id = some l → w.locks.isDisposed l.lock = false →
      (Host.acquire l.lock .write).succeeds w) : Reach (dispose id w).2
  | dropped {w id l} (reach : Reach w) (here : w.lists.get? id = some l)
    (loose : .list id ∉ w.held) : Reach (w.removeList id l)
  | elsewhere {w v} (reach : Reach w) (lists : v.lists = w.lists) (cells : v.cells = w.cells)
    (contexts : w.nextContext ≤ v.nextContext) (next : w.locks.next ≤ v.locks.next)
    (locks : ∀ c l, w.lists.get? c = some l →
      v.locks.isDisposed l.lock = w.locks.isDisposed l.lock) : Reach v

section
variable {v w : World α κ δ} {l : UndoableList α}

theorem sound_mutated (sound : Sound w) (call : Call α κ δ) (id : ListId) (op : Operation α) :
    Sound (mutate call id false op w).2 := by
  cases here : w.lists.get? id with
  | none => rwa [mutate_absent here]
  | some l =>
    obtain ⟨rfl, -, -, fresh, t, tracks⟩ := sound.enlisted here
    obtain ⟨b, r, v, mutated, usable, outcome⟩ := mutate_ends here op
    rw [outcome call false]
    cases mutated with
    | barred stale => simp [fresh] at stale
    | lost stale => simp [fresh] at stale
    | heard stale => simp [fresh] at stale
    | fresh _ ended =>
      cases ended with
      | refused aside => exact sound_aside sound aside
      | idle planned aside => exact sound_aside sound aside
      | carried planned done aside =>
        obtain ⟨next, turns, list, -, given⟩ := UndoableList.append_planned planned done
        exact sound_after sound here (usable _ rfl) turns given list
          ⟨_, UndoableList.tracks_appended tracks turns⟩ aside

omit [Element α] in
theorem sound_replayed (sound : Sound w) (call : Call α κ δ) (id : ListId)
    (direction : Direction) : Sound (replay call id false direction w).2 := by
  cases here : w.lists.get? id with
  | none => rwa [replay_absent here]
  | some l =>
    obtain ⟨rfl, -, -, fresh, t, tracks⟩ := sound.enlisted here
    obtain ⟨b, r, v, replayed, usable, outcome⟩ := replay_ends here direction
    rw [outcome call false]
    cases replayed with
    | barred barred aside => exact sound_aside sound aside
    | heard stale => simp [fresh] at stale
    | fresh _ _ turned _ =>
      cases turned with
      | nothing none aside => exact sound_aside sound aside
      | rejected near failed aside => exact sound_aside sound aside
      | @carried record rest d v near done aside =>
        obtain ⟨next, more, ahead, turns⟩ := UndoableList.nearest_turns tracks near
        obtain ⟨list, -, given⟩ := UndoableList.commit_nearest turns done
        exact sound_after (d := d.withHistory (l.history.turned direction)) sound here
          (usable _ rfl) turns given list
          ⟨_, UndoableList.tracks_turned tracks ahead⟩ aside

omit [Element α] in
theorem sound_modifying {id : ListId} {f : UndoableList α → UndoableList α} (sound : Sound w)
    (shape : ∀ l, ∃ history version, f l = { l with history, version })
    (tracks : ∀ l t, l.Tracks t → ∃ t, (f l).Tracks t) :
    Sound (modifying id f w).2 := by
  obtain aside | ⟨-, -, aside⟩ := modifying_leaves id f w
  · exact sound_aside sound aside
  · exact sound_aside (sound_modified sound id shape tracks) aside

theorem sound_of_reach (reach : Reach w) : Sound w := by
  induction reach with
  | @start w empty free =>
    have nowhere (c : Context) : w.live c = none := by
      rw [live, empty]
      rfl
    refine ⟨fun here => ?_, fun here => ?_, fun here => ?_, fun _ _ => free _, fun here => ?_⟩
    · simp [empty] at here
    · simp [empty] at here
    · simp [nowhere] at here
    · simp [nowhere] at here
  | created reach b empty sound => exact sound_created sound b empty
  | mutated reach call id op sound => exact sound_mutated sound call id op
  | replayed reach call id direction sound => exact sound_replayed sound call id direction
  | cleared reach id sound =>
    exact sound_modifying sound (fun l => ⟨l.history.cleared, l.version, rfl⟩)
      fun l t tracks => ⟨_, UndoableList.tracks_cleared rfl⟩
  | edited reach e id sound =>
    exact sound_modifying sound (fun l => ⟨l.history.push (.itemEdit e), l.version + 1, rfl⟩)
      fun l t tracks => ⟨_, UndoableList.tracks_recordEdit tracks e⟩
  | disposed reach id obtained sound => exact sound_disposed sound id obtained
  | dropped reach here loose sound => exact sound_removed sound here
  | elsewhere reach lists cells contexts next locks sound =>
    exact sound_elsewhere sound lists cells contexts next locks

variable {call : Call α κ δ}

theorem reach_aside (reach : Reach w) (aside : Aside [] w v) : Reach v :=
  reach.elsewhere aside.lists aside.cells (Nat.le_of_eq aside.nextContext.symm)
    (Nat.le_of_eq aside.locks.next.symm) fun _ _ _ => Locks.isDisposed_eased aside.locks

theorem keeps_reach (called : ∀ s k e w, Reach w → Reach (call s k e w).2) :
    Keeps call Reach where
  aside aside reach := reach_aside reach aside
  removed here loose reach := reach.dropped here loose
  called := called

theorem reach_held (reach : Reach w) (held : List Handle) : Reach { w with held } :=
  reach.elsewhere rfl rfl (Nat.le_refl _) (Nat.le_refl _) fun _ _ _ => rfl

theorem reach_letGo (reach : Reach w) (h : Handle) : Reach (letGo h w) :=
  sweep_keeps (fun aside reach => reach_aside reach aside)
    (fun here loose reach => reach.dropped here loose) (reach_held reach _)

theorem reach_recordEdit (called : ∀ s k e w, Reach w → Reach (call s k e w).2) (reach : Reach w)
    (e : Edit) (id : ListId) : Reach (recordEdit call e id w) := by
  have entered := reach.edited e id
  unfold recordEdit
  split <;> rename_i outcome <;> rw [outcome] at entered
  · exact announce_keeps (keeps_reach called) _ _ entered
  · exact entered
  · exact reach_aside entered (aside_note ..)

theorem reach_editObject (called : ∀ s k e w, Reach w → Reach (call s k e w).2) (reach : Reach w)
    (object : ObjectId) (value : Int) : Reach (editObject call object value w).2 := by
  have assigned : Reach { w with objects := w.objects.assign object value } :=
    reach.elsewhere rfl rfl (Nat.le_refl _) (Nat.le_refl _) fun _ _ _ => rfl
  refine reach_aside (List.foldlRecOn _ _ assigned fun w reach handler _ => ?_) (aside_note ..)
  exact reach_letGo (reach_recordEdit called (reach_held reach _) _ handler.2) (.list handler.2)

/-- Calls that are told lead to the same worlds, whatever subscribers do when they are told, as long
as that leads to them too. -/
theorem calls_reach (called : ∀ s k e w, Reach w → Reach (call s k e w).2) (reach : Reach w) :
    (∀ id op aloud, Reach (mutate call id aloud op w).2) ∧
    (∀ id direction aloud, Reach (replay call id aloud direction w).2) ∧
    (∀ object value, Reach (editObject call object value w).2) ∧ ∀ h, Reach (letGo h w) := by
  have keeps := keeps_reach called
  refine ⟨?_, ?_, reach_editObject called reach, reach_letGo reach⟩
  · intro id op aloud
    exact telling_keeps keeps (reach.mutated call id op) aloud
  · intro id direction aloud
    exact telling_keeps keeps (reach.replayed call id direction) aloud

end

end UndoableLists.World
