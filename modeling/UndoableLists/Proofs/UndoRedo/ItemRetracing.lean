import UndoableLists.Proofs.UndoRedo.ItemLife

/-!
Undo and redo with item edits. Structural records and edits of members share one history; at any
time in the life of a list that captures its items, undoing leads back through the contents, the
values and the owners as they were before each of them, and redoing leads forth again.
-/
namespace UndoableLists.World
variable {α κ δ : Type}

structure QuietItems (call : Call α κ δ) (cell : α → CellId) (id : ListId) (lock : LockId) : Prop
    extends Quiet call id lock where
  handles : ∀ s k e w, w.held.count (.list id) ≤ (call s k e w).2.held.count (.list id)
  inPlace : ∀ s k e w, w.InPlace → (call s k e w).2.InPlace
  items : ∀ s k e w, SameItems cell w (call s k e w).2

section
variable [Diary δ] {cell : α → CellId} {id : ListId} {l : UndoableList α} {v w : World α κ δ}
  {t : Timeline (Snapshot α)} {call : Call α κ δ}

structure StandsAmong (cell : α → CellId) (id : ListId) (lock : LockId) (w : World α κ δ)
    (t : Timeline (Snapshot α)) : Prop where
  attended : ∃ l, Attended cell id l w t ∧ l.lock = lock
  obtained : (Host.acquire lock .write).succeeds w = true

omit [Diary δ] in
theorem measures_attended (attended : Attended cell id l w t) : w.Measures id t :=
  ⟨l, attended.here, (History.side_length attended.follows .backward).symm,
    (History.side_length attended.follows .forward).symm⟩

theorem measures_among {lock : LockId} (stands : StandsAmong cell id lock w t) :
    w.Measures id t := by
  obtain ⟨l, attended, -⟩ := stands.attended
  exact measures_attended attended

omit [Diary δ] in
theorem keeps_attended {lock : LockId} (quiet : QuietItems call cell id lock) :
    Keeps call (fun w => (∃ l, Attended cell id l w t ∧ l.lock = lock) ∧
      w.locks.Free w.thread lock) where
  aside aside kept := by
    obtain ⟨⟨l, attended, same⟩, free⟩ := kept
    exact ⟨⟨l, attended_aside attended aside, same⟩,
      aside.thread ▸ Locks.free_eased free aside.locks⟩
  removed {w gone m} here loose kept := by
    obtain ⟨⟨l, attended, same⟩, free⟩ := kept
    have differs : id ≠ gone := fun same => loose (same ▸ attended.held)
    exact ⟨⟨l, attended_same attended ((Table.get?_erase ..).trans (if_neg differs)) attended.held
      (inPlace_removed attended.inPlace) (sameItems_removed attended here differs), same⟩, free⟩
  called s k e w kept := by
    obtain ⟨⟨l, attended, same⟩, free⟩ := kept
    exact ⟨⟨l, attended_same attended (quiet.list s k e w) (quiet.held s k e w attended.held)
      (quiet.inPlace s k e w attended.inPlace) (quiet.items s k e w), same⟩,
      quiet.lock s k e w free⟩

theorem replay_among {lock : LockId} (quiet : QuietItems call cell id lock)
    {direction : Direction} {next : Snapshot α} {more : List (Snapshot α)}
    (stands : StandsAmong cell id lock w t) (ahead : t.side direction = next :: more)
    (aloud : Bool) :
    (replay call id aloud direction w).1 = .ok true ∧
      StandsAmong cell id lock (replay call id aloud direction w).2 (t.turned direction) := by
  obtain ⟨l, attended, rfl⟩ := stands.attended
  obtain rfl := attended.context
  obtain ⟨record, rest, near, -⟩ := History.nearest_record attended.follows ahead
  obtain ⟨d, done⟩ := commit_of_attended attended near
  obtain ⟨v, aside, freed, outcome⟩ :=
    replay_nearest attended.here attended.fresh stands.obtained near done
  rw [outcome call aloud]
  obtain ⟨m, after, same⟩ := attended_turned attended near done aside
  obtain ⟨last, free⟩ := told_keeps (keeps_attended quiet) l.context d.bulletin aloud
    ⟨⟨m, after, same⟩, aside.thread.symm ▸ freed⟩
  exact ⟨rfl, last, succeeds_of_free free⟩

theorem steps_among {lock : LockId} (quiet : QuietItems call cell id lock) :
    Steps call id (snapshot cell id) (StandsAmong cell id lock) where
  look stands := by
    obtain ⟨l, attended, -⟩ := stands.attended
    exact attended.now
  step := replay_among quiet

end

section
variable [Diary δ] [Element α] {cell : α → CellId} {id : ListId} {l : UndoableList α}
  {w : World α κ δ} {t : Timeline (Snapshot α)} {call : Call α κ δ}

theorem keeps_life {lock : LockId} (quiet : QuietItems call cell id lock) (handles : Nat) :
    Keeps call fun w => ItemLife cell id w t ∧ handles ≤ w.held.count (.list id) where
  aside aside kept := ⟨life_aside kept.1 aside, aside.held id ▸ kept.2⟩
  removed here loose kept := ⟨life_removed kept.1 here loose, kept.2⟩
  called s k e w kept := by
    obtain ⟨life, enough⟩ := kept
    obtain ⟨l, attended⟩ := attended_of_life life
    refine ⟨life.elsewhere (quiet.list s k e w) (quiet.held s k e w attended.held)
      (quiet.inPlace s k e w attended.inPlace) (quiet.items s k e w), ?_⟩
    exact Nat.le_trans enough (quiet.handles s k e w)

theorem edit_recorded {a : α} (life : ItemLife cell id w t) (here : w.lists.get? id = some l)
    (obtained : (Host.acquire l.lock .write).succeeds w)
    (quiet : QuietItems call cell id l.lock) (member : a ∈ l.contents) (value : Int) :
    let v := (editObject call (cell a) value w).2
    ItemLife cell id v (t.recorded l.history.maxDepth (v.snapshot cell id)) ∧
      ∃ m, v.lists.get? id = some m ∧ m.history.redoDepth = 0 := by
  intro v
  obtain ⟨x, ends, enough, edited⟩ := editObject_member life here member obtained call value
  obtain ⟨told, still⟩ := announce_keeps (keeps_life quiet 2) id { itemsDiffer := true }
    ⟨edited, enough⟩
  have last : ItemLife cell id v (t.recorded l.history.maxDepth (x.snapshot cell id)) := by
    rw [show v = _ from ends]
    exact life_aside (life_letGo told still) (aside_note ..)
  obtain ⟨m, attended⟩ := attended_of_life last
  obtain ⟨n, there, -, redo⟩ := measures_attended attended
  refine ⟨?_, n, there, redo⟩
  rw [attended.now]
  exact last

/-- Throughout its life a list that captures its items and tracks their edits keeps a history that
leads back through the snapshots before each mutation and each edit, and forth again, if its lock
can be had and subscribers keep out of it; an edit is recorded like any other change. -/
theorem snapshots_retrace (life : ItemLife cell id w t) (here : w.lists.get? id = some l) :
    w.snapshot cell id = t.now ∧ l.history.undoDepth = t.past.length ∧
      l.history.redoDepth = t.ahead.length ∧
      (∀ call op reply, (mutate call id false op w).1 = .ok reply →
        op.idle (Element.current w.objects) l.contents = false →
        ∃ m, (mutate call id false op w).2.lists.get? id = some m ∧ m.history.redoDepth = 0) ∧
      ((Host.acquire l.lock .write).succeeds w = true →
        ∀ call, QuietItems call cell id l.lock →
          Retraces call id (snapshot cell id) w l t.past ∧
          ∀ a ∈ l.contents, ∀ value, let v := (editObject call (cell a) value w).2
            ItemLife cell id v (t.recorded l.history.maxDepth (v.snapshot cell id)) ∧
              ∃ m, v.lists.get? id = some m ∧ m.history.redoDepth = 0) := by
  obtain ⟨m, attended⟩ := attended_of_life life
  obtain rfl := Option.some.inj (here.symm.trans attended.here)
  obtain rfl := attended.context
  refine ⟨attended.now, (History.side_length attended.follows .backward).symm,
    (History.side_length attended.follows .forward).symm, ?_, ?_⟩
  · intro call op reply answered busy
    obtain ⟨m, after⟩ := attended_of_life (life.mutated here call op)
    obtain ⟨n, there, -, redo⟩ := measures_attended after
    exact ⟨n, there, by rw [redo, timelineMutated_ahead answered busy, List.length_nil]⟩
  · intro obtained call quiet
    have stands : StandsAmong cell l.context l.lock w t := ⟨⟨l, attended, rfl⟩, obtained⟩
    constructor
    · exact retraces_of_steps (steps_among quiet) measures_among stands here attended.fresh obtained
    · intro a member value
      exact edit_recorded life here obtained quiet member value

end

def trackingWorld : World ObjectId Unit Unit :=
  (createList { access := some id } { client := (), objects := ({} : Objects).create "a" 5 }).2

def trackedWorld : World ObjectId Unit Unit :=
  (mutate (fun _ _ _ => pure ()) 1 false (.push 0) trackingWorld).2

theorem edited_item_retraces :
    ∃ l, (commitEdit 1 0 7 trackedWorld).lists.get? 1 = some l ∧ l.history.undoDepth = 2 ∧
      Retraces (fun _ _ _ => pure ()) 1 (snapshot id 1) (commitEdit 1 0 7 trackedWorld) l
        [trackedWorld.snapshot id 1, trackingWorld.snapshot id 1] := by
  have begun : ItemLife id 1 trackingWorld { now := trackingWorld.snapshot id 1 } :=
    .created { access := some id } rfl rfl rfl rfl (fun _ _ here => nomatch here)
      fun _ => ⟨rfl, fun _ => rfl⟩
  have pushed : ItemLife id 1 trackedWorld
      ⟨[trackingWorld.snapshot id 1], trackedWorld.snapshot id 1, []⟩ := begun.mutated rfl _ _
  have life : ItemLife id 1 (commitEdit 1 0 7 trackedWorld)
      ⟨[trackedWorld.snapshot id 1, trackingWorld.snapshot id 1],
        (commitEdit 1 0 7 trackedWorld).snapshot id 1, []⟩ :=
    pushed.edited rfl (List.mem_singleton_self 0) 7 rfl
  have quiet : QuietItems (fun _ _ _ => pure () : Call ObjectId Unit Unit) id 1 1 :=
    { list := fun _ _ _ _ => rfl
      thread := fun _ _ _ _ => rfl
      held := fun _ _ _ _ held => held
      lock := fun _ _ _ _ free => free
      handles := fun _ _ _ _ => Nat.le_refl _
      inPlace := fun _ _ _ _ inPlace => inPlace
      items := fun _ _ _ _ => ⟨fun _ => rfl, fun _ => rfl⟩ }
  obtain ⟨-, depth, -, -, retraces⟩ := snapshots_retrace life rfl
  exact ⟨_, rfl, depth, (retraces rfl _ quiet).1⟩

end UndoableLists.World
