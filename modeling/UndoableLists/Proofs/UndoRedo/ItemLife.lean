import UndoableLists.Proofs.UndoRedo.Attended

/-!
The life of a list that captures its items and tracks their edits, told beside a timeline of
snapshots: mutations and replays move it on by what they answer, and so does an edit of a member.
Main statements: throughout its life the list follows that timeline, and calls that are told are
part of its life.
-/
namespace UndoableLists.World
variable {α κ δ : Type} [Diary δ] [Element α]

/-- The life of a list, made empty while its items are free, in steps of any order. A call is a
step up to the moment at which its lock is free again; what subscribers do when they are told are
further steps. `elsewhere` is whatever leaves the list, its handle and all items as they are. -/
inductive ItemLife (cell : α → CellId) (id : ListId) : World α κ δ → Timeline (Snapshot α) → Prop
  | created {w} (b : Blueprint α) (capturing : b.access = some cell)
    (tracking : b.tracksEdits = true) (empty : b.items = []) (named : w.nextContext = id)
    (inPlace : w.InPlace) (free : ∀ a, (w.cells.cell (cell a)).BelongsTo none) :
    ItemLife cell id (createList b w).2 { now := (createList b w).2.snapshot cell id }
  | elsewhere {w v t} (life : ItemLife cell id w t) (same : v.lists.get? id = w.lists.get? id)
    (held : .list id ∈ v.held) (inPlace : v.InPlace) (items : SameItems cell w v) :
    ItemLife cell id v t
  | mutated {w t l} (life : ItemLife cell id w t) (here : w.lists.get? id = some l)
    (call : Call α κ δ) (op : Operation α) :
    ItemLife cell id (mutate call id false op w).2
      (timelineMutated (snapshot cell id) t l op w (mutate call id false op w))
  | replayed {w t l} (life : ItemLife cell id w t) (here : w.lists.get? id = some l)
    (call : Call α κ δ) (direction : Direction) :
    ItemLife cell id (replay call id false direction w).2
      (timelineReplayed t l direction (replay call id false direction w).1)
  | edited {w t l a} (life : ItemLife cell id w t) (here : w.lists.get? id = some l)
    (member : a ∈ l.contents) (value : Int)
    (obtained : (Host.acquire l.lock .write).succeeds w) :
    ItemLife cell id (commitEdit id (cell a) value w)
      (t.recorded l.history.maxDepth ((commitEdit id (cell a) value w).snapshot cell id))

section
variable {cell : α → CellId} {id : ListId} {l : UndoableList α} {v w : World α κ δ}
  {t : Timeline (Snapshot α)}

omit [Element α] in
theorem attended_created {b : Blueprint α} (capturing : b.access = some cell)
    (tracking : b.tracksEdits = true) (empty : b.items = []) (inPlace : w.InPlace)
    (free : ∀ a, (w.cells.cell (cell a)).BelongsTo none) :
    Attended cell w.nextContext (b.listAt w.nextContext w.locks.next) (createList b w).2
      { now := (createList b w).2.snapshot cell w.nextContext } := by
  have aside := aside_createList b w
  have found := lists_createList b w
  have cells : (createList b w).2.cells = w.cells :=
    aside.cells.trans (enrolled_cells (fun _ => empty) w)
  have memberless := cellsOf_listAt (fun _ => empty) w.nextContext w.locks.next
  refine ⟨(found _).trans (if_pos rfl), (held_aside aside).mpr List.mem_cons_self, rfl,
    capturing, ?_, rfl, ?_, rfl, ⟨?_, ?_, ?_⟩, ?_⟩
  · simp [Blueprint.listAt, capturing, tracking]
  · exact History.follows_cleared (h := { maxDepth := b.maxDepth }) _
  · intro c m x here member
    obtain ⟨-, rfl⟩ := Roster.only_iff.mp here
    simp [memberless] at member
  · rintro x ⟨a, rfl⟩ -
    rw [cells]
    exact free a
  · intro c m here
    obtain ⟨-, rfl⟩ := Roster.only_iff.mp here
    simp [memberless]
  · exact named_of_put inPlace found rfl

theorem attended_mutated (attended : Attended cell id l w t) (call : Call α κ δ)
    (op : Operation α) :
    ∃ m, Attended cell id m (mutate call id false op w).2
      (timelineMutated (snapshot cell id) t l op w (mutate call id false op w)) := by
  obtain rfl := attended.context
  obtain ⟨b, r, v, mutated, -, outcome⟩ := mutate_ends attended.here op
  rw [outcome call false]
  cases mutated with
  | barred stale => simp [attended.fresh] at stale
  | lost stale => simp [attended.fresh] at stale
  | heard stale => simp [attended.fresh] at stale
  | fresh fresh ended =>
    cases ended with
    | refused aside =>
      refine ⟨l, ?_⟩
      simpa [timelineMutated, Timeline.heard, fresh] using attended_aside attended aside
    | idle planned aside =>
      refine ⟨l, ?_⟩
      simpa [timelineMutated, Timeline.heard, fresh, Operation.plan_idle planned] using
        attended_aside attended aside
    | carried planned done aside =>
      obtain ⟨m, attended⟩ := attended_appended attended planned done aside
      refine ⟨m, ?_⟩
      simpa [timelineMutated, Timeline.heard, fresh, Operation.plan_idle planned] using attended

omit [Element α] in
theorem attended_replayed (attended : Attended cell id l w t) (call : Call α κ δ)
    (direction : Direction) :
    ∃ m, Attended cell id m (replay call id false direction w).2
      (timelineReplayed t l direction (replay call id false direction w).1) := by
  obtain rfl := attended.context
  obtain ⟨b, r, v, replayed, -, outcome⟩ := replay_ends attended.here direction
  rw [outcome call false]
  cases replayed with
  | barred barred aside => exact ⟨l, attended_aside attended aside⟩
  | heard stale => simp [attended.fresh] at stale
  | fresh fresh _ turned _ =>
    cases turned with
    | nothing none aside =>
      refine ⟨l, ?_⟩
      simpa [timelineReplayed, Timeline.heard, fresh] using attended_aside attended aside
    | rejected near failed aside => exact ⟨l, attended_aside attended aside⟩
    | carried near done aside =>
      obtain ⟨m, after, -⟩ := attended_turned attended near done aside
      exact ⟨m, after⟩

theorem attended_of_life (life : ItemLife cell id w t) : ∃ l, Attended cell id l w t := by
  induction life with
  | created b capturing tracking empty named inPlace free =>
    exact named ▸ ⟨_, attended_created capturing tracking empty inPlace free⟩
  | elsewhere life same held inPlace items attends =>
    obtain ⟨l, attended⟩ := attends
    exact ⟨l, attended_same attended same held inPlace items⟩
  | mutated life here call op attends =>
    obtain ⟨m, attended⟩ := attends
    obtain rfl := Option.some.inj (here.symm.trans attended.here)
    exact attended_mutated attended call op
  | replayed life here call direction attends =>
    obtain ⟨m, attended⟩ := attends
    obtain rfl := Option.some.inj (here.symm.trans attended.here)
    exact attended_replayed attended call direction
  | edited life here member value obtained attends =>
    obtain ⟨m, attended⟩ := attends
    obtain rfl := Option.some.inj (here.symm.trans attended.here)
    exact ⟨_, attended_edited attended obtained _ value⟩

omit [Diary δ] [Element α] in
theorem inPlace_removed {gone : ListId} {m : UndoableList α} (inPlace : w.InPlace) :
    (w.removeList gone m).InPlace := by
  intro c n here
  rw [show (w.removeList gone m).lists.get? c = _ from Table.get?_erase ..] at here
  split at here
  · cases here
  · exact inPlace c n here

omit [Diary δ] [Element α] in
theorem sameItems_removed {gone : ListId} {m : UndoableList α} (attended : Attended cell id l w t)
    (here : w.lists.get? gone = some m) (differs : id ≠ gone) :
    SameItems cell w (w.removeList gone m) where
  cells a := by
    have cells : (w.removeList gone m).cells.cell (cell a) = _ :=
      Cells.cell_giveUp m.context (m.cellsOf m.contents) w.cells (cell a)
    rw [cells, if_neg]
    rintro ⟨-, owned⟩
    rw [owner_of_attended attended, attended.inPlace gone m here] at owned
    split at owned
    · exact differs (Option.some.inj owned)
    · cases owned
  values _ := rfl

theorem life_aside (life : ItemLife cell id w t) (aside : Aside [] w v) :
    ItemLife cell id v t := by
  obtain ⟨l, attended⟩ := attended_of_life life
  have after := attended_aside attended aside
  exact life.elsewhere (by rw [aside.lists]) after.held after.inPlace (sameItems_aside aside)

theorem life_removed {gone : ListId} {m : UndoableList α} (life : ItemLife cell id w t)
    (here : w.lists.get? gone = some m) (loose : .list gone ∉ w.held) :
    ItemLife cell id (w.removeList gone m) t := by
  obtain ⟨l, attended⟩ := attended_of_life life
  have differs : id ≠ gone := fun same => loose (same ▸ attended.held)
  exact life.elsewhere ((Table.get?_erase ..).trans (if_neg differs)) attended.held
    (inPlace_removed attended.inPlace) (sameItems_removed attended here differs)

def LivesItems (cell : α → CellId) (id : ListId) (handles : Nat) (w : World α κ δ) : Prop :=
  handles ≤ w.held.count (.list id) ∧ ∃ t, ItemLife cell id w t

variable {call : Call α κ δ} {handles : Nat}

theorem keeps_livesItems
    (called : ∀ n s k e w, LivesItems cell id n w → LivesItems cell id n (call s k e w).2) :
    Keeps call (LivesItems cell id handles) where
  aside aside lives := by
    obtain ⟨enough, t, life⟩ := lives
    exact ⟨aside.held id ▸ enough, t, life_aside life aside⟩
  removed here loose lives := by
    obtain ⟨enough, t, life⟩ := lives
    exact ⟨enough, t, life_removed life here loose⟩
  called := called handles

theorem life_letGo (life : ItemLife cell id w t) (enough : 2 ≤ w.held.count (.list id)) :
    ItemLife cell id (letGo (.list id) w) t := by
  obtain ⟨l, attended⟩ := attended_of_life life
  refine sweep_keeps (fun aside life => life_aside life aside)
    (fun here loose life => life_removed life here loose)
    (life.elsewhere rfl ?_ attended.inPlace ⟨fun _ => rfl, fun _ => rfl⟩)
  rw [← List.count_pos_iff, List.count_erase_self]
  omega

omit [Diary δ] [Element α] in
theorem handlers_of_member {a : α} (attended : Attended cell id l w t) (member : a ∈ l.contents) :
    w.cells.handlers (cell a) = [(id, id)] := by
  have present : cell a ∈ l.cellsOf l.contents := by
    rw [cellsOf_capturing attended.access]
    exact List.mem_map_of_mem member
  have belongs := attended.owns.member (Roster.only_self l) present
  rw [attended.tracks, attended.context] at belongs
  exact Cell.handlers_of_belongs belongs

theorem editObject_member {a : α} (life : ItemLife cell id w t) (here : w.lists.get? id = some l)
    (member : a ∈ l.contents) (obtained : (Host.acquire l.lock .write).succeeds w)
    (call : Call α κ δ) (value : Int) :
    ∃ v, (editObject call (cell a) value w).2 = Journal.note .editCommitted
        (letGo (.list id) (announce call id { itemsDiffer := true } v)) ∧
      2 ≤ v.held.count (.list id) ∧
      ItemLife cell id v (t.recorded l.history.maxDepth (v.snapshot cell id)) := by
  obtain ⟨m, attended⟩ := attended_of_life life
  obtain rfl := Option.some.inj (here.symm.trans attended.here)
  let x : World α κ δ := w.hold (.list id)
  have holding : ItemLife cell id x t := life.elsewhere rfl (List.mem_cons_of_mem _ attended.held)
    attended.inPlace ⟨fun _ => rfl, fun _ => rfl⟩
  have again : (Host.acquire l.lock .write).succeeds x = true :=
    (acquire_congr (v := x) (w := w) rfl rfl rfl).trans obtained
  have aside := (enterEdit_obtained (w := x) (x := cell a) here again value).2
  have registered := handlers_of_member attended member
  refine ⟨_, editObject_registered registered here obtained call value, ?_,
    holding.edited here member value again⟩
  rw [aside.held]
  have one := List.count_pos_iff.mpr attended.held
  simp only [assign, x, hold, List.count_cons_self]
  omega

/-- Calls that are told are part of the list's life too, whatever subscribers do when they are told,
as long as that is part of its life and they drop no handles of the list. -/
theorem item_calls_live
    (called : ∀ n s k e w, LivesItems cell id n w → LivesItems cell id n (call s k e w).2)
    (life : ItemLife cell id w t) (here : w.lists.get? id = some l) :
    (∀ op aloud, ∃ t, ItemLife cell id (mutate call id aloud op w).2 t) ∧
    (∀ direction aloud, ∃ t, ItemLife cell id (replay call id aloud direction w).2 t) ∧
    ∀ a ∈ l.contents, ∀ value, (Host.acquire l.lock .write).succeeds w →
      ∃ t, ItemLife cell id (editObject call (cell a) value w).2 t := by
  have keeps (n : Nat) : Keeps call (LivesItems cell id n) := keeps_livesItems called
  refine ⟨?_, ?_, ?_⟩
  · intro op aloud
    exact (telling_keeps (keeps 0) ⟨Nat.zero_le _, _, life.mutated here call op⟩ aloud).2
  · intro direction aloud
    exact (telling_keeps (keeps 0) ⟨Nat.zero_le _, _, life.replayed here call direction⟩ aloud).2
  · intro a member value obtained
    obtain ⟨v, ends, enough, edited⟩ := editObject_member life here member obtained call value
    obtain ⟨still, t, later⟩ := announce_keeps (keeps 2) id { itemsDiffer := true }
      ⟨enough, _, edited⟩
    rw [ends]
    exact ⟨t, life_aside (life_letGo later still) (aside_note ..)⟩

end

end UndoableLists.World
