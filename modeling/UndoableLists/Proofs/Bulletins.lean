import UndoableLists.Proofs.Orderly
import UndoableLists.Proofs.World.Editing
import UndoableLists.Proofs.World.Hearing

/-!
What subscribers are told of one call on a list: one bulletin that describes the call, or nothing.
Main statement: a mutation, an undo or a redo of a list whose records can be told hands on what it
made of the contents, an edit of a member only that items differ; clients that only listen hear all
of that as one batch; and where subscribers leave the list alone, a call that is told and one that
is not are the same to the list.
-/
namespace UndoableLists.World
variable {α κ δ : Type}

structure SameFor (id : ListId) (w v : World α κ δ) : Prop where
  list : v.lists.get? id = w.lists.get? id
  owner : ∀ x, v.cells.owner x = some id ↔ w.cells.owner x = some id
  handler : ∀ x, v.cells.handler? x id = w.cells.handler? x id

/-- Subscribers that leave a list, its items and its handle alone. -/
structure Sparing (call : Call α κ δ) (id : ListId) : Prop where
  same : ∀ s k e w, SameFor id w (call s k e w).2
  held : ∀ s k e w, .list id ∈ w.held → .list id ∈ (call s k e w).2.held
  keyed : ∀ s k e w, Keyed w → Keyed (call s k e w).2

section
variable {id : ListId} {u v w : World α κ δ} {l : UndoableList α} {call : Call α κ δ}

theorem sameFor_trans (first : SameFor id w u) (second : SameFor id u v) : SameFor id w v where
  list := second.list.trans first.list
  owner x := (second.owner x).trans (first.owner x)
  handler x := (second.handler x).trans (first.handler x)

theorem sameFor_aside (aside : Aside [] w v) : SameFor id w v where
  list := by rw [aside.lists]
  owner x := by rw [aside.cells]
  handler x := by rw [aside.cells]

theorem sameFor_removed (differs : id ≠ l.context) (gone : ListId) (other : id ≠ gone) :
    SameFor id w (w.removeList gone l) where
  list := (Table.get?_erase ..).trans (if_neg other)
  owner x := by
    have cell : (w.removeList gone l).cells.cell x = _ := cell_released l w.cells x
    rw [Cells.owner, cell]
    split
    · rename_i freed
      rw [freed.2]
      simp [Cell.freedBy, Ne.symm differs]
    · rfl
  handler x := by
    have cell : (w.removeList gone l).cells.cell x = _ := cell_released l w.cells x
    rw [Cells.handler?, cell]
    split
    · exact (Table.get?_erase ..).trans (if_neg differs)
    · rfl

theorem keeps_sameFor (sparing : Sparing call id) (v : World α κ δ) :
    Keeps call fun u => SameFor id v u ∧ .list id ∈ u.held ∧ Keyed u where
  aside aside kept :=
    ⟨sameFor_trans kept.1 (sameFor_aside aside), (held_aside aside).mpr kept.2.1,
      keyed_congr kept.2.2 aside.lists⟩
  removed {w gone l} there loose kept := by
    obtain ⟨same, held, keyed⟩ := kept
    have other : id ≠ gone := fun both => loose (both ▸ held)
    have named : l.context = gone := keyed gone l there
    exact ⟨sameFor_trans same (sameFor_removed (named ▸ other) gone other), held,
      keyed_removed keyed gone⟩
  called s k e w kept :=
    ⟨sameFor_trans kept.1 (sparing.same s k e w), sparing.held s k e w kept.2.1,
      sparing.keyed s k e w kept.2.2⟩

variable [Diary δ]

theorem sameFor_announced (sparing : Sparing call id) (held : .list id ∈ w.held) (keyed : Keyed w)
    (steady : Steady w v) (b : Bulletin α) : SameFor id v (announce call id b v) :=
  (announce_keeps (keeps_sameFor sparing v) id b
    ⟨sameFor_aside (aside_refl v), steady.held id held, steady.keyed keyed⟩).1

end

section
variable [Diary δ] {id : ListId} {w : World α κ δ} {l : UndoableList α}

theorem mutation_told [Element α] (here : w.lists.get? l.context = some l)
    (fresh : l.store.stale = false) (replayable : l.Replayable) (op : Operation α) :
    ∃ b r v m, (∀ call aloud, mutate call l.context aloud op w =
        (r, if aloud then announce call l.context b v else v)) ∧
      v.lists.get? l.context = some m ∧ TellsMutation w l op b m r ∧ Steady w v := by
  obtain ⟨b, r, v, mutated, -, outcome⟩ := mutate_ends here op
  have steady := steady_mutated mutated
  cases mutated with
  | fresh _ ended =>
    obtain ⟨m, there, -, -, told⟩ := told_of_ended here replayable ended
    exact ⟨b, r, v, m, outcome, there, told, steady⟩
  | barred stale => simp [fresh] at stale
  | lost stale => simp [fresh] at stale
  | heard stale => simp [fresh] at stale

theorem replay_told (here : w.lists.get? l.context = some l) (fresh : l.store.stale = false)
    (replayable : l.Replayable) (direction : Direction) :
    ∃ b r v m, (∀ call aloud, replay call l.context aloud direction w =
        (r, if aloud then announce call l.context b v else v)) ∧
      v.lists.get? l.context = some m ∧ TellsReplay l direction b m r ∧ Steady w v := by
  obtain ⟨b, r, v, replayed, -, outcome⟩ := replay_ends here direction
  have steady := steady_replayed replayed
  cases replayed with
  | barred barred aside => exact ⟨_, _, v, l, outcome, aside.lists ▸ here, ⟨rfl, rfl⟩, steady⟩
  | fresh _ obtained turned freed =>
    obtain ⟨m, there, -, -, told⟩ := told_of_turned here replayable turned
    exact ⟨b, r, v, m, outcome, there, told, steady⟩
  | heard stale => simp [fresh] at stale

theorem recordEdit_told (here : w.lists.get? id = some l) (call : Call α κ δ) (e : Edit) :
    (∃ v, recordEdit call e id w = announce call id { itemsDiffer := true } v ∧
      v.lists.get? id = some (l.recordEdit e)) ∨ Untouched w (recordEdit call e id w) := by
  obtain ⟨fault, u, -, aside, outcome⟩ | ⟨u, -, aside, outcome⟩ :=
    modifying_ends here fun l => l.recordEdit e
  all_goals
    have result : enterEdit e id w = _ := outcome
  · right
    unfold recordEdit
    rw [result]
    split
    · rename_i done
      cases done
    · rename_i gone
      cases gone
      exact untouched_aside aside
    · rename_i other
      cases other
      exact untouched_aside (aside_trans aside (aside_note _ _))
  · left
    refine ⟨u, by rw [recordEdit, result], ?_⟩
    rw [aside.lists]
    simp [Table.get?_modify, here]

theorem editObject_told {x : ObjectId} (registered : w.cells.handlers x = [(id, id)])
    (here : w.lists.get? id = some l) (obtained : (Host.acquire l.lock .write).succeeds w = true)
    (call : Call α κ δ) (value : Int) :
    ∃ v, (editObject call x value w).2 = Journal.note .editCommitted
        (letGo (.list id) (announce call id { itemsDiffer := true } v)) ∧
      v.lists.get? id = some (l.recordEdit ⟨x, (w.objects.get x).value, value⟩) := by
  have again : (Host.acquire l.lock .write).succeeds (w.hold (.list id)) = true :=
    (acquire_congr (v := w.hold (.list id)) (w := w) rfl rfl rfl).trans obtained
  refine ⟨_, editObject_registered registered here obtained call value, ?_⟩
  rw [lists_commitEdit (w := w.hold (.list id)) here again, if_pos rfl]
  rfl

/-- A call that is told and one that is not are the same to the list. -/
theorem told_as_untold {β : Type} {run : Bool → Outcome ListRefusal β × World α κ δ}
    {call : Call α κ δ} {b : Bulletin α} {r : Outcome ListRefusal β} {v : World α κ δ}
    (sparing : Sparing call id) (held : .list id ∈ w.held) (keyed : Keyed w) (steady : Steady w v)
    (outcome : ∀ aloud, run aloud = (r, if aloud then announce call id b v else v)) :
    (run true).1 = (run false).1 ∧ SameFor id (run false).2 (run true).2 := by
  rw [outcome true, outcome false]
  exact ⟨rfl, sameFor_announced sparing held keyed steady b⟩

/-- What is told of the calls on a list that can be told, and how that is heard. -/
theorem calls_tell_their_steps [Element α] (orderly : Orderly id w)
    (here : w.lists.get? id = some l) (fresh : l.store.stale = false) :
    (∀ op, ∃ b r v m, (∀ call aloud, mutate call id aloud op w =
        (r, if aloud then announce call id b v else v)) ∧
      v.lists.get? id = some m ∧ TellsMutation w l op b m r) ∧
    (∀ direction, ∃ b r v m, (∀ call aloud, replay call id aloud direction w =
        (r, if aloud then announce call id b v else v)) ∧
      v.lists.get? id = some m ∧ TellsReplay l direction b m r) ∧
    (∀ call e, (∃ v, recordEdit call e id w = announce call id { itemsDiffer := true } v ∧
        v.lists.get? id = some (l.recordEdit e)) ∨ Untouched w (recordEdit call e id w)) ∧
    (∀ x, w.cells.handlers x = [(id, id)] → (Host.acquire l.lock .write).succeeds w = true →
      ∀ call value, ∃ v, (editObject call x value w).2 = Journal.note .editCommitted
          (letGo (.list id) (announce call id { itemsDiffer := true } v)) ∧
        v.lists.get? id = some (l.recordEdit ⟨x, (w.objects.get x).value, value⟩)) ∧
    (∀ call (heard : World α κ δ → List (SubscriberId × Event α)), Listening call id heard →
      ∀ v b, (∀ t, ∀ s ∈ alive v id t, ∃ k, s.listener = .client k) →
        heard (announce call id b v) = heard v ++ v.batch id b) ∧
    ∀ call, Sparing call id → .list id ∈ w.held → Keyed w →
      (∀ op, (mutate call id true op w).1 = (mutate call id false op w).1 ∧
        SameFor id (mutate call id false op w).2 (mutate call id true op w).2) ∧
      ∀ direction, (replay call id true direction w).1 = (replay call id false direction w).1 ∧
        SameFor id (replay call id false direction w).2 (replay call id true direction w).2 := by
  obtain ⟨m, there, rfl, readable⟩ := standing_of_orderly orderly
  obtain rfl : l = m := Option.some.inj (here.symm.trans there)
  have replayable := readable fresh
  refine ⟨fun op => ?_, fun direction => ?_, recordEdit_told here, ?_, ?_, ?_⟩
  · obtain ⟨b, r, v, m, outcome, left, told, -⟩ := mutation_told here fresh replayable op
    exact ⟨b, r, v, m, outcome, left, told⟩
  · obtain ⟨b, r, v, m, outcome, left, told, -⟩ := replay_told here fresh replayable direction
    exact ⟨b, r, v, m, outcome, left, told⟩
  · intro x registered obtained call value
    exact editObject_told registered here obtained call value
  · intro call heard listening v b clients
    exact heard_announced listening clients b
  · intro call sparing held keyed
    refine ⟨fun op => ?_, fun direction => ?_⟩
    · obtain ⟨b, r, v, m, outcome, -, -, steady⟩ := mutation_told here fresh replayable op
      exact told_as_untold sparing held keyed steady (outcome call)
    · obtain ⟨b, r, v, m, outcome, -, -, steady⟩ := replay_told here fresh replayable direction
      exact told_as_untold sparing held keyed steady (outcome call)

end

abbrev Logbook := List (SubscriberId × Event Value)

instance : Diary Logbook where
  note _ log := log
  replayed _ _ _ log := log

def writeDown : Call Value Unit Logbook := fun s _ e w =>
  (.ok (), { w with client := w.client ++ [(s, e)] })

theorem listening_writeDown (id : ListId) : Listening writeDown id World.client where
  called _ _ _ _ _ := ⟨rfl, fun _ _ => rfl⟩
  channels _ _ _ := rfl
  noted _ _ := rfl

theorem sparing_writeDown (id : ListId) : Sparing writeDown id where
  same _ _ _ _ := ⟨rfl, fun _ => Iff.rfl, fun _ => rfl⟩
  held _ _ _ _ held := held
  keyed _ _ _ _ keyed := keyed

def followedWorld : World Value Unit Logbook :=
  ((createList { items := [.int 1] } { client := [] }).2.follow 1 (.client ())).2

def grownWorld : World Value Unit Logbook := (lockedMutation 1 (.push (.int 2)) followedWorld).2

def grownList : UndoableList Value where
  context := 1
  lock := 1
  store := { items := [.int 1, .int 2] }
  history := { done := [.add 1 (.int 2)], maxDepth := History.unlimited }
  version := 1

theorem removed_range_tells_its_step : ∃ b r v m,
    (∀ call aloud, mutate call 1 aloud (.removeRange 0 2) grownWorld =
      (r, if aloud then announce call 1 b v else v)) ∧
    v.lists.get? 1 = some m ∧ TellsMutation grownWorld grownList (.removeRange 0 2) b m r ∧
    r = .ok (.items [.int 1, .int 2]) ∧
    (announce writeDown 1 b v).client = v.client ++ v.batch 1 b ∧
    SameFor 1 v (announce writeDown 1 b v) := by
  have made : Orderly 1 (createList { items := [Value.int 1] } ({ client := [] } :
      World Value Unit Logbook)).2 := .created _ rfl
  have attended : Orderly 1 followedWorld := made.elsewhere rfl
  have orderly : Orderly 1 grownWorld := attended.mutated rfl (.push (.int 2)) fun _ _ => by cbv
  have here : grownWorld.lists.get? 1 = some grownList := rfl
  obtain ⟨mutations, -, -, -, batches, quiet⟩ := calls_tell_their_steps orderly here rfl
  obtain ⟨b, r, v, m, outcome, there, told⟩ := mutations (.removeRange 0 2)
  have answer : (mutate writeDown 1 false (.removeRange 0 2) grownWorld).1 =
      .ok (.items [.int 1, .int 2]) := by cbv
  have audience (t : Topic) : ((alive (mutate writeDown 1 false (.removeRange 0 2) grownWorld).2 1
      t).map Subscriber.listener) = [.client ()] := by
    cases t <;> cbv
  have keyed : Keyed grownWorld := by
    intro c l present
    have only : grownWorld.lists.entries = [(1, grownList)] := rfl
    have entry := Table.get?_eq_some_iff.mp present
    rw [only, List.mem_singleton] at entry
    cases entry
    rfl
  have held : .list 1 ∈ grownWorld.held := List.mem_singleton_self _
  have same := ((quiet writeDown (sparing_writeDown 1) held keyed).1 (.removeRange 0 2)).2
  rw [outcome] at answer audience
  rw [outcome, outcome] at same
  refine ⟨b, r, v, m, outcome, there, told, answer, ?_, same⟩
  refine batches writeDown World.client (listening_writeDown 1) v b fun t s member => ⟨(), ?_⟩
  have listener : s.listener ∈ (alive v 1 t).map Subscriber.listener := List.mem_map_of_mem member
  exact List.mem_singleton.mp (audience t ▸ listener)

def swapping : Rework Value Unit := .access (.replace 1 (.int 3)) fun _ => .panics none

/-- After work that panicked, an undo tells that it removed an item that was not there. -/
theorem undo_after_panic_tells_otherwise :
    let left := (withStore writeDown 1 (rework 1 swapping) grownWorld).2
    let undone := lockedReplay 1 .backward left
    let told : Bulletin Value := ⟨[.remove 1 [.int 2]], true, true⟩
    left.contentsOf 1 = [.int 1, .int 3] ∧ undone.1 = .ok (told, .ok true) ∧
      undone.2.contentsOf 1 = [.int 1] ∧ ¬ told.Describes [.int 1, .int 3] [.int 1] := by
  refine ⟨by cbv, by cbv, by cbv, fun described => ?_⟩
  obtain ⟨u, ⟨front, back, length, -, whole⟩, -⟩ := described.changes
  have there : ([.int 1, .int 3] : List Value)[front.length]? = some (.int 2) := by simp [whole]
  rw [length] at there
  simp at there

end UndoableLists.World
