import UndoableLists.Proofs.UndoRedo.ItemLife
import UndoableLists.Proofs.UndoRedo.Life
import UndoableLists.Proofs.Rework

/-!
Lists that possess their members. A capture list owns its members and nothing else, no item comes up
twice in it or in anything its history leads to, and nobody else owns an item of any of these. Main
statements: making a list from free items that come in once each brings that about, and so does work
on its store; mutations, replays and resets keep it up, a member can always be taken out, and the
nearest record is never refused.
-/
namespace UndoableLists
variable {α : Type}

def Timeline.states {σ : Type} (t : Timeline σ) : List σ := t.past ++ t.now :: t.ahead

section
variable {σ : Type} {t : Timeline σ} {s : σ}

theorem Timeline.now_mem_states (t : Timeline σ) : t.now ∈ t.states := by simp [states]

theorem Timeline.mem_states_of_side {direction : Direction} (ahead : s ∈ t.side direction) :
    s ∈ t.states := by
  cases direction <;> simp_all [side, states]

theorem Timeline.states_turned {direction : Direction} (member : s ∈ (t.turned direction).states) :
    s ∈ t.states := by
  obtain ⟨past, now, ahead⟩ := t
  cases direction with
  | forward =>
    cases ahead with
    | nil => exact member
    | cons next more =>
      simp only [turned, states, List.mem_append, List.mem_cons] at member ⊢
      tauto
  | backward =>
    cases past with
    | nil => exact member
    | cons last more =>
      simp only [turned, states, List.mem_append, List.mem_cons] at member ⊢
      tauto

theorem Timeline.states_recorded {depth : Nat} {next : σ}
    (member : s ∈ (t.recorded depth next).states) : s = next ∨ s ∈ t.states := by
  simp only [recorded, states, List.mem_append, List.mem_cons, List.not_mem_nil, or_false] at member
  obtain before | same := member
  · right
    obtain rfl | past := List.mem_cons.mp (List.mem_of_mem_take before)
    · exact t.now_mem_states
    · have behind : s ∈ t.side .backward := past
      exact mem_states_of_side behind
  · exact .inl same

end

theorem Site.owner_exchanged {s : Site α} {leaving entering : List CellId} {cells : Cells ListId}
    (exchanged : Exchanged s leaving entering cells) (x : CellId) : cells.owner x =
      if x ∈ entering then some s.list.context else if x ∈ leaving then none
      else s.cells.owner x := by
  rw [Cells.owner, exchanged.cell, Cell.exchanged]
  by_cases enters : x ∈ entering <;> by_cases leaves : x ∈ leaving <;>
    simp [enters, leaves, Cell.takenBy, Cell.freedBy, Cells.owner]

namespace World
variable {κ δ β : Type}

/-- A capture list that owns its members and nothing else, beside a timeline of its contents. In no
state of the timeline does an item come up twice, and nobody else owns an item of any. -/
structure Possesses (cell : α → CellId) (id : ListId) (l : UndoableList α) (w : World α κ δ)
    (t : Timeline (List α)) : Prop where
  here : w.lists.get? id = some l
  held : .list id ∈ w.held
  inPlace : w.InPlace
  access : l.access = some cell
  tracks : l.Tracks t
  mine : ∀ a, w.cells.owner (cell a) = some id ↔ cell a ∈ l.contents.map cell
  distinct : ∀ s ∈ t.states, (s.map cell).Nodup
  within : ∀ s ∈ t.states, ∀ x ∈ s.map cell,
    w.cells.owner x = none ∨ w.cells.owner x = some id

section
variable {cell : α → CellId} {id : ListId} {l m : UndoableList α} {v w : World α κ δ}
  {t t' : Timeline (List α)} {record : Record α Edit} {direction : Direction} {next : List α}
  {d : Done α}

theorem context_of_possesses (possesses : Possesses cell id l w t) : l.context = id :=
  possesses.inPlace id l possesses.here

theorem owner_of_possesses (possesses : Possesses cell id l w t) {x : CellId}
    (member : x ∈ l.contents.map cell) : w.cells.owner x = some id := by
  obtain ⟨a, -, rfl⟩ := List.mem_map.mp member
  exact (possesses.mine a).mpr member

theorem distinct_of_possesses (possesses : Possesses cell id l w t) :
    (l.contents.map cell).Nodup :=
  possesses.tracks.now ▸ possesses.distinct t.now t.now_mem_states

/-- Nobody else captured an item that matters to the list, and nobody took one from it. -/
structure Unclaimed (cell : α → CellId) (id : ListId) (t : Timeline (List α))
    (w v : World α κ δ) : Prop where
  mine : ∀ a, v.cells.owner (cell a) = some id ↔ w.cells.owner (cell a) = some id
  others : ∀ s ∈ t.states, ∀ x ∈ s.map cell,
    v.cells.owner x = none ∨ v.cells.owner x = w.cells.owner x

theorem unclaimed_of_owners (same : v.cells.owner = w.cells.owner) :
    Unclaimed cell id t w v where
  mine _ := by rw [same]
  others _ _ x _ := .inr (by rw [same])

theorem possesses_elsewhere (possesses : Possesses cell id l w t)
    (list : v.lists.get? id = w.lists.get? id) (held : .list id ∈ v.held) (inPlace : v.InPlace)
    (unclaimed : Unclaimed cell id t w v) : Possesses cell id l v t where
  here := list.trans possesses.here
  held := held
  inPlace := inPlace
  access := possesses.access
  tracks := possesses.tracks
  mine a := (unclaimed.mine a).trans (possesses.mine a)
  distinct := possesses.distinct
  within s state x member := by
    obtain free | same := unclaimed.others s state x member
    · exact .inl free
    · exact same ▸ possesses.within s state x member

theorem possesses_aside (possesses : Possesses cell id l w t) (aside : Aside [] w v) :
    Possesses cell id l v t :=
  possesses_elsewhere possesses (by rw [aside.lists]) ((held_aside aside).mpr possesses.held)
    (inPlace_aside possesses.inPlace aside) (unclaimed_of_owners (by rw [aside.cells]))

theorem possesses_relisted (possesses : Possesses cell id l w t) (here : v.lists.get? id = some m)
    (others : ∀ c, c ≠ id → v.lists.get? c = w.lists.get? c) (held : .list id ∈ v.held)
    (context : m.context = l.context) (access : m.access = l.access)
    (contents : m.contents = l.contents) (tracks : m.Tracks t')
    (owner : v.cells.owner = w.cells.owner) (states : ∀ s ∈ t'.states, s ∈ t.states) :
    Possesses cell id m v t' where
  here := here
  held := held
  inPlace c n found := by
    by_cases same : c = id
    · subst same
      obtain rfl := Option.some.inj (here.symm.trans found)
      exact context.trans (context_of_possesses possesses)
    · exact possesses.inPlace c n (others c same ▸ found)
  access := access.trans possesses.access
  tracks := tracks
  mine a := by rw [owner, contents, possesses.mine]
  distinct s state := possesses.distinct s (states s state)
  within s state x member := owner ▸ possesses.within s (states s state) x member

/-- A record that turns the contents takes the ownership of items along. -/
theorem possesses_moved (possesses : Possesses cell id l w t)
    (turns : record.Turns direction l.contents next) {notices : List Notice}
    (given : Site.transfer ⟨l, w.cells⟩ (record.handover direction) = .ok (d.site.cells, notices))
    {history : History (Record α Edit)}
    (list : d.site.list = (l.changed next).withHistory history)
    (tracks : ((l.changed next).withHistory history).Tracks t')
    (states : ∀ s ∈ t'.states, s = next ∨ s ∈ t.states)
    (aside : Aside [] (w.after direction d) v) :
    Possesses cell id ((l.changed next).withHistory history) v t' := by
  have context := context_of_possesses possesses
  have exchanged := Site.exchanged_of_transfer given
  rw [cellsOf_capturing possesses.access, cellsOf_capturing possesses.access] at exchanged
  obtain ⟨members, whole⟩ := items_exchanged possesses.access turns
  have news : ∀ x ∈ (record.handover direction).entering.map cell,
      x ∉ l.contents.map cell ∨ x ∈ (record.handover direction).leaving.map cell := by
    intro x enters
    obtain free | ⟨-, leaves⟩ := exchanged.entrants x enters
    · left
      intro member
      have owned := owner_of_possesses possesses member
      rw [show w.cells.owner x = none from free] at owned
      cases owned
    · exact .inr leaves
  obtain ⟨once, present⟩ := members_exchanged (distinct_of_possesses possesses) members whole
    exchanged.distinct news
  have owner (x : CellId) : v.cells.owner x =
      if x ∈ (record.handover direction).entering.map cell then some id
      else if x ∈ (record.handover direction).leaving.map cell then none
      else w.cells.owner x := by
    rw [aside.cells, ← context]
    exact Site.owner_exchanged exchanged x
  have mine (a : α) : v.cells.owner (cell a) = some id ↔ cell a ∈ next.map cell := by
    rw [owner, present]
    by_cases enters : cell a ∈ (record.handover direction).entering.map cell
    · simp only [enters, ↓reduceIte, true_or]
    · by_cases leaves : cell a ∈ (record.handover direction).leaving.map cell
      · simp [enters, leaves]
      · simp only [enters, leaves, ↓reduceIte, false_or, not_false_eq_true, and_true]
        exact possesses.mine a
  refine ⟨after_list list context aside, (held_aside aside).mpr possesses.held, ?_,
    possesses.access, tracks, mine, ?_, ?_⟩
  · have lists : v.lists = w.lists.insert d.site.list.context d.site.list := aside.lists
    exact named_of_put possesses.inPlace (fun c => by rw [lists, list, Table.get?_insert]) rfl
  · intro s state
    obtain rfl | before := states s state
    · exact once
    · exact possesses.distinct s before
  · intro s state x member
    obtain rfl | before := states s state
    · obtain ⟨a, -, rfl⟩ := List.mem_map.mp member
      exact .inr ((mine a).mpr member)
    · rw [owner]
      split
      · exact .inr rfl
      · split
        · exact .inl rfl
        · exact possesses.within s before x member

theorem exchange_of_possesses (possesses : Possesses cell id l w t)
    (turns : record.Turns direction l.contents next) (once : (next.map cell).Nodup)
    (within : ∀ x ∈ next.map cell, w.cells.owner x = none ∨ w.cells.owner x = some id) :
    ∃ cells notices,
      Site.transfer ⟨l, w.cells⟩ (record.handover direction) = .ok (cells, notices) := by
  have context := context_of_possesses possesses
  refine transfer_of_owners possesses.access turns once (fun a => ?_) fun x member => ?_
  · rw [context]
    exact possesses.mine a
  · rw [context]
    exact within x member

theorem commit_of_possesses (possesses : Possesses cell id l w t) {rest : List (Record α Edit)}
    (near : l.history.side direction = record :: rest) :
    ∃ d, Site.commit ⟨l, w.cells⟩ record direction = .ok d := by
  obtain ⟨next, more, ahead, turns⟩ := UndoableList.nearest_turns possesses.tracks near
  have state : next ∈ t.states := Timeline.mem_states_of_side (ahead ▸ List.mem_cons_self)
  obtain ⟨cells, notices, given⟩ := exchange_of_possesses possesses turns
    (possesses.distinct next state) (possesses.within next state)
  exact commit_of_transfer turns given

theorem possesses_turned (possesses : Possesses cell id l w t) {rest : List (Record α Edit)}
    (near : l.history.side direction = record :: rest)
    (done : Site.commit ⟨l, w.cells⟩ record direction = .ok d)
    (aside : Aside [] (w.after direction (d.withHistory (l.history.turned direction))) v) :
    ∃ m, Possesses cell id m v (t.turned direction) ∧ m.lock = l.lock := by
  obtain ⟨next, more, ahead, turns⟩ := UndoableList.nearest_turns possesses.tracks near
  obtain ⟨list, -, given⟩ := UndoableList.commit_nearest turns done
  refine ⟨_, possesses_moved (d := d.withHistory (l.history.turned direction)) possesses turns given
    list (UndoableList.tracks_turned possesses.tracks ahead) ?_ aside, rfl⟩
  exact fun s state => .inr (Timeline.states_turned state)

theorem append_of_removal (possesses : Possesses cell id l w t) {index : Nat} {a : α}
    (member : l.contents[index]? = some a) :
    ∃ d, Site.append ⟨l, w.cells⟩ (.remove index a) = .ok d := by
  have turns : (Record.remove index a : Record α Edit).Turns .forward l.contents
      (l.contents.eraseIdx index) := by
    have leads : (Record.remove index a : Record α Edit).Leads l.contents _ :=
      Operation.leads_remove member
    exact ⟨trivial, leads⟩
  have smaller : ((l.contents.eraseIdx index).map cell).Sublist (l.contents.map cell) :=
    (List.eraseIdx_sublist ..).map cell
  obtain ⟨cells, notices, given⟩ := exchange_of_possesses possesses turns
    (smaller.nodup (distinct_of_possesses possesses))
    fun x kept => .inr (owner_of_possesses possesses (smaller.subset kept))
  obtain ⟨d, done⟩ := commit_of_transfer turns given
  rw [Site.append, done]
  exact ⟨_, rfl⟩

theorem owner_reset (w : World α κ δ) (l : UndoableList α) (x : CellId) :
    (w.afterReset l).cells.owner x =
      if x ∈ l.cellsOf l.contents ∧ (w.cells.cell x).admits l.context then some l.context
      else w.cells.owner x := by
  have cell : (w.afterReset l).cells.cell x = _ := Cells.cell_adoptEach l.quieted.forgetful
    (l.quieted.forgetful.cellsOf l.quieted.forgetful.contents) w.cells x
  exact (congrArg Cell.owner cell).trans (apply_ite Cell.owner ..)

theorem owner_reset_of_owned {c : Context} {x : CellId} (owned : w.cells.owner x = some c) :
    (w.afterReset l).cells.owner x = some c := by
  rw [owner_reset]
  split
  · rename_i adopted
    have admitted := adopted.2
    rw [Cell.admits, show (w.cells.cell x).owner = some c from owned] at admitted
    rw [eq_of_beq admitted]
  · exact owned

theorem owner_afterReset (possesses : Possesses cell id l w t) :
    (w.afterReset l).cells.owner = w.cells.owner := by
  funext x
  rw [owner_reset]
  split
  · rename_i adopted
    have member : x ∈ l.contents.map cell := cellsOf_capturing possesses.access _ ▸ adopted.1
    rw [owner_of_possesses possesses member, context_of_possesses possesses]
  · rfl

theorem possesses_reset (possesses : Possesses cell id l w t) :
    Possesses cell id l.reset (w.afterReset l) { now := l.contents } := by
  obtain rfl := context_of_possesses possesses
  refine possesses_relisted possesses (afterReset_list w l) (fun c differs => ?_) possesses.held rfl
    rfl rfl (UndoableList.tracks_cleared rfl) (owner_afterReset possesses) fun s state => ?_
  · exact Table.get?_insert_of_ne _ differs _
  · rw [List.mem_singleton.mp state, possesses.tracks.now]
    exact t.now_mem_states

end

section
variable [Diary δ] {cell : α → CellId} {id : ListId} {l m : UndoableList α} {v w : World α κ δ}
  {t t' : Timeline (List α)}

section
variable [Element α] {op : Operation α} {b : Bulletin α} {r : Outcome ListRefusal (Reply α)}

omit [Diary δ] in
theorem possesses_ended {lacking : Prop} (possesses : Possesses cell id l w t)
    (ended : Ended [] lacking l op w b r v) :
    ∃ m, m.lock = l.lock ∧ m.store.stale = l.store.stale ∧ Possesses cell id m v (match r with
      | .ok _ =>
        if op.idle (Element.current w.objects) l.contents then t
        else t.recorded l.history.maxDepth (v.contentsOf id)
      | .error _ => t) := by
  cases ended with
  | refused aside => exact ⟨l, rfl, rfl, possesses_aside possesses aside⟩
  | idle planned aside =>
    simp only [Operation.plan_idle planned, Option.isNone_none, ↓reduceIte]
    exact ⟨l, rfl, rfl, possesses_aside possesses aside⟩
  | carried planned done aside =>
    obtain ⟨next, turns, list, -, given⟩ := UndoableList.append_planned planned done
    have moved := possesses_moved possesses turns given list
      (UndoableList.tracks_appended possesses.tracks turns)
      (fun s state => Timeline.states_recorded state) aside
    have contents : v.contentsOf id = next := contentsOf_present moved.here
    simp only [Operation.plan_idle planned, Option.isNone_some, Bool.false_eq_true, ↓reduceIte,
      contents]
    refine ⟨_, ?_, ?_, moved⟩ <;> rfl

/-- However a mutation ends, its list possesses its members; once it is answered, no signal is
left. -/
theorem possesses_mutated (possesses : Possesses cell id l w t) (mutated : Mutated l op w b r v) :
    ∃ m, m.lock = l.lock ∧ ((∃ reply, r = .ok reply) → m.store.stale = false) ∧
      Possesses cell id m v
        (timelineMutated (·.contentsOf id) t l op w (r, v)) := by
  cases mutated with
  | fresh fresh ended =>
    obtain ⟨m, lock, stale, after⟩ := possesses_ended possesses ended
    refine ⟨m, lock, fun _ => stale.trans fresh, ?_⟩
    cases r <;> simpa [timelineMutated, Timeline.heard, fresh] using after
  | barred stale barred aside =>
    refine ⟨l, rfl, fun answered => ?_, ?_⟩
    · obtain ⟨reply, answered⟩ := answered
      cases answered
    · simp only [timelineMutated, inSteps_of_acquire_false barred, Bool.and_false, Timeline.heard,
        Bool.false_eq_true, ↓reduceIte]
      exact possesses_aside possesses aside
  | lost stale taken barred aside =>
    obtain rfl := context_of_possesses possesses
    refine ⟨l.quieted, rfl, fun _ => rfl, ?_⟩
    simp only [timelineMutated, barred, Bool.and_false, Timeline.heard, Bool.false_eq_true,
      ↓reduceIte]
    have quieted := possesses_relisted (m := l.quieted) possesses
      (v := { w with lists := w.lists.insert l.context l.quieted })
      (Table.get?_insert_self ..) (fun c differs => Table.get?_insert_of_ne _ differs _)
      possesses.held rfl rfl rfl { possesses.tracks with } rfl fun _ state => state
    exact possesses_aside quieted aside
  | heard stale obtained ended =>
    obtain ⟨m, lock, fresh, after⟩ := possesses_ended (possesses_reset possesses) ended
    refine ⟨m, lock, fun _ => fresh, ?_⟩
    have now := possesses.tracks.now
    cases r with
    | ok reply =>
      simp only [timelineMutated, Timeline.heard, stale, ↓reduceIte, ← now]
      exact after
    | error fault =>
      simp only [timelineMutated, Timeline.heard, stale, obtained, Bool.and_true, ↓reduceIte, ← now]
      exact after

theorem free_mutated (mutated : Mutated l op w b r v) {lock : LockId}
    (free : w.locks.Free w.thread lock) : v.locks.Free v.thread lock := by
  have ends {u : World α κ δ} (aside : Aside [] u v) (locks : u.locks = w.locks)
      (thread : u.thread = w.thread) : v.locks.Free v.thread lock := by
    have before : u.locks.Free u.thread lock := by
      rw [locks, thread]
      exact free
    rw [aside.thread]
    exact Locks.free_eased before aside.locks
  cases mutated with
  | fresh fresh ended => cases ended with
    | refused aside => exact ends aside rfl rfl
    | idle planned aside => exact ends aside rfl rfl
    | carried planned done aside => exact ends aside rfl rfl
  | barred stale barred aside => exact ends aside rfl rfl
  | lost stale taken barred aside => exact ends aside rfl rfl
  | heard stale obtained ended => cases ended with
    | refused aside => exact ends aside rfl rfl
    | idle planned aside => exact ends aside rfl rfl
    | carried planned done aside => exact ends aside rfl rfl

end

theorem possesses_replayed {direction : Direction} {b : Bulletin α} {r : Outcome ListRefusal Bool}
    (possesses : Possesses cell id l w t) (replayed : Replayed l direction w b r v) :
    ∃ m, m.lock = l.lock ∧ Possesses cell id m v (timelineReplayed t l direction r) := by
  cases replayed with
  | barred barred aside => exact ⟨l, rfl, possesses_aside possesses aside⟩
  | fresh fresh obtained turned freed =>
    cases turned with
    | nothing none aside =>
      simp only [timelineReplayed, Timeline.heard, fresh, Bool.false_eq_true, ↓reduceIte]
      exact ⟨l, rfl, possesses_aside possesses aside⟩
    | rejected near failed aside => exact ⟨l, rfl, possesses_aside possesses aside⟩
    | carried near done aside =>
      obtain ⟨m, after, lock⟩ := possesses_turned possesses near done aside
      exact ⟨m, lock, after⟩
  | heard stale obtained aside freed =>
    simp only [timelineReplayed, Timeline.heard, stale, ↓reduceIte, ← possesses.tracks.now]
    exact ⟨l.reset, rfl, possesses_aside (possesses_reset possesses) aside⟩

theorem possesses_modifying {f : UndoableList α → UndoableList α}
    (possesses : Possesses cell id l w t) (context : (f l).context = l.context)
    (access : (f l).access = l.access) (contents : (f l).contents = l.contents)
    (tracks : (f l).Tracks t') (states : ∀ s ∈ t'.states, s ∈ t.states) :
    ∃ m, Possesses cell id m (modifying id f w).2
      (if (modifying id f).succeeds w then t' else t) := by
  obtain ⟨fault, v, -, aside, result⟩ | ⟨v, -, aside, result⟩ :=
    modifying_ends possesses.here f
  all_goals rw [result]
  · rw [Act.succeeds_of_error result]
    exact ⟨l, possesses_aside possesses aside⟩
  · rw [Act.succeeds_of_ok result]
    have found (c : ListId) : (w.lists.modify id f).get? c =
        if c = id then some (f l) else w.lists.get? c :=
      Table.get?_modify_present possesses.here c f
    refine ⟨f l, possesses_aside (possesses_relisted (m := f l)
      (v := { w with lists := w.lists.modify id f }) possesses ?_ (fun c differs => ?_)
      possesses.held context access contents tracks rfl states) aside⟩
    · exact (found id).trans (if_pos rfl)
    · exact (found c).trans (if_neg differs)

omit [Diary δ] in
theorem possesses_begun (here : w.lists.get? id = some l) (held : .list id ∈ w.held)
    (inPlace : w.InPlace) (access : l.access = some cell) (empty : l.history.cleared = l.history)
    (mine : ∀ a, w.cells.owner (cell a) = some id ↔ cell a ∈ l.contents.map cell)
    (once : (l.contents.map cell).Nodup) : Possesses cell id l w { now := l.contents } := by
  refine ⟨here, held, inPlace, access, UndoableList.tracks_cleared empty, mine, ?_, ?_⟩
  · intro s state
    rw [List.mem_singleton.mp state]
    exact once
  · intro s state x member
    rw [List.mem_singleton.mp state] at member
    obtain ⟨a, -, rfl⟩ := List.mem_map.mp member
    exact .inr ((mine a).mpr member)

theorem possesses_adopted {b : Blueprint α} (capturing : b.access = some cell)
    (inPlace : w.InPlace) (unused : ∀ a, w.cells.owner (cell a) ≠ some w.nextContext)
    (once : (b.items.map cell).Nodup) (free : ∀ a ∈ b.items, w.cells.owner (cell a) = none) :
    Possesses cell w.nextContext (b.listAt w.nextContext w.locks.next) (createList b w).2
      { now := b.items } := by
  have aside := aside_createList b w
  have found := lists_createList b w
  have members : (b.listAt w.nextContext w.locks.next).cellsOf b.items = b.items.map cell :=
    cellsOf_capturing capturing b.items
  have owner (x : CellId) : (createList b w).2.cells.owner x =
      if x ∈ b.items.map cell then some w.nextContext else w.cells.owner x := by
    have adopted := Cells.cell_adoptEach (b.listAt w.nextContext w.locks.next)
      ((b.listAt w.nextContext w.locks.next).cellsOf b.items) w.cells x
    rw [members] at adopted
    rw [aside.cells, Cells.owner]
    change (Cells.cell (Site.adoptEach (b.listAt w.nextContext w.locks.next)
      ((b.listAt w.nextContext w.locks.next).cellsOf b.items) w.cells).1 x).owner = _
    rw [members, adopted]
    by_cases member : x ∈ b.items.map cell
    · obtain ⟨a, here, rfl⟩ := List.mem_map.mp member
      have admitted : (w.cells.cell (cell a)).admits w.nextContext = true := by
        rw [Cell.admits, show (w.cells.cell (cell a)).owner = none from free a here]
      rw [if_pos member, if_pos ⟨member, admitted⟩]
      rfl
    · rw [if_neg member, if_neg fun both => member both.1]
      rfl
  have mine (a : α) : (createList b w).2.cells.owner (cell a) = some w.nextContext ↔
      cell a ∈ b.items.map cell := by
    rw [owner]
    split
    · rename_i member
      exact ⟨fun _ => member, fun _ => rfl⟩
    · rename_i stranger
      exact ⟨fun owned => absurd owned (unused a), fun member => absurd member stranger⟩
  exact possesses_begun ((found _).trans (if_pos rfl)) ((held_aside aside).mpr List.mem_cons_self)
    (named_of_put inPlace found rfl) capturing rfl mine once

omit [Diary δ] in
theorem possesses_reworked (inPlace : w.InPlace) (here : w.lists.get? id = some l)
    (held : .list id ∈ w.held) (access : l.access = some cell)
    (strays : ∀ a, w.cells.owner (cell a) = some id → cell a ∈ l.contents.map cell)
    {store : Store α}
    (once : (store.items.map cell).Nodup)
    (free : ∀ x ∈ store.items.map cell, w.cells.owner x = none ∨ w.cells.owner x = some id)
    (aside : Aside [] (w.reworked l store) v) :
    ∃ m, Possesses cell id m v { now := store.items } := by
  obtain rfl := inPlace id l here
  have result := resynchronized_aside aside
  have members := result.members
  have leftOut := result.leftOut
  rw [cellsOf_capturing access] at members leftOut
  have mine (a : α) :
      v.cells.owner (cell a) = some l.context ↔ cell a ∈ store.items.map cell := by
    constructor
    · intro owned
      by_contra stranger
      obtain ⟨absent, before⟩ := leftOut (cell a) stranger owned
      rw [cellsOf_capturing access] at absent
      exact absent (strays a before)
    · intro member
      obtain ⟨owned, -⟩ | elsewhere := members (cell a) member
      · exact owned
      · obtain ⟨other, differs, owned, same⟩ := elsewhere
        have before : w.cells.owner (cell a) = some other := by
          rw [Cells.owner, ← same]
          exact owned
        obtain free | ours := free (cell a) member
        · rw [free] at before
          cases before
        · rw [ours] at before
          exact absurd (Option.some.inj before).symm differs
  refine ⟨_, possesses_begun result.list ((held_aside aside).mpr held) ?_ access rfl mine once⟩
  intro c n found
  by_cases same : c = l.context
  · subst same
    obtain rfl := Option.some.inj (result.list.symm.trans found)
    rfl
  · exact inPlace c n (result.others c same ▸ found)

end

end World
end UndoableLists
