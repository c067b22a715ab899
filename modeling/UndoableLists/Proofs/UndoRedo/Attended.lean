import UndoableLists.Proofs.UndoRedo.Snapshot
import UndoableLists.Proofs.World.Editing

/-!
A capture list beside the timeline of snapshots. It follows the timeline, tracks the edits of its
members, and of the items it owns its members and nothing else; nobody else owns any. Main
statements: mutations, replays and edits of members keep that up, and the nearest record is never
refused.
-/
namespace UndoableLists

namespace Roster
variable {α : Type} {l m : UndoableList α} {items : CellId → Prop} {cells cells' : Cells ListId}

def only (l : UndoableList α) : Roster α := withList (fun _ => none) l.context (some l)

theorem only_iff {c : Context} : only l c = some m ↔ c = l.context ∧ l = m := by
  unfold only withList
  split <;> simp_all

theorem only_self (l : UndoableList α) : only l l.context = some l := only_iff.mpr ⟨rfl, rfl⟩

theorem only_replaced (context : m.context = l.context) :
    (only l).withList l.context (some m) = only m := by
  funext c
  unfold only withList
  rw [context]
  split <;> rfl

theorem owns_only (owns : (only l).Owns items cells) (context : m.context = l.context)
    (members : m.cellsOf m.contents = l.cellsOf l.contents)
    (tracks : m.tracksEdits = l.tracksEdits) : (only m).Owns items cells := by
  apply owns_congr owns
  intro c
  unfold only withList
  rw [context]
  split
  · simp only [Option.map_some, members, tracks]
  · rfl

theorem owns_cells {r : Roster α} (owns : r.Owns items cells)
    (mine : ∀ c l x, r c = some l → x ∈ l.cellsOf l.contents → items x)
    (same : ∀ x, items x → cells'.cell x = cells.cell x) : r.Owns items cells' where
  member {c l x} here member := same x (mine c l x here member) ▸ owns.member here member
  stray {x} item nowhere := same x item ▸ owns.stray item nowhere
  distinct := owns.distinct

end Roster

namespace World
variable {α κ δ : Type}

def InPlace (w : World α κ δ) : Prop := ∀ c l, w.lists.get? c = some l → l.context = c

structure SameItems (cell : α → CellId) (w v : World α κ δ) : Prop where
  cells : ∀ a, v.cells.cell (cell a) = w.cells.cell (cell a)
  values : ∀ a, v.valueOf (cell a) = w.valueOf (cell a)

def IsItem (cell : α → CellId) (x : CellId) : Prop := ∃ a, cell a = x

structure Attended (cell : α → CellId) (id : ListId) (l : UndoableList α) (w : World α κ δ)
    (t : Timeline (Snapshot α)) : Prop where
  here : w.lists.get? id = some l
  held : .list id ∈ w.held
  context : l.context = id
  access : l.access = some cell
  tracks : l.tracksEdits = true
  fresh : l.store.stale = false
  follows : l.history.Follows (Snapshot.Moves cell id) t
  now : w.snapshot cell id = t.now
  owns : (Roster.only l).Owns (IsItem cell) w.cells
  inPlace : w.InPlace

section
variable {cell : α → CellId} {id : ListId} {l m : UndoableList α} {v w : World α κ δ}
  {t t' : Timeline (Snapshot α)} {x : CellId}

theorem sameItems_aside (aside : Aside [] w v) : SameItems cell w v where
  cells a := by rw [aside.cells]
  values a := by rw [valueOf, valueOf, aside.objects]

theorem inPlace_aside (inPlace : w.InPlace) (aside : Aside [] w v) : v.InPlace :=
  fun c l here => inPlace c l (aside.lists ▸ here)

theorem cellsOf_capturing (access : l.access = some cell) (items : List α) :
    l.cellsOf items = items.map cell := by
  rw [UndoableList.cellsOf, access]

theorem item_of_cellsOf (access : l.access = some cell) {items : List α}
    (member : x ∈ l.cellsOf items) : IsItem cell x := by
  rw [cellsOf_capturing access] at member
  obtain ⟨a, -, same⟩ := List.mem_map.mp member
  exact ⟨a, same⟩

theorem contentsOf_present (here : w.lists.get? id = some l) : w.contentsOf id = l.contents := by
  rw [contentsOf, here]
  rfl

theorem attended_same (attended : Attended cell id l w t)
    (list : v.lists.get? id = w.lists.get? id) (held : .list id ∈ v.held) (inPlace : v.InPlace)
    (items : SameItems cell w v) : Attended cell id l v t where
  here := list.trans attended.here
  held := held
  context := attended.context
  access := attended.access
  tracks := attended.tracks
  fresh := attended.fresh
  follows := attended.follows
  now := by
    rw [← attended.now, snapshot, snapshot, contentsOf, contentsOf, list]
    simp only [items.values, Cells.owner, items.cells]
  owns := by
    apply Roster.owns_cells attended.owns
    · intro c m x there member
      obtain ⟨-, rfl⟩ := Roster.only_iff.mp there
      exact item_of_cellsOf attended.access member
    · rintro x ⟨a, rfl⟩
      exact items.cells a
  inPlace := inPlace

theorem attended_aside (attended : Attended cell id l w t) (aside : Aside [] w v) :
    Attended cell id l v t :=
  attended_same attended (by rw [aside.lists]) ((held_aside aside).mpr attended.held)
    (inPlace_aside attended.inPlace aside) (sameItems_aside aside)

theorem owned_of_owns (here : w.lists.get? id = some l) (context : l.context = id)
    (access : l.access = some cell) (owns : (Roster.only l).Owns (IsItem cell) w.cells) :
    (w.snapshot cell id).Owned cell id where
  distinct := by
    have distinct := owns.distinct (Roster.only_self l)
    rw [cellsOf_capturing access] at distinct
    rwa [snapshot, contentsOf_present here]
  owner := by
    funext a
    change w.cells.owner (cell a) = Snapshot.ownerIn cell id (w.contentsOf id) a
    have mine {c : Context} : w.cells.owner (cell a) = some c ↔
        c = id ∧ cell a ∈ l.contents.map cell := by
      rw [Roster.owner_iff owns ⟨a, rfl⟩]
      simp only [Roster.only_iff, ← context, ← cellsOf_capturing access]
      constructor
      · rintro ⟨m, ⟨rfl, rfl⟩, member⟩
        exact ⟨rfl, member⟩
      · rintro ⟨rfl, member⟩
        exact ⟨l, ⟨rfl, rfl⟩, member⟩
    rw [contentsOf_present here, Snapshot.ownerIn]
    split
    · rename_i member
      exact mine.mpr ⟨rfl, member⟩
    · rename_i absent
      cases owner : w.cells.owner (cell a) with
      | none => rfl
      | some c => exact absurd (mine.mp owner).2 absent

theorem owned_of_attended (attended : Attended cell id l w t) : t.now.Owned cell id :=
  attended.now ▸ owned_of_owns attended.here attended.context attended.access attended.owns

theorem contents_of_attended (attended : Attended cell id l w t) : l.contents = t.now.contents := by
  rw [← attended.now, snapshot, contentsOf_present attended.here]

theorem owner_of_attended (attended : Attended cell id l w t) (a : α) :
    w.cells.owner (cell a) = if cell a ∈ l.contents.map cell then some id else none := by
  have owned := owned_of_owns attended.here attended.context attended.access attended.owns
  rw [← contentsOf_present attended.here]
  exact congrFun owned.owner a

structure Led (cell : α → CellId) (id : ListId) (m : UndoableList α) (record : Record α Edit)
    (direction : Direction) (value : α → Option Int) (v : World α κ δ) : Prop where
  contents : (v.snapshot cell id).contents = m.contents
  value : (v.snapshot cell id).value =
    (direction.order record.edits).foldl (Snapshot.assigned cell direction) value
  owned : (v.snapshot cell id).Owned cell id
  attended : ∀ t, m.history.Follows (Snapshot.Moves cell id) t → v.snapshot cell id = t.now →
    Attended cell id m v t

theorem led_after (attended : Attended cell id l w t) {record : Record α Edit}
    {direction : Direction} {next : List α} {d : Done α} {notices : List Notice}
    {history : History (Record α Edit)} (turns : record.Turns direction l.contents next)
    (given : Site.transfer ⟨l, w.cells⟩ (record.handover direction) = .ok (d.site.cells, notices))
    (list : d.site.list = (l.changed next).withHistory history)
    (edits : d.edits = direction.order record.edits) (aside : Aside [] (w.after direction d) v) :
    Led cell id ((l.changed next).withHistory history) record direction t.now.value v := by
  generalize shape : (l.changed next).withHistory history = m at list ⊢
  have context : m.context = l.context := by rw [← shape]; rfl
  have access : m.access = l.access := by rw [← shape]; rfl
  have tracks : m.tracksEdits = l.tracksEdits := by rw [← shape]; rfl
  have fresh : m.store.stale = l.store.stale := by rw [← shape]; rfl
  have contents : m.contents = next := by rw [← shape]; rfl
  have there : v.lists.get? id = some m :=
    after_list list (context.trans attended.context) aside
  have owns : (Roster.only m).Owns (IsItem cell) v.cells := by
    have moved := Roster.owns_transferred attended.owns (Roster.only_self l) (contents ▸ turns)
      given access tracks fun xs x => item_of_cellsOf attended.access
    rw [Roster.only_replaced context] at moved
    rw [aside.cells]
    exact moved
  refine ⟨contentsOf_present there, ?_, owned_of_owns there (context.trans attended.context)
    (access.trans attended.access) owns, fun t follows now => ⟨there,
      (held_aside aside).mpr attended.held, context.trans attended.context,
      access.trans attended.access, tracks.trans attended.tracks, fresh.trans attended.fresh,
      follows, now, owns, ?_⟩⟩
  · rw [← attended.now, ← edits]
    simp only [snapshot, valueOf, aside.objects]
    exact Objects.values_replayed cell direction d.edits w.objects
  · have lists : v.lists = w.lists.insert d.site.list.context d.site.list := aside.lists
    exact named_of_put attended.inPlace (fun c => by rw [lists, list, Table.get?_insert]) rfl

theorem attended_appended {β : Type} [DecidableEq β] {worth : α → β} {op : Operation α}
    {record : Record α Edit} {reply : Reply α} {d : Done α} (attended : Attended cell id l w t)
    (planned : op.plan worth l.contents = .ok (some record, reply))
    (done : Site.append ⟨l, w.cells⟩ record = .ok d) (aside : Aside [] (w.after .forward d) v) :
    ∃ m, Attended cell id m v (t.recorded l.history.maxDepth (v.snapshot cell id)) := by
  obtain ⟨next, turns, list, edits, given⟩ := UndoableList.append_planned planned done
  have unedited := Operation.plan_edits planned
  have led := led_after attended turns given list edits aside
  have value : (v.snapshot cell id).value = t.now.value := by
    rw [led.value, unedited]
    rfl
  refine ⟨_, led.attended _ (History.follows_push attended.follows ?_) rfl⟩
  exact {
    planned := turns.1
    contents := by
      rw [← contents_of_attended attended, led.contents]
      exact turns.2
    forth := by rw [value, unedited]; rfl
    back := by rw [value, unedited]; rfl
    before := owned_of_attended attended
    after := led.owned }

theorem attended_turned {direction : Direction} {record : Record α Edit}
    {rest : List (Record α Edit)} {d : Done α} (attended : Attended cell id l w t)
    (near : l.history.side direction = record :: rest)
    (done : Site.commit ⟨l, w.cells⟩ record direction = .ok d)
    (aside : Aside [] (w.after direction (d.withHistory (l.history.turned direction))) v) :
    ∃ m, Attended cell id m v (t.turned direction) ∧ m.lock = l.lock := by
  obtain ⟨next, more, here, moves, now⟩ := History.nearest attended.follows near
  have turns := Snapshot.turns_of_moves moves
  rw [← contents_of_attended attended] at turns
  obtain ⟨list, edits, given⟩ := UndoableList.commit_nearest turns done
  have led := led_after (d := d.withHistory (l.history.turned direction)) attended turns given
    list edits aside
  refine ⟨_, led.attended _ ?_ ?_, rfl⟩
  · exact History.follows_turned (fun _ _ _ => Iff.rfl) attended.follows direction
  · rw [now]
    exact Snapshot.ext_owned led.contents (led.value.trans (Snapshot.value_of_moves moves).symm)
      led.owned (Snapshot.owned_of_moves moves).2

theorem items_exchanged {record : Record α Edit} {direction : Direction} {next : List α}
    (access : l.access = some cell) (turns : record.Turns direction l.contents next) :
    ((record.handover direction).leaving.map cell).Subperm (l.contents.map cell) ∧
      (l.contents.map cell ++ (record.handover direction).entering.map cell).Perm
        (next.map cell ++ (record.handover direction).leaving.map cell) := by
  constructor
  · rw [← cellsOf_capturing access, ← cellsOf_capturing access]
    exact UndoableList.cellsOf_subperm (Record.leaving_subperm turns.1 turns.2)
  · rw [← List.map_append, ← List.map_append]
    exact (Record.perm_of_moves record direction _ _ turns.2).map cell

/-- What leaves belongs to the list, and what enters is free or leaves, if nothing is on the list
twice after the exchange and all that will be on it is free or the list's own. -/
theorem transfer_of_owners {cells : Cells ListId} {record : Record α Edit} {direction : Direction}
    {next : List α} (access : l.access = some cell)
    (turns : record.Turns direction l.contents next) (once : (next.map cell).Nodup)
    (mine : ∀ a, cells.owner (cell a) = some l.context ↔ cell a ∈ l.contents.map cell)
    (within : ∀ x ∈ next.map cell, cells.owner x = none ∨ cells.owner x = some l.context) :
    ∃ cells' notices,
      Site.transfer ⟨l, cells⟩ (record.handover direction) = .ok (cells', notices) := by
  obtain ⟨members, whole⟩ := items_exchanged access turns
  obtain ⟨distinct, news⟩ := gains_of_distinct once members whole
  have leavers : ∀ x ∈ (record.handover direction).leaving.map cell,
      cells.owner x = some l.context := by
    intro x leaves
    obtain ⟨a, -, rfl⟩ := List.mem_map.mp leaves
    exact (mine a).mpr (members.subset leaves)
  have entrants : ∀ x ∈ (record.handover direction).entering.map cell, cells.owner x = none ∨
      cells.owner x = some l.context ∧ x ∈ (record.handover direction).leaving.map cell := by
    intro x enters
    obtain ⟨a, -, rfl⟩ := List.mem_map.mp enters
    by_cases leaves : cell a ∈ (record.handover direction).leaving.map cell
    · exact .inr ⟨leavers _ leaves, leaves⟩
    · left
      have arrives : cell a ∈ next.map cell := by
        have enough := whole.subset (List.mem_append_right _ enters)
        exact (List.mem_append.mp enough).resolve_right leaves
      refine (within _ arrives).resolve_right fun owned => ?_
      exact (news _ enters).elim (fun stranger => stranger ((mine a).mp owned)) leaves
  obtain ⟨cells', notices, given⟩ :=
    Site.exchange_of_entrants (s := ⟨l, cells⟩) distinct leavers entrants
  refine ⟨cells', notices, ?_⟩
  simp only [Site.transfer, access, given]
  rfl

theorem commit_of_transfer {cells cells' : Cells ListId} {record : Record α Edit}
    {direction : Direction} {next : List α} {notices : List Notice}
    (turns : record.Turns direction l.contents next)
    (given : Site.transfer ⟨l, cells⟩ (record.handover direction) = .ok (cells', notices)) :
    ∃ d, Site.commit ⟨l, cells⟩ record direction = .ok d := by
  cases outcome : Site.commit ⟨l, cells⟩ record direction with
  | ok d => exact ⟨d, rfl⟩
  | error fault =>
    obtain ⟨cause, refused, -⟩ :=
      Site.of_commit_error (s := ⟨l, cells⟩) turns.1 turns.2 outcome
    rw [given] at refused
    cases refused

theorem commit_of_attended {direction : Direction} {record : Record α Edit}
    {rest : List (Record α Edit)} (attended : Attended cell id l w t)
    (near : l.history.side direction = record :: rest) :
    ∃ d, Site.commit ⟨l, w.cells⟩ record direction = .ok d := by
  obtain ⟨next, more, here, moves, now⟩ := History.nearest attended.follows near
  obtain ⟨-, after⟩ := Snapshot.owned_of_moves moves
  have turns := Snapshot.turns_of_moves moves
  rw [← contents_of_attended attended] at turns
  have owner (a : α) : w.cells.owner (cell a) =
      if cell a ∈ l.contents.map cell then some l.context else none := by
    rw [attended.context]
    exact owner_of_attended attended a
  have mine (a : α) : w.cells.owner (cell a) = some l.context ↔ cell a ∈ l.contents.map cell := by
    rw [owner]
    split <;> simp [*]
  have within : ∀ x ∈ next.contents.map cell,
      w.cells.owner x = none ∨ w.cells.owner x = some l.context := by
    intro x member
    obtain ⟨a, -, rfl⟩ := List.mem_map.mp member
    rw [owner]
    split <;> simp
  obtain ⟨cells, notices, given⟩ :=
    transfer_of_owners attended.access turns after.distinct mine within
  exact commit_of_transfer turns given

theorem assigned_back (value : α → Option Int) {e : Edit}
    (known : ∀ a, cell a = e.object → value a = (value a).map fun _ => e.old) :
    Snapshot.assigned cell .backward (Snapshot.assigned cell .forward value e) e = value := by
  funext a
  unfold Snapshot.assigned
  split
  · rename_i same
    rw [known a same, Option.map_map, Option.map_map]
    rfl
  · rfl

theorem valueOf_known (w : World α κ δ) {a : α} (same : cell a = x) :
    w.valueOf (cell a) = (w.valueOf (cell a)).map fun _ => (w.objects.get x).value := by
  rw [same, valueOf, Objects.get]
  cases w.objects.table.get? x <;> rfl

theorem attended_edited [Diary δ] (attended : Attended cell id l w t)
    (obtained : (Host.acquire l.lock .write).succeeds w) (x : ObjectId) (value : Int) :
    let v := commitEdit id x value w
    Attended cell id (l.recordEdit ⟨x, (w.objects.get x).value, value⟩) v
      (t.recorded l.history.maxDepth (v.snapshot cell id)) := by
  intro v
  let e : Edit := ⟨x, (w.objects.get x).value, value⟩
  have aside := (enterEdit_obtained (x := x) attended.here obtained value).2
  have found := lists_commitEdit (x := x) attended.here obtained value
  have there : v.lists.get? id = some (l.recordEdit e) := (found id).trans (if_pos rfl)
  have owns : (Roster.only (l.recordEdit e)).Owns (IsItem cell) v.cells := by
    rw [aside.cells]
    exact Roster.owns_only attended.owns rfl rfl rfl
  have values : (v.snapshot cell id).value = Snapshot.assigned cell .forward t.now.value e := by
    have objects : v.objects = w.objects.assign x value := aside.objects
    rw [← attended.now]
    simp only [snapshot, valueOf, objects]
    exact Objects.values_replayed cell .forward [e] w.objects
  have known : ∀ a, cell a = e.object → t.now.value a = (t.now.value a).map fun _ => e.old := by
    intro a same
    rw [← attended.now]
    exact valueOf_known w same
  have contents : (v.snapshot cell id).contents = t.now.contents := by
    rw [← contents_of_attended attended]
    exact (contentsOf_present there : v.contentsOf id = (l.recordEdit e).contents)
  refine ⟨there, (held_aside aside).mpr attended.held, attended.context, attended.access,
    attended.tracks, attended.fresh, History.follows_push attended.follows ?_, rfl, owns, ?_⟩
  · exact {
      planned := trivial
      contents := contents.symm
      forth := values
      back := by
        rw [values]
        exact (assigned_back _ known).symm
      before := owned_of_attended attended
      after := owned_of_owns there attended.context attended.access owns }
  · exact named_of_put attended.inPlace found attended.context

end

end World

end UndoableLists
