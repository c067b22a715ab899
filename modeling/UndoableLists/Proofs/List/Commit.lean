import UndoableLists.List.Site
import UndoableLists.Proofs.List.Planning
import UndoableLists.Proofs.Timeline

/-!
Committing, appending and replaying a record that fits. Such a record is refused only because of
the ownership of items; otherwise the list holds what the record leads to, under the next version,
and the bulletin describes the step.
-/
namespace UndoableLists
variable {α : Type}

namespace UndoableList

def withContents (l : UndoableList α) (items : List α) : UndoableList α :=
  { l with store := l.store.withItems items }

def withHistory (l : UndoableList α) (history : History (Record α Edit)) : UndoableList α :=
  { l with history }

def changed (l : UndoableList α) (items : List α) : UndoableList α :=
  (l.withContents items).newVersion

end UndoableList

/-- What a bulletin tells of the step from contents `s` to contents `t`: changes that make `t` of
`s`, also when a subscriber replays them on a copy, and each property once that differs. -/
structure Bulletin.Describes (b : Bulletin α) (s t : List α) : Prop where
  changes : Change.MakesAll t b.changes s t
  replayed : Change.replayAll? t b.changes s = some t
  properties : b.properties = if s.length = t.length then [.items] else [.count, .items]

theorem Bulletin.describes_of_makesAll {b : Bulletin α} {s t : List α}
    (makes : Change.MakesAll t b.changes s t) (count : b.countDiffers = (s.length != t.length))
    (items : b.itemsDiffer = true) : b.Describes s t where
  changes := makes
  replayed := Change.replayAll?_of_makesAll makes
  properties := by
    rw [properties, count, items]
    by_cases same : s.length = t.length <;> simp [same]

def Done.withHistory (d : Done α) (history : History (Record α Edit)) : Done α :=
  { d with site := ⟨d.site.list.withHistory history, d.site.cells⟩ }

namespace Site
variable {s : Site α} {record : Record α Edit} {direction : Direction} {t : List α}

theorem commit_eq (planned : record.Planned) (h : record.Moves direction s.list.contents t) :
    ∃ bulletin : Bulletin α,
      (s.commit record direction = match s.transfer (record.handover direction) with
        | .error cause => .error (.refused cause)
        | .ok (cells, notices) =>
          .ok ⟨⟨s.list.changed t, cells⟩, bulletin, direction.order record.edits, notices⟩) ∧
      (record.blank = false → bulletin.Describes s.list.contents t) := by
  have checks : record.check none direction s.list.store.length = .ok t.length :=
    Record.check_of_moves record direction s.list.store.items t h
  obtain ⟨changes, done, makes, told⟩ := Record.makesAll_of_apply planned h
  refine ⟨.ofEffects ⟨changes, direction.order record.edits⟩
    (s.list.store.length != t.length), ?_,
    fun filled => Bulletin.describes_of_makesAll makes rfl ?_⟩
  · simp only [commit, checks, bind, Except.bind]
    cases given : s.transfer (record.handover direction) with
    | error cause => rfl
    | ok taken =>
      simp only [Except.mapError, done]
      rfl
  · cases direction <;>
      simpa [Bulletin.ofEffects, Effects.editsItems, Direction.order] using told filled

/-- A commit that goes through: the list has changed, the items changed hands, and the bulletin says
so of all records but blank ones. -/
theorem commit_ends (planned : record.Planned) (h : record.Moves direction s.list.contents t)
    {d : Done α} (done : s.commit record direction = .ok d) :
    (d.site.list = s.list.changed t ∧ d.edits = direction.order record.edits ∧
      s.transfer (record.handover direction) = .ok (d.site.cells, d.notices)) ∧
    (record.blank = false → d.bulletin.Describes s.list.contents t) := by
  obtain ⟨bulletin, outcome, told⟩ := commit_eq planned h
  rw [outcome] at done
  cases given : s.transfer (record.handover direction) with
  | error cause => simp [given] at done
  | ok taken =>
    rw [given] at done
    cases done
    exact ⟨⟨rfl, rfl, rfl⟩, told⟩

theorem of_commit_ok (planned : record.Planned) (h : record.Moves direction s.list.contents t)
    {d : Done α} (done : s.commit record direction = .ok d) :
    d.site.list = s.list.changed t ∧ d.edits = direction.order record.edits ∧
      s.transfer (record.handover direction) = .ok (d.site.cells, d.notices) :=
  (commit_ends planned h done).1

theorem describes_of_commit (planned : record.Planned)
    (h : record.Moves direction s.list.contents t) (filled : record.blank = false) {d : Done α}
    (done : s.commit record direction = .ok d) : d.bulletin.Describes s.list.contents t :=
  (commit_ends planned h done).2 filled

theorem stages_of_commit {d : Done α} (done : s.commit record direction = .ok d) :
    ∃ after cells notices store applied,
      record.check none direction s.list.store.length = .ok after ∧
      s.transfer (record.handover direction) = .ok (cells, notices) ∧
      record.apply direction s.list.store = .ok (store, applied) ∧
      d = ⟨⟨{ s.list with store }.newVersion, cells⟩,
        .ofEffects applied (s.list.store.length != after), applied.edits, notices⟩ := by
  cases checks : record.check none direction s.list.store.length with
  | error fault =>
    simp only [commit, checks, bind, Except.bind] at done
    cases done
  | ok after =>
    cases given : s.transfer (record.handover direction) with
    | error cause =>
      simp only [commit, checks, given, bind, Except.bind, Except.mapError] at done
      cases done
    | ok taken =>
      cases outcome : record.apply direction s.list.store with
      | error progress =>
        simp only [commit, checks, given, outcome, bind, Except.bind, Except.mapError] at done
        cases done
      | ok progress =>
        simp only [commit, checks, given, outcome, bind, Except.bind, Except.mapError] at done
        cases done
        exact ⟨after, taken.1, taken.2, progress.1, progress.2, rfl, rfl, rfl, rfl⟩

theorem same_of_commit {d : Done α} (done : s.commit record direction = .ok d) :
    d.site.list.context = s.list.context ∧ d.site.list.lock = s.list.lock ∧
      d.site.list.version = s.list.version + 1 := by
  obtain ⟨after, cells, notices, store, applied, -, -, -, rfl⟩ := stages_of_commit done
  exact ⟨rfl, rfl, rfl⟩

theorem bulletin_of_itemEdit {e : Edit} {d : Done α}
    (done : s.commit (.itemEdit e) direction = .ok d) : d.bulletin = { itemsDiffer := true } := by
  obtain ⟨after, cells, notices, store, applied, checks, -, replayed, rfl⟩ := stages_of_commit done
  cases checks
  cases replayed
  simp [Bulletin.ofEffects, Effects.editsItems]

theorem commit_itemEdit (s : Site α) (e : Edit) (direction : Direction) :
    ∃ d, s.commit (.itemEdit e) direction = .ok d ∧ d.site.list = s.list.newVersion ∧
      d.edits = [e] := by
  have given : ∃ notices, s.transfer (Record.handover (.itemEdit e) direction) =
      .ok (s.cells, notices) := by
    unfold transfer
    cases s.list.access <;> exact ⟨_, rfl⟩
  obtain ⟨notices, given⟩ := given
  have done : s.commit (.itemEdit e) direction = .ok ⟨⟨s.list.newVersion, s.cells⟩,
      .ofEffects ⟨[], [e]⟩ (s.list.store.length != s.list.store.length), [e], notices⟩ := by
    simp only [commit, Record.check, given, bind, Except.bind, Except.mapError]
    rfl
  exact ⟨_, done, rfl, rfl⟩

theorem single_of_commit (planned : record.Planned) (compact : record.Compact) {d : Done α}
    (done : s.commit record direction = .ok d) : d.bulletin.changes.length ≤ 1 := by
  obtain ⟨after, cells, notices, store, applied, -, -, replayed, rfl⟩ := stages_of_commit done
  exact Record.single_of_apply planned compact replayed

theorem of_commit_error (planned : record.Planned)
    (h : record.Moves direction s.list.contents t) {fault : Fault ListRefusal}
    (failed : s.commit record direction = .error fault) :
    ∃ cause, s.transfer (record.handover direction) = .error cause ∧ fault = .refused cause := by
  obtain ⟨bulletin, outcome, -⟩ := commit_eq planned h
  rw [outcome] at failed
  cases given : s.transfer (record.handover direction) with
  | error cause =>
    rw [given] at failed
    cases failed
    exact ⟨cause, rfl, rfl⟩
  | ok taken => simp [given] at failed

theorem of_append_ok {d : Done α} (done : s.append record = .ok d) :
    ∃ e, s.commit record .forward = .ok e ∧ d.edits = e.edits ∧ d.site.cells = e.site.cells ∧
      d.site.list = e.site.list.withHistory (e.site.list.history.push record) ∧
      d.notices = e.notices ∧ d.bulletin = e.bulletin := by
  unfold append at done
  cases outcome : s.commit record .forward with
  | error fault =>
    rw [outcome] at done
    cases done
  | ok e =>
    rw [outcome] at done
    cases done
    exact ⟨e, rfl, rfl, rfl, rfl, rfl, rfl⟩

theorem same_of_append {d : Done α} (done : s.append record = .ok d) :
    d.site.list.context = s.list.context ∧ d.site.list.lock = s.list.lock ∧
      d.site.list.version = s.list.version + 1 := by
  obtain ⟨e, committed, -, -, list, -, -⟩ := of_append_ok done
  rw [list]
  exact same_of_commit committed

theorem check_of_append_ok {d : Done α} (done : s.append record = .ok d) :
    ∃ after, record.check none .forward s.list.contents.length = .ok after := by
  obtain ⟨e, committed, -⟩ := of_append_ok done
  obtain ⟨after, _, _, _, _, checks, -⟩ := stages_of_commit committed
  exact ⟨after, checks⟩

theorem append_of_check_error {fault : Fault ListRefusal}
    (failed : record.check none .forward s.list.store.length = .error fault) :
    s.append record = .error fault := by
  simp only [append, commit, failed, bind, Except.bind]

theorem replay_of_empty (empty : s.list.history.side direction = []) :
    s.replay direction = none := by
  cases direction with
  | forward =>
    have none_undone : s.list.history.undone = [] := empty
    simp [replay, History.redo, none_undone]
  | backward =>
    have none_done : s.list.history.done = [] := empty
    simp [replay, History.undo, none_done]

theorem replay_of_nearest {rest : List (Record α Edit)}
    (here : s.list.history.side direction = record :: rest) :
    s.replay direction =
      some ((s.commit record direction).map (·.withHistory (s.list.history.turned direction))) := by
  cases direction with
  | forward =>
    have undone : s.list.history.undone = record :: rest := here
    cases outcome : s.commit record .forward <;>
      simp [replay, History.redo, History.turned, undone, outcome, Except.map,
        Done.withHistory, UndoableList.withHistory]
  | backward =>
    have done : s.list.history.done = record :: rest := here
    cases outcome : s.commit record .backward <;>
      simp [replay, History.undo, History.turned, done, outcome, Except.map,
        Done.withHistory, UndoableList.withHistory]

theorem transfer_of_plain (plain : s.list.access = none) (handover : Handover α) :
    s.transfer handover = .ok (s.cells, []) := by
  simp [transfer, plain]

theorem commit_of_plain (plain : s.list.access = none) (planned : record.Planned)
    (h : record.Moves direction s.list.contents t) : ∃ d, s.commit record direction = .ok d := by
  obtain ⟨bulletin, outcome, -⟩ := commit_eq planned h
  rw [transfer_of_plain plain] at outcome
  exact ⟨_, outcome⟩

end Site

end UndoableLists
