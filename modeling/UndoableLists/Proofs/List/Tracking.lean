import UndoableLists.Proofs.List.Commit

/-!
A list beside the timeline of its contents. The list tracks a timeline when it holds the timeline's
present contents and its history follows the timeline. Main statements: what a mutation, a replay, a
reset and the edit of a member make of the list, and that it goes on tracking.
-/
namespace UndoableLists
variable {α : Type}

def Record.Turns (record : Record α Edit) (direction : Direction) (s t : List α) : Prop :=
  record.Planned ∧ record.Moves direction s t

namespace UndoableList

structure Tracks (l : UndoableList α) (t : Timeline (List α)) : Prop where
  follows : l.history.Follows Record.Turns t
  now : l.contents = t.now

section
variable {l : UndoableList α} {cells : Cells ListId} {t : Timeline (List α)} {d : Done α}
  {record : Record α Edit}

theorem tracks_cleared (empty : l.history.cleared = l.history) :
    l.Tracks { now := l.contents } where
  follows := empty ▸ History.follows_cleared l.contents
  now := rfl

theorem tracks_recordEdit (tracks : l.Tracks t) (e : Edit) :
    (l.recordEdit e).Tracks (t.recorded l.history.maxDepth t.now) where
  follows := History.follows_push tracks.follows ⟨trivial, rfl⟩
  now := tracks.now

theorem append_planned {β : Type} [DecidableEq β] {worth : α → β} {op : Operation α}
    {reply : Reply α} (planned : op.plan worth l.contents = .ok (some record, reply))
    (done : Site.append ⟨l, cells⟩ record = .ok d) :
    ∃ next, record.Turns .forward l.contents next ∧
      d.site.list = (l.changed next).withHistory (l.history.push record) ∧
      d.edits = record.edits ∧
      Site.transfer ⟨l, cells⟩ (record.handover .forward) = .ok (d.site.cells, d.notices) := by
  obtain ⟨after, checks⟩ := Site.check_of_append_ok done
  obtain ⟨ours, next, leads⟩ := Operation.plan_leads planned checks
  obtain ⟨e, committed, edits, owners, list, notices, -⟩ := Site.of_append_ok done
  have turns : record.Turns .forward l.contents next := ⟨ours, leads⟩
  obtain ⟨contents, replayed, given⟩ := Site.of_commit_ok (s := ⟨l, cells⟩) ours turns.2 committed
  refine ⟨next, turns, ?_, edits.trans replayed, ?_⟩
  · rw [list, contents]
    rfl
  · rw [given, owners, notices]

theorem describes_appended {β : Type} [DecidableEq β] {worth : α → β} {op : Operation α}
    {reply : Reply α} (planned : op.plan worth l.contents = .ok (some record, reply))
    (done : Site.append ⟨l, cells⟩ record = .ok d) {next : List α}
    (leads : record.Turns .forward l.contents next) : d.bulletin.Describes l.contents next := by
  obtain ⟨e, committed, -, -, -, -, told⟩ := Site.of_append_ok done
  exact told ▸ Site.describes_of_commit leads.1 leads.2 (Operation.plan_filled planned) committed

theorem tracks_appended (tracks : l.Tracks t) {next : List α}
    (leads : record.Turns .forward l.contents next) :
    ((l.changed next).withHistory (l.history.push record)).Tracks
      (t.recorded l.history.maxDepth next) where
  follows := History.follows_push tracks.follows ⟨leads.1, tracks.now ▸ leads.2⟩
  now := rfl

theorem nearest_turns (tracks : l.Tracks t) {direction : Direction}
    {rest : List (Record α Edit)} (near : l.history.side direction = record :: rest) :
    ∃ next more, t.side direction = next :: more ∧ record.Turns direction l.contents next := by
  obtain ⟨next, more, here, turns, -⟩ := History.nearest tracks.follows near
  exact ⟨next, more, here, tracks.now ▸ turns⟩

theorem tracks_turned (tracks : l.Tracks t) {direction : Direction} {next : List α}
    {more : List (List α)} (here : t.side direction = next :: more) :
    ((l.changed next).withHistory (l.history.turned direction)).Tracks (t.turned direction) where
  follows := History.follows_turned (fun _ _ _ => Iff.rfl) tracks.follows direction
  now := (Timeline.side_turned here).1.symm

theorem commit_nearest {direction : Direction} {next : List α}
    (turns : record.Turns direction l.contents next)
    (done : Site.commit ⟨l, cells⟩ record direction = .ok d) :
    (d.withHistory (l.history.turned direction)).site.list =
        (l.changed next).withHistory (l.history.turned direction) ∧
      d.edits = direction.order record.edits ∧
      Site.transfer ⟨l, cells⟩ (record.handover direction) = .ok (d.site.cells, d.notices) := by
  obtain ⟨contents, replayed, given⟩ := Site.of_commit_ok turns.1 turns.2 done
  refine ⟨?_, replayed, given⟩
  rw [Done.withHistory, contents]

/-- The list tracks some timeline, and each of its records holds something and takes out items from
consecutive positions only. -/
structure Replayable (l : UndoableList α) : Prop where
  tracks : ∃ t, l.Tracks t
  filled : ∀ record ∈ l.history.timeline, record.blank = false
  compact : ∀ record ∈ l.history.timeline, record.Compact

theorem replayable_cleared (empty : l.history.cleared = l.history) : l.Replayable where
  tracks := ⟨_, tracks_cleared empty⟩
  filled record member := by
    rw [← empty] at member
    cases member
  compact record member := by
    rw [← empty] at member
    cases member

theorem all_pushed {P : Record α Edit → Prop} (old : ∀ other ∈ l.history.timeline, P other)
    (new : P record) : ∀ other ∈ (l.history.push record).timeline, P other := by
  intro other member
  have either := (History.timeline_push l.history record).subset member
  rw [List.mem_append, List.mem_singleton] at either
  obtain before | rfl := either
  · exact old other before
  · exact new

theorem replayable_recordEdit (replayable : l.Replayable) (e : Edit) :
    (l.recordEdit e).Replayable where
  tracks := replayable.tracks.imp' _ fun _ tracks => tracks_recordEdit tracks e
  filled := all_pushed replayable.filled rfl
  compact := all_pushed replayable.compact trivial

theorem replayable_appended (replayable : l.Replayable) {next : List α}
    (leads : record.Turns .forward l.contents next) (filled : record.blank = false)
    (compact : record.Compact) :
    ((l.changed next).withHistory (l.history.push record)).Replayable where
  tracks := replayable.tracks.imp' _ fun _ tracks => tracks_appended tracks leads
  filled := all_pushed replayable.filled filled
  compact := all_pushed replayable.compact compact

theorem replayable_turned (replayable : l.Replayable) {direction : Direction}
    {rest : List (Record α Edit)} (near : l.history.side direction = record :: rest) :
    ∃ next, record.Turns direction l.contents next ∧
      ((l.changed next).withHistory (l.history.turned direction)).Replayable := by
  obtain ⟨t, tracks⟩ := replayable.tracks
  obtain ⟨next, more, ahead, turns⟩ := nearest_turns tracks near
  have same := History.timeline_turned l.history direction
  refine ⟨next, turns, ⟨_, tracks_turned tracks ahead⟩, ?_, ?_⟩
  · intro other member
    exact replayable.filled other (same ▸ member)
  · intro other member
    exact replayable.compact other (same ▸ member)

end

end UndoableList

end UndoableLists
