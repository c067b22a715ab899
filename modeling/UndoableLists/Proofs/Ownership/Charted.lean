import UndoableLists.Proofs.Ownership.Possession
import UndoableLists.Proofs.Ownership.Reach

/-!
Where the records of a capture list lead. In the worlds that calls lead to every list tracks a
timeline of its contents; no item comes up twice in any of these contents, however old. So the
nearest record brings an item back only if it is no member or leaves at the same time. Main
statement: this holds of every list, also of one that was disposed.
-/
namespace UndoableLists.World
variable {α κ δ : Type}

def Charted (l : UndoableList α) : Prop :=
  ∃ t, l.Tracks t ∧ ∀ s ∈ t.states, (l.cellsOf s).Nodup

section
variable {v w : World α κ δ} {l : UndoableList α} {direction : Direction}

theorem charted_now (charted : Charted l) : (l.cellsOf l.contents).Nodup := by
  obtain ⟨t, tracks, distinct⟩ := charted
  exact tracks.now ▸ distinct t.now t.now_mem_states

theorem charted_cleared (empty : l.history.cleared = l.history)
    (once : (l.cellsOf l.contents).Nodup) : Charted l := by
  refine ⟨_, UndoableList.tracks_cleared empty, fun s state => ?_⟩
  rw [List.mem_singleton.mp state]
  exact once

theorem charted_recordEdit (charted : Charted l) (e : Edit) : Charted (l.recordEdit e) := by
  obtain ⟨t, tracks, distinct⟩ := charted
  refine ⟨_, UndoableList.tracks_recordEdit tracks e, fun s state => ?_⟩
  obtain rfl | before := Timeline.states_recorded state
  · exact distinct t.now t.now_mem_states
  · exact distinct s before

theorem charted_appended {record : Record α Edit} {next : List α} (charted : Charted l)
    (turns : record.Turns .forward l.contents next) (once : (l.cellsOf next).Nodup) :
    Charted ((l.changed next).withHistory (l.history.push record)) := by
  obtain ⟨t, tracks, distinct⟩ := charted
  refine ⟨_, UndoableList.tracks_appended tracks turns, fun s state => ?_⟩
  obtain rfl | before := Timeline.states_recorded state
  · exact once
  · exact distinct s before

theorem charted_turned {record : Record α Edit} {rest : List (Record α Edit)}
    {cells : Cells ListId} {d : Done α} (charted : Charted l)
    (near : l.history.side direction = record :: rest)
    (done : Site.commit ⟨l, cells⟩ record direction = .ok d) :
    ∃ m, (d.withHistory (l.history.turned direction)).site.list = m ∧ m.context = l.context ∧
      Charted m := by
  obtain ⟨t, tracks, distinct⟩ := charted
  obtain ⟨next, more, ahead, turns⟩ := UndoableList.nearest_turns tracks near
  obtain ⟨list, -, -⟩ := UndoableList.commit_nearest turns done
  exact ⟨_, list, rfl, _, UndoableList.tracks_turned tracks ahead,
    fun s state => distinct s (Timeline.states_turned state)⟩

def Charting (w : World α κ δ) : Prop := ∀ c l, w.lists.get? c = some l → Charted l

theorem charting_same {v : World α κ δ} (charting : Charting w) (same : v.lists = w.lists) :
    Charting v := fun c l here => charting c l (same ▸ here)

theorem charting_put {v : World α κ δ} {c : ListId} {m : UndoableList α} (charting : Charting w)
    (lists : ∀ e, v.lists.get? e = if e = c then some m else w.lists.get? e)
    (charted : Charted m) : Charting v := by
  intro e n here
  rw [lists] at here
  split at here
  · cases here
    exact charted
  · exact charting e n here

theorem charting_after {v : World α κ δ} {d : Done α} {m : UndoableList α} (charting : Charting w)
    (list : d.site.list = m) (charted : Charted m)
    (aside : Aside [] (w.after direction d) v) : Charting v := by
  refine charting_put charting (c := m.context) (m := m) (fun e => ?_) charted
  have entered : v.lists = w.lists.insert d.site.list.context d.site.list := aside.lists
  rw [entered, list]
  exact Table.get?_insert ..

theorem once_after (sound : Sound w) (alive : w.live l.context = some l)
    {record : Record α Edit} {next : List α} (turns : record.Turns direction l.contents next)
    {cells : Cells ListId} {notices : List Notice}
    (given : Site.transfer ⟨l, w.cells⟩ (record.handover direction) = .ok (cells, notices)) :
    (l.cellsOf next).Nodup := by
  have owns := Roster.owns_transferred (m := l.changed next) sound.owns alive turns given rfl rfl
    fun _ _ _ => trivial
  exact owns.distinct (Roster.withList_self ..)

end

section
variable [Diary δ] {w : World α κ δ}

theorem charting_mutated [Element α] (sound : Sound w) (charting : Charting w)
    (call : Call α κ δ) (id : ListId) (op : Operation α) :
    Charting (mutate call id false op w).2 := by
  cases here : w.lists.get? id with
  | none => rwa [mutate_absent here]
  | some l =>
    obtain ⟨rfl, -, -, fresh, -⟩ := sound.enlisted here
    obtain ⟨b, r, v, mutated, usable, outcome⟩ := mutate_ends here op
    rw [outcome call false]
    cases ended_of_mutated fresh mutated with
    | refused aside => exact charting_same charting aside.lists
    | idle planned aside => exact charting_same charting aside.lists
    | carried planned done aside =>
      obtain ⟨next, turns, list, -, given⟩ := UndoableList.append_planned planned done
      have once := once_after sound (live_iff.mpr ⟨here, usable _ rfl⟩) turns given
      exact charting_after charting list (charted_appended (charting _ l here) turns once) aside

theorem charting_replayed (sound : Sound w) (charting : Charting w)
    (call : Call α κ δ) (id : ListId) (direction : Direction) :
    Charting (replay call id false direction w).2 := by
  cases here : w.lists.get? id with
  | none => rwa [replay_absent here]
  | some l =>
    obtain ⟨rfl, -, -, fresh, -⟩ := sound.enlisted here
    obtain ⟨b, r, v, replayed, -, outcome⟩ := replay_ends here direction
    rw [outcome call false]
    cases replayed with
    | barred barred aside => exact charting_same charting aside.lists
    | heard stale => simp [fresh] at stale
    | fresh _ _ turned _ =>
      cases turned with
      | nothing none aside => exact charting_same charting aside.lists
      | rejected near failed aside => exact charting_same charting aside.lists
      | carried near done aside =>
        obtain ⟨m, list, -, charted⟩ := charted_turned (charting _ l here) near done
        exact charting_after charting list charted aside

theorem charting_modifying {id : ListId} {f : UndoableList α → UndoableList α}
    (charting : Charting w) (charted : ∀ l, Charted l → Charted (f l)) :
    Charting (modifying id f w).2 := by
  obtain aside | ⟨l, here, aside⟩ := modifying_leaves id f w
  · exact charting_same charting aside.lists
  · refine charting_put (c := id) charting (fun e => ?_) (charted l (charting id l here))
    rw [aside.lists]
    exact Table.get?_modify_present here e f

theorem charted_forgetful {l : UndoableList α} (charted : Charted l) : Charted l.forgetful :=
  charted_cleared (l := l.forgetful) rfl (charted_now (l := l) charted)

theorem charting_disposed (sound : Sound w) (charting : Charting w) (id : ListId) :
    Charting (dispose id w).2 := by
  cases here : w.lists.get? id with
  | none =>
    rwa [dispose_absent here]
  | some l =>
    obtain rfl := (sound.enlisted here).named
    obtain ⟨-, same⟩ | ⟨-, x, ends, outcome⟩ := dispose_ends here
    · rwa [same]
    · rw [outcome]
      have before : Charting x := by
        obtain freed | aside := ends
        · refine charting_put (c := l.context) charting (fun e => ?_)
            (charted_forgetful (charting _ l here))
          rw [freed.lists]
          exact freed_lists w l e
        · exact charting_same charting aside.lists
      exact charting_same before (aside_note _ _).lists

theorem charting_of_reach [Element α] (reach : Reach w) : Charting w := by
  induction reach with
  | start empty free =>
    intro c l here
    simp [empty] at here
  | @created w reach b empty charting =>
    refine charting_put (c := w.nextContext) charting (lists_createList b w)
      (charted_cleared (l := b.listAt w.nextContext w.locks.next) rfl ?_)
    rw [cellsOf_listAt empty]
    exact List.nodup_nil
  | mutated reach call id op charting =>
    exact charting_mutated (sound_of_reach reach) charting call id op
  | replayed reach call id direction charting =>
    exact charting_replayed (sound_of_reach reach) charting call id direction
  | cleared reach id charting => exact charting_modifying charting fun l => charted_forgetful
  | edited reach e id charting =>
    exact charting_modifying charting fun l charted => charted_recordEdit charted e
  | disposed reach id obtained charting =>
    exact charting_disposed (sound_of_reach reach) charting id
  | @dropped w id l reach here loose charting =>
    intro c m there
    have found : (w.removeList id l).lists.get? c = if c = id then none else w.lists.get? c :=
      Table.get?_erase ..
    rw [found] at there
    split at there
    · cases there
    · exact charting c m there
  | elsewhere reach lists cells contexts next locks charting => exact charting_same charting lists

end

end UndoableLists.World
