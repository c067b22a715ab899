import UndoableLists.Proofs.List.Tracking
import UndoableLists.Proofs.Ownership.Roster

/-!
Records and ownership. A record that is replayed where it fits moves the ownership of exactly those
items that leave or enter, so the roster still owns the cells afterwards.
-/
namespace UndoableLists.Roster
variable {α : Type} {r : Roster α} {items : CellId → Prop} {cells cells' : Cells ListId}
  {l m : UndoableList α} {x : CellId}

theorem belongs_of_free (owns : r.Owns items cells) (item : items x)
    (free : cells.owner x = none) : (cells.cell x).BelongsTo none := by
  apply owns.stray item
  intro c present
  rw [(owner_iff owns item).mpr (mem_members.mp present)] at free
  cases free

theorem belongs_of_entrant (owns : r.Owns items cells) (item : items x)
    (here : r l.context = some l)
    {leaving : List CellId} (members : leaving ⊆ l.cellsOf l.contents)
    (entrant : cells.owner x = none ∨ cells.owner x = some l.context ∧ x ∈ leaving) :
    (if x ∈ leaving then (cells.cell x).freedBy l.context else cells.cell x).BelongsTo none := by
  split
  · rename_i leaves
    exact Cell.belongs_freed (owns.member here (members leaves))
  · rename_i stays
    rcases entrant with free | ⟨-, leaves⟩
    · exact belongs_of_free owns item free
    · exact absurd leaves stays

theorem update_exchanged (owns : r.Owns items cells) (here : r l.context = some l)
    (tracks : m.tracksEdits = l.tracksEdits) {leaving entering : List CellId}
    (exchanged : Site.Exchanged ⟨l, cells⟩ leaving entering cells')
    (mine : ∀ x ∈ entering, items x)
    (members : leaving.Subperm (l.cellsOf l.contents))
    (whole : (l.cellsOf l.contents ++ entering).Perm (m.cellsOf m.contents ++ leaving)) :
    Update r (r.withList l.context (some m)) l.context cells cells' := by
  have before : r.members l.context = l.cellsOf l.contents := members_eq here
  have after : (r.withList l.context (some m)).members l.context = m.cellsOf m.contents :=
    members_eq (withList_self ..)
  have news : ∀ x ∈ entering, x ∉ l.cellsOf l.contents ∨ x ∈ leaving := by
    intro x enters
    rcases exchanged.entrants x enters with free | ⟨-, leaves⟩
    · left
      intro member
      rw [(owner_iff owns (mine x enters)).mpr ⟨l, here, member⟩] at free
      cases free
    · right
      exact leaves
  obtain ⟨distinct, present⟩ :=
    members_exchanged (owns.distinct here) members whole exchanged.distinct news
  have cell (x : CellId) : cells'.cell x =
      let freed := if x ∈ leaving then (cells.cell x).freedBy l.context else cells.cell x
      if x ∈ entering then
        freed.takenBy l.context (if m.tracksEdits then some l.context else none)
      else freed := by
    rw [exchanged.cell x, tracks]
    simp only [Cell.exchanged, decide_eq_true_eq, UndoableList.handler?]
  refine ⟨fun d differs => withList_of_ne differs _, ?_, ?_, ?_, ?_, ?_⟩
  · intro n there
    obtain rfl : m = n := Option.some.inj ((withList_self ..).symm.trans there)
    exact distinct
  · intro n x there member
    obtain rfl : m = n := Option.some.inj ((withList_self ..).symm.trans there)
    simp only [cell]
    by_cases enters : x ∈ entering
    · rw [if_pos enters]
      exact Cell.belongs_taken
        (belongs_of_entrant owns (mine x enters) here members.subset (exchanged.entrants x enters))
    · obtain ⟨stayed, kept⟩ := ((present x).mp member).resolve_left enters
      rw [if_neg enters, if_neg kept, tracks]
      exact owns.member here stayed
  all_goals
    rw [before, after]
    intro x
    simp only [present, not_or, not_and, not_not]
  · rintro was ⟨out, left⟩
    simp only [cell, if_neg out, if_pos (left was)]
    exact Cell.belongs_freed (owns.member here was)
  · rintro wasNot ⟨out, -⟩
    simp only [cell, if_neg out, if_neg fun leaves => wasNot (members.subset leaves)]
  · rintro (enters | ⟨was, -⟩) wasNot
    · rcases exchanged.entrants x enters with free | ⟨-, leaves⟩
      · exact free
      · exact absurd (members.subset leaves) wasNot
    · exact absurd was wasNot

/-- A record that leads a list from its contents to others takes the ownership of items along. -/
theorem owns_transferred (owns : r.Owns items cells) (here : r l.context = some l)
    {record : Record α Edit} {direction : Direction} {notices : List Notice}
    (turns : record.Turns direction l.contents m.contents)
    (given : Site.transfer ⟨l, cells⟩ (record.handover direction) = .ok (cells', notices))
    (access : m.access = l.access) (tracks : m.tracksEdits = l.tracksEdits)
    (mine : ∀ xs, ∀ x ∈ l.cellsOf xs, items x) :
    (r.withList l.context (some m)).Owns items cells' := by
  have same : m.cellsOf = l.cellsOf := UndoableList.cellsOf_congr access
  refine owns_update owns (update_exchanged owns here tracks (Site.exchanged_of_transfer given)
    (mine _) (UndoableList.cellsOf_subperm (Record.leaving_subperm turns.1 turns.2)) ?_)
  rw [same, ← UndoableList.cellsOf_append, ← UndoableList.cellsOf_append]
  exact UndoableList.cellsOf_perm (Record.perm_of_moves record direction _ _ turns.2)

end UndoableLists.Roster
