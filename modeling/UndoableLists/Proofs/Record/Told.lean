import UndoableLists.Proofs.Record.Application
import UndoableLists.Proofs.Record.Handover

/-!
What the application of a record tells. Main statements: a record of a list that holds anything at
all tells of a change or of an edit, only one that leaves the store empty tells of a reset, and one
that takes its items from consecutive positions tells of one change at most.
-/
namespace UndoableLists.Record
open Change
variable {α ε : Type} {record : Record α ε} {direction : Direction} {s v : Store α} {t : List α}
  {effects : Effects α ε}

/-- Whether a record holds nothing, so that replaying it would change nothing. -/
def blank : Record α ε → Bool
  | .removeMany _ items => items.isEmpty
  | .clear items => items.isEmpty
  | _ => false

theorem of_telling_ok {edited : Edited α} {changes : List (Change α)} {told : Bool}
    (done : (telling edited changes told : Application α ε) = .ok (v, effects)) :
    edited = .ok v ∧ effects = ⟨changes, []⟩ := by
  unfold telling at done
  split at done
  · cases done
  · split at done
    · cases done
      exact ⟨rfl, rfl⟩
    · cases done

theorem runs_filled {ps : List (Nat × α)} (filled : ps ≠ []) : runs ps ≠ [] := by
  cases ps with
  | nil => exact absurd rfl filled
  | cons p rest =>
    simp only [runs]
    split
    · simp
    · split <;> simp

theorem emptied_of_apply (planned : record.Planned)
    (done : record.apply direction s = .ok (v, effects)) (reset : .reset ∈ effects.changes) :
    v.items = [] := by
  cases record with
  | clear items =>
    cases direction with
    | forward =>
      cases done
      rfl
    | backward =>
      obtain ⟨-, rfl⟩ := of_telling_ok done
      revert reset
      cases items <;> simp
  | composite children =>
    obtain ⟨item, source, target, same⟩ := planned
    rw [same] at done
    cases direction <;>
      · obtain ⟨-, rfl⟩ := of_telling_ok done
        simp at reset
  | itemEdit edit =>
    cases done
    simp at reset
  | _ =>
    cases direction <;>
      · obtain ⟨-, rfl⟩ := of_telling_ok done
        simp at reset

theorem told_of_apply (planned : record.Planned) (filled : record.blank = false)
    (h : record.Moves direction s.items t)
    (done : record.apply direction s = .ok (v, effects)) :
    effects.changes ≠ [] ∨ effects.edits ≠ [] := by
  cases record with
  | removeMany indices items =>
    have lengths : indices.length = items.length := by cases direction <;> exact h.1
    have some : indices.zip items ≠ [] := by
      cases items <;> cases indices <;> simp_all [blank]
    left
    cases direction <;>
      · obtain ⟨-, rfl⟩ := of_telling_ok done
        simpa using runs_filled some
  | clear items =>
    left
    cases direction with
    | forward =>
      cases done
      simp
    | backward =>
      obtain ⟨-, rfl⟩ := of_telling_ok done
      simp_all [blank]
  | composite children =>
    obtain ⟨item, source, target, same⟩ := planned
    rw [same] at done
    left
    cases direction <;>
      · obtain ⟨-, rfl⟩ := of_telling_ok done
        simp
  | itemEdit edit =>
    cases done
    right
    simp
  | _ =>
    left
    cases direction <;>
      · obtain ⟨-, rfl⟩ := of_telling_ok done
        simp

/-- A record that takes several items from consecutive positions, if from several at all. -/
def Compact : Record α ε → Prop
  | .removeMany indices _ => ∃ start count, indices = List.range' start count
  | _ => True

theorem runs_consecutive (items : List α) (start count : Nat) :
    runs ((List.range' start count).zip items) = [] ∨
      ∃ run, runs ((List.range' start count).zip items) = [(start, run)] := by
  induction items generalizing start count with
  | nil =>
    left
    simp [runs]
  | cons item rest ih =>
    cases count with
    | zero =>
      left
      rfl
    | succ count =>
      right
      rw [List.range'_succ, List.zip_cons_cons, runs]
      obtain none | ⟨run, one⟩ := ih (start + 1) count
      · rw [none]
        exact ⟨[item], rfl⟩
      · rw [one]
        exact ⟨item :: run, if_pos rfl⟩

theorem single_of_apply (planned : record.Planned) (compact : record.Compact)
    (done : record.apply direction s = .ok (v, effects)) : effects.changes.length ≤ 1 := by
  cases record with
  | removeMany indices items =>
    obtain ⟨start, count, rfl⟩ := compact
    have single : (runs ((List.range' start count).zip items)).length ≤ 1 := by
      obtain none | ⟨run, one⟩ := runs_consecutive items start count
      · simp [none]
      · simp [one]
    cases direction <;>
      · obtain ⟨-, rfl⟩ := of_telling_ok done
        simpa using single
  | clear items =>
    cases direction with
    | forward =>
      cases done
      simp
    | backward =>
      obtain ⟨-, rfl⟩ := of_telling_ok done
      cases items <;> simp
  | composite children =>
    obtain ⟨item, source, target, same⟩ := planned
    rw [same] at done
    cases direction <;>
      · obtain ⟨-, rfl⟩ := of_telling_ok done
        simp
  | itemEdit edit =>
    cases done
    simp
  | _ =>
    cases direction <;>
      · obtain ⟨-, rfl⟩ := of_telling_ok done
        simp

/-- The changes that a record of a list tells of make what the record leads to. -/
theorem makesAll_of_apply (planned : record.Planned) (h : record.Moves direction s.items t) :
    ∃ changes, record.apply direction s =
        .ok (s.withItems t, ⟨changes, direction.order record.edits⟩) ∧
      MakesAll t changes s.items t ∧
      (record.blank = false → changes ≠ [] ∨ record.edits ≠ []) := by
  obtain ⟨changes, done, makes⟩ := apply_of_moves (coherent_of_planned planned) h
  refine ⟨changes, done, ?_, fun filled => ?_⟩
  · exact makesAll_congr makes t fun reset => (emptied_of_apply planned done reset).symm
  · refine (told_of_apply planned filled h done).imp_right fun edits none => edits ?_
    rw [none]
    cases direction <;> rfl

end UndoableLists.Record
