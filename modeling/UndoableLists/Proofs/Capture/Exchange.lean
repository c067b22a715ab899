import Mathlib.Data.List.Count
import Mathlib.Data.List.Nodup
import Mathlib.Data.List.Perm.Subperm
import UndoableLists.Proofs.Capture.Cells
import UndoableLists.Proofs.Capture.Faults

/-!
The exchange of cells when a record is applied. An exchange that is not refused frees the cells that
leave and takes those that enter, and no cell enters that another context owns. Main statement: the
members that a list has afterwards are those that entered and those that did not leave, each once.
-/
namespace UndoableLists

namespace UndoableList
variable {α : Type} {l m : UndoableList α}

theorem cellsOf_congr (access : m.access = l.access) : m.cellsOf = l.cellsOf := by
  funext items
  rw [cellsOf, access, cellsOf]

theorem cellsOf_append (l : UndoableList α) (xs ys : List α) :
    l.cellsOf (xs ++ ys) = l.cellsOf xs ++ l.cellsOf ys := by
  unfold cellsOf
  cases l.access <;> simp

theorem cellsOf_perm {xs ys : List α} (perm : xs.Perm ys) :
    (l.cellsOf xs).Perm (l.cellsOf ys) := by
  unfold cellsOf
  cases l.access with
  | none => exact .refl _
  | some cell => exact perm.map cell

theorem cellsOf_subperm {xs ys : List α} (subperm : xs.Subperm ys) :
    (l.cellsOf xs).Subperm (l.cellsOf ys) := by
  unfold cellsOf
  cases l.access with
  | none => exact List.nil_subperm
  | some cell =>
    obtain ⟨zs, perm, sub⟩ := subperm
    exact ⟨zs.map cell, perm.map cell, sub.map cell⟩

end UndoableList

def Cell.exchanged {η : Type} (c : Cell η) (parent : Context) (handler : Option η)
    (leaves enters : Bool) : Cell η :=
  let freed := if leaves then c.freedBy parent else c
  if enters then freed.takenBy parent handler else freed

namespace Site
variable {α : Type} {s : Site α} {leaving entering : List CellId} {cells : Cells ListId}
  {notices : List Notice}

structure Exchanged (s : Site α) (leaving entering : List CellId) (cells : Cells ListId) :
    Prop where
  distinct : entering.Nodup
  entrants : ∀ x ∈ entering,
    s.cells.owner x = none ∨ s.cells.owner x = some s.list.context ∧ x ∈ leaving
  leavers : ∀ x ∈ leaving, s.cells.owner x = some s.list.context
  cell : ∀ x, cells.cell x =
    (s.cells.cell x).exchanged s.list.context s.list.handler? (x ∈ leaving) (x ∈ entering)

theorem cell_exchanged (leavers : ∀ x ∈ leaving, s.cells.owner x = some s.list.context)
    (entering : List CellId) (x : CellId) :
    (Cells.captureEach s.list.context s.list.handler? entering
      (Cells.releaseEach s.list.context leaving s.cells).2).2.cell x =
      (s.cells.cell x).exchanged s.list.context s.list.handler? (x ∈ leaving) (x ∈ entering) := by
  rw [Cells.cell_captureEach, Cells.cell_releaseEach]
  have owned : x ∈ leaving ∧ s.cells.owner x = some s.list.context ↔ x ∈ leaving :=
    ⟨And.left, fun leaves => ⟨leaves, leavers x leaves⟩⟩
  simp only [owned]
  by_cases leaves : x ∈ leaving <;> by_cases enters : x ∈ entering <;>
    simp [Cell.exchanged, leaves, enters]

theorem exchanged_of_ok (done : s.exchange leaving entering = .ok (cells, notices)) :
    Exchanged s leaving entering cells := by
  unfold exchange at done
  split at done
  · cases done
  · rename_i passes
    obtain ⟨distinct, entrants⟩ := enteringFault?_eq_none.mp passes
    unfold Cells.freeBatch Cells.takeBatch at done
    split at done
    · cases done
    · rename_i releases
      have leavers := Cells.releaseFault?_eq_none.mp releases
      simp only [bind, Except.bind] at done
      split at done
      · cases done
      · rename_i taken outcome
        split at outcome
        · cases outcome
        · cases outcome
          cases done
          exact ⟨distinct, entrants, leavers, cell_exchanged leavers entering⟩

theorem exchanged_of_transfer {t : Handover α} (given : s.transfer t = .ok (cells, notices)) :
    Exchanged s (s.list.cellsOf t.leaving) (s.list.cellsOf t.entering) cells := by
  unfold transfer at given
  unfold UndoableList.cellsOf
  cases access : s.list.access with
  | none =>
    rw [access] at given
    cases given
    exact ⟨List.nodup_nil, by simp, by simp, fun x => by simp [Cell.exchanged]⟩
  | some cell =>
    simp only [access] at given
    cases outcome : s.exchange (t.leaving.map cell) (t.entering.map cell) with
    | error cause => simp [outcome, Except.mapError] at given
    | ok out =>
      rw [outcome] at given
      cases given
      exact exchanged_of_ok outcome

theorem exchange_of_entrants (distinct : entering.Nodup)
    (leavers : ∀ x ∈ leaving, s.cells.owner x = some s.list.context)
    (entrants : ∀ x ∈ entering,
      s.cells.owner x = none ∨ s.cells.owner x = some s.list.context ∧ x ∈ leaving) :
    ∃ cells notices, s.exchange leaving entering = .ok (cells, notices) := by
  have free : ∀ x ∈ entering,
      (Cells.releaseEach s.list.context leaving s.cells).2.owner x = none := by
    intro x member
    rw [Cells.owner, Cells.cell_releaseEach]
    rcases entrants x member with free | ⟨ours, leaves⟩
    · simp [free, show (s.cells.cell x).owner = none from free]
    · simp [ours, leaves, Cell.freedBy]
  refine ⟨(Cells.captureEach s.list.context s.list.handler? entering
    (Cells.releaseEach s.list.context leaving s.cells).2).2,
    [.batchReleased] ++ entering.map (fun _ => .itemCaptured) ++ [.batchCaptured], ?_⟩
  have passes : enteringFault? s.cells s.list.context leaving [] entering = none :=
    enteringFault?_eq_none.mpr ⟨distinct, entrants⟩
  have freed : s.cells.freeBatch s.list.context leaving =
      .ok (Cells.releaseEach s.list.context leaving s.cells) := by
    rw [Cells.freeBatch, Cells.releaseFault?_eq_none.mpr leavers]
  have taken : (Cells.releaseEach s.list.context leaving s.cells).2.takeBatch s.list.context
      s.list.handler? entering = .ok (Cells.captureEach s.list.context s.list.handler? entering
        (Cells.releaseEach s.list.context leaving s.cells).2) := by
    rw [Cells.takeBatch, Cells.captureFault?_eq_none.mpr fun x member => .inl (free x member)]
  simp only [exchange, passes, freed, bind, Except.bind, taken]
  rfl

end Site

/-- Members before, `lost` and `gained`: the members after are those that were gained and those that
were not lost, each once. -/
theorem members_exchanged {s t lost gained : List CellId} (distinct : s.Nodup)
    (members : lost.Subperm s) (whole : (s ++ gained).Perm (t ++ lost))
    (gains : gained.Nodup) (news : ∀ x ∈ gained, x ∉ s ∨ x ∈ lost) :
    t.Nodup ∧ ∀ x, x ∈ t ↔ x ∈ gained ∨ x ∈ s ∧ x ∉ lost := by
  have once (x : CellId) : t.count x = (if x ∈ gained ∨ x ∈ s ∧ x ∉ lost then 1 else 0) := by
    have sum := List.perm_iff_count.mp whole x
    rw [List.count_append, List.count_append, List.Nodup.count distinct,
      List.Nodup.count gains] at sum
    have few : lost.count x ≤ s.count x := members.count_le x
    rw [List.Nodup.count distinct] at few
    have lost_iff : x ∈ lost ↔ 0 < lost.count x := List.count_pos_iff.symm
    have new := news x
    by_cases here : x ∈ s <;> by_cases gain : x ∈ gained <;>
      simp only [here, gain, ↓reduceIte, lost_iff, true_and, false_and, or_false, true_or,
        false_or, not_true_eq_false, not_false_eq_true, forall_const] at sum few new ⊢ <;>
      (try split) <;> omega
  constructor
  · rw [List.nodup_iff_count_le_one]
    intro x
    rw [once]
    split <;> omega
  · intro x
    rw [← List.count_pos_iff (l := t), once]
    split <;> simp_all

theorem gains_of_distinct {s t lost gained : List CellId} (distinct : t.Nodup)
    (members : lost.Subperm s) (whole : (s ++ gained).Perm (t ++ lost)) :
    gained.Nodup ∧ ∀ x ∈ gained, x ∉ s ∨ x ∈ lost := by
  have sums (x : CellId) :
      s.count x + gained.count x = t.count x + lost.count x ∧ lost.count x ≤ s.count x ∧
        t.count x ≤ 1 := by
    have sum := List.perm_iff_count.mp whole x
    rw [List.count_append, List.count_append] at sum
    exact ⟨sum, members.count_le x, List.nodup_iff_count_le_one.mp distinct x⟩
  constructor
  · rw [List.nodup_iff_count_le_one]
    intro x
    have := sums x
    omega
  · intro x gain
    have := sums x
    have gained := List.count_pos_iff.mpr gain
    by_cases here : x ∈ s
    · have once := List.count_pos_iff.mpr here
      exact .inr (List.count_pos_iff.mp (by omega))
    · exact .inl here

end UndoableLists
