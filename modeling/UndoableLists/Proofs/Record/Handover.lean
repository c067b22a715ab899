import Mathlib.Data.List.Count
import Mathlib.Data.List.Perm.Subperm
import UndoableLists.Proofs.Record.Leads

/-!
Who leaves and who enters. The contents after a record are the contents before it, less the items
that leave and with the items that enter; and a record as lists make them only gives up members.
-/
namespace UndoableLists.Record
variable {α ε : Type}

/-- The records that mutations of a list come to: of composites only moves. -/
def Planned : Record α ε → Prop
  | .composite children =>
    ∃ item source target, (Record.composite children : Record α ε) = .moved item source target
  | _ => True

theorem coherent_of_planned {record : Record α ε} (planned : record.Planned) :
    record.Coherent := by
  intro item source target shape
  cases record with
  | composite children =>
    obtain ⟨_, _, _, same⟩ := planned
    rw [same] at shape ⊢
    cases shape
    rfl
  | _ => simp [move?] at shape

theorem perm_of_inserts {index : Nat} {item : α} {s t : List α} (h : Inserts index item s t) :
    (s ++ [item]).Perm t := by
  obtain ⟨inside, rfl⟩ := h
  exact (List.perm_append_singleton item s).trans (List.perm_insertIdx item s inside).symm

theorem perm_of_extracts {ps : List (Nat × α)} {s t : List α} (h : Extracts ps s t) :
    s.Perm (ps.map (·.2) ++ t) := by
  induction ps generalizing t with
  | nil => simp [show s = t from h]
  | cons p rest ih =>
    obtain ⟨_, u, first, others⟩ := h
    have front : u.Perm (p.2 :: t) :=
      (perm_of_inserts first).symm.trans (List.perm_append_singleton p.2 t)
    exact (ih others).trans ((front.append_left _).trans List.perm_middle)

theorem perm_of_changed {index : Nat} {old new : α} {s : List α}
    (present : s[index]? = some old) : (s ++ [new]).Perm (s.set index new ++ [old]) := by
  obtain ⟨inside, rfl⟩ := List.getElem?_eq_some_iff.mp present
  have split : s = s.take index ++ s[index] :: s.drop (index + 1) := by simp
  have changed : s.set index new = s.take index ++ new :: s.drop (index + 1) := by
    rw [List.set_eq_take_append_cons_drop, if_pos inside]
  classical
  rw [List.perm_iff_count]
  intro a
  rw [changed]
  conv => lhs; rw [split]
  simp only [List.count_append, List.count_cons, List.count_nil]
  omega

theorem perm_in_turn {s u t gained lost gained' lost' : List α}
    (first : (s ++ gained).Perm (u ++ lost)) (second : (u ++ gained').Perm (t ++ lost')) :
    (s ++ (gained ++ gained')).Perm (t ++ (lost ++ lost')) := by
  classical
  rw [List.perm_iff_count] at *
  intro a
  have one := first a
  have two := second a
  simp only [List.count_append] at *
  omega

mutual

/-- What is there before a record and what enters is what is there after it and what leaves. -/
theorem perm_of_moves (record : Record α ε) (direction : Direction) (s t : List α)
    (h : record.Moves direction s t) :
    (s ++ (record.handover direction).entering).Perm
      (t ++ (record.handover direction).leaving) := by
  match record, direction with
  | .add index item, .forward => simpa [handover, exchange] using perm_of_inserts h
  | .add index item, .backward => simpa [handover, exchange] using (perm_of_inserts h).symm
  | .remove index item, .forward => simpa [handover, exchange] using (perm_of_inserts h).symm
  | .remove index item, .backward => simpa [handover, exchange] using perm_of_inserts h
  | .addMany index items, .forward =>
    obtain ⟨front, back, _, rfl, rfl⟩ := h
    simpa [handover, exchange] using List.perm_append_comm.append_left front
  | .addMany index items, .backward =>
    obtain ⟨front, back, _, rfl, rfl⟩ := h
    simpa [handover, exchange] using List.perm_append_comm.append_left front
  | .removeMany indices items, .forward =>
    obtain ⟨lengths, taken⟩ := h
    have lost := perm_of_extracts taken
    rw [List.map_snd_zip (by omega)] at lost
    simpa [handover, exchange] using lost.trans List.perm_append_comm
  | .removeMany indices items, .backward =>
    obtain ⟨lengths, taken⟩ := h
    have lost := perm_of_extracts taken
    rw [List.map_snd_zip (by omega)] at lost
    simpa [handover, exchange] using List.perm_append_comm.trans lost.symm
  | .clear items, .forward =>
    obtain ⟨rfl, rfl⟩ := h
    simp [handover, exchange]
  | .clear items, .backward =>
    obtain ⟨rfl, rfl⟩ := h
    simp [handover, exchange]
  | .changeAt index old new, .forward =>
    obtain ⟨present, rfl⟩ := h
    simpa [handover, exchange] using perm_of_changed present
  | .changeAt index old new, .backward =>
    obtain ⟨present, rfl⟩ := h
    simpa [handover, exchange] using (perm_of_changed present).symm
  | .composite children, .forward => exact perm_of_movesAll children .forward s t h
  | .composite children, .backward => exact perm_of_movesAll children .backward s t h
  | .itemEdit edit, .forward =>
    obtain rfl : s = t := h
    simp [handover]
  | .itemEdit edit, .backward =>
    obtain rfl : t = s := h
    simp [handover]

theorem perm_of_movesAll (records : List (Record α ε)) (direction : Direction) (s t : List α)
    (h : MovesAll records direction s t) :
    (s ++ (handoverAll records direction).entering).Perm
      (t ++ (handoverAll records direction).leaving) := by
  match records, direction with
  | [], .forward =>
    obtain rfl : s = t := h
    simp [handoverAll]
  | [], .backward =>
    obtain rfl : t = s := h
    simp [handoverAll]
  | child :: rest, .forward =>
    obtain ⟨u, first, others⟩ := h
    exact perm_in_turn (perm_of_moves child .forward s u first)
      (perm_of_movesAll rest .forward u t others)
  | child :: rest, .backward =>
    obtain ⟨u, first, others⟩ := h
    exact perm_in_turn (perm_of_movesAll rest .backward s u others)
      (perm_of_moves child .backward u t first)

end

theorem subperm_of_losses {s t lost : List α} (only : (s ++ []).Perm (t ++ lost)) :
    lost.Subperm s := by
  rw [List.append_nil] at only
  exact (List.sublist_append_right t lost).subperm.trans only.symm.subperm

theorem leaving_subperm {record : Record α ε} {direction : Direction} {s t : List α}
    (planned : record.Planned) (h : record.Moves direction s t) :
    (record.handover direction).leaving.Subperm s := by
  have whole := perm_of_moves record direction s t h
  match record, direction with
  | .add .., .forward => exact List.nil_subperm
  | .addMany .., .forward => exact List.nil_subperm
  | .remove .., .backward => exact List.nil_subperm
  | .removeMany .., .backward => exact List.nil_subperm
  | .clear _, .backward => exact List.nil_subperm
  | .itemEdit _, _ => exact List.nil_subperm
  | .add .., .backward => exact subperm_of_losses whole
  | .addMany .., .backward => exact subperm_of_losses whole
  | .remove .., .forward => exact subperm_of_losses whole
  | .removeMany .., .forward => exact subperm_of_losses whole
  | .clear _, .forward => exact subperm_of_losses whole
  | .changeAt index old new, .forward =>
    exact List.singleton_subperm_iff.mpr (List.mem_of_getElem? h.1)
  | .changeAt index old new, .backward =>
    obtain ⟨present, rfl⟩ := h
    have inside := (List.getElem?_eq_some_iff.mp present).1
    exact List.singleton_subperm_iff.mpr (List.mem_set inside new)
  | .composite children, direction =>
    obtain ⟨item, source, target, same⟩ := planned
    rw [same] at h ⊢
    cases direction with
    | forward =>
      obtain ⟨u, taken, _⟩ := h
      exact List.singleton_subperm_iff.mpr (List.mem_of_getElem? (inserts_iff_taken.mp taken).1)
    | backward =>
      obtain ⟨u, _, v, put, same⟩ := h
      obtain rfl : v = s := same
      exact List.singleton_subperm_iff.mpr (List.mem_of_getElem? (inserts_iff_taken.mp put).1)

end UndoableLists.Record
