import UndoableLists.Proofs.Record.Changes

/-!
Checking and applying a record that fits. Main statements: a record passes its check in either
direction, with the right length, on the contents it leads from in that direction, and applying it
there leaves the contents it leads to and tells the changes that make them.
-/
namespace UndoableLists.Record
open Change
variable {α ε : Type}

theorem slot_inside {index length : Nat} (inside : index ≤ length) :
    slot index length = .ok () := by
  simp [slot, inside]

theorem member_inside {index length : Nat} (inside : index < length) :
    member index length = .ok () := by
  simp [member, inside]

theorem slots_of_extracts {ps : List (Nat × α)} {s t : List α} (h : Extracts ps s t) :
    slots none (ps.map (·.1)) t.length = .ok s.length := by
  induction ps generalizing t with
  | nil => simp [slots, show s = t from h]
  | cons p rest ih =>
    obtain ⟨_, u, first, others⟩ := h
    have next := ih others
    rw [length_of_inserts first] at next
    simpa [slots, slot_inside first.1, longer, bind, Except.bind] using next

theorem check_put {index : Nat} {item : α} {s t : List α} (h : Inserts index item s t) :
    (do slot index s.length; longer none s.length 1) = .ok t.length := by
  rw [slot_inside h.1, length_of_inserts h]
  rfl

theorem check_drop {index : Nat} {item : α} {s t : List α} (h : Inserts index item t s) :
    (do member index s.length; shorter s.length 1) = .ok t.length := by
  have inside := h.1
  rw [length_of_inserts h, member_inside (by omega)]
  simp [bind, Except.bind, shorter]

theorem check_removeMany {indices : List Nat} {items s t : List α}
    (h : (Record.removeMany indices items : Record α ε).Leads s t) :
    (Record.removeMany indices items : Record α ε).check none .forward s.length = .ok t.length ∧
      (Record.removeMany indices items : Record α ε).check none .backward t.length =
        .ok s.length := by
  obtain ⟨lengths, taken⟩ := h
  have positions : (indices.zip items).map (·.1) = indices := List.map_fst_zip (by omega)
  have total := length_of_extracts taken
  rw [List.length_zip, ← lengths, Nat.min_self] at total
  constructor
  · rw [check]
    cases final : indices.getLast? with
    | none =>
      rw [List.getLast?_eq_none_iff] at final
      subst final
      simpa using total
    | some last =>
      have inside := last_inside_of_extracts taken (positions ▸ final)
      rw [total] at inside ⊢
      simp [member_inside inside, bind, Except.bind, shorter]
  · rw [check, ← positions]
    exact slots_of_extracts taken

mutual

theorem check_of_moves (record : Record α ε) (direction : Direction) (s t : List α)
    (h : record.Moves direction s t) : record.check none direction s.length = .ok t.length := by
  match record, direction with
  | .add index item, .forward => exact check_put h
  | .add index item, .backward => exact check_drop h
  | .remove index item, .forward => exact check_drop h
  | .remove index item, .backward => exact check_put h
  | .addMany index items, .forward =>
    obtain ⟨front, back, rfl, rfl, rfl⟩ := h
    simp [check, slot, longer, bind, Except.bind]
    omega
  | .addMany index items, .backward =>
    obtain ⟨front, back, rfl, rfl, rfl⟩ := h
    simp [check]
    omega
  | .removeMany indices items, .forward => exact (check_removeMany h).1
  | .removeMany indices items, .backward => exact (check_removeMany h).2
  | .clear items, .forward =>
    obtain ⟨rfl, rfl⟩ := h
    simp [check]
  | .clear items, .backward =>
    obtain ⟨rfl, rfl⟩ := h
    simp [check]
  | .changeAt index old new, .forward =>
    obtain ⟨present, rfl⟩ := h
    have inside := (List.getElem?_eq_some_iff.mp present).1
    simp [check, member_inside inside, bind, Except.bind, pure, Except.pure]
  | .changeAt index old new, .backward =>
    obtain ⟨present, rfl⟩ := h
    have inside := (List.getElem?_eq_some_iff.mp present).1
    simp [check, member_inside inside, bind, Except.bind, pure, Except.pure]
  | .composite children, .forward => exact checkAll_of_moves children .forward s t h
  | .composite children, .backward => exact checkAll_of_moves children .backward s t h
  | .itemEdit edit, .forward => simp [check, show s = t from h]
  | .itemEdit edit, .backward => simp [check, show t = s from h]

theorem checkAll_of_moves (records : List (Record α ε)) (direction : Direction) (s t : List α)
    (h : MovesAll records direction s t) :
    checkAll none records direction s.length = .ok t.length := by
  match records, direction with
  | [], .forward => simp [checkAll, show s = t from h]
  | [], .backward => simp [checkAll, show t = s from h]
  | child :: rest, .forward =>
    obtain ⟨u, first, others⟩ := h
    rw [checkAll, check_of_moves child .forward s u first]
    exact checkAll_of_moves rest .forward u t others
  | child :: rest, .backward =>
    obtain ⟨u, first, others⟩ := h
    rw [checkAll, checkAll_of_moves rest .backward s u others]
    exact check_of_moves child .backward u t first

end

theorem putAt_of_inserts {index : Nat} {item : α} {s : Store α} {t : List α}
    (h : Inserts index item s.items t) :
    (putAt s index item : Application α ε) =
      .ok (s.withItems t, ⟨[.add index [item]], []⟩) := by
  simp [putAt, insert?_of_inserts h, once, telling]

theorem dropAt_of_inserts {index : Nat} {item : α} {s : Store α} {t : List α}
    (h : Inserts index item t s.items) :
    (dropAt s index item : Application α ε) =
      .ok (s.withItems t, ⟨[.remove index [item]], []⟩) := by
  simp [dropAt, remove?_of_inserts h, once, telling]

theorem swapAt_of_present {index : Nat} {old new : α} {s : Store α}
    (present : s.items[index]? = some old) :
    (swapAt s index old new : Application α ε) =
      .ok (s.withItems (s.items.set index new), ⟨[.replace index old new], []⟩) := by
  simp [swapAt, Store.replace?, present, once, telling, Store.withItems]

theorem removeEach_run (s : Store α) (front items back : List α)
    (here : s.items = front ++ items ++ back) :
    removeEach s ((List.range items.length).map (front.length + ·)).reverse =
      .ok (s.withItems (front ++ back)) := by
  have taken := removeEach_of_extracts (here ▸ extracts_between front items back)
  rwa [List.map_fst_zip (by simp), List.range'_eq_map_range] at taken

mutual

/-- A record that fits is applied as a whole: the store holds what the record leads to, the changes
say so, and the edits it holds are to be replayed, each once. -/
theorem applyEach_of_moves (record : Record α ε) (direction : Direction) (s : Store α)
    (t : List α) (h : record.Moves direction s.items t) :
    ∃ changes, record.applyEach direction s =
        .ok (s.withItems t, ⟨changes, direction.order record.edits⟩) ∧
      MakesAll [] changes s.items t := by
  match record, direction with
  | .add index item, .forward =>
    exact ⟨_, putAt_of_inserts h, makesAll_single (splices_of_inserts h)⟩
  | .add index item, .backward =>
    exact ⟨_, dropAt_of_inserts h, makesAll_single (splices_of_inserts h)⟩
  | .remove index item, .forward =>
    exact ⟨_, dropAt_of_inserts h, makesAll_single (splices_of_inserts h)⟩
  | .remove index item, .backward =>
    exact ⟨_, putAt_of_inserts h, makesAll_single (splices_of_inserts h)⟩
  | .addMany index items, .forward =>
    refine ⟨[.add index items], ?_, makesAll_single h⟩
    obtain ⟨front, back, rfl, here, rfl⟩ := h
    rw [applyEach, insertMany?_between s front back items here]
    rfl
  | .addMany index items, .backward =>
    refine ⟨[.remove index items], ?_, makesAll_single h⟩
    obtain ⟨front, back, rfl, rfl, here⟩ := h
    rw [applyEach, removeEach_run s front items back here]
    rfl
  | .removeMany indices items, .forward =>
    obtain ⟨lengths, taken⟩ := h
    have done := removeEach_of_extracts taken
    rw [List.map_fst_zip (by omega)] at done
    exact ⟨_, by rw [applyEach, done, decide_eq_true (Nat.le_of_eq lengths)]; rfl,
      makesAll_removed (fills_of_extracts taken)⟩
  | .removeMany indices items, .backward =>
    obtain ⟨lengths, taken⟩ := h
    have done := insertPairs_of_extracts taken
    exact ⟨_, by rw [applyEach, done, decide_eq_true (Nat.le_of_eq lengths)]; rfl,
      makesAll_added (fills_of_extracts taken)⟩
  | .clear items, .forward =>
    obtain ⟨_, rfl⟩ := h
    exact ⟨_, rfl, makesAll_single rfl⟩
  | .clear items, .backward =>
    obtain ⟨rfl, here⟩ := h
    have filled := insertMany?_between s [] [] t here
    rw [List.nil_append, List.append_nil, List.length_nil] at filled
    refine ⟨_, by rw [applyEach, filled]; rfl, ?_⟩
    split
    · rename_i empty
      exact here.trans (List.isEmpty_iff.mp empty).symm
    · exact makesAll_single ⟨[], [], rfl, here, (List.append_nil _).symm⟩
  | .changeAt index old new, .forward =>
    obtain ⟨present, rfl⟩ := h
    exact ⟨[.replace index old new], swapAt_of_present present, makesAll_single ⟨present, rfl⟩⟩
  | .changeAt index old new, .backward =>
    obtain ⟨present, here⟩ := h
    have inside := (List.getElem?_eq_some_iff.mp present).1
    have changed : s.items[index]? = some new := by simp [here, inside]
    have restored : s.items.set index old = t := by
      rw [here, List.set_set]
      exact (List.set_getElem_self inside) ▸ by simp [(List.getElem?_eq_some_iff.mp present).2]
    exact ⟨[.replace index new old], by rw [applyEach, swapAt_of_present changed, restored]; rfl,
      makesAll_single ⟨changed, restored.symm⟩⟩
  | .composite children, direction =>
    exact applyAll_of_moves children direction s t (by cases direction <;> exact h)
  | .itemEdit edit, .forward =>
    obtain rfl : s.items = t := h
    exact ⟨[], rfl, rfl⟩
  | .itemEdit edit, .backward =>
    obtain rfl : t = s.items := h
    exact ⟨[], rfl, rfl⟩

theorem applyAll_of_moves (records : List (Record α ε)) (direction : Direction) (s : Store α)
    (t : List α) (h : MovesAll records direction s.items t) :
    ∃ changes, applyAll records direction s =
        .ok (s.withItems t, ⟨changes, direction.order (editsOfAll records)⟩) ∧
      MakesAll [] changes s.items t := by
  match records, direction with
  | [], .forward =>
    obtain rfl : s.items = t := h
    exact ⟨[], rfl, rfl⟩
  | [], .backward =>
    obtain rfl : t = s.items := h
    exact ⟨[], rfl, rfl⟩
  | child :: rest, .forward =>
    obtain ⟨u, first, others⟩ := h
    obtain ⟨_, done, makes⟩ := applyEach_of_moves child .forward s u first
    obtain ⟨_, more, makesMore⟩ := applyAll_of_moves rest .forward (s.withItems u) t others
    exact ⟨_, by rw [applyAll, done, thenApply, more]; rfl, makesAll_append makes makesMore⟩
  | child :: rest, .backward =>
    obtain ⟨u, first, others⟩ := h
    obtain ⟨_, done, makes⟩ := applyAll_of_moves rest .backward s u others
    obtain ⟨_, more, makesMore⟩ := applyEach_of_moves child .backward (s.withItems u) t first
    have reversed : Direction.backward.order (editsOfAll (child :: rest)) =
        (editsOfAll rest).reverse ++ (edits child).reverse := by
      simp only [editsOfAll, Direction.order, List.reverse_append]
    exact ⟨_, by rw [applyAll, done, thenApply, more, reversed]; rfl,
      makesAll_append makes makesMore⟩

end

theorem shift_of_moved {item : α} {source target : Nat} {s : Store α} {t u : List α}
    (taken : Inserts source item u s.items) (put : Inserts target item u t) :
    shift s source target = .ok (s.withItems t) := by
  rw [shift, remove?_of_inserts taken]
  dsimp only
  rw [insert?_of_inserts (s := s.withItems u) put]
  rfl

theorem apply_of_moves {record : Record α ε} {direction : Direction} {s : Store α} {t : List α}
    (coherent : record.Coherent) (h : record.Moves direction s.items t) :
    ∃ changes, record.apply direction s =
        .ok (s.withItems t, ⟨changes, direction.order record.edits⟩) ∧
      MakesAll [] changes s.items t := by
  cases shape : record.move? with
  | none =>
    obtain ⟨changes, done, makes⟩ := applyEach_of_moves record direction s t h
    exact ⟨changes, by simp only [apply, shape]; exact done, makes⟩
  | some move =>
    obtain ⟨item, source, target⟩ := move
    obtain rfl := coherent item source target shape
    cases direction with
    | forward =>
      obtain ⟨u, taken, v, put, same⟩ := h
      obtain rfl : v = t := same
      exact ⟨[.move item source target], by simp only [apply, shape, shift_of_moved taken put]; rfl,
        makesAll_single ⟨u, taken, put⟩⟩
    | backward =>
      obtain ⟨u, taken, v, put, same⟩ := h
      obtain rfl : v = s.items := same
      exact ⟨[.move item target source], by simp only [apply, shape, shift_of_moved put taken]; rfl,
        makesAll_single ⟨u, put, taken⟩⟩

end UndoableLists.Record
