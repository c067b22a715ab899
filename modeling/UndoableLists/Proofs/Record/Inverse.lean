import UndoableLists.Proofs.Record.Bounds
import UndoableLists.Proofs.Record.Matching

/-!
A record takes back what it did. Main statement: from all contents that a record matches in a
direction, the check and the application succeed in that direction, then in the opposite one, which
restores the contents, and then in the first one again; and the edits of items are called each once,
in the order of the record or in the reverse order.
-/
namespace UndoableLists

def Direction.opposite : Direction → Direction
  | .forward => .backward
  | .backward => .forward

inductive EditCall (ε : Type) where
  | redo (edit : ε)
  | undo (edit : ε)

def Direction.call {ε : Type} (direction : Direction) (edit : ε) : EditCall ε :=
  match direction with
  | .forward => .redo edit
  | .backward => .undo edit

theorem Direction.map_order {β γ : Type} (direction : Direction) (f : β → γ) (xs : List β) :
    (direction.order xs).map f = direction.order (xs.map f) := by
  cases direction with
  | forward => rfl
  | backward => exact List.map_reverse

namespace Record
variable {α ε : Type} {limit : Option Nat}

def editCalls (effects : Effects α ε) (direction : Direction) : List (EditCall ε) :=
  effects.edits.map direction.call

theorem moves_opposite {record : Record α ε} {direction : Direction} {s t : List α}
    (h : record.Moves direction s t) : record.Moves direction.opposite t s := by
  cases direction <;> exact h

theorem within_none (length : Nat) : Within none length := fun _ given => by cases given

theorem length_le_of_moves {record : Record α ε} {direction : Direction} {s t : List α}
    (h : record.Moves direction s t) : t.length ≤ s.length + record.size :=
  least_of_settles (check_settles record direction s.length (regular_of_moves h) (within_none _))
    (check_of_moves record direction s t h)

theorem length_le_of_movesAll {records : List (Record α ε)} {direction : Direction}
    {s t : List α} (h : MovesAll records direction s t) :
    t.length ≤ s.length + sizeOfAll records :=
  least_of_settles (checkAll_settles records direction s.length (regularAll_of_movesAll h)
    (within_none _)) (checkAll_of_moves records direction s t h)

theorem longer_of_none {length count m : Nat} (within : Within limit m)
    (passed : longer none length count = .ok m) : longer limit length count = .ok m := by
  obtain rfl := of_longer_ok passed
  exact longer_within within

theorem put_of_none {index length count m : Nat} (within : Within limit m)
    (passed : (do slot index length; longer none length count) = .ok m) :
    (do slot index length; longer limit length count) = .ok m := by
  obtain ⟨⟨⟩, here, grown⟩ := of_bind_ok passed
  rw [here]
  exact longer_of_none within grown

theorem slots_of_none {indices : List Nat} {length m : Nat} (within : Within limit m)
    (passed : slots none indices length = .ok m) : slots limit indices length = .ok m := by
  induction indices generalizing length with
  | nil => exact passed
  | cons index rest ih =>
    obtain ⟨⟨⟩, here, passed⟩ := of_bind_ok passed
    obtain ⟨k, grown, others⟩ := of_bind_ok passed
    have most : k ≤ m := by
      have := (slots_inside others).1
      omega
    rw [slots, here]
    show (longer limit length 1 >>= slots limit rest) = _
    rw [longer_of_none (within_mono within most) grown]
    exact ih others

theorem check_of_none {record : Record α ε} {direction : Direction} {length m : Nat}
    (single : ∀ children, record ≠ .composite children) (within : Within limit m)
    (passed : record.check none direction length = .ok m) :
    record.check limit direction length = .ok m := by
  match record, direction with
  | .add .., .forward => exact put_of_none within passed
  | .remove .., .backward => exact put_of_none within passed
  | .addMany .., .forward => exact put_of_none within passed
  | .removeMany .., .backward => exact slots_of_none within passed
  | .composite children, _ => exact absurd rfl (single children)
  | .add .., .backward | .remove .., .forward | .addMany .., .backward | .removeMany .., .forward
  | .clear _, .forward | .clear _, .backward | .changeAt .., .forward | .changeAt .., .backward
  | .itemEdit _, .forward | .itemEdit _, .backward => exact passed

mutual

/-- A record is checked there and back; none of the lengths on the way counts more items than there
are at first and in the record. -/
theorem checks_of_moves (record : Record α ε) (direction : Direction) (s t : List α)
    (h : record.Moves direction s t) (within : Within limit (s.length + record.size)) :
    record.check limit direction s.length = .ok t.length ∧
      record.check limit direction.opposite t.length = .ok s.length := by
  have there := check_of_moves record direction s t h
  have back := check_of_moves record direction.opposite t s (moves_opposite h)
  have after : Within limit t.length := within_mono within (length_le_of_moves h)
  have before : Within limit s.length := within_mono within (Nat.le_add_right ..)
  match record with
  | .composite children =>
    rw [check, check]
    exact checkAlls_of_moves children direction s t (by cases direction <;> exact h) within
  | .add .. | .addMany .. | .remove .. | .removeMany .. | .clear .. | .changeAt ..
  | .itemEdit .. =>
    exact ⟨check_of_none (by simp) after there, check_of_none (by simp) before back⟩

theorem checkAlls_of_moves (records : List (Record α ε)) (direction : Direction) (s t : List α)
    (h : MovesAll records direction s t) (within : Within limit (s.length + sizeOfAll records)) :
    checkAll limit records direction s.length = .ok t.length ∧
      checkAll limit records direction.opposite t.length = .ok s.length := by
  match records, direction with
  | [], .forward => simp [checkAll, show s = t from h]
  | [], .backward => simp [checkAll, show t = s from h]
  | child :: rest, .forward =>
    obtain ⟨u, first, others⟩ := h
    rw [sizeOfAll] at within
    have forth : child.Moves .forward s u := first
    have few : u.length ≤ s.length + child.size := length_le_of_moves forth
    obtain ⟨there, back⟩ := checks_of_moves child .forward s u first
      (within_mono within (by omega))
    obtain ⟨onward, returned⟩ := checkAlls_of_moves rest .forward u t others
      (within_mono within (by omega))
    constructor
    · rw [checkAll, there]
      exact onward
    · rw [Direction.opposite] at returned ⊢
      rw [checkAll, returned]
      exact back
  | child :: rest, .backward =>
    obtain ⟨u, first, others⟩ := h
    rw [sizeOfAll] at within
    have back : MovesAll rest .backward s u := others
    have few : u.length ≤ s.length + sizeOfAll rest := length_le_of_movesAll back
    obtain ⟨there, back⟩ := checkAlls_of_moves rest .backward s u others
      (within_mono within (by omega))
    obtain ⟨onward, returned⟩ := checks_of_moves child .backward u t first
      (within_mono within (by omega))
    constructor
    · rw [checkAll, there]
      exact onward
    · rw [Direction.opposite] at returned ⊢
      rw [checkAll, returned]
      exact back

end

theorem shift_back {item : α} {source target : Nat} {s : Store α} {u : List α}
    (taken : Inserts source item u s.items) (room : target ≤ u.length) :
    ∃ t : Store α, t.length = u.length + 1 ∧ shift s source target = .ok t ∧
      shift t target source = .ok s := by
  have put : Inserts target item u (u.insertIdx target item) := ⟨room, rfl⟩
  exact ⟨s.withItems (u.insertIdx target item), length_of_inserts put, shift_of_moved taken put,
    shift_of_moved (s := s.withItems (u.insertIdx target item)) put taken⟩

/-- The application of a record that leads to `x` leaves as many items, and its opposite restores
the store; of a move whose parts name different items, it is the one really there that is moved. -/
theorem applies_of_moves {record : Record α ε} {direction : Direction} {s : Store α} {x : List α}
    (h : record.Moves direction s.items x) :
    ∃ t there back, t.length = x.length ∧ record.apply direction s = .ok (t, there) ∧
      record.apply direction.opposite t = .ok (s, back) ∧
      there.edits = direction.order record.edits ∧
      back.edits = direction.opposite.order record.edits := by
  cases shape : record.move? with
  | none =>
    obtain ⟨changes, done, -⟩ := applyEach_of_moves record direction s x h
    obtain ⟨others, undone, -⟩ := applyEach_of_moves record direction.opposite (s.withItems x)
      s.items (moves_opposite h)
    exact ⟨s.withItems x, _, _, rfl, by simp only [apply, shape]; exact done,
      by simp only [apply, shape]; exact undone, rfl, rfl⟩
  | some move =>
    obtain ⟨item, source, target⟩ := move
    obtain ⟨other, rfl⟩ := of_move? shape
    cases direction with
    | forward =>
      obtain ⟨u, taken, v, put, rfl⟩ := h
      obtain ⟨t, length, there, back⟩ := shift_back taken put.1
      exact ⟨t, _, _, length.trans (length_of_inserts put).symm,
        congrArg (telling · [.move item source target] true) there,
        congrArg (telling · [.move item target source] true) back, rfl, rfl⟩
    | backward =>
      obtain ⟨u, put, v, taken, same⟩ := h
      obtain rfl : v = s.items := same
      obtain ⟨t, length, there, back⟩ := shift_back taken put.1
      exact ⟨t, _, _, length.trans (length_of_inserts put).symm,
        congrArg (telling · [.move item target source] true) there,
        congrArg (telling · [.move item source target] true) back, rfl, rfl⟩

/-- From all contents that a record matches in a direction it is checked and applied in that
direction, then in the opposite one, which restores the contents, and in the first one again, which
leaves the same as the first time. Forward each edit of an item is redone once in the order of the
record, backward undone once in the reverse order. Lengths may be limited: then all items have to
be counted. -/
theorem apply_opposite {record : Record α ε} {direction : Direction} {s : Store α}
    (h : record.Matches direction s) (within : Within limit (s.length + record.size)) :
    ∃ t there back,
      record.check limit direction s.length = .ok t.length ∧
      record.apply direction s = .ok (t, there) ∧
      record.check limit direction.opposite t.length = .ok s.length ∧
      record.apply direction.opposite t = .ok (s, back) ∧
      thenApply (thenApply (record.apply direction s) (record.apply direction.opposite))
        (record.apply direction) = .ok (t, there ++ back ++ there) ∧
      editCalls there direction = direction.order (record.edits.map direction.call) ∧
      editCalls back direction.opposite =
        direction.opposite.order (record.edits.map direction.opposite.call) := by
  obtain ⟨x, moves⟩ := moves_of_matches record direction s h
  obtain ⟨t, there, back, length, done, undone, called, recalled⟩ := applies_of_moves moves
  obtain ⟨passed, returned⟩ := checks_of_moves record direction s.items x moves within
  rw [← length] at passed returned
  refine ⟨t, there, back, passed, done, returned, undone, ?_, ?_, ?_⟩
  · simp only [thenApply, done, undone]
  · rw [editCalls, called, Direction.map_order]
  · rw [editCalls, recalled, Direction.map_order]

/-- Three items from two runs and one replaced by a removal and an addition, with edits before and
after, from contents of four and from the one item that is left. -/
theorem apply_opposite_nested :
    let record : Record Nat Nat := .composite [.removeMany [0, 2, 3] [5, 7, 8], .itemEdit 1,
      .composite [.remove 0 6, .add 0 4], .itemEdit 2]
    let before : Store Nat := ⟨[5, 6, 7, 8], false, .splice⟩
    let after : Store Nat := ⟨[4], false, .oneByOne⟩
    (∃ t there back, record.apply .forward before = .ok (t, there) ∧
      record.apply .backward t = .ok (before, back) ∧
      editCalls there .forward = [.redo 1, .redo 2] ∧
      editCalls back .backward = [.undo 2, .undo 1]) ∧
    ∃ t back there, record.apply .backward after = .ok (t, back) ∧
      record.apply .forward t = .ok (after, there) ∧
      editCalls back .backward = [.undo 2, .undo 1] ∧
      editCalls there .forward = [.redo 1, .redo 2] := by
  intro record before after
  have forth : record.Matches .forward before :=
    ⟨⟨by decide, rfl⟩, _, _, rfl, trivial, _, _, rfl,
      ⟨rfl, _, _, rfl, Nat.le_refl 0, _, _, rfl, trivial⟩, _, _, rfl, trivial, _, _, rfl, trivial⟩
  have room : ∀ k i, [0, 2, 3][k]? = some i → i ≤ 1 + k := by
    intro k i here
    match k with
    | 0 | 1 | 2 => cases here; decide
    | k + 3 => cases here
  have reverse : record.Matches .backward after :=
    ⟨⟨⟨⟨trivial, _, _, rfl, trivial⟩, _, _, rfl, ⟨⟨trivial, _, _, rfl, rfl⟩, _, _, rfl,
      Nat.le_refl 0⟩⟩, _, _, rfl, trivial⟩, _, _, rfl, by decide, rfl, room⟩
  have within : Within (some words) (before.length + record.size) := by
    rintro _ ⟨⟩
    decide
  obtain ⟨t, there, back, -, done, -, undone, -, called, recalled⟩ := apply_opposite forth within
  obtain ⟨u, back', there', -, done', -, undone', -, called', recalled'⟩ :=
    apply_opposite reverse (within_mono within (by decide))
  exact ⟨⟨t, there, back, done, undone, called, recalled⟩,
    u, back', there', done', undone', called', recalled'⟩

end Record

end UndoableLists
