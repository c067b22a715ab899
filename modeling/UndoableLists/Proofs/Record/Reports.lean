import UndoableLists.Proofs.Record.Matching
import UndoableLists.Proofs.Record.Told

/-!
What the changes of an application say. The store is edited position by position, while the changes
are told by blocks, each relative to what those before it have left. Main statement: on contents
that a record matches, the changes that its application tells make of these contents those that it
leaves, items taken out at several positions are told by maximal runs, and items count as edited
just when the record holds an edit at some depth.
-/
namespace UndoableLists.Record
open Change
variable {α ε : Type}

/-- The blocks are the maximal runs of items at ascending positions: the positions of a block follow
each other, and between two blocks there is a gap. -/
def MaximalRuns (ps : List (Nat × α)) (blocks : List (Nat × List α)) : Prop :=
  (∀ block ∈ blocks, block.2 ≠ []) ∧
  blocks.flatMap (fun block => (List.range' block.1 block.2.length).zip block.2) = ps ∧
  blocks.Pairwise fun a b => a.1 + a.2.length < b.1

mutual

/-- How the changes of a record that is applied child by child are cut: an item or a run of items at
a time, the highest run first forward, the lowest first backward, and the children in turn. -/
def Tells : Record α ε → Direction → List (Change α) → Prop
  | .removeMany indices items, .forward, changes => ∃ blocks,
    MaximalRuns (indices.zip items) blocks ∧
      changes = (blocks.map fun (i, xs) => .remove i xs).reverse
  | .removeMany indices items, .backward, changes => ∃ blocks,
    MaximalRuns (indices.zip items) blocks ∧ changes = blocks.map fun (i, xs) => .add i xs
  | .composite children, direction, changes => TellsAll children direction changes
  | .itemEdit _, _, changes => changes = []
  | _, _, changes => changes.length ≤ 1

def TellsAll : List (Record α ε) → Direction → List (Change α) → Prop
  | [], _, changes => changes = []
  | child :: rest, .forward, changes => ∃ first others,
    changes = first ++ others ∧ Tells child .forward first ∧ TellsAll rest .forward others
  | child :: rest, .backward, changes => ∃ others last,
    changes = others ++ last ∧ TellsAll rest .backward others ∧ Tells child .backward last

end

def moving (direction : Direction) (item : α) (source target : Nat) : Change α :=
  match direction with
  | .forward => .move item source target
  | .backward => .move item target source

inductive Contains (edit : ε) : Record α ε → Prop
  | here : Contains edit (.itemEdit edit)
  | within {child : Record α ε} {children : List (Record α ε)} (member : child ∈ children)
    (inside : Contains edit child) : Contains edit (.composite children)

theorem pairs_cons (index : Nat) (item : α) (items : List α) :
    (List.range' index (item :: items).length).zip (item :: items) =
      (index, item) :: (List.range' (index + 1) items.length).zip items := by
  rw [List.length_cons, List.range'_succ, List.zip_cons_cons]

theorem maximalRuns_runs {ps : List (Nat × α)}
    (ascending : (ps.map (·.1)).Pairwise (· < ·)) : MaximalRuns ps (runs ps) := by
  induction ps with
  | nil => exact ⟨by simp [runs], rfl, .nil⟩
  | cons p rest ih =>
    obtain ⟨index, item⟩ := p
    obtain ⟨filled, whole, gaps⟩ := ih ascending.of_cons
    rw [runs]
    split
    · rename_i none
      rw [none] at whole
      obtain rfl : [] = rest := whole
      exact ⟨by simp, by simp, List.pairwise_singleton ..⟩
    · rename_i next items more found
      rw [found] at filled whole gaps
      obtain ⟨first, others⟩ := List.pairwise_cons.mp gaps
      rw [List.flatMap_cons] at whole
      split
      · rename_i consecutive
        subst consecutive
        refine ⟨?_, ?_, ?_⟩
        · exact List.forall_mem_cons.mpr ⟨by simp, fun block member =>
            filled block (List.mem_cons_of_mem _ member)⟩
        · rw [List.flatMap_cons, pairs_cons, List.cons_append, whole]
        · refine List.pairwise_cons.mpr ⟨fun block member => ?_, others⟩
          have gap : index + 1 + items.length < block.1 := first block member
          rw [List.length_cons]
          omega
      · rename_i apart
        -- the first of the next run stands above the position and does not follow it
        have above : index < next := by
          cases items with
          | nil => exact absurd rfl (filled _ List.mem_cons_self)
          | cons head items =>
            rw [pairs_cons, List.cons_append] at whole
            rw [← whole] at ascending
            exact List.rel_of_pairwise_cons ascending List.mem_cons_self
        refine ⟨?_, ?_, ?_⟩
        · exact List.forall_mem_cons.mpr ⟨by simp, filled⟩
        · rw [List.flatMap_cons, List.flatMap_cons, whole]
          rfl
        · refine List.pairwise_cons.mpr
            ⟨List.forall_mem_cons.mpr ⟨?_, fun block member => ?_⟩, gaps⟩
          · show index + 1 < next
            omega
          · have gap : next + items.length < block.1 := first block member
            show index + 1 < block.1
            omega

theorem of_thenApply_ok {first : Application α ε} {next : Store α → Application α ε} {t : Store α}
    {effects : Effects α ε} (done : thenApply first next = .ok (t, effects)) :
    ∃ u begun more, first = .ok (u, begun) ∧ next u = .ok (t, more) ∧ effects = begun ++ more := by
  unfold thenApply at done
  split at done
  · cases done
  · rename_i u begun
    split at done
    · rename_i v more onward
      cases done
      exact ⟨u, begun, more, rfl, onward, rfl⟩
    · cases done

theorem changes_of_telling {edited : Edited α} {changes : List (Change α)} {told : Bool}
    {t : Store α} {effects : Effects α ε}
    (done : (telling edited changes told : Application α ε) = .ok (t, effects)) :
    effects.changes = changes :=
  congrArg Effects.changes (of_telling_ok done).2

theorem single_of_telling {edited : Edited α} {change : Change α} {t : Store α}
    {effects : Effects α ε} (done : telling edited [change] true = .ok (t, effects)) :
    effects.changes.length ≤ 1 := by
  rw [changes_of_telling done]
  exact Nat.le_refl 1

theorem maximalRuns_of_regular {indices : List Nat} {items : List α}
    (regular : (Record.removeMany indices items : Record α ε).Regular) :
    MaximalRuns (indices.zip items) (runs (indices.zip items)) := by
  refine maximalRuns_runs ?_
  rw [List.map_fst_zip (Nat.le_of_eq regular.2)]
  exact regular.1

mutual

/-- A record that is applied child by child tells each of its steps in its own changes. -/
theorem tells_of_applyEach (record : Record α ε) (direction : Direction) (s t : Store α)
    (effects : Effects α ε) (regular : record.Regular)
    (done : record.applyEach direction s = .ok (t, effects)) :
    record.Tells direction effects.changes := by
  match record, direction with
  | .removeMany indices items, .forward =>
    exact ⟨_, maximalRuns_of_regular regular, changes_of_telling done⟩
  | .removeMany indices items, .backward =>
    exact ⟨_, maximalRuns_of_regular regular, changes_of_telling done⟩
  | .composite children, direction =>
    exact tellsAll_of_applyAll children direction s t effects regular done
  | .itemEdit edit, direction =>
    cases done
    exact rfl
  | .clear items, .backward =>
    have told := changes_of_telling done
    show effects.changes.length ≤ 1
    rw [told]
    split <;> simp
  | .clear items, .forward =>
    cases done
    exact Nat.le_refl 1
  | .add .., .forward | .add .., .backward | .addMany .., .forward | .addMany .., .backward
  | .remove .., .forward | .remove .., .backward | .changeAt .., .forward
  | .changeAt .., .backward => exact single_of_telling done

theorem tellsAll_of_applyAll (records : List (Record α ε)) (direction : Direction)
    (s t : Store α) (effects : Effects α ε) (regular : RegularAll records)
    (done : applyAll records direction s = .ok (t, effects)) :
    TellsAll records direction effects.changes := by
  match records, direction with
  | [], direction =>
    cases done
    exact rfl
  | child :: rest, .forward =>
    obtain ⟨u, begun, more, first, others, rfl⟩ := of_thenApply_ok done
    exact ⟨begun.changes, more.changes, rfl,
      tells_of_applyEach child .forward s u begun regular.1 first,
      tellsAll_of_applyAll rest .forward u t more regular.2 others⟩
  | child :: rest, .backward =>
    obtain ⟨u, begun, more, others, last, rfl⟩ := of_thenApply_ok done
    exact ⟨begun.changes, more.changes, rfl,
      tellsAll_of_applyAll rest .backward s u begun regular.2 others,
      tells_of_applyEach child .backward u t more regular.1 last⟩

end

mutual

theorem mem_edits_iff (record : Record α ε) (edit : ε) :
    edit ∈ record.edits ↔ record.Contains edit := by
  match record with
  | .itemEdit other =>
    rw [edits, List.mem_singleton]
    constructor
    · rintro rfl
      exact .here
    · rintro ⟨⟩
      rfl
  | .composite children =>
    rw [edits, mem_editsOfAll_iff children edit]
    constructor
    · rintro ⟨child, member, inside⟩
      exact .within member inside
    · rintro (_ | ⟨member, inside⟩)
      exact ⟨_, member, inside⟩
  | .add .. | .addMany .. | .remove .. | .removeMany .. | .clear .. | .changeAt .. =>
    exact ⟨fun member => by simp [edits] at member, fun inside => by cases inside⟩

theorem mem_editsOfAll_iff (records : List (Record α ε)) (edit : ε) :
    edit ∈ editsOfAll records ↔ ∃ child ∈ records, child.Contains edit := by
  match records with
  | [] => simp [editsOfAll]
  | child :: rest =>
    rw [editsOfAll, List.mem_append, mem_edits_iff child edit, mem_editsOfAll_iff rest edit]
    simp

end

theorem editsItems_iff {record : Record α ε} {direction : Direction} {effects : Effects α ε}
    (held : effects.edits = direction.order record.edits) :
    effects.editsItems = true ↔ ∃ edit, record.Contains edit := by
  have some : effects.editsItems = true ↔ record.edits ≠ [] := by
    rw [Effects.editsItems, held]
    cases direction <;> simp [Direction.order]
  rw [some]
  constructor
  · intro filled
    obtain ⟨edit, member⟩ := List.exists_mem_of_ne_nil _ filled
    exact ⟨edit, (mem_edits_iff record edit).mp member⟩
  · rintro ⟨edit, inside⟩
    exact List.ne_nil_of_mem ((mem_edits_iff record edit).mpr inside)

/-- On contents that a record matches, its application tells exactly what it does: replaying the
changes in order, a reset as nothing at all, makes of the contents before those that are left, and
each change lists the items that it takes out, replaces or moves. Items taken out at several
positions are told by maximal runs, a record that is a move as a whole by one move; and items are
said to be edited just when the record holds an edit. -/
theorem apply_reports {record : Record α ε} {direction : Direction} {s : Store α}
    (coherent : record.Coherent) (h : record.Matches direction s) :
    ∃ t effects, record.apply direction s = .ok (t, effects) ∧
      MakesAll [] effects.changes s.items t.items ∧
      replayAll? [] effects.changes s.items = some t.items ∧
      (record.move? = none → record.Tells direction effects.changes) ∧
      (∀ item source target, record.move? = some (item, source, target) →
        effects.changes = [moving direction item source target]) ∧
      (effects.editsItems = true ↔ ∃ edit, record.Contains edit) := by
  obtain ⟨t, moves⟩ := moves_of_matches record direction s h
  obtain ⟨changes, done, makes⟩ := apply_of_moves coherent moves
  refine ⟨s.withItems t, _, done, makes, replayAll?_of_makesAll makes, fun shape => ?_,
    fun item source target shape => ?_, editsItems_iff rfl⟩
  · simp only [apply, shape] at done
    exact tells_of_applyEach record direction s _ _ (regular_of_moves moves) done
  · simp only [apply, shape] at done
    cases direction <;> exact changes_of_telling done

/-- Two runs that are told from above, an edit, and a reset at the end. -/
theorem apply_reports_emptied :
    let record : Record Nat Unit :=
      .composite [.removeMany [0, 2, 3] [5, 7, 8], .itemEdit (), .clear [6, 9]]
    ∃ t effects, record.apply .forward ⟨[5, 6, 7, 8, 9], false, .splice⟩ = .ok (t, effects) ∧
      replayAll? [] effects.changes [5, 6, 7, 8, 9] = some t.items ∧
      record.Tells .forward effects.changes ∧ effects.editsItems = true := by
  intro record
  have coherent : record.Coherent := fun _ _ _ shape => by cases shape
  have fits : record.Matches .forward ⟨[5, 6, 7, 8, 9], false, .splice⟩ :=
    ⟨⟨by decide, rfl⟩, _, _, rfl, trivial, _, _, rfl, rfl, _, _, rfl, trivial⟩
  obtain ⟨t, effects, done, -, replayed, tells, -, edited⟩ := apply_reports coherent fits
  have held : record.Contains () := .within (List.mem_cons_of_mem _ List.mem_cons_self) .here
  exact ⟨t, effects, done, replayed, tells rfl, edited.mpr ⟨(), held⟩⟩

end UndoableLists.Record
