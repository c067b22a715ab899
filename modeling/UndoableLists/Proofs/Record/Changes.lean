import UndoableLists.Proofs.Record.Leads

/-!
What a change says of a subscriber's copy. A change makes one sequence of another, and it lists
exactly what it takes out or replaces; a reset is answered with fresh contents. Main statements:
replaying changes that make `t` of `s` leads a copy from `s` to `t`, and single items gathered into
runs make the same as one by one.
-/
namespace UndoableLists.Change
open Record
variable {α : Type}

def Splices (index : Nat) (items : List α) (s t : List α) : Prop :=
  ∃ front back, front.length = index ∧ s = front ++ back ∧ t = front ++ items ++ back

def Makes (fresh : List α) : Change α → List α → List α → Prop
  | .reset, _, t => t = fresh
  | .add index items, s, t => Splices index items s t
  | .remove index items, s, t => Splices index items t s
  | .replace index old new, s, t => s[index]? = some old ∧ t = s.set index new
  | .move item source target, s, t => ∃ u, Inserts source item u s ∧ Inserts target item u t

def MakesAll (fresh : List α) : List (Change α) → List α → List α → Prop
  | [], s, t => s = t
  | change :: rest, s, t => ∃ u, change.Makes fresh s u ∧ MakesAll fresh rest u t

section
variable {fresh s t u : List α} {index : Nat} {items : List α} {item : α} {change : Change α}
  {changes more : List (Change α)}

theorem splices_of_inserts (h : Inserts index item s t) : Splices index [item] s t := by
  obtain ⟨inside, rfl⟩ := h
  have length : (s.take index).length = index := List.length_take_of_le inside
  have put := (inserts_between (s.take index) (s.drop index) item).2
  rw [length, List.take_append_drop] at put
  exact ⟨s.take index, s.drop index, length, by simp, by simp [← put]⟩

theorem splices_cons (first : Splices index [item] s u) (others : Splices (index + 1) items u t) :
    Splices index (item :: items) s t := by
  obtain ⟨front, back, length, rfl, rfl⟩ := first
  obtain ⟨front', back', length', same, rfl⟩ := others
  obtain ⟨rfl, rfl⟩ := List.append_inj same (by simp [length, length'])
  exact ⟨front, back, length, rfl, by simp⟩

theorem makesAll_single (makes : change.Makes fresh s t) : MakesAll fresh [change] s t :=
  ⟨t, makes, rfl⟩

theorem makesAll_append (first : MakesAll fresh changes s u) (second : MakesAll fresh more u t) :
    MakesAll fresh (changes ++ more) s t := by
  induction changes generalizing s with
  | nil =>
    obtain rfl : s = u := first
    exact second
  | cons change rest ih =>
    obtain ⟨v, makes, others⟩ := first
    exact ⟨v, makes, ih others⟩

theorem makesAll_congr (makes : MakesAll fresh changes s t) (other : List α)
    (same : .reset ∈ changes → fresh = other) : MakesAll other changes s t := by
  induction changes generalizing s with
  | nil => exact makes
  | cons change rest ih =>
    obtain ⟨v, first, others⟩ := makes
    refine ⟨v, ?_, ih others fun member => same (List.mem_cons_of_mem _ member)⟩
    cases change with
    | reset => exact same List.mem_cons_self ▸ first
    | _ => exact first

theorem inserts_before (h : Inserts index item s t) (rest : List α) :
    Inserts index item (s ++ rest) (t ++ rest) := by
  obtain ⟨front, back, rfl, rfl, rfl⟩ := splices_of_inserts h
  simpa using inserts_between front (back ++ rest) item

theorem splices_before (h : Splices index items s t) (rest : List α) :
    Splices index items (s ++ rest) (t ++ rest) := by
  obtain ⟨front, back, length, rfl, rfl⟩ := h
  exact ⟨front, back ++ rest, length, by simp, by simp⟩

theorem makes_before (makes : change.Makes fresh s t) (lasting : change ≠ .reset)
    (other rest : List α) : change.Makes other (s ++ rest) (t ++ rest) := by
  cases change with
  | reset => exact absurd rfl lasting
  | add index items => exact splices_before makes rest
  | remove index items => exact splices_before makes rest
  | replace index old new =>
    obtain ⟨present, rfl⟩ := makes
    have inside := (List.getElem?_eq_some_iff.mp present).1
    exact ⟨(List.getElem?_append_left inside).trans present,
      (List.set_append_left _ _ inside).symm⟩
  | move item source target =>
    obtain ⟨u, taken, put⟩ := makes
    exact ⟨u ++ rest, inserts_before taken rest, inserts_before put rest⟩

theorem replay?_of_makes (makes : change.Makes fresh s t) : change.replay? fresh s = some t := by
  cases change with
  | reset => exact congrArg some makes.symm
  | add index items =>
    obtain ⟨front, back, rfl, rfl, rfl⟩ := makes
    simp [replay?]
  | remove index items =>
    obtain ⟨front, back, rfl, rfl, rfl⟩ := makes
    simp [replay?]
  | replace index old new =>
    obtain ⟨present, rfl⟩ := makes
    simp [replay?, (List.getElem?_eq_some_iff.mp present).1]
  | move item source target =>
    obtain ⟨u, taken, put⟩ := makes
    have inside : target < s.length := by
      rw [length_of_inserts taken]
      exact Nat.lt_succ_of_le put.1
    obtain ⟨present, rfl⟩ := inserts_iff_taken.mp taken
    simp [replay?, present, inside, put.2]

theorem replayAll?_of_makesAll (makes : MakesAll fresh changes s t) :
    replayAll? fresh changes s = some t := by
  induction changes generalizing s with
  | nil => exact congrArg some makes
  | cons change rest ih =>
    obtain ⟨u, first, others⟩ := makes
    rw [replayAll?, replay?_of_makes first, Option.bind_some, ih others]

end

def Fills : List (Nat × List α) → List α → List α → Prop
  | [], s, t => s = t
  | (index, items) :: rest, s, t => ∃ u, Splices index items s u ∧ Fills rest u t

theorem fills_of_extracts {ps : List (Nat × α)} {s t : List α} (h : Extracts ps s t) :
    Fills (runs ps) t s := by
  induction ps generalizing t with
  | nil => exact Eq.symm h
  | cons p rest ih =>
    obtain ⟨-, u, first, others⟩ := h
    have single := splices_of_inserts first
    have filled := ih others
    simp only [runs]
    split
    · rename_i none
      rw [none] at filled
      exact ⟨u, single, filled⟩
    · rename_i next items more found
      rw [found] at filled
      split
      · rename_i consecutive
        obtain ⟨v, gathered, after⟩ := filled
        exact ⟨v, splices_cons single (consecutive ▸ gathered), after⟩
      · exact ⟨u, single, filled⟩

theorem makesAll_added {fresh : List α} {pieces : List (Nat × List α)} {s t : List α}
    (h : Fills pieces s t) : MakesAll fresh (pieces.map fun (i, xs) => .add i xs) s t := by
  induction pieces generalizing s with
  | nil => exact h
  | cons piece rest ih =>
    obtain ⟨u, first, others⟩ := h
    exact ⟨u, first, ih others⟩

theorem makesAll_removed {fresh : List α} {pieces : List (Nat × List α)} {s t : List α}
    (h : Fills pieces s t) :
    MakesAll fresh (pieces.map fun (i, xs) => .remove i xs).reverse t s := by
  induction pieces generalizing s with
  | nil => exact Eq.symm h
  | cons piece rest ih =>
    obtain ⟨u, first, others⟩ := h
    rw [List.map_cons, List.reverse_cons]
    exact makesAll_append (ih others) (makesAll_single first)

end UndoableLists.Change
