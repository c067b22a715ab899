import UndoableLists.Proofs.Views.Reading
import UndoableLists.World.Iterator
import UndoableLists.World.Mutation

/-!
Iterators over lists that change between their steps. Main statement: an iterator that has come to
an end yields nothing more, as long as the list is not found with more items than the iterator has
passed; one that came to an error yields nothing more whatever happens.
-/
namespace UndoableLists

namespace World
variable {α κ δ β : Type} [Diary δ] {w : World α κ δ}

theorem readList_contents (id : ListId) (g : List α → β) (w : World α κ δ) :
    readList id (fun l => g l.contents) w = ((contents id w).1.map g, (contents id w).2) := by
  unfold contents readList
  cases here : w.lists.get? id with
  | none =>
    rw [withList_absent here, withList_absent here]
    rfl
  | some l =>
    rw [withList_present here, withList_present here]
    simp only [Host.holding]
    rcases Host.acquire l.lock .read w with ⟨fault | _, u⟩
    · rfl
    · simp only [Act.ensuring, withList]
      cases u.lists.get? id <;> rfl

theorem contents_eq {id : ListId} {items : List α} (answer : (contents id w).1 = .ok items) :
    items = w.contentsOf id := by
  obtain ⟨l, here, rfl⟩ := contents_answers answer
  rw [contentsOf, here]
  rfl

end World

namespace Iterator
open World (contents)
variable {α κ δ : Type}

def Outgrown (it : Iterator) (w : World α κ δ) : Prop := it.next < (w.contentsOf it.list).length

variable [Diary δ]

def Refused (it : Iterator) (w : World α κ δ) : Prop :=
  ∃ cause, (contents it.list w).1 = .error (.refused cause)

/-- Up to the first reading that is refused, the list is never found with more items than the
iterator has passed. -/
def Quiet (it : Iterator) : List (World α κ δ) → Prop
  | [] => True
  | w :: later => it.Refused w ∨ ¬ it.Outgrown w ∧ it.Quiet later

/-- Steps that return, each with the world in which it is called and what it yields. Between one
call and the next anything may happen to the world. -/
inductive Calls : Iterator → List (World α κ δ × Option α) → Prop
  | none (it : Iterator) : Calls it []
  | next {it it' : Iterator} {w v : World α κ δ} {x : Option α}
    {later : List (World α κ δ × Option α)} (called : it.step w = (.ok (x, it'), v))
    (rest : Calls it' later) : Calls it ((w, x) :: later)

section
variable {it it' : Iterator} {v w : World α κ δ} {x : Option α}
  {calls : List (World α κ δ × Option α)}

theorem step_stopped (stopped : it.error.isSome) (w : World α κ δ) :
    it.step w = (.ok (none, it), w) := by
  rw [step, if_pos stopped]

/-- A step is refused the list and stops, or it yields the item at its place, if there is one, and
passes it. -/
theorem step_ends (going : it.error = none) (called : it.step w = (.ok (x, it'), v)) :
    (∃ cause, (contents it.list w).1 = .error (.refused cause) ∧
      x = none ∧ it' = { it with error := some cause }) ∨
    ((contents it.list w).1 = .ok (w.contentsOf it.list) ∧
      x = (w.contentsOf it.list)[it.next]? ∧
      it' = if x.isSome then { it with next := it.next + 1 } else it) := by
  have live : ¬ it.error.isSome = true := by simp [going]
  rw [step, if_neg live, World.readList_contents it.list (·[it.next]?)] at called
  rcases read : contents it.list w with ⟨fault | items, u⟩
  · left
    rw [read] at called
    cases fault with
    | refused cause =>
      cases called
      exact ⟨cause, rfl, rfl, rfl⟩
    | panicked label => cases called
    | stalled => cases called
  · right
    have found : items = w.contentsOf it.list := World.contents_eq (by rw [read])
    rw [read] at called
    subst found
    cases there : (w.contentsOf it.list)[it.next]? with
    | none =>
      simp only [Except.map, there] at called
      cases called
      exact ⟨rfl, rfl, rfl⟩
    | some item =>
      simp only [Except.map, there] at called
      cases called
      exact ⟨rfl, rfl, rfl⟩

theorem calls_stopped (stopped : it.error.isSome) (later : Calls it calls) :
    ∀ c ∈ calls, c.2 = none := by
  induction later with
  | none => simp
  | next called rest ih =>
    rw [step_stopped stopped] at called
    cases called
    rintro c (_ | ⟨_, member⟩)
    · rfl
    · exact ih stopped c member

theorem calls_quiet (going : it.error = none) (later : Calls it calls) :
    (∀ c ∈ calls, c.2 = none) ↔ it.Quiet (calls.map (·.1)) := by
  induction later with
  | none => simp [Quiet]
  | @next it it' w v x rest called later ih =>
    rw [List.forall_mem_cons, List.map_cons, Quiet]
    obtain ⟨cause, refused, rfl, rfl⟩ | ⟨read, yields, moved⟩ := step_ends going called
    · exact iff_of_true ⟨rfl, calls_stopped rfl later⟩ (.inl ⟨cause, refused⟩)
    · have readable : ¬ it.Refused w := by
        rintro ⟨cause, refused⟩
        cases read.symm.trans refused
      have atEnd : x = none ↔ ¬ it.Outgrown w := by simp [yields, Outgrown]
      rw [or_iff_right readable, ← atEnd]
      refine and_congr_right fun nothing : x = none => ?_
      obtain rfl : it' = it := by rw [moved, nothing]; rfl
      exact ih going

theorem quiet_of_short {worlds : List (World α κ δ)}
    (short : ∀ v ∈ worlds, (v.contentsOf it.list).length ≤ it.next) : it.Quiet worlds := by
  induction worlds with
  | nil => trivial
  | cons v later ih =>
    obtain ⟨first, rest⟩ := List.forall_mem_cons.mp short
    exact .inr ⟨Nat.not_lt.mpr first, ih rest⟩

/-- An iterator that has yielded nothing keeps its place. If it met an error it never yields
anything again. If it had come to the end of the list it yields nothing more exactly as long as the
list is not found with more items than it has passed, so as long as the list has not grown. -/
theorem iterator_ends_with_its_list (ended : it.step w = (.ok (none, it'), v))
    (later : Calls it' calls) :
    it'.list = it.list ∧ it'.next = it.next ∧
    (it'.error.isSome → ∀ c ∈ calls, c.2 = none) ∧
    (it'.error = none →
      ((∀ c ∈ calls, c.2 = none) ↔ it'.Quiet (calls.map (·.1))) ∧
      ((∀ c ∈ calls, (c.1.contentsOf it.list).length ≤ (w.contentsOf it.list).length) →
        ∀ c ∈ calls, c.2 = none)) := by
  cases stopped : it.error with
  | some cause =>
    rw [step_stopped (by simp [stopped])] at ended
    cases ended
    exact ⟨rfl, rfl, fun met => calls_stopped met later, fun going => by simp [stopped] at going⟩
  | none =>
    obtain ⟨cause, -, -, rfl⟩ | ⟨-, nothing, rfl⟩ := step_ends stopped ended
    · exact ⟨rfl, rfl, fun met => calls_stopped met later, fun going => by cases going⟩
    · have quiet := calls_quiet stopped later
      refine ⟨rfl, rfl, fun met => calls_stopped met later, fun _ => ⟨quiet, fun shorter => ?_⟩⟩
      have passed : (w.contentsOf it'.list).length ≤ it'.next :=
        List.getElem?_eq_none_iff.mp nothing.symm
      refine quiet.mpr (quiet_of_short fun u member => ?_)
      obtain ⟨c, among, rfl⟩ := List.mem_map.mp member
      exact (shorter c among).trans passed

end

def passedWorld : World Value Unit Unit :=
  (World.createList { items := [.int 1] } { client := () }).2

def emptiedWorld : World Value Unit Unit := (World.lockedMutation 1 .clear passedWorld).2

def refilledWorld : World Value Unit Unit :=
  (World.lockedMutation 1 (.push (.int 2)) emptiedWorld).2

def shutWorld : World Value Unit Unit := (World.dispose 1 refilledWorld).2

def passing : Iterator := { list := 1, next := 1 }

theorem refilled_list_yields_nothing_more :
    (passing.step passedWorld).1 = .ok (none, passing) ∧
    Calls passing [(emptiedWorld, none), (refilledWorld, none), (shutWorld, none)] ∧
    passing.Quiet [emptiedWorld, refilledWorld, shutWorld] := by
  have called {w : World Value Unit Unit} {x : Option Value} {it : Iterator}
      (answer : (passing.step w).1 = .ok (x, it)) :
      passing.step w = (.ok (x, it), (passing.step w).2) := answer ▸ rfl
  have first : (passing.step passedWorld).1 = .ok (none, passing) := rfl
  have emptied : (passing.step emptiedWorld).1 = .ok (none, passing) := by cbv
  have refilled : (passing.step refilledWorld).1 = .ok (none, passing) := by cbv
  have shut : (passing.step shutWorld).1 =
      .ok (none, { passing with error := some .disposed }) := by cbv
  have later : Calls passing [(emptiedWorld, none), (refilledWorld, none), (shutWorld, none)] :=
    .next (called emptied) (.next (called refilled) (.next (called shut) (.none _)))
  obtain ⟨-, -, -, quiet⟩ := iterator_ends_with_its_list (called first) later
  have decided := (quiet rfl).1
  simp only [List.map_cons, List.map_nil] at decided
  refine ⟨first, ?_, ?_⟩
  · exact later
  · exact decided.mp (by simp)

/-- The end of the list is not the end of the iterator: an item that is pushed later is still
yielded. -/
theorem pushed_item_revives_iterator :
    let empty : World Value Unit Unit := (World.createList {} { client := () }).2
    let it : Iterator := { list := 1 }
    let pushed := (World.mutate (fun _ _ _ => pure ()) 1 true (.push (.int 1)) (it.step empty).2).2
    (it.step empty).1 = .ok (none, it) ∧
      (it.step pushed).1 = .ok (some (.int 1), { it with next := 1 }) := by
  exact ⟨rfl, rfl⟩

end Iterator
end UndoableLists
