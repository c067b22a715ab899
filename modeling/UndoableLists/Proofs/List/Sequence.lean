import UndoableLists.Proofs.List.Commit

/-!
Mutations as operations on a bare sequence. Such an operation is refused when a position lies
outside, and then it names the position or the range and the length; otherwise it comes to new
contents and an answer. Main statements: what is planned, checked and led to by a record is what the
operation comes to, and a move takes an item to its target past the others.
-/
namespace UndoableLists.Operation
open Record
variable {α ε β : Type} [DecidableEq β] {worth : α → β} {contents : List α}

/-- The new contents and the answer. A range ends where a natural number says, so that no sum of
its ends is too large to be compared. -/
def onSequence (worth : α → β) (contents : List α) :
    Operation α → Except ListRefusal (List α × Reply α)
  | .push item => .ok (contents ++ [item], .done)
  | .insert index item =>
    if index ≤ contents.length then .ok (contents.insertIdx index item, .done)
    else .error (.indexOutOfRange index contents.length)
  | .addRange items => .ok (contents ++ items, .done)
  | .insertRange index items =>
    if index ≤ contents.length then .ok (contents.take index ++ items ++ contents.drop index, .done)
    else .error (.indexOutOfRange index contents.length)
  | .removeAt index =>
    if inside : index < contents.length then
      .ok (contents.eraseIdx index, .item (some contents[index]))
    else .error (.indexOutOfRange index contents.length)
  | .remove item =>
    .ok (contents.eraseP fun x => worth x = worth item,
      .flag (contents.any fun x => worth x = worth item))
  | .removeRange start count =>
    if start + count ≤ contents.length then
      .ok (contents.take start ++ contents.drop (start + count),
        .items ((contents.drop start).take count))
    else .error (.rangeOutOfBounds start count contents.length)
  | .clear => .ok ([], .done)
  | .set index item =>
    if inside : index < contents.length then
      .ok (contents.set index item, .item (some contents[index]))
    else .error (.indexOutOfRange index contents.length)
  | .move source target =>
    if inside : source < contents.length then
      if target < contents.length then
        .ok ((contents.eraseIdx source).insertIdx target contents[source], .done)
      else .error (.indexOutOfRange target contents.length)
    else .error (.indexOutOfRange source contents.length)

theorem itemAt_inside {index : Nat} (inside : index < contents.length) :
    itemAt contents index = .ok contents[index] := by
  simp [itemAt, inside]

theorem itemAt_outside {index : Nat} (outside : ¬ index < contents.length) :
    itemAt contents index = .error (.indexOutOfRange index contents.length) := by
  simp [itemAt, outside]

theorem onSequence_of_error {op : Operation α} {cause : ListRefusal}
    (planned : (op.plan worth contents : Except _ (Plan α ε)) = .error cause) :
    op.onSequence worth contents = .error cause := by
  cases op with
  | push item => cases planned
  | insert index item => cases planned
  | addRange items => cases planned
  | insertRange index items =>
    simp only [plan] at planned
    split at planned
    · rename_i outside
      cases planned
      simp [onSequence, outside]
    · cases planned
  | removeAt index =>
    by_cases inside : index < contents.length
    · simp [plan, itemAt_inside inside, bind, Except.bind, pure, Except.pure] at planned
    · rw [plan, itemAt_outside inside] at planned
      cases planned
      simp [onSequence, inside]
  | remove item =>
    simp only [plan] at planned
    split at planned <;> cases planned
  | removeRange start count =>
    simp only [plan] at planned
    split at planned
    · cases planned
    · rename_i outside
      cases planned
      simp [onSequence, outside]
  | clear => cases planned
  | set index item =>
    by_cases inside : index < contents.length
    · simp [plan, itemAt_inside inside, bind, Except.bind, pure, Except.pure] at planned
    · rw [plan, itemAt_outside inside] at planned
      cases planned
      simp [onSequence, inside]
  | move source target =>
    by_cases inside : source < contents.length
    · by_cases there : target < contents.length
      · rw [plan, itemAt_inside inside, itemAt_inside there] at planned
        cases planned
      · rw [plan, itemAt_inside inside, itemAt_outside there] at planned
        cases planned
        simp [onSequence, inside, there]
    · rw [plan, itemAt_outside inside] at planned
      cases planned
      simp [onSequence, inside]

theorem onSequence_of_idle {op : Operation α} {reply : Reply α}
    (planned : (op.plan worth contents : Except _ (Plan α ε)) = .ok (none, reply)) :
    op.onSequence worth contents = .ok (contents, reply) := by
  have idle := plan_idle planned
  rw [Option.isNone_none] at idle
  cases op with
  | push item => cases idle
  | insert index item => cases idle
  | addRange items =>
    obtain rfl : items = [] := by simpa [Operation.idle] using idle
    cases planned
    simp [onSequence]
  | insertRange index items =>
    obtain rfl : items = [] := by simpa [Operation.idle] using idle
    simp only [plan] at planned
    split at planned
    · cases planned
    · rename_i inside
      cases planned
      simp [onSequence, Nat.not_lt.mp inside]
  | removeAt index => cases idle
  | remove item =>
    have absent : ∀ x ∈ contents, worth x ≠ worth item := by simpa [Operation.idle] using idle
    rw [plan, findFirst_eq_none.mpr absent] at planned
    cases planned
    rw [onSequence, List.eraseP_of_forall_not (by simpa using absent)]
    simpa using absent
  | removeRange start count =>
    obtain rfl : count = 0 := by simpa [Operation.idle] using idle
    simp only [plan] at planned
    split at planned
    · rename_i inside
      cases planned
      rw [onSequence, if_pos inside, Nat.add_zero, List.take_append_drop]
    · cases planned
  | clear =>
    obtain rfl : contents = [] := by simpa [Operation.idle] using idle
    cases planned
    rfl
  | set index item => cases idle
  | move source target =>
    obtain rfl : source = target := by simpa [Operation.idle] using idle
    by_cases inside : source < contents.length
    · rw [plan, itemAt_inside inside] at planned
      obtain rfl : Reply.done = reply := (Prod.mk.inj (Except.ok.inj planned)).2
      simp [onSequence, inside, List.insertIdx_eraseIdx_getElem]
    · rw [plan, itemAt_outside inside] at planned
      cases planned

theorem removed_of_findFirst {item member : α} {index : Nat}
    (found : findFirst worth item contents = some (index, member)) :
    contents.eraseP (fun x => worth x = worth item) = contents.eraseIdx index ∧
      contents.any (fun x => worth x = worth item) = true := by
  unfold findFirst at found
  split at found
  · cases found
  · rename_i first place
    obtain ⟨x, -, same⟩ := Option.map_eq_some_iff.mp found
    cases same
    obtain ⟨inside, equal, -⟩ := List.findIdx?_eq_some_iff_getElem.mp place
    exact ⟨by rw [List.eraseP_eq_eraseIdx, place],
      List.any_eq_true.mpr ⟨_, List.getElem_mem inside, equal⟩⟩

theorem onSequence_of_leads {op : Operation α} {record : Record α ε} {reply : Reply α}
    {t : List α} (planned : op.plan worth contents = .ok (some record, reply))
    (leads : record.Leads contents t) : op.onSequence worth contents = .ok (t, reply) := by
  cases plans_of_plan planned with
  | push item =>
    obtain ⟨inside, rfl⟩ := leads
    simp [onSequence]
  | insert index item =>
    obtain ⟨inside, rfl⟩ := leads
    simp [onSequence, inside]
  | addRange filled =>
    obtain ⟨front, back, length, rfl, rfl⟩ := leads
    obtain rfl : back = [] := by simpa using length
    simp [onSequence]
  | insertRange inside filled =>
    obtain ⟨front, back, rfl, rfl, rfl⟩ := leads
    simp [onSequence]
  | removeAt present =>
    obtain ⟨inside, rfl⟩ := List.getElem?_eq_some_iff.mp present
    obtain ⟨-, rfl⟩ := inserts_iff_taken.mp leads
    simp [onSequence, inside]
  | remove found =>
    obtain ⟨erased, some⟩ := removed_of_findFirst found
    obtain ⟨-, rfl⟩ := inserts_iff_taken.mp leads
    rw [onSequence, erased, some]
  | @removeRange start count inside counted =>
    have same := extracts_unique leads.2
      (leads_removeRange (α := α) (ε := ε) inside).2
    rw [onSequence, if_pos inside, same]
  | clear filled =>
    obtain ⟨-, rfl⟩ := leads
    rfl
  | set present =>
    obtain ⟨inside, rfl⟩ := List.getElem?_eq_some_iff.mp present
    obtain ⟨-, rfl⟩ := leads
    simp [onSequence, inside]
  | move present there differ =>
    obtain ⟨inside, rfl⟩ := List.getElem?_eq_some_iff.mp present
    obtain ⟨u, taken, v, ⟨-, rfl⟩, rfl⟩ := leads
    obtain ⟨-, rfl⟩ := inserts_iff_taken.mp taken
    simp [onSequence, inside, there]

theorem onSequence_of_check {op : Operation α} {record : Record α ε} {reply : Reply α}
    {fault : Fault ListRefusal} (planned : op.plan worth contents = .ok (some record, reply))
    (failed : record.check none .forward contents.length = .error fault) :
    ∃ cause, fault = .refused cause ∧ op.onSequence worth contents = .error cause := by
  obtain ⟨-, ⟨t, leads⟩ | ⟨index, item, rfl, rfl, outside⟩⟩ := plan_fits planned
  · rw [check_of_moves record .forward contents t leads] at failed
    cases failed
  · have inside : ¬ index ≤ contents.length := by omega
    rw [check, slot, if_neg inside] at failed
    cases failed
    exact ⟨_, rfl, by rw [onSequence, if_neg inside]⟩

theorem moved_onSequence {source target : Nat} {t : List α} {reply : Reply α}
    (done : (Operation.move source target).onSequence worth contents = .ok (t, reply)) :
    t[target]? = contents[source]? ∧ t.eraseIdx target = contents.eraseIdx source := by
  rw [onSequence] at done
  split at done
  · rename_i inside
    split at done
    · rename_i there
      cases done
      have length : (contents.eraseIdx source).length = contents.length - 1 :=
        List.length_eraseIdx_of_lt inside
      have room : target ≤ (contents.eraseIdx source).length := by omega
      rw [List.getElem?_insertIdx_self, if_pos room, List.getElem?_eq_getElem inside,
        List.eraseIdx_insertIdx_self]
      exact ⟨rfl, rfl⟩
    · cases done
  · cases done

end UndoableLists.Operation
