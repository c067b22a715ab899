import UndoableLists.List.Operation
import UndoableLists.Proofs.Record.Told

/-!
What mutations plan. A mutation that is not refused plans the record of its kind, or none when it
has nothing to do; and the record leads from the contents it was planned on, provided that it
passes its check there.
-/
namespace UndoableLists.Operation
open Record
variable {α ε β : Type} [DecidableEq β] {worth : α → β} {contents : List α}

theorem itemAt_eq_ok {index : Nat} {item : α} (h : itemAt contents index = .ok item) :
    contents[index]? = some item := by
  unfold itemAt at h
  split at h
  · cases h
  · cases h
    assumption

theorem present_of_findFirst {item member : α} {index : Nat}
    (h : findFirst worth item contents = some (index, member)) :
    contents[index]? = some member := by
  unfold findFirst at h
  split at h
  · cases h
  · obtain ⟨found, present, same⟩ := Option.map_eq_some_iff.mp h
    cases same
    exact present

theorem leads_remove {index : Nat} {item : α} (present : contents[index]? = some item) :
    (Record.remove index item : Record α ε).Leads contents (contents.eraseIdx index) :=
  inserts_iff_taken.mpr ⟨present, rfl⟩

theorem leads_removeRange {start count : Nat} (inside : start + count ≤ contents.length) :
    (Record.removeMany ((List.range count).map (start + ·)) ((contents.drop start).take count) :
      Record α ε).Leads contents (contents.take start ++ contents.drop (start + count)) := by
  have number : ((contents.drop start).take count).length = count := by simp; omega
  have front : (contents.take start).length = start := by simp; omega
  have whole : contents.take start ++ (contents.drop start).take count ++
      contents.drop (start + count) = contents := by
    rw [List.append_assoc, ← List.drop_drop, List.take_append_drop, List.take_append_drop]
  have taken := extracts_between (contents.take start) ((contents.drop start).take count)
    (contents.drop (start + count))
  rw [whole, front, number, List.range'_eq_map_range] at taken
  exact ⟨by simp [number], taken⟩

theorem leads_moved {source target : Nat} {item : α} (present : contents[source]? = some item)
    (inside : target < contents.length) :
    (Record.moved item source target : Record α ε).Leads contents
      ((contents.eraseIdx source).insertIdx target item) := by
  have there := (List.getElem?_eq_some_iff.mp present).1
  have taken : (Record.remove source item : Record α ε).Leads contents (contents.eraseIdx source) :=
    leads_remove present
  refine ⟨contents.eraseIdx source, taken, _, ⟨?_, rfl⟩, rfl⟩
  rw [List.length_eraseIdx_of_lt there]
  omega

theorem slot_of_check_put {index length after : Nat}
    (h : (do slot index length; longer none length 1) = .ok after) : index ≤ length := by
  by_contra outside
  simp [slot, outside, bind, Except.bind] at h

def idle (worth : α → β) (contents : List α) : Operation α → Bool
  | .addRange items => items.isEmpty
  | .insertRange _ items => items.isEmpty
  | .remove item => !contents.any fun x => worth x = worth item
  | .removeRange _ count => count = 0
  | .clear => contents.isEmpty
  | .move source target => source = target
  | _ => false

/-- What a mutation that is not refused plans on some contents: nothing, if it has nothing to do, or
the record of its kind. -/
inductive Plans (worth : α → β) (contents : List α) :
    Operation α → Option (Record α ε) → Reply α → Prop
  | idle {op reply} (idle : op.idle worth contents = true) : Plans worth contents op none reply
  | push (item : α) : Plans worth contents (.push item) (some (.add contents.length item)) .done
  | insert (index : Nat) (item : α) :
    Plans worth contents (.insert index item) (some (.add index item)) .done
  | addRange {items} (filled : items.isEmpty = false) :
    Plans worth contents (.addRange items) (some (.addMany contents.length items)) .done
  | insertRange {index items} (inside : index ≤ contents.length) (filled : items.isEmpty = false) :
    Plans worth contents (.insertRange index items) (some (.addMany index items)) .done
  | removeAt {index item} (present : contents[index]? = some item) :
    Plans worth contents (.removeAt index) (some (.remove index item)) (.item (some item))
  | remove {item index member} (found : findFirst worth item contents = some (index, member)) :
    Plans worth contents (.remove item) (some (.remove index member)) (.flag true)
  | removeRange {start count} (inside : start + count ≤ contents.length) (counted : count ≠ 0) :
    Plans worth contents (.removeRange start count)
      (some (.removeMany ((List.range count).map (start + ·)) ((contents.drop start).take count)))
      (.items ((contents.drop start).take count))
  | clear (filled : contents.isEmpty = false) :
    Plans worth contents .clear (some (.clear contents)) .done
  | set {index item old} (present : contents[index]? = some old) :
    Plans worth contents (.set index item) (some (.changeAt index old item)) (.item (some old))
  | move {source target item} (present : contents[source]? = some item)
    (inside : target < contents.length) (differ : source ≠ target) :
    Plans worth contents (.move source target) (some (.moved item source target)) .done

theorem findFirst_eq_none {item : α} :
    findFirst worth item contents = none ↔ ∀ x ∈ contents, worth x ≠ worth item := by
  unfold findFirst
  cases found : contents.findIdx? fun x => worth x = worth item with
  | none => simpa using found
  | some index =>
    obtain ⟨inside, equal, -⟩ := List.findIdx?_eq_some_iff_getElem.mp found
    simp only [List.getElem?_eq_getElem inside, Option.map_some, reduceCtorEq, false_iff,
      not_forall, not_not]
    exact ⟨contents[index], List.getElem_mem inside, by simpa using equal⟩

theorem isEmpty_slice {start count : Nat} (inside : start + count ≤ contents.length) :
    ((contents.drop start).take count).isEmpty = decide (count = 0) := by
  have number : ((contents.drop start).take count).length = count := by simp; omega
  rw [Bool.eq_iff_iff, List.isEmpty_iff, ← List.length_eq_zero_iff, number, decide_eq_true_iff]

theorem plans_ite {op : Operation α} {nothing : Prop} [Decidable nothing] {record : Record α ε}
    {reply : Reply α} (idles : nothing → op.idle worth contents = true)
    (records : ¬nothing → Plans worth contents op (some record) reply) :
    Plans worth contents op (if nothing then none else some record) reply := by
  by_cases case : nothing
  · rw [if_pos case]
    exact .idle (idles case)
  · rw [if_neg case]
    exact records case

theorem of_itemAt_ok {β : Type} {index : Nat} {next : α → Except ListRefusal β} {b : β}
    (done : (itemAt contents index >>= next) = .ok b) :
    ∃ item, contents[index]? = some item ∧ next item = .ok b := by
  obtain ⟨item, found, done⟩ := of_bind_ok done
  exact ⟨item, itemAt_eq_ok found, done⟩

theorem of_discard_itemAt_ok {β : Type} {index : Nat} {next : Unit → Except ListRefusal β} {b : β}
    (done : (discard (itemAt contents index) >>= next) = .ok b) :
    index < contents.length ∧ next () = .ok b := by
  obtain ⟨⟨⟩, found, done⟩ := of_bind_ok done
  cases there : itemAt contents index with
  | error cause =>
    rw [there] at found
    cases found
  | ok item => exact ⟨(List.getElem?_eq_some_iff.mp (itemAt_eq_ok there)).1, done⟩

theorem plans_of_plan {op : Operation α} {record : Option (Record α ε)} {reply : Reply α}
    (planned : op.plan worth contents = .ok (record, reply)) :
    Plans worth contents op record reply := by
  cases op with
  | push item =>
    cases planned
    exact .push item
  | insert index item =>
    cases planned
    exact .insert index item
  | addRange items =>
    cases planned
    exact plans_ite id fun filled => .addRange (Bool.not_eq_true _ ▸ filled)
  | insertRange index items =>
    simp only [plan] at planned
    split at planned
    · cases planned
    · rename_i inside
      cases planned
      exact plans_ite id fun filled =>
        .insertRange (Nat.not_lt.mp inside) (Bool.not_eq_true _ ▸ filled)
  | removeAt index =>
    obtain ⟨item, present, done⟩ := of_itemAt_ok planned
    cases done
    exact .removeAt present
  | remove item =>
    simp only [plan] at planned
    cases found : findFirst worth item contents with
    | none =>
      rw [found] at planned
      cases planned
      exact .idle (by simpa [idle] using findFirst_eq_none.mp found)
    | some place =>
      rw [found] at planned
      cases planned
      exact .remove found
  | removeRange start count =>
    simp only [plan] at planned
    split at planned
    · rename_i inside
      cases planned
      rw [isEmpty_slice inside]
      exact plans_ite id fun counted => .removeRange inside (by simpa using counted)
    · cases planned
  | clear =>
    cases planned
    exact plans_ite id fun filled => .clear (Bool.not_eq_true _ ▸ filled)
  | set index item =>
    obtain ⟨old, present, done⟩ := of_itemAt_ok planned
    cases done
    exact .set present
  | move source target =>
    obtain ⟨item, present, rest⟩ := of_itemAt_ok planned
    obtain ⟨inside, done⟩ := of_discard_itemAt_ok rest
    cases done
    exact plans_ite (fun same => decide_eq_true same) fun differ => .move present inside differ

theorem plan_idle {op : Operation α} {record : Option (Record α ε)} {reply : Reply α}
    (planned : op.plan worth contents = .ok (record, reply)) :
    op.idle worth contents = record.isNone := by
  cases plans_of_plan planned with
  | idle idle => exact idle
  | push item => rfl
  | insert index item => rfl
  | addRange filled => exact filled
  | insertRange inside filled => exact filled
  | removeAt present => rfl
  | @remove item _ _ found =>
    have present : ¬∀ x ∈ contents, worth x ≠ worth item := by
      rw [← findFirst_eq_none, found]
      simp
    simpa [idle] using present
  | removeRange inside counted => simpa [idle] using counted
  | clear filled => exact filled
  | set present => rfl
  | move present inside differ => simpa [idle] using differ

theorem plan_edits {op : Operation α} {record : Record α ε} {reply : Reply α}
    (planned : op.plan worth contents = .ok (some record, reply)) : record.edits = [] := by
  cases plans_of_plan planned <;> rfl

/-- A record leads on from the contents it was planned on, unless it is that of an insertion beyond
the end. -/
theorem plan_fits {op : Operation α} {record : Record α ε} {reply : Reply α}
    (planned : op.plan worth contents = .ok (some record, reply)) :
    record.Planned ∧ ((∃ t, record.Leads contents t) ∨
      ∃ index item, op = .insert index item ∧ record = .add index item ∧
        contents.length < index) := by
  cases plans_of_plan planned with
  | push item => exact ⟨trivial, .inl ⟨_, Nat.le_refl _, rfl⟩⟩
  | insert index item =>
    refine ⟨trivial, ?_⟩
    by_cases inside : index ≤ contents.length
    · exact .inl ⟨_, inside, rfl⟩
    · exact .inr ⟨index, item, rfl, rfl, by omega⟩
  | addRange filled => exact ⟨trivial, .inl ⟨_, contents, [], rfl, by simp, rfl⟩⟩
  | @insertRange index items inside filled =>
    exact ⟨trivial, .inl ⟨_, contents.take index, contents.drop index, by simp; omega, by simp,
      rfl⟩⟩
  | removeAt present => exact ⟨trivial, .inl ⟨_, leads_remove present⟩⟩
  | remove found => exact ⟨trivial, .inl ⟨_, leads_remove (present_of_findFirst found)⟩⟩
  | removeRange inside counted => exact ⟨trivial, .inl ⟨_, leads_removeRange inside⟩⟩
  | clear filled => exact ⟨trivial, .inl ⟨_, rfl, rfl⟩⟩
  | set present => exact ⟨trivial, .inl ⟨_, present, rfl⟩⟩
  | @move source target item present inside differ =>
    exact ⟨⟨item, source, target, rfl⟩, .inl ⟨_, leads_moved present inside⟩⟩

theorem plan_leads {op : Operation α} {record : Record α ε} {reply : Reply α} {after : Nat}
    (planned : op.plan worth contents = .ok (some record, reply))
    (checks : record.check none .forward contents.length = .ok after) :
    record.Planned ∧ ∃ t, record.Leads contents t := by
  obtain ⟨ours, leads | ⟨index, item, -, rfl, outside⟩⟩ := plan_fits planned
  · exact ⟨ours, leads⟩
  · have inside := slot_of_check_put checks
    omega

theorem plan_filled {op : Operation α} {record : Record α ε} {reply : Reply α}
    (planned : op.plan worth contents = .ok (some record, reply)) : record.blank = false := by
  cases plans_of_plan planned with
  | @removeRange start count inside counted =>
    rw [blank, isEmpty_slice inside]
    simpa using counted
  | clear filled => exact filled
  | _ => rfl

theorem plan_compact {op : Operation α} {record : Record α ε} {reply : Reply α}
    (planned : op.plan worth contents = .ok (some record, reply)) : record.Compact := by
  cases plans_of_plan planned with
  | @removeRange start count inside counted => exact ⟨start, count, List.range'_eq_map_range.symm⟩
  | _ => trivial

end UndoableLists.Operation
