import UndoableLists.Proofs.Documents
import UndoableLists.Proofs.Meanwhile
import UndoableLists.Proofs.Views.Disposal

/-!
Lists that are written as documents and made anew from them. Main statement: writing a list leaves
it as it is and fails only where the list is disposed of or cannot be read; what was written brings
back the items in a list of its own, without history, and neither list bears on the other from then
on.
-/
namespace UndoableLists.Session.Stage
open World
variable {u v w : Stage Value} {id : ListId} {l : UndoableList Value} {name text : String}

theorem toJson_ends (here : w.lists.get? id = some l) :
    Still [] w (toJson id w).2 ∧ (toJson id w).1 = match (Host.acquire l.lock .read w).1 with
      | .ok () => .ok (.text (Json.arr (l.contents.map Json.ofValue)).text)
      | .error (.refused cause) => .ok (.unwritable cause)
      | .error fault => .error (fault.map ListRefusal.ofLock) := by
  have result : toJson id w = _ := withList_present here
  rw [result]
  rcases acquired : Host.acquire l.lock .read w with ⟨fault | _, u⟩
  · have failed : Still [] w u := by
      have views := unviewed_acquire l.lock .read w
      rw [acquired] at views
      exact ⟨of_acquire_error acquired, views⟩
    cases fault <;> exact ⟨failed, rfl⟩
  · obtain ⟨v, inside⟩ := inside_of_acquire acquired
    have released := (release_framed framed_id inside inside.taken).1
    have views := (still_acquired acquired).toSameViews
    exact ⟨⟨released, sameViews_trans views ⟨rfl, rfl⟩⟩, rfl⟩

theorem createList_items (items : List Value) (w : Stage Value) :
    createList { items } w = (w.nextContext, w.enrolled { items }) := by
  have adopted (context : Context) (lock : LockId) :
      Site.adopted ⟨({ items } : Blueprint Value).listAt context lock, w.cells⟩ =
        (⟨({ items } : Blueprint Value).listAt context lock, w.cells⟩, []) := by
    rw [Site.adopted, cellsOf_listAt (by simp)]
    rfl
  simp only [createList, Locks.create, enrolled, adopted]
  rfl

theorem values_read {values : List Value} (fits : ∀ n, .int n ∈ values → Value.fits n = true) :
    ((Json.front? (Json.arr (values.map Json.ofValue)).text).bind fun (j, rest) =>
      j.toValues?.map (·, rest)) = some (values, []) := by
  rw [Json.front?_values fits]
  simp [Json.toValues?_values fits]

theorem fromJson_eq {values : List Value}
    (fits : ∀ n, .int n ∈ values → Value.fits n = true) (unused : v.client.names.get? name = none) :
    ∃ client, fromJson name (Json.arr (values.map Json.ofValue)).text v =
      (.created v.nextContext, { v.enrolled { items := values } with client }) := by
  have resolved : values.map (resolve v) = values := List.map_id values
  rw [fromJson, values_read fits]
  simp only [resolved, createList_items]
  have same : (v.enrolled { items := values }).client.names.get? name = none := unused
  simp only [Json.ends, Json.skipBlanks, List.dropWhile_nil, List.isEmpty_nil, if_true, bindName,
    same]
  exact ⟨_, rfl⟩

theorem toJson_text (here : w.lists.get? id = some l)
    (answer : (toJson id w).1 = .ok (.text text)) :
    text = (Json.arr (l.contents.map Json.ofValue)).text := by
  obtain ⟨-, ends⟩ := toJson_ends here
  rw [ends] at answer
  split at answer
  · cases answer
    rfl
  · cases answer
  · cases answer

theorem written_iff (here : w.lists.get? id = some l) :
    (∃ text, (toJson id w).1 = .ok (.text text)) ↔
      (Host.acquire l.lock .read).succeeds w = true := by
  rw [(toJson_ends here).2, Act.succeeds]
  rcases Host.acquire l.lock .read w with ⟨(_ | _ | _) | _, u⟩ <;> simp

theorem unwritable_iff (here : w.lists.get? id = some l) :
    (∃ cause, (toJson id w).1 = .ok (.unwritable cause)) ↔ w.locks.isDisposed l.lock = true ∨
      ∃ cause, (Host.acquire l.lock .read w).1 = .error (.refused cause) := by
  rw [(toJson_ends here).2]
  constructor
  · rintro ⟨cause, answer⟩
    split at answer
    · cases answer
    · exact .inr ⟨_, ‹_›⟩
    · cases answer
  · rintro (disposed | ⟨cause, refused⟩)
    · exact ⟨.disposed, by rw [acquire_disposed disposed]⟩
    · exact ⟨cause, by rw [refused]⟩

structure MadeOf (items : List Value) (v u : Stage Value) (m : UndoableList Value) : Prop where
  here : u.lists.get? v.nextContext = some m
  context : m.context = v.nextContext
  contents : m.contents = items
  done : m.history.done = []
  undone : m.history.undone = []
  version : m.version = 0
  usable : u.locks.isDisposed m.lock = false
  apart : ∀ c k, v.lists.get? c = some k →
    c ≠ v.nextContext ∧ k.lock ≠ m.lock ∧ u.lists.get? c = some k

theorem madeOf_enrolled (run : Run v) (items : List Value) (client : Notebook) :
    ∃ m, MadeOf items v { v.enrolled { items } with client } m := by
  have lists := enrolled_lists ({ items } : Blueprint Value) v
  have grounded := (coherent_of_run id run).grounded
  refine ⟨_, {
    here := (lists _).trans (if_pos rfl)
    context := rfl
    contents := rfl
    done := rfl
    undone := rfl
    version := rfl
    usable := ?_
    apart := fun c k there => ?_ }⟩
  · have made : (v.locks.create {}).2.isDisposed v.locks.next = false := by
      simp [Locks.isDisposed, Locks.get?, Locks.create]
    exact made
  · obtain ⟨older, before⟩ := grounded.enrolled c k there
    exact ⟨Nat.ne_of_lt older, Nat.ne_of_lt before,
      (lists c).trans ((if_neg (Nat.ne_of_lt older)).trans there)⟩

theorem present_enrolled (run : Run v) (items : List Value) (client : Notebook) {c : ListId}
    (there : c = v.nextContext ∨ Present c v) :
    Present c ({ v.enrolled { items } with client } : Stage Value) := by
  have created := createList_items items v
  have kept : Present c (v.enrolled { items }) := by
    obtain rfl | present := there
    · have keyed := (coherent_of_run id run).grounded.keyed
      exact ⟨List.mem_cons_self, named_of_put keyed (enrolled_lists _ v) rfl, Nat.lt_succ_self _⟩
    · have unchanged := unchanged_created present { items }
      rw [created] at unchanged
      exact unchanged.present
  exact { kept with }

/-- Writing a list leaves it and all others as they were. It answers a text where the lock can be
had, and fails exactly where the list is disposed of or reading it is refused. Whenever the text is
read again, under a name that is free, the answer is a new list of the same items in the same order,
whose context no list ever had. From then on, whatever is done with other lists, with the one that
was written or with the new one among them, leaves a list that is held as it is, unless subscribers
see to it. -/
theorem written_items_are_restored (here : w.lists.get? id = some l)
    (fits : ∀ n, .int n ∈ l.contents → Value.fits n = true) :
    Still [] w (toJson id w).2 ∧
    ((∃ text, (toJson id w).1 = .ok (.text text)) ↔
      (Host.acquire l.lock .read).succeeds w = true) ∧
    ((∃ cause, (toJson id w).1 = .ok (.unwritable cause)) ↔ w.locks.isDisposed l.lock = true ∨
      ∃ cause, (Host.acquire l.lock .read w).1 = .error (.refused cause)) ∧
    ∀ text, (toJson id w).1 = .ok (.text text) → ∀ (v : Stage Value) (name : String), Run v →
      v.client.names.get? name = none →
      ∃ u m, fromJson name text v = (.created v.nextContext, u) ∧ MadeOf l.contents v u m ∧
        (∀ (earlier : Stage Value) b, Onward (createList b earlier).2 v →
          (createList b earlier).1 ≠ v.nextContext) ∧
        ∀ (call : Call Value Client Notebook) (c : ListId), c = v.nextContext ∨ Present c v →
          Respects call c → ∀ z, Meanwhile call c u z → z.lists.get? c = u.lists.get? c := by
  refine ⟨(toJson_ends here).1, written_iff here, unwritable_iff here, ?_⟩
  intro text answer v name run unused
  obtain rfl := toJson_text here answer
  obtain ⟨client, read⟩ := fromJson_eq fits unused
  obtain ⟨m, made⟩ := madeOf_enrolled run l.contents client
  refine ⟨_, m, read, made, ?_, ?_⟩
  · intro earlier b onward
    have given : (createList b earlier).2.nextContext = earlier.nextContext + 1 :=
      (aside_createList b earlier).nextContext
    have contexts := onward.contexts
    rw [given] at contexts
    exact Nat.ne_of_lt contexts
  · intro call c there respects z meanwhile
    have present := present_enrolled run l.contents client there
    exact (unchanged_meanwhile respects present meanwhile).list

def writtenWorld : Stage Value :=
  (lockedMutation 1 (.push (.text "\"\\\n\x01é")) (createList { items := [.int (-5)] }
    { client := {} }).2).2

def writtenList : UndoableList Value where
  context := 1
  lock := 1
  store := { items := [.int (-5), .text "\"\\\n\x01é"] }
  history := { done := [.add 1 (.text "\"\\\n\x01é")], maxDepth := History.unlimited }
  version := 1

theorem escapes_come_back : writtenWorld.lists.get? 1 = some writtenList ∧
    (∀ n, .int n ∈ writtenList.contents → Value.fits n = true) ∧
    ∃ text u m, (toJson 1 writtenWorld).1 = .ok (.text text) ∧
      fromJson "copy" text writtenWorld = (.created 2, u) ∧
      MadeOf writtenList.contents writtenWorld u m := by
  have empty : Run ({ client := {} } : Stage Value) := run_start _
  have run : Run writtenWorld := (empty.list (.created _)).list (.mutated 1 _)
  obtain ⟨idle, lock, here, names, contexts⟩ :
      writtenWorld.locks.heldBy writtenWorld.thread = [] ∧
      writtenWorld.locks.get? 1 = some {} ∧
      writtenWorld.lists.get? 1 = some writtenList ∧
      writtenWorld.client.names.get? "copy" = none ∧ writtenWorld.nextContext = 2 := by cbv
  have fits : ∀ n, .int n ∈ writtenList.contents → Value.fits n = true := by
    intro n member
    obtain rfl : n = -5 := by simpa [writtenList, UndoableList.contents] using member
    decide
  have free : writtenWorld.locks.Free writtenWorld.thread 1 := Locks.free_of_idle idle lock
  obtain ⟨-, writes, -, restores⟩ := written_items_are_restored here fits
  obtain ⟨text, written⟩ := writes.mpr (Act.succeeds_of_ok (acquire_of_free free))
  obtain ⟨u, m, read, made, -⟩ := restores text written writtenWorld "copy" run names
  exact ⟨here, fits, text, u, m, written, contexts ▸ read, made⟩

end UndoableLists.Session.Stage
