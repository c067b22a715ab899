import UndoableLists.Proofs.World.Sections

/-!
Editing an object. Whoever is registered with the object enters the edit into its history and
tells its own subscribers, kept alive by one more handle. Main statement: what an edit comes to if
one list is registered and its lock can be had.
-/
namespace UndoableLists.World
variable {α κ δ : Type}

def assign (x : ObjectId) (value : Int) (w : World α κ δ) : World α κ δ :=
  { w with objects := w.objects.assign x value }

variable [Diary δ] {w : World α κ δ} {l : UndoableList α} {c : ListId} {x : ObjectId}

def commitEdit (id : ListId) (x : ObjectId) (value : Int) (w : World α κ δ) : World α κ δ :=
  (enterEdit ⟨x, (w.objects.get x).value, value⟩ id (w.assign x value)).2

theorem enterEdit_obtained (here : w.lists.get? c = some l)
    (obtained : (Host.acquire l.lock .write).succeeds w) (value : Int) :
    let e : Edit := ⟨x, (w.objects.get x).value, value⟩
    enterEdit e c (w.assign x value) = (.ok (), commitEdit c x value w) ∧
      Aside [] { w.assign x value with lists := w.lists.modify c fun l => l.recordEdit e }
        (commitEdit c x value w) := by
  intro e
  have again : (Host.acquire l.lock .write).succeeds (w.assign x value) = true :=
    (acquire_congr (v := w.assign x value) (w := w) rfl rfl rfl).trans obtained
  obtain ⟨fault, v, failed, -, -⟩ | ⟨v, -, aside, outcome⟩ :=
    modifying_ends (w := w.assign x value) here fun l => l.recordEdit e
  · rw [failed] at again
    cases again
  · have entered : enterEdit e c (w.assign x value) = (.ok (), v) := outcome
    obtain rfl : commitEdit c x value w = v := congrArg Prod.snd entered
    exact ⟨entered, aside⟩

theorem lists_commitEdit (here : w.lists.get? c = some l)
    (obtained : (Host.acquire l.lock .write).succeeds w) (value : Int) (d : ListId) :
    (commitEdit c x value w).lists.get? d =
      if d = c then some (l.recordEdit ⟨x, (w.objects.get x).value, value⟩)
      else w.lists.get? d := by
  have aside := (enterEdit_obtained (x := x) here obtained value).2
  rw [aside.lists]
  exact Table.get?_modify_present here d _

theorem editObject_registered (registered : w.cells.handlers x = [(c, c)])
    (here : w.lists.get? c = some l) (obtained : (Host.acquire l.lock .write).succeeds w)
    (call : Call α κ δ) (value : Int) :
    (editObject call x value w).2 = Journal.note .editCommitted (letGo (.list c)
      (announce call c { itemsDiffer := true } (commitEdit c x value (w.hold (.list c))))) := by
  have again : (Host.acquire l.lock .write).succeeds (w.hold (.list c)) = true :=
    (acquire_congr (v := w.hold (.list c)) (w := w) rfl rfl rfl).trans obtained
  have entered := (enterEdit_obtained (w := w.hold (.list c)) (x := x) here again value).1
  have told : (editObject call x value w).2 = Journal.note .editCommitted (letGo (.list c)
      (recordEdit call ⟨x, ((w.hold (.list c)).objects.get x).value, value⟩ c
        ((w.hold (.list c)).assign x value))) := by
    simp only [editObject, registered]
    rfl
  rw [told, recordEdit, entered]

end UndoableLists.World
