import Mathlib.Data.List.InsertIdx
import UndoableLists.Record

/-!
What a record says about contents. A record leads from the contents before it to the contents after
it: its positions lie inside, and what it takes out or replaces sits where it says. Main statements:
one item or several that are put in or taken out of a store where they fit leave what they lead to.
-/
namespace UndoableLists

def Store.withItems {α : Type} (s : Store α) (items : List α) : Store α := { s with items }

def Direction.order {β : Type} (direction : Direction) (xs : List β) : List β :=
  match direction with
  | .forward => xs
  | .backward => xs.reverse

namespace Record
variable {α ε : Type}

theorem of_bind_ok {β γ δ : Type} {first : Except δ β} {next : β → Except δ γ} {c : γ}
    (done : (first >>= next) = .ok c) : ∃ b, first = .ok b ∧ next b = .ok c := by
  cases first with
  | error fault => cases done
  | ok b => exact ⟨b, rfl, done⟩

/-- `item` put in at `index` makes `t` of `s`; taken out there it makes `s` of `t`. -/
def Inserts (index : Nat) (item : α) (s t : List α) : Prop :=
  index ≤ s.length ∧ t = s.insertIdx index item

def Extracts : List (Nat × α) → List α → List α → Prop
  | [], s, t => s = t
  | (index, item) :: rest, s, t =>
    (∀ p ∈ rest, index < p.1) ∧ ∃ u, Inserts index item t u ∧ Extracts rest s u

mutual

/-- From which contents to which ones a record leads. -/
def Leads : Record α ε → List α → List α → Prop
  | .add index item, s, t => Inserts index item s t
  | .addMany index items, s, t =>
    ∃ front back, front.length = index ∧ s = front ++ back ∧ t = front ++ items ++ back
  | .remove index item, s, t => Inserts index item t s
  | .removeMany indices items, s, t =>
    indices.length = items.length ∧ Extracts (indices.zip items) s t
  | .clear items, s, t => s = items ∧ t = []
  | .changeAt index old new, s, t => s[index]? = some old ∧ t = s.set index new
  | .composite children, s, t => LeadsAll children s t
  | .itemEdit _, s, t => s = t

def LeadsAll : List (Record α ε) → List α → List α → Prop
  | [], s, t => s = t
  | child :: rest, s, t => ∃ u, Leads child s u ∧ LeadsAll rest u t

end

/-- Where a record leads when it is replayed in a direction. -/
def Moves (record : Record α ε) : Direction → List α → List α → Prop
  | .forward, s, t => Leads record s t
  | .backward, s, t => Leads record t s

def MovesAll (records : List (Record α ε)) : Direction → List α → List α → Prop
  | .forward, s, t => LeadsAll records s t
  | .backward, s, t => LeadsAll records t s

mutual

def edits : Record α ε → List ε
  | .itemEdit edit => [edit]
  | .composite children => editsOfAll children
  | _ => []

def editsOfAll : List (Record α ε) → List ε
  | [] => []
  | child :: rest => edits child ++ editsOfAll rest

end

/-- A record that has the shape of a move takes out what it puts in. -/
def Coherent (record : Record α ε) : Prop :=
  ∀ item source target, record.move? = some (item, source, target) →
    record = .moved item source target

theorem inserts_iff_taken {index : Nat} {item : α} {s t : List α} :
    Inserts index item s t ↔ t[index]? = some item ∧ s = t.eraseIdx index := by
  constructor
  · rintro ⟨inside, rfl⟩
    exact ⟨by simp [List.getElem?_insertIdx_self, inside], by rw [List.eraseIdx_insertIdx_self]⟩
  · rintro ⟨present, rfl⟩
    obtain ⟨inside, rfl⟩ := List.getElem?_eq_some_iff.mp present
    refine ⟨?_, (List.insertIdx_eraseIdx_getElem inside).symm⟩
    rw [List.length_eraseIdx_of_lt inside]
    omega

theorem length_of_inserts {index : Nat} {item : α} {s t : List α} (h : Inserts index item s t) :
    t.length = s.length + 1 := by
  obtain ⟨inside, rfl⟩ := h
  exact List.length_insertIdx_of_le_length inside item

theorem inserts_between (front back : List α) (item : α) :
    Inserts front.length item (front ++ back) (front ++ item :: back) := by
  refine ⟨by simp, ?_⟩
  induction front with
  | nil => simp
  | cons a front ih => simpa [List.insertIdx_succ_cons] using ih

theorem insert?_of_inserts {index : Nat} {item : α} {s : Store α} {t : List α}
    (h : Inserts index item s.items t) : s.insert? index item = some (s.withItems t) := by
  obtain ⟨inside, rfl⟩ := h
  simp [Store.insert?, Store.length, inside, Store.withItems]

theorem remove?_of_inserts {index : Nat} {item : α} {s : Store α} {t : List α}
    (h : Inserts index item t s.items) : s.remove? index = some (item, s.withItems t) := by
  obtain ⟨present, rfl⟩ := inserts_iff_taken.mp h
  simp [Store.remove?, present, Store.withItems]

theorem insertEach?_between (s : Store α) (front back items : List α)
    (here : s.items = front ++ back) :
    s.insertEach? front.length items = some (s.withItems (front ++ items ++ back)) := by
  induction items generalizing s front with
  | nil => simp [Store.insertEach?, Store.withItems, ← here]
  | cons item rest ih =>
    have first : Inserts front.length item s.items (front ++ item :: back) :=
      here ▸ inserts_between front back item
    have next := ih (s.withItems (front ++ item :: back)) (front ++ [item])
      (by simp [Store.withItems])
    rw [Store.insertEach?, insert?_of_inserts first, Option.bind_some]
    simpa [Store.withItems] using next

/-- Both ways of putting a run of items in come to the same. -/
theorem insertMany?_between (s : Store α) (front back items : List α)
    (here : s.items = front ++ back) :
    s.insertMany? front.length items = some (s.withItems (front ++ items ++ back)) := by
  unfold Store.insertMany?
  cases s.bulk with
  | splice => simp [Store.splice?, Store.length, here, Store.withItems]
  | oneByOne => exact insertEach?_between s front back items here

theorem extracts_between (front items back : List α) :
    Extracts ((List.range' front.length items.length).zip items) (front ++ items ++ back)
      (front ++ back) := by
  induction items generalizing front with
  | nil => simp [Extracts]
  | cons item rest ih =>
    rw [List.length_cons, List.range'_succ, List.zip_cons_cons]
    refine ⟨?_, front ++ item :: back, inserts_between front back item, ?_⟩
    · intro p member
      have := (List.mem_range'_1.mp (List.of_mem_zip member).1).1
      omega
    · simpa using ih (front ++ [item])

theorem length_of_extracts {ps : List (Nat × α)} {s t : List α} (h : Extracts ps s t) :
    s.length = t.length + ps.length := by
  induction ps generalizing t with
  | nil => simp [show s = t from h]
  | cons p rest ih =>
    obtain ⟨_, u, first, others⟩ := h
    rw [ih others, length_of_inserts first, List.length_cons]
    omega

theorem extracts_unique {ps : List (Nat × α)} {s t u : List α} (first : Extracts ps s t)
    (second : Extracts ps s u) : t = u := by
  induction ps generalizing t u with
  | nil => exact Eq.trans (Eq.symm first) second
  | cons p rest ih =>
    obtain ⟨-, x, put, others⟩ := first
    obtain ⟨-, y, put', others'⟩ := second
    obtain rfl := ih others others'
    exact (inserts_iff_taken.mp put).2.trans (inserts_iff_taken.mp put').2.symm

theorem last_inside_of_extracts {ps : List (Nat × α)} {s t : List α} (h : Extracts ps s t)
    {last : Nat} (final : (ps.map (·.1)).getLast? = some last) : last < s.length := by
  induction ps generalizing t with
  | nil => simp at final
  | cons p rest ih =>
    obtain ⟨_, u, first, others⟩ := h
    cases rest with
    | nil =>
      obtain rfl : s = u := others
      have inside := first.1
      have longer := length_of_inserts first
      simp only [List.map_cons, List.map_nil, List.getLast?_singleton, Option.some.injEq] at final
      omega
    | cons q rest => exact ih others (by simpa using final)

theorem removeEach_append (s : Store α) (first second : List Nat) :
    removeEach s (first ++ second) = (removeEach s first).bind fun s => removeEach s second := by
  induction first generalizing s with
  | nil => rfl
  | cons index rest ih =>
    simp only [List.cons_append, removeEach]
    cases s.remove? index with
    | none => rfl
    | some taken => exact ih taken.2

theorem removeEach_of_extracts {ps : List (Nat × α)} {s : Store α} {t : List α}
    (h : Extracts ps s.items t) :
    removeEach s (ps.map (·.1)).reverse = .ok (s.withItems t) := by
  induction ps generalizing t with
  | nil =>
    have same : s.items = t := h
    simp [removeEach, Store.withItems, ← same]
  | cons p rest ih =>
    obtain ⟨_, u, first, others⟩ := h
    rw [List.map_cons, List.reverse_cons, removeEach_append, ih others]
    simp only [Except.bind, removeEach, remove?_of_inserts (s := s.withItems u) first]
    rfl

theorem insertPairs_of_extracts {ps : List (Nat × α)} {s : Store α} {t : List α}
    (h : Extracts ps t s.items) : insertPairs s ps = .ok (s.withItems t) := by
  induction ps generalizing s with
  | nil =>
    have same : t = s.items := h
    simp [insertPairs, Store.withItems, same]
  | cons p rest ih =>
    obtain ⟨_, u, first, others⟩ := h
    simp only [insertPairs, insert?_of_inserts first]
    exact ih (s := s.withItems u) others

end Record

end UndoableLists
