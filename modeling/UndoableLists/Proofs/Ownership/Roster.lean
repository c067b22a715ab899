import UndoableLists.Proofs.Capture.Exchange

/-!
Lists and the cells of their members. A roster names the lists that are in use by their contexts; it
owns the cells if every cell belongs to the one list whose member it is, and no cell to any other.
Main statements: who owns a cell and who is registered with it can be read off the roster, and the
roster still owns the cells after one list exchanged some of its members.
-/
namespace UndoableLists

def Cell.BelongsTo (c : Cell ListId) : Option (Context × Bool) → Prop
  | none => c.owner = none ∧ ∀ key, c.handlers.get? key = none
  | some (owner, tracks) => c.owner = some owner ∧ ∀ key,
    c.handlers.get? key = if key = owner ∧ tracks then some owner else none

namespace Cell
variable {c : Cell ListId} {context : Context} {tracks : Bool}

theorem belongs_freed (belongs : c.BelongsTo (some (context, tracks))) :
    (c.freedBy context).BelongsTo none := by
  constructor
  · rfl
  · intro key
    rw [freedBy, Table.get?_erase, belongs.2]
    by_cases same : key = context <;> simp [same]

theorem belongs_taken (free : c.BelongsTo none) :
    (c.takenBy context (if tracks then some context else none)).BelongsTo
      (some (context, tracks)) := by
  constructor
  · rfl
  · intro key
    cases tracks with
    | false => simpa [takenBy] using free.2 key
    | true =>
      simp only [takenBy, ↓reduceIte, Table.get?_insert, Table.get?_erase, free.2, and_true]
      split <;> simp_all

theorem handlers_of_free (free : c.BelongsTo none) : c.handlers.entries = [] :=
  Table.entries_eq_nil free.2

theorem handlers_of_belongs (belongs : c.BelongsTo (some (context, tracks))) :
    c.handlers.entries = if tracks then [(context, context)] else [] := by
  cases tracks with
  | false => exact Table.entries_eq_nil fun key => by simp [belongs.2]
  | true => exact Table.entries_eq_singleton fun key => by simp [belongs.2]

end Cell

abbrev Roster (α : Type) := Context → Option (UndoableList α)

namespace Roster
variable {α : Type}

def members (r : Roster α) (c : Context) : List CellId :=
  match r c with
  | none => []
  | some l => l.cellsOf l.contents

/-- Of the cells of some items, each belongs to the list whose member it is, and else to nobody. -/
structure Owns (r : Roster α) (items : CellId → Prop) (cells : Cells ListId) : Prop where
  member : ∀ {c l x}, r c = some l → x ∈ l.cellsOf l.contents →
    (cells.cell x).BelongsTo (some (c, l.tracksEdits))
  stray : ∀ {x}, items x → (∀ c, x ∉ r.members c) → (cells.cell x).BelongsTo none
  distinct : ∀ {c l}, r c = some l → (l.cellsOf l.contents).Nodup

section
variable {r r' : Roster α} {items : CellId → Prop} {cells cells' : Cells ListId} {c : Context}
  {l : UndoableList α}
  {x : CellId}

theorem members_eq (here : r c = some l) : r.members c = l.cellsOf l.contents := by
  rw [members, here]

theorem mem_members : x ∈ r.members c ↔ ∃ l, r c = some l ∧ x ∈ l.cellsOf l.contents := by
  unfold members
  cases r c <;> simp

/-- A cell is owned by the list whose member it is, and by no other. -/
theorem owner_iff (owns : r.Owns items cells) (item : items x) :
    cells.owner x = some c ↔ ∃ l, r c = some l ∧ x ∈ l.cellsOf l.contents := by
  constructor
  · intro owned
    by_cases home : ∃ d, x ∈ r.members d
    · obtain ⟨d, present⟩ := home
      obtain ⟨l, here, member⟩ := mem_members.mp present
      obtain rfl : d = c := Option.some.inj ((owns.member here member).1.symm.trans owned)
      exact ⟨l, here, member⟩
    · have free := (owns.stray item fun d present => home ⟨d, present⟩).1
      rw [Cells.owner, free] at owned
      cases owned
  · rintro ⟨l, here, member⟩
    exact (owns.member here member).1

theorem handler?_iff (owns : r.Owns items cells) (item : items x) {handler : ListId} :
    cells.handler? x c = some handler ↔
      handler = c ∧ ∃ l, r c = some l ∧ x ∈ l.cellsOf l.contents ∧ l.tracksEdits = true := by
  by_cases home : ∃ d, x ∈ r.members d
  · obtain ⟨d, present⟩ := home
    obtain ⟨l, here, member⟩ := mem_members.mp present
    have belongs := owns.member here member
    have only {m : UndoableList α} (there : r c = some m) (also : x ∈ m.cellsOf m.contents) :
        c = d := Option.some.inj ((owns.member there also).1.symm.trans belongs.1)
    rw [Cells.handler?, belongs.2]
    constructor
    · intro registered
      split at registered
      · rename_i mine
        cases registered
        exact ⟨mine.1.symm, l, mine.1 ▸ here, member, mine.2⟩
      · cases registered
    · rintro ⟨rfl, m, there, also, tracks⟩
      obtain rfl := only there also
      obtain rfl : m = l := Option.some.inj (there.symm.trans here)
      simp [tracks]
  · have free := (owns.stray item fun d present => home ⟨d, present⟩).2
    rw [Cells.handler?, free]
    constructor
    · intro registered
      cases registered
    · rintro ⟨rfl, l, here, member, -⟩
      exact absurd ⟨_, mem_members.mpr ⟨l, here, member⟩⟩ home

theorem members_apart (owns : r.Owns items cells) {d : Context} {m : UndoableList α}
    (here : r c = some l) (there : r d = some m) (mine : x ∈ l.cellsOf l.contents)
    (also : x ∈ m.cellsOf m.contents) : c = d :=
  Option.some.inj ((owns.member here mine).1.symm.trans (owns.member there also).1)

/-- One list changed its members, or came into use, or went out of use. -/
structure Update (r r' : Roster α) (c : Context) (cells cells' : Cells ListId) : Prop where
  others : ∀ d, d ≠ c → r' d = r d
  distinct : ∀ {l}, r' c = some l → (l.cellsOf l.contents).Nodup
  mine : ∀ {l x}, r' c = some l → x ∈ l.cellsOf l.contents →
    (cells'.cell x).BelongsTo (some (c, l.tracksEdits))
  lost : ∀ {x}, x ∈ r.members c → x ∉ r'.members c → (cells'.cell x).BelongsTo none
  untouched : ∀ {x}, x ∉ r.members c → x ∉ r'.members c → cells'.cell x = cells.cell x
  found : ∀ {x}, x ∈ r'.members c → x ∉ r.members c → cells.owner x = none

theorem owns_update (owns : r.Owns items cells) (update : Update r r' c cells cells') :
    r'.Owns items cells' where
  member {d l x} here member := by
    by_cases same : d = c
    · subst same
      exact update.mine here member
    · have before : r d = some l := update.others d same ▸ here
      have belongs := owns.member before member
      have foreign : x ∉ r.members c := by
        intro present
        obtain ⟨m, there, also⟩ := mem_members.mp present
        exact same (members_apart owns before there member also)
      have never : x ∉ r'.members c := by
        intro present
        have free := update.found present foreign
        rw [Cells.owner, belongs.1] at free
        cases free
      rw [update.untouched foreign never]
      exact belongs
  stray {x} item nowhere := by
    by_cases present : x ∈ r.members c
    · exact update.lost present (nowhere c)
    · rw [update.untouched present (nowhere c)]
      apply owns.stray item
      intro d
      by_cases same : d = c
      · exact same ▸ present
      · rw [members, ← update.others d same]
        exact nowhere d
  distinct {d l} here := by
    by_cases same : d = c
    · subst same
      exact update.distinct here
    · exact owns.distinct (update.others d same ▸ here)

def withList (r : Roster α) (c : Context) (l : Option (UndoableList α)) : Roster α :=
  fun d => if d = c then l else r d

@[simp] theorem withList_self (r : Roster α) (c : Context) (l : Option (UndoableList α)) :
    r.withList c l c = l := if_pos rfl

theorem withList_of_ne {c d : Context} (differs : d ≠ c) (l : Option (UndoableList α)) :
    r.withList c l d = r d := if_neg differs

theorem owns_added (owns : r.Owns items cells) (absent : r c = none)
    (empty : l.cellsOf l.contents = []) : (r.withList c (some l)).Owns items cells := by
  have before : r.members c = [] := by rw [members, absent]
  have after : (r.withList c (some l)).members c = [] :=
    (members_eq (withList_self ..)).trans empty
  refine owns_update owns ⟨fun d differs => withList_of_ne differs _, ?_, ?_, ?_, ?_, ?_⟩
  · intro m there
    obtain rfl : l = m := Option.some.inj ((withList_self ..).symm.trans there)
    simp [empty]
  · intro m x there member
    obtain rfl : l = m := Option.some.inj ((withList_self ..).symm.trans there)
    simp [empty] at member
  all_goals simp [before, after]

theorem owns_released (owns : r.Owns items cells) (here : ∀ m, r l.context = some m → m = l)
    (all : ∀ x ∈ l.cellsOf l.contents, items x) :
    (r.withList l.context none).Owns items (Site.released ⟨l, cells⟩).cells := by
  have after : (r.withList l.context none).members l.context = [] := by
    rw [members, withList_self]
  have cell (x : CellId) : (Site.released ⟨l, cells⟩).cells.cell x = _ :=
    Cells.cell_giveUp l.context (l.cellsOf l.contents) cells x
  refine owns_update owns ⟨fun d differs => withList_of_ne differs _, ?_, ?_, ?_, ?_, ?_⟩
  · intro m there
    cases (withList_self ..).symm.trans there
  · intro m x there
    cases (withList_self ..).symm.trans there
  · intro x was _
    obtain ⟨m, there, member⟩ := mem_members.mp was
    obtain rfl := here m there
    have belongs := owns.member there member
    rw [cell, if_pos ⟨member, belongs.1⟩]
    exact Cell.belongs_freed belongs
  · intro x wasNot _
    rw [cell, if_neg]
    rintro ⟨member, owned⟩
    exact wasNot (mem_members.mpr ((owner_iff owns (all x member)).mp owned))
  · intro x member
    simp [after] at member

theorem owns_congr (owns : r.Owns items cells)
    (same : ∀ c, (r' c).map (fun l => (l.cellsOf l.contents, l.tracksEdits)) =
      (r c).map fun l => (l.cellsOf l.contents, l.tracksEdits)) : r'.Owns items cells := by
  have found {c : Context} {l : UndoableList α} (here : r' c = some l) :
      ∃ m, r c = some m ∧ m.cellsOf m.contents = l.cellsOf l.contents ∧
        m.tracksEdits = l.tracksEdits := by
    have alike := same c
    rw [here] at alike
    simpa using alike.symm
  constructor
  · intro c l x here member
    obtain ⟨m, there, cells, tracks⟩ := found here
    rw [← tracks]
    exact owns.member there (cells ▸ member)
  · intro x item nowhere
    apply owns.stray item
    intro c present
    apply nowhere c
    obtain ⟨m, there, member⟩ := mem_members.mp present
    have alike := same c
    rw [there] at alike
    obtain ⟨l, here, cells, -⟩ : ∃ l, r' c = some l ∧
      l.cellsOf l.contents = m.cellsOf m.contents ∧ l.tracksEdits = m.tracksEdits := by
      simpa using alike
    exact mem_members.mpr ⟨l, here, cells ▸ member⟩
  · intro c l here
    obtain ⟨m, there, cells, -⟩ := found here
    exact cells ▸ owns.distinct there

end

end Roster

end UndoableLists
