import UndoableLists.Proofs.Ownership.Reach
import UndoableLists.Proofs.World.Editing

/-!
Committed edits. Whoever tracks the edits of an item hears of them while the item is a member, and
records each of them once. Main statement: in every world that calls lead to, the live lists own
their members and nothing else, and an edit is recorded by the live list that contains the item
and tracks edits, and by no other.
-/
namespace UndoableLists.World
variable {α κ δ : Type}

def Tracker (w : World α κ δ) (x : CellId) (c : ListId) (l : UndoableList α) : Prop :=
  w.live c = some l ∧ x ∈ l.cellsOf l.contents ∧ l.tracksEdits = true

def Leaves (w v : World α κ δ) (c : ListId) (l : UndoableList α) : Prop :=
  v.lists.get? c = some l ∨ .list c ∉ w.held ∧ v.lists.get? c = none

structure Discreet (call : Call α κ δ) : Prop where
  lists : ∀ s k e w, (call s k e w).2.lists = w.lists
  held : ∀ s k e w id, w.held.count (.list id) ≤ (call s k e w).2.held.count (.list id)

/-- The lists are as in a table, but for some that nobody held; and no handle is lost. -/
structure Spares (w : World α κ δ) (lists : Table ListId (UndoableList α)) (v : World α κ δ) :
    Prop where
  lists : ∀ c, v.lists.get? c = lists.get? c ∨ .list c ∉ w.held ∧ v.lists.get? c = none
  held : ∀ c, w.held.count (.list c) ≤ v.held.count (.list c)

section
variable {lists : Table ListId (UndoableList α)} {u v w : World α κ δ} {c : ListId}
  {l : UndoableList α} {x : CellId}

theorem leaves_of_spares (spares : Spares w lists v) (here : lists.get? c = some l) :
    Leaves w v c l := by
  cases spares.lists c with
  | inl same => exact .inl (same.trans here)
  | inr gone => exact .inr gone

theorem spares_aside (spares : Spares w lists u) (aside : Aside [] u v) : Spares w lists v where
  lists c := aside.lists ▸ spares.lists c
  held c := aside.held c ▸ spares.held c

theorem spares_removed (spares : Spares w lists u) (loose : .list c ∉ u.held) :
    Spares w lists (u.removeList c l) where
  lists d := by
    rw [show (u.removeList c l).lists.get? d = _ from Table.get?_erase ..]
    split
    · rename_i same
      right
      refine ⟨?_, rfl⟩
      intro held
      apply loose
      have few := spares.held c
      rw [← List.count_pos_iff] at held ⊢
      subst same
      omega
    · exact spares.lists d
  held := spares.held

theorem spares_letGo (spares : Spares (w.hold (.list c)) lists u) :
    Spares w lists (letGo (.list c) u) := by
  refine sweep_keeps (fun aside spares => spares_aside spares aside)
    (fun _ loose spares => spares_removed spares loose) ⟨fun d => ?_, fun d => ?_⟩
  · rcases spares.lists d with same | ⟨loose, gone⟩
    · exact .inl same
    · exact .inr ⟨fun held => loose (List.mem_cons_of_mem _ held), gone⟩
  · have few := spares.held d
    simp only [hold, List.count_cons, List.count_erase] at few ⊢
    omega

theorem keeps_spares {call : Call α κ δ} (discreet : Discreet call) :
    Keeps call (Spares w lists) where
  aside aside spares := spares_aside spares aside
  removed _ loose spares := spares_removed spares loose
  called s k e u spares :=
    ⟨fun c => discreet.lists s k e u ▸ spares.lists c,
      fun c => Nat.le_trans (spares.held c) (discreet.held s k e u c)⟩

variable [Diary δ]

theorem spares_editObject {call : Call α κ δ} (discreet : Discreet call)
    (registered : w.cells.handlers x = [(c, c)]) (here : w.lists.get? c = some l)
    (obtained : (Host.acquire l.lock .write).succeeds w) (value : Int) :
    Spares w (w.lists.modify c fun l => l.recordEdit ⟨x, (w.objects.get x).value, value⟩)
      (editObject call x value w).2 := by
  have again : (Host.acquire l.lock .write).succeeds (w.hold (.list c)) = true :=
    (acquire_congr (v := w.hold (.list c)) (w := w) rfl rfl rfl).trans obtained
  have aside := (enterEdit_obtained (w := w.hold (.list c)) (x := x) here again value).2
  have entered : Spares (w.hold (.list c))
      (w.lists.modify c fun l => l.recordEdit ⟨x, (w.objects.get x).value, value⟩)
      (commitEdit c x value (w.hold (.list c))) :=
    ⟨fun d => .inl (congrArg (Table.get? · d) aside.lists),
      fun d => Nat.le_of_eq (aside.held d).symm⟩
  rw [editObject_registered registered here obtained]
  exact spares_aside (spares_letGo (announce_keeps (keeps_spares discreet) c _ entered))
    (aside_note ..)

end

section
variable [Diary δ] [Element α] {w : World α κ δ} {c : ListId} {l : UndoableList α} {x : CellId}

theorem handlers_of_tracker (reach : Reach w) (tracker : w.Tracker x c l) :
    w.cells.handlers x = [(c, c)] := by
  obtain ⟨alive, member, tracks⟩ := tracker
  have belongs := (sound_of_reach reach).owns.member alive member
  rw [tracks] at belongs
  exact Cell.handlers_of_belongs belongs

theorem handlers_of_untracked (reach : Reach w) (untracked : ∀ c l, ¬w.Tracker x c l) :
    w.cells.handlers x = [] := by
  have owns := (sound_of_reach reach).owns
  by_cases home : ∃ c, x ∈ w.live.members c
  · obtain ⟨c, present⟩ := home
    obtain ⟨l, alive, member⟩ := Roster.mem_members.mp present
    have belongs := owns.member alive member
    have silent : l.tracksEdits = false := by
      by_contra tracks
      exact untracked c l ⟨alive, member, by simpa using tracks⟩
    rw [silent] at belongs
    exact Cell.handlers_of_belongs belongs
  · exact Cell.handlers_of_free (owns.stray trivial fun c present => home ⟨c, present⟩)

theorem edit_of_reach {call : Call α κ δ} (reach : Reach w) (discreet : Discreet call)
    (obtained : ∀ c l, w.Tracker x c l → (Host.acquire l.lock .write).succeeds w) (value : Int) :
    let v := (editObject call x value w).2
    (∀ c l, w.Tracker x c l →
      Leaves w v c (l.recordEdit ⟨x, (w.objects.get x).value, value⟩)) ∧
    ∀ c l, w.lists.get? c = some l → ¬w.Tracker x c l → Leaves w v c l := by
  by_cases tracked : ∃ c l, w.Tracker x c l
  · obtain ⟨c, l, tracker⟩ := tracked
    have here : w.lists.get? c = some l := (live_iff.mp tracker.1).1
    have spares := spares_editObject discreet (handlers_of_tracker reach tracker) here
      (obtained c l tracker) value
    constructor
    · intro d m also
      obtain rfl : c = d := Roster.members_apart (sound_of_reach reach).owns tracker.1 also.1
        tracker.2.1 also.2.1
      obtain rfl : l = m := Option.some.inj (tracker.1.symm.trans also.1)
      exact leaves_of_spares spares (by simp [Table.get?_modify, here])
    · intro d m there other
      have differs : d ≠ c := by
        rintro rfl
        obtain rfl : l = m := Option.some.inj (here.symm.trans there)
        exact other tracker
      exact leaves_of_spares spares (by simp [Table.get?_modify, differs, there])
  · have untracked : ∀ c l, ¬w.Tracker x c l := fun c l tracker => tracked ⟨c, l, tracker⟩
    constructor
    · intro c l tracker
      exact absurd tracker (untracked c l)
    · intro c l here _
      left
      simp only [editObject, handlers_of_untracked reach untracked]
      exact here

/-- The live lists own their members, each of them once, and nobody owns anything else; an owner
that tracks edits is registered, and nobody else is; an edit is recorded where the item is
tracked. -/
theorem members_owned_and_tracked (reach : Reach w) :
    (∀ x c, w.cells.owner x = some c ↔ ∃ l, w.live c = some l ∧ x ∈ l.cellsOf l.contents) ∧
    (∀ c l, w.live c = some l → (l.cellsOf l.contents).Nodup) ∧
    (∀ x c d l m, w.live c = some l → w.live d = some m →
      x ∈ l.cellsOf l.contents → x ∈ m.cellsOf m.contents → c = d) ∧
    (∀ x c handler, w.cells.handler? x c = some handler ↔ handler = c ∧
      w.cells.owner x = some c ∧ ∃ l, w.live c = some l ∧ l.tracksEdits = true) ∧
    ∀ call x value, Discreet call →
      (∀ c l, w.Tracker x c l → (Host.acquire l.lock .write).succeeds w) →
      let v := (editObject call x value w).2
      (∀ c l, w.Tracker x c l →
        Leaves w v c (l.recordEdit ⟨x, (w.objects.get x).value, value⟩)) ∧
      ∀ c l, w.lists.get? c = some l → ¬w.Tracker x c l → Leaves w v c l := by
  have owns := (sound_of_reach reach).owns
  refine ⟨fun x c => Roster.owner_iff owns trivial, fun c l => owns.distinct,
    fun x c d l m => Roster.members_apart owns, fun x c handler => ?_,
    fun call x value discreet obtained => edit_of_reach reach discreet obtained value⟩
  rw [Roster.handler?_iff owns trivial, Roster.owner_iff owns trivial]
  apply and_congr_right
  intro _
  constructor
  · rintro ⟨l, alive, member, tracks⟩
    exact ⟨⟨l, alive, member⟩, l, alive, tracks⟩
  · rintro ⟨⟨l, alive, member⟩, m, there, tracks⟩
    obtain rfl : l = m := Option.some.inj (alive.symm.trans there)
    exact ⟨l, alive, member, tracks⟩

end

def sharedWorld : World ObjectId Unit Unit :=
  (mutate (fun _ _ _ => pure ()) 1 false (.push 0)
    (createList { access := some id }
      { client := (), objects := ({} : Objects).create "a" 5 }).2).2

theorem pushed_item_owned_and_tracked :
    Reach sharedWorld ∧ sharedWorld.cells.owner 0 = some 1 ∧ ∃ l, sharedWorld.live 1 = some l ∧
      Leaves sharedWorld (editObject (fun _ _ _ => pure ()) 0 7 sharedWorld).2 1
        (l.recordEdit ⟨0, 5, 7⟩) := by
  have begun : Reach ({ client := (), objects := ({} : Objects).create "a" 5 } :
      World ObjectId Unit Unit) := .start (fun _ => rfl) fun _ => ⟨rfl, fun _ => rfl⟩
  have reach : Reach sharedWorld := (begun.created { access := some id } fun _ => rfl).mutated _ 1 _
  obtain ⟨owner, -, apart, -, edits⟩ := members_owned_and_tracked reach
  have discreet : Discreet (fun _ _ _ => pure () : Call ObjectId Unit Unit) :=
    ⟨fun _ _ _ _ => rfl, fun _ _ _ _ _ => Nat.le_refl _⟩
  have member : ∃ l, sharedWorld.live 1 = some l ∧ 0 ∈ l.cellsOf l.contents ∧
      l.tracksEdits = true ∧ (Host.acquire l.lock .write).succeeds sharedWorld :=
    ⟨_, rfl, by decide, rfl, rfl⟩
  obtain ⟨l, alive, mine, tracks, free⟩ := member
  refine ⟨reach, (owner 0 1).mpr ⟨l, alive, mine⟩, l, alive, ?_⟩
  apply (edits _ 0 7 discreet _).1 1 l ⟨alive, mine, tracks⟩
  intro c m tracker
  obtain rfl : 1 = c := apart 0 1 c l m alive tracker.1 mine tracker.2.1
  obtain rfl : l = m := Option.some.inj (alive.symm.trans tracker.1)
  exact free

end UndoableLists.World
