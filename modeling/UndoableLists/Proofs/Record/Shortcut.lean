import UndoableLists.Proofs.Record.Bounds
import UndoableLists.Proofs.Record.Handover
import UndoableLists.Proofs.Record.Matching

/-!
The shortcut of a move. A composite of a removal and an addition is applied as a whole by putting
back elsewhere what was taken out; inside another composite the same two are applied one after the
other. Main statement: on contents that its children match, a composite leaves what the children
leave, and its handover accounts for the difference, unless it has the shape of a move and names two
different items.
-/
namespace UndoableLists.Record
variable {α ε : Type}

def applyInTurn : List (Record α ε) → Direction → Store α → Application α ε
  | [], _, s => .ok (s, {})
  | child :: rest, .forward, s =>
    thenApply (child.apply .forward s) fun s => applyInTurn rest .forward s
  | child :: rest, .backward, s =>
    thenApply (applyInTurn rest .backward s) fun s => child.apply .backward s

def Accounts [DecidableEq α] (h : Handover α) (before after : List α) : Prop :=
  ∀ a, (after.count a : Int) = before.count a - h.leaving.count a + h.entering.count a

section
variable {records : List (Record α ε)} {direction : Direction} {s : Store α} {x : List α}

theorem applyInTurn_of_moves (coherent : ∀ child ∈ records, child.Coherent)
    (h : MovesAll records direction s.items x) :
    ∃ effects, applyInTurn records direction s = .ok (s.withItems x, effects) := by
  induction records generalizing s x with
  | nil =>
    obtain rfl : s.items = x := by cases direction with
      | forward => exact h
      | backward => exact h.symm
    exact ⟨{}, by rw [applyInTurn]; rfl⟩
  | cons child rest ih =>
    obtain ⟨first, others⟩ := List.forall_mem_cons.mp coherent
    cases direction with
    | forward =>
      obtain ⟨y, moves, onward⟩ := h
      have moves : child.Moves .forward s.items y := moves
      obtain ⟨changes, done, -⟩ := apply_of_moves first moves
      obtain ⟨effects, more⟩ := ih (s := s.withItems y) others onward
      exact ⟨_, by rw [applyInTurn, done, thenApply, more]; rfl⟩
    | backward =>
      obtain ⟨y, moves, onward⟩ := h
      obtain ⟨effects, done⟩ := ih others onward
      have moves : child.Moves .backward (s.withItems y).items x := moves
      obtain ⟨changes, more, -⟩ := apply_of_moves first moves
      exact ⟨_, by rw [applyInTurn, done, thenApply, more]; rfl⟩

theorem accounts_of_perm [DecidableEq α] {h : Handover α} {before after : List α}
    (whole : (before ++ h.entering).Perm (after ++ h.leaving)) : Accounts h before after := by
  intro a
  have sum := whole.count_eq a
  rw [List.count_append, List.count_append] at sum
  omega

theorem accounts_of_same [DecidableEq α] {out into : α} {before after : List α}
    (same : after.Perm before) : Accounts ⟨[out], [into]⟩ before after ↔ into = out := by
  constructor
  · intro accounts
    have sum : (after.count into : Int) =
        before.count into - [out].count into + [into].count into := accounts into
    by_contra differs
    rw [same.count_eq into, List.count_singleton_self,
      List.count_eq_zero_of_not_mem (mt List.mem_singleton.mp differs)] at sum
    omega
  · rintro rfl a
    show (after.count a : Int) = before.count a - [into].count a + [into].count a
    rw [same.count_eq a]
    omega

/-- What is taken out is put back elsewhere, whatever was to be put in. -/
theorem shift_of_exchange {out into : α} {source target : Nat} {u : List α}
    (taken : Inserts source out u s.items) (put : Inserts target into u x) :
    ∃ t, shift s source target = .ok t ∧ t.items.Perm s.items ∧
      (t = s.withItems x ↔ into = out) := by
  have back : Inserts target out u (u.insertIdx target out) := ⟨put.1, rfl⟩
  refine ⟨_, shift_of_moved taken back,
    (perm_of_inserts back).symm.trans (perm_of_inserts taken), ?_⟩
  constructor
  · intro same
    have items : u.insertIdx target out = x := congrArg Store.items same
    have there := (inserts_iff_taken.mp back).1
    rw [items, (inserts_iff_taken.mp put).1] at there
    exact Option.some.inj there
  · rintro rfl
    rw [put.2]

theorem coherent_exchange {source target : Nat} {out into : α} :
    (Record.composite [.remove source out, .add target into] : Record α ε).Coherent ↔
      into = out := by
  constructor
  · intro coherent
    have same : (Record.composite [.remove source out, .add target into] : Record α ε) =
        .moved out source target := coherent out source target rfl
    injection same with children
    injection children with _ rest
    injection rest with added
    injection added
  · rintro rfl item source target ⟨⟩
    rfl

/-- The shortcut itself, in either direction, next to what the two children would leave. -/
theorem apply_exchange [DecidableEq α] {source target : Nat} {out into : α} {direction : Direction}
    {s : Store α} {x : List α}
    (moves : MovesAll ([.remove source out, .add target into] : List (Record α ε)) direction
      s.items x) :
    let record : Record α ε := .composite [.remove source out, .add target into]
    ∃ t effects, record.apply direction s = .ok (t, effects) ∧
      (t = s.withItems x ↔ record.Coherent) ∧
      (Accounts (record.handover direction) s.items t.items ↔ record.Coherent) := by
  intro record
  cases direction with
  | forward =>
    obtain ⟨u, taken, v, put, same⟩ := moves
    obtain rfl : v = x := same
    obtain ⟨t, shifted, kept, whole⟩ := shift_of_exchange taken put
    exact ⟨t, _, by simp only [record, apply, move?, shifted]; rfl,
      whole.trans coherent_exchange.symm, (accounts_of_same kept).trans coherent_exchange.symm⟩
  | backward =>
    obtain ⟨u, put, v, taken, same⟩ := moves
    obtain rfl : v = s.items := same
    obtain ⟨t, shifted, kept, whole⟩ := shift_of_exchange taken put
    exact ⟨t, _, by simp only [record, apply, move?, shifted]; rfl,
      (whole.trans eq_comm).trans coherent_exchange.symm,
      ((accounts_of_same kept).trans eq_comm).trans coherent_exchange.symm⟩

/-- On contents that its children match, a composite leaves what the children leave, applied each by
itself or as parts of a whole, and its handover accounts for what they leave; unless it takes one
item out and puts another one in and nothing else, which puts the first one back elsewhere, so that
the handover is off as well. -/
theorem composite_leaves_what_children_leave [DecidableEq α] {children : List (Record α ε)}
    {direction : Direction} {s : Store α} (fits : MatchesAll children direction s) :
    let record : Record α ε := .composite children
    ∃ t u whole each,
      record.apply direction s = .ok (t, whole) ∧
      applyAll children direction s = .ok (u, each) ∧
      Accounts (record.handover direction) s.items u.items ∧
      (t = u ↔ record.Coherent) ∧
      (Accounts (record.handover direction) s.items t.items ↔ record.Coherent) ∧
      ((∀ child ∈ children, child.Coherent) →
        ∃ effects, applyInTurn children direction s = .ok (u, effects)) := by
  intro record
  obtain ⟨x, moves⟩ := movesAll_of_matchesAll children direction s fits
  obtain ⟨changes, each, -⟩ := applyAll_of_moves children direction s x moves
  have handed : record.handover direction = handoverAll children direction := by
    cases direction <;> rfl
  have told : Accounts (record.handover direction) s.items x := by
    rw [handed]
    exact accounts_of_perm (perm_of_movesAll children direction s.items x moves)
  have inTurn := fun coherent => applyInTurn_of_moves (s := s) coherent moves
  cases shape : record.move? with
  | none =>
    have whole : record.apply direction s = applyAll children direction s := by
      simp only [apply, shape]
      cases direction <;> rfl
    have coherent : record.Coherent := by
      intro _ _ _ given
      cases shape.symm.trans given
    exact ⟨_, _, _, _, whole.trans each, each, told, iff_of_true rfl coherent,
      iff_of_true told coherent, inTurn⟩
  | some move =>
    obtain ⟨out, source, target⟩ := move
    obtain ⟨into, same⟩ := of_move? shape
    obtain rfl := composite.inj same
    obtain ⟨t, effects, whole, agrees, accounts⟩ := apply_exchange moves
    exact ⟨t, _, effects, _, whole, each, told, agrees, accounts, inTurn⟩

/-- Backward, a composite of which a child is a move, put next to its children one by one. -/
theorem nested_move_leaves_what_children_leave :
    let children : List (Record Nat Nat) := [.moved 5 0 1, .remove 0 6, .add 1 7]
    let before : Store Nat := ⟨[5, 7], false, .splice⟩
    ∃ u whole each, (Record.composite children).apply .backward before = .ok (u, whole) ∧
      applyInTurn children .backward before = .ok (u, each) ∧ u.items = [5, 6] ∧
      Accounts ((Record.composite children).handover .backward) [5, 7] [5, 6] := by
  intro children before
  have fits : MatchesAll children .backward before :=
    ⟨⟨⟨trivial, _, _, rfl, rfl⟩, _, _, rfl, Nat.zero_le _⟩, _, _, rfl,
      ⟨⟨trivial, _, _, rfl, rfl⟩, _, _, rfl, Nat.zero_le _⟩⟩
  have coherent : ∀ child ∈ children, child.Coherent := by
    simp only [children, List.forall_mem_cons]
    refine ⟨?_, ?_, ?_, by simp⟩
    · rintro _ _ _ ⟨⟩
      rfl
    · rintro _ _ _ ⟨⟩
    · rintro _ _ _ ⟨⟩
  have whole : (Record.composite children).Coherent := by rintro _ _ _ ⟨⟩
  obtain ⟨t, u, done, _, applied, inner, accounts, agrees, -, inTurn⟩ :=
    composite_leaves_what_children_leave fits
  obtain rfl := agrees.mpr whole
  obtain ⟨each, together⟩ := inTurn coherent
  cases inner
  exact ⟨_, done, each, applied, together, rfl, accounts⟩

/-- One item taken out and another put in: the first is put back. -/
theorem exchanged_pair_stays :
    let children : List (Record Nat Nat) := [.remove 0 1, .add 0 2]
    let before : Store Nat := ⟨[1], false, .splice⟩
    let record : Record Nat Nat := .composite children
    MatchesAll children .forward before ∧
      (∃ whole, record.apply .forward before = .ok (before, whole)) ∧
      (∃ u each, applyInTurn children .forward before = .ok (u, each) ∧ u.items = [2]) ∧
      ¬Accounts (record.handover .forward) [1] [1] := by
  intro children before record
  refine ⟨⟨rfl, _, _, rfl, Nat.zero_le _, _, _, rfl, trivial⟩, ⟨_, rfl⟩, ⟨_, _, rfl, rfl⟩, ?_⟩
  intro accounts
  exact absurd (accounts 2) (by decide)

end

end UndoableLists.Record
