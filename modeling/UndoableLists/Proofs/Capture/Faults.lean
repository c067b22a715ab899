import Mathlib.Data.List.Nodup
import UndoableLists.List.Site

/-!
The first cell in the way of a batch. Captures, releases and the items that enter a list go through
their cells in order and refuse the batch at the first that does not fit; which cells do not fit may
depend on those before. Main statements: which position each of the three names, and when there is
none to name.
-/
namespace UndoableLists

/-- The first refusal in a row of cells, each of which is refused in view of those before it. -/
def firstFault (fault? : List CellId → CellId → Option CaptureRefusal) :
    List CellId → List CellId → Option CaptureRefusal
  | _, [] => none
  | seen, id :: rest =>
    match fault? seen id with
    | some fault => some fault
    | none => firstFault fault? (seen ++ [id]) rest

section
variable {fault? : List CellId → CellId → Option CaptureRefusal} {seen ids : List CellId}
  {fault : CaptureRefusal}

theorem firstFault_eq_none : firstFault fault? seen ids = none ↔
    ∀ k x, ids[k]? = some x → fault? (seen ++ ids.take k) x = none := by
  induction ids generalizing seen with
  | nil => simp [firstFault]
  | cons id rest ih =>
    rw [firstFault]
    constructor
    · intro passes k x here
      split at passes
      · cases passes
      · rename_i first
        cases k with
        | zero =>
          cases here
          simpa using first
        | succ k => simpa using ih.mp passes k x here
    · intro fits
      have first : fault? seen id = none := by simpa using fits 0 id rfl
      rw [first]
      exact ih.mpr fun k x here => by simpa using fits (k + 1) x here

theorem firstFault_eq_some : firstFault fault? seen ids = some fault ↔
    ∃ k x, ids[k]? = some x ∧ fault? (seen ++ ids.take k) x = some fault ∧
      firstFault fault? seen (ids.take k) = none := by
  induction ids generalizing seen with
  | nil => simp [firstFault]
  | cons id rest ih =>
    rw [firstFault]
    cases first : fault? seen id with
    | some other =>
      constructor
      · rintro ⟨⟩
        exact ⟨0, id, rfl, by simpa using first, rfl⟩
      · rintro ⟨k, x, here, refused, passes⟩
        cases k with
        | zero =>
          cases here
          rw [List.take_zero, List.append_nil, first] at refused
          exact refused
        | succ k =>
          rw [List.take_succ_cons, firstFault, first] at passes
          cases passes
    | none =>
      constructor
      · intro found
        obtain ⟨k, x, here, refused, passes⟩ := ih.mp found
        refine ⟨k + 1, x, here, by simpa using refused, ?_⟩
        rw [List.take_succ_cons, firstFault, first]
        exact passes
      · rintro ⟨k, x, here, refused, passes⟩
        cases k with
        | zero =>
          cases here
          rw [List.take_zero, List.append_nil, first] at refused
          cases refused
        | succ k =>
          rw [List.take_succ_cons, firstFault, first] at passes
          exact ih.mpr ⟨k, x, here, by simpa using refused, passes⟩

end

theorem nodup_iff_new {β : Type} {xs : List β} :
    xs.Nodup ↔ ∀ k x, xs[k]? = some x → x ∉ xs.take k := by
  rw [List.nodup_iff_getElem?_ne_getElem?]
  constructor
  · intro differ k x here again
    obtain ⟨j, before, rfl⟩ := List.mem_take_iff_getElem.mp again
    have inside := (List.getElem?_eq_some_iff.mp here).1
    refine differ j k (by omega) inside ?_
    rw [here, List.getElem?_eq_getElem]
  · intro new j k before inside same
    refine new k xs[k] (List.getElem?_eq_getElem inside) ?_
    refine List.mem_take_iff_getElem.mpr ⟨j, by omega, ?_⟩
    rw [List.getElem?_eq_getElem inside,
      List.getElem?_eq_getElem (Nat.lt_trans before inside)] at same
    exact Option.some.inj same

theorem length_take_of_here {β : Type} {xs : List β} {k : Nat} {x : β} (here : xs[k]? = some x) :
    (xs.take k).length = k :=
  List.length_take_of_le (Nat.le_of_lt (List.getElem?_eq_some_iff.mp here).1)

namespace Cells
variable {η : Type} {cs : Cells η} {parent : Context} {ids : List CellId} {fault : CaptureRefusal}

def foreign? (cs : Cells η) (parent : Context) (before : List CellId) (id : CellId) :
    Option CaptureRefusal :=
  match cs.owner id with
  | none => none
  | some owner => if owner = parent then none else some (.alreadyCaptured before.length owner)

def missing? (cs : Cells η) (parent : Context) (before : List CellId) (id : CellId) :
    Option CaptureRefusal :=
  match cs.owner id with
  | none => some (.notCaptured before.length)
  | some owner =>
    if owner = parent then none else some (.capturedByOther before.length owner parent)

theorem captureFault?_eq (cs : Cells η) (parent : Context) (seen ids : List CellId) :
    cs.captureFault? parent seen.length ids = firstFault (cs.foreign? parent) seen ids := by
  induction ids generalizing seen with
  | nil => rfl
  | cons id rest ih =>
    have onward := ih (seen ++ [id])
    rw [List.length_append, List.length_singleton] at onward
    simp only [captureFault?, firstFault, foreign?, onward]
    cases cs.owner id with
    | none => rfl
    | some owner => by_cases mine : owner = parent <;> simp [mine]

theorem releaseFault?_eq (cs : Cells η) (parent : Context) (seen ids : List CellId) :
    cs.releaseFault? parent seen.length ids = firstFault (cs.missing? parent) seen ids := by
  induction ids generalizing seen with
  | nil => rfl
  | cons id rest ih =>
    have onward := ih (seen ++ [id])
    rw [List.length_append, List.length_singleton] at onward
    simp only [releaseFault?, firstFault, missing?, onward]
    cases cs.owner id with
    | none => rfl
    | some owner => by_cases mine : owner = parent <;> simp [mine]

theorem foreign?_eq_none {before : List CellId} {id : CellId} :
    cs.foreign? parent before id = none ↔ cs.owner id = none ∨ cs.owner id = some parent := by
  unfold foreign?
  cases cs.owner id with
  | none => simp
  | some owner => by_cases mine : owner = parent <;> simp [mine]

theorem missing?_eq_none {before : List CellId} {id : CellId} :
    cs.missing? parent before id = none ↔ cs.owner id = some parent := by
  unfold missing?
  cases cs.owner id with
  | none => simp
  | some owner => by_cases mine : owner = parent <;> simp [mine]

theorem foreign?_eq_some {before : List CellId} {id : CellId} :
    cs.foreign? parent before id = some fault ↔ ∃ owner, cs.owner id = some owner ∧
      owner ≠ parent ∧ fault = .alreadyCaptured before.length owner := by
  unfold foreign?
  cases cs.owner id with
  | none => simp
  | some owner => by_cases mine : owner = parent <;> simp [mine, @eq_comm _ fault]

theorem missing?_eq_some {before : List CellId} {id : CellId} :
    cs.missing? parent before id = some fault ↔
      cs.owner id = none ∧ fault = .notCaptured before.length ∨
        ∃ owner, cs.owner id = some owner ∧ owner ≠ parent ∧
          fault = .capturedByOther before.length owner parent := by
  unfold missing?
  cases cs.owner id with
  | none => simp [@eq_comm _ fault]
  | some owner => by_cases mine : owner = parent <;> simp [mine, @eq_comm _ fault]

def FirstForeign (cs : Cells η) (parent : Context) (ids : List CellId) (fault : CaptureRefusal) :
    Prop :=
  ∃ k id owner, ids[k]? = some id ∧ cs.owner id = some owner ∧ owner ≠ parent ∧
    fault = .alreadyCaptured k owner ∧
    ∀ x ∈ ids.take k, cs.owner x = none ∨ cs.owner x = some parent

def FirstMissing (cs : Cells η) (parent : Context) (ids : List CellId) (fault : CaptureRefusal) :
    Prop :=
  ∃ k id, ids[k]? = some id ∧
    (cs.owner id = none ∧ fault = .notCaptured k ∨ ∃ owner, cs.owner id = some owner ∧
      owner ≠ parent ∧ fault = .capturedByOther k owner parent) ∧
    ∀ x ∈ ids.take k, cs.owner x = some parent

theorem captureFault?_eq_none : cs.captureFault? parent 0 ids = none ↔
    ∀ x ∈ ids, cs.owner x = none ∨ cs.owner x = some parent := by
  rw [show 0 = ([] : List CellId).length from rfl, captureFault?_eq, firstFault_eq_none]
  simp only [foreign?_eq_none, List.mem_iff_getElem?, forall_exists_index]
  exact forall_comm

theorem captureFault?_eq_some :
    cs.captureFault? parent 0 ids = some fault ↔ cs.FirstForeign parent ids fault := by
  rw [show 0 = ([] : List CellId).length from rfl, captureFault?_eq, firstFault_eq_some]
  simp only [← captureFault?_eq, List.length_nil, captureFault?_eq_none, foreign?_eq_some,
    List.nil_append]
  constructor
  · rintro ⟨k, id, here, ⟨owner, owned, differs, rfl⟩, others⟩
    exact ⟨k, id, owner, here, owned, differs, by rw [length_take_of_here here], others⟩
  · rintro ⟨k, id, owner, here, owned, differs, rfl, others⟩
    exact ⟨k, id, here, ⟨owner, owned, differs, by rw [length_take_of_here here]⟩, others⟩

theorem releaseFault?_eq_none : cs.releaseFault? parent 0 ids = none ↔
    ∀ x ∈ ids, cs.owner x = some parent := by
  rw [show 0 = ([] : List CellId).length from rfl, releaseFault?_eq, firstFault_eq_none]
  simp only [missing?_eq_none, List.mem_iff_getElem?, forall_exists_index]
  exact forall_comm

theorem releaseFault?_eq_some :
    cs.releaseFault? parent 0 ids = some fault ↔ cs.FirstMissing parent ids fault := by
  rw [show 0 = ([] : List CellId).length from rfl, releaseFault?_eq, firstFault_eq_some]
  simp only [← releaseFault?_eq, List.length_nil, releaseFault?_eq_none, missing?_eq_some,
    List.nil_append]
  refine exists_congr fun k => exists_congr fun id => and_congr_right fun here => ?_
  rw [length_take_of_here here]

end Cells

namespace Site
variable {cells : Cells ListId} {context : Context} {leaving entering : List CellId}
  {fault : CaptureRefusal}

def unfit? (cells : Cells ListId) (context : Context) (leaving before : List CellId)
    (id : CellId) : Option CaptureRefusal :=
  if id ∈ before then some (.alreadyCaptured before.length context)
  else match cells.owner id with
    | none => none
    | some owner =>
      if owner = context ∧ id ∈ leaving then none else some (.alreadyCaptured before.length owner)

theorem enteringFault?_eq (cells : Cells ListId) (context : Context)
    (leaving seen entering : List CellId) :
    enteringFault? cells context leaving seen entering =
      firstFault (unfit? cells context leaving) seen entering := by
  induction entering generalizing seen with
  | nil => rfl
  | cons id rest ih =>
    rw [enteringFault?, firstFault, unfit?, ih]
    by_cases again : id ∈ seen
    · simp [again]
    · cases cells.owner id with
      | none => simp [again]
      | some owner => by_cases ours : owner = context ∧ id ∈ leaving <;> simp [again, ours]

theorem unfit?_eq_none {before : List CellId} {id : CellId} :
    unfit? cells context leaving before id = none ↔ id ∉ before ∧
      (cells.owner id = none ∨ cells.owner id = some context ∧ id ∈ leaving) := by
  unfold unfit?
  by_cases again : id ∈ before
  · simp [again]
  · cases cells.owner id with
    | none => simp [again]
    | some owner => by_cases ours : owner = context ∧ id ∈ leaving <;> simp [again, ours]

theorem unfit?_eq_some {before : List CellId} {id : CellId} :
    unfit? cells context leaving before id = some fault ↔
      ∃ owner, fault = .alreadyCaptured before.length owner ∧
        (id ∈ before ∧ owner = context ∨
          id ∉ before ∧ cells.owner id = some owner ∧ (owner = context → id ∉ leaving)) := by
  unfold unfit?
  by_cases again : id ∈ before
  · simp [again, @eq_comm _ fault]
  · cases cells.owner id with
    | none => simp [again]
    | some owner =>
      by_cases ours : owner = context ∧ id ∈ leaving
      · simp [again, ours, @eq_comm _ context]
      · simp only [again, ours, ↓reduceIte, not_false_eq_true, false_and, true_and, false_or,
          Option.some.injEq]
        constructor
        · rintro rfl
          exact ⟨owner, rfl, rfl, not_and.mp ours⟩
        · rintro ⟨_, rfl, rfl, _⟩
          rfl

/-- The cell at a position cannot enter: it comes up before, and then the list itself is in the way,
or a context owns it and does not give it up. -/
def Unfit (cells : Cells ListId) (context : Context) (leaving entering : List CellId) (k : Nat)
    (owner : Context) : Prop :=
  ∃ id, entering[k]? = some id ∧
    (id ∈ entering.take k ∧ owner = context ∨
      id ∉ entering.take k ∧ cells.owner id = some owner ∧ (owner = context → id ∉ leaving))

theorem enteringFault?_eq_none : enteringFault? cells context leaving [] entering = none ↔
    entering.Nodup ∧ ∀ x ∈ entering,
      cells.owner x = none ∨ cells.owner x = some context ∧ x ∈ leaving := by
  rw [enteringFault?_eq, firstFault_eq_none, nodup_iff_new]
  simp only [unfit?_eq_none, List.nil_append, List.mem_iff_getElem?]
  constructor
  · intro fits
    exact ⟨fun k x here => (fits k x here).1, fun x ⟨k, here⟩ => (fits k x here).2⟩
  · rintro ⟨new, entrants⟩ k x here
    exact ⟨new k x here, entrants x ⟨k, here⟩⟩

theorem not_unfit {k : Nat} (fits : ∀ x, entering[k]? = some x →
    unfit? cells context leaving (entering.take k) x = none) (owner : Context) :
    ¬Unfit cells context leaving entering k owner := by
  rintro ⟨x, here, blocked⟩
  have refused := unfit?_eq_some.mpr ⟨owner, rfl, blocked⟩
  rw [fits x here] at refused
  cases refused

theorem enteringFault?_ends (cells : Cells ListId) (context : Context)
    (leaving entering : List CellId) :
    (enteringFault? cells context leaving [] entering = none ∧
      ∀ k owner, ¬Unfit cells context leaving entering k owner) ∨
    ∃ k owner, Unfit cells context leaving entering k owner ∧
      (∀ j < k, ∀ other, ¬Unfit cells context leaving entering j other) ∧
      enteringFault? cells context leaving [] entering = some (.alreadyCaptured k owner) := by
  rw [enteringFault?_eq]
  cases found : firstFault (unfit? cells context leaving) [] entering with
  | none => exact .inl ⟨rfl, fun k => not_unfit (firstFault_eq_none.mp found k)⟩
  | some fault =>
    obtain ⟨k, x, here, refused, passes⟩ := firstFault_eq_some.mp found
    obtain ⟨owner, rfl, blocked⟩ := unfit?_eq_some.mp refused
    refine .inr ⟨k, owner, ⟨x, here, blocked⟩, fun j before => not_unfit fun y there => ?_, ?_⟩
    · have fits := firstFault_eq_none.mp passes j y (by rwa [List.getElem?_take_of_lt before])
      rwa [List.nil_append, List.take_take, Nat.min_eq_left (Nat.le_of_lt before)] at fits
    · rw [List.nil_append, length_take_of_here here]

end Site

end UndoableLists
