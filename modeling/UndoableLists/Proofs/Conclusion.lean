import UndoableLists.Proofs.Minutes
import UndoableLists.Session.Capture
import UndoableLists.Transaction

/-!
How transactions end. Main statement: whatever was registered, whichever steps panic and however the
end comes about, a transaction that was ever marked successful runs its follow-ups in the order of
their registration, any other one runs its take-backs from the newest to the oldest, each of them
once; and the panic handed on is that of the first step to panic, unless another is unwinding.
-/
namespace UndoableLists.Transaction
variable {ς σ ε : Type}

inductive Deed (ς : Type) where
  | revert (step : ς)
  | hook (step : ς)
  | success

namespace Deed

def on (tx : Transaction ς) : Deed ς → Transaction ς
  | .revert step => tx.addRevert step
  | .hook step => tx.addHook step
  | .success => tx.success

def revert? : Deed ς → Option ς
  | .revert step => some step
  | _ => none

def hook? : Deed ς → Option ς
  | .hook step => some step
  | _ => none

def marks : Deed ς → Bool
  | .success => true
  | _ => false

end Deed

inductive Exit where
  | dropped
  | committed
  | rolledBack
  deriving DecidableEq

def leaving (tx : Transaction ς) : Exit → Transaction ς
  | .committed => tx.success
  | _ => tx

/-- A transaction that began successful or not and went through some deeds to its end. -/
def lived (succeeded : Bool) (deeds : List (Deed ς)) (exit : Exit) : Transaction ς :=
  (deeds.foldl Deed.on { succeeded }).leaving exit

def marked (succeeded : Bool) (deeds : List (Deed ς)) (exit : Exit) : Bool :=
  succeeded || deeds.any Deed.marks || exit = .committed

section
variable {tx : Transaction ς} {deeds : List (Deed ς)}

theorem hooks_after : (deeds.foldl Deed.on tx).hooks = tx.hooks ++ deeds.filterMap Deed.hook? := by
  induction deeds generalizing tx with
  | nil => simp
  | cons deed rest ih =>
    rw [List.foldl_cons, ih, List.filterMap_cons]
    cases deed <;> simp [Deed.on, Deed.hook?, addRevert, addHook, success]

theorem reverts_after :
    (deeds.foldl Deed.on tx).reverts = tx.reverts ++ deeds.filterMap Deed.revert? := by
  induction deeds generalizing tx with
  | nil => simp
  | cons deed rest ih =>
    rw [List.foldl_cons, ih, List.filterMap_cons]
    cases deed <;> simp [Deed.on, Deed.revert?, addRevert, addHook, success]

theorem succeeded_after :
    (deeds.foldl Deed.on tx).succeeded = (tx.succeeded || deeds.any Deed.marks) := by
  induction deeds generalizing tx with
  | nil => simp
  | cons deed rest ih =>
    rw [List.foldl_cons, ih]
    cases deed <;> simp [Deed.on, Deed.marks, addRevert, addHook, success]

theorem ending_lived (succeeded : Bool) (deeds : List (Deed ς)) (exit : Exit) :
    (lived succeeded deeds exit).ending =
      if marked succeeded deeds exit then deeds.filterMap Deed.hook?
      else (deeds.filterMap Deed.revert?).reverse := by
  cases exit <;>
    simp [lived, leaving, ending, marked, success, hooks_after, reverts_after, succeeded_after]

end

def runs (run : ς → Act σ ε Unit) : List ς → σ → List (ς × Outcome ε Unit)
  | [], _ => []
  | step :: rest, s => (step, (run step s).1) :: runs run rest (run step s).2

def entering (run : ς → Act σ ε Unit) (step : ς) : Act (Minuted σ (ς × Outcome ε Unit)) ε Unit :=
  (run step).minuted fun _ r => (step, r)

theorem runs_steps (run : ς → Act σ ε Unit) (steps : List ς) (s : σ) :
    (runs run steps s).map (·.1) = steps := by
  induction steps generalizing s with
  | nil => rfl
  | cons step rest ih => rw [runs, List.map_cons, ih]

theorem runEach_entering (run : ς → Act σ ε Unit) (steps : List ς) (s : σ)
    (before : List (ς × Outcome ε Unit)) :
    runEach (entering run) steps ⟨s, before⟩ =
      ((runEach run steps s).1, ⟨(runEach run steps s).2, before ++ runs run steps s⟩) := by
  induction steps generalizing s before with
  | nil => simp [runEach, runs]
  | cons step rest ih =>
    rcases ran : run step s with ⟨r, t⟩
    have first : entering run step ⟨s, before⟩ = (r, ⟨t, before ++ [(step, r)]⟩) := by
      simp only [entering, Act.minuted, ran]
    simp only [runEach, runs, first, ran, ih, List.append_assoc, List.singleton_append]
    rcases r with fault | _ <;> rfl

theorem runEach_fault {run : ς → Act σ ε Unit} {steps : List ς} {s : σ} {fault : Fault ε} :
    (runEach run steps s).1 = some fault ↔ ∃ before step after,
      runs run steps s = before ++ (step, .error fault) :: after ∧
        ∀ r ∈ before, r.2 = .ok () := by
  induction steps generalizing s with
  | nil => simp [runEach, runs]
  | cons step rest ih =>
    rcases ran : run step s with ⟨own | _, t⟩
    · have stopped : (runEach run (step :: rest) s).1 = some own := by rw [runEach, ran]
      have first : runs run (step :: rest) s = (step, .error own) :: runs run rest t := by
        rw [runs, ran]
      rw [stopped, first]
      constructor
      · intro same
        cases same
        exact ⟨[], step, _, rfl, by simp⟩
      · rintro ⟨before, _, _, split, fine⟩
        cases before with
        | nil => cases split; rfl
        | cons r _ =>
          obtain rfl : (step, .error own) = r := (List.cons.inj split).1
          cases fine _ List.mem_cons_self
    · have passed : (runEach run (step :: rest) s).1 = (runEach run rest t).1 := by
        rw [runEach, ran]
      have first : runs run (step :: rest) s = (step, .ok ()) :: runs run rest t := by
        rw [runs, ran]
      rw [passed, first, ih]
      constructor
      · rintro ⟨before, culprit, after, split, fine⟩
        exact ⟨(step, .ok ()) :: before, culprit, after, by rw [split]; rfl, by simpa using fine⟩
      · rintro ⟨before, culprit, after, split, fine⟩
        cases before with
        | nil => cases split
        | cons r before =>
          obtain ⟨-, split⟩ := List.cons.inj split
          exact ⟨before, culprit, after, split,
            fun r member => fine r (List.mem_cons_of_mem _ member)⟩

variable [Journal σ]

def noted (tx : Transaction ς) (s : σ) : σ :=
  if tx.rollsBack then Journal.note .rollingBack s else s

theorem finish_eq (run : ς → Act σ ε Unit) (unwinding : Bool) (tx : Transaction ς) (s : σ) :
    tx.finish run unwinding s =
      (match (runEach run tx.ending (tx.noted s)).1, unwinding with
        | some fault, false => .error fault
        | _, _ => .ok (), (runEach run tx.ending (tx.noted s)).2) := by
  simp only [finish, noted]
  generalize runEach run tx.ending _ = ended
  rcases ended with ⟨_ | fault, t⟩ <;> cases unwinding <;> rfl

theorem finish_entering (run : ς → Act σ ε Unit) (unwinding : Bool) (tx : Transaction ς) (s : σ) :
    tx.finish (entering run) unwinding ⟨s, []⟩ = ((tx.finish run unwinding s).1,
      ⟨(tx.finish run unwinding s).2, runs run tx.ending (tx.noted s)⟩) := by
  have begun : tx.noted (⟨s, []⟩ : Minuted σ (ς × Outcome ε Unit)) = ⟨tx.noted s, []⟩ := by
    unfold noted
    split <;> rfl
  rw [finish_eq, finish_eq, begun, runEach_entering]
  rfl

/-- A transaction ends in exactly one way. The steps that run are the follow-ups if it was ever
marked successful, in order, or else the take-backs in reverse; each runs once, whatever becomes of
the others; and what is handed on is the fault of the first that has one, unless a panic is
unwinding already. -/
theorem ends_in_exactly_one_way (run : ς → Act σ ε Unit) (succeeded : Bool)
    (deeds : List (Deed ς)) (exit : Exit) (unwinding : Bool) (s : σ) :
    let tx := lived succeeded deeds exit
    let steps := if marked succeeded deeds exit then deeds.filterMap Deed.hook?
      else (deeds.filterMap Deed.revert?).reverse
    ∃ ran : List (ς × Outcome ε Unit), ran.map (·.1) = steps ∧
      tx.finish (entering run) unwinding ⟨s, []⟩ =
        ((tx.finish run unwinding s).1, ⟨(tx.finish run unwinding s).2, ran⟩) ∧
      ∀ fault, (tx.finish run unwinding s).1 = .error fault ↔
        unwinding = false ∧ ∃ before step after,
          ran = before ++ (step, .error fault) :: after ∧ ∀ r ∈ before, r.2 = .ok () := by
  intro tx steps
  refine ⟨runs run tx.ending (tx.noted s), ?_, finish_entering run unwinding tx s, ?_⟩
  · rw [runs_steps]
    exact ending_lived succeeded deeds exit
  · intro fault
    rw [← runEach_fault, finish_eq]
    cases (runEach run tx.ending (tx.noted s)).1 <;> cases unwinding <;> simp

/-- The panic of one step keeps no other from running. -/
example :
    let tx := lived false [.revert (Session.TxStep.revert "first" false),
      .revert (.revert "boom" true), .revert (.revert "last" true)] .dropped
    let ended := Session.CaptureSession.finish tx {}
    ended.1 = .error (.panicked (some "last")) ∧ ended.2.entries =
      [.notice .rollingBack, .reverted "last", .reverted "boom", .reverted "first"] :=
  ⟨rfl, rfl⟩

end UndoableLists.Transaction
