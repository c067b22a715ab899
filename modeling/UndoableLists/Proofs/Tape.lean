import UndoableLists.Proofs.Timeline

/-!
A history seen as one tape of records with a cursor: before it lies what is done, after it what was
undone. Main statement: however a history is used, and however its replays end, its two stacks are
such a tape, on which a replay moves the cursor over the record it was given; and the whole tape,
undone records included, is never longer than the bound.
-/
namespace UndoableLists

/-- Records from the oldest to the newest, and how many of them lie before the cursor. -/
structure Tape (ρ : Type) where
  records : List ρ := []
  cursor : Nat := 0

/-- One use of a history. A replay does with its record whatever `play` says, and `keeps` tells the
failures that are refusals from those that broke the replay off. -/
inductive History.Use (ρ : Type) : Type 1 where
  | push (record : ρ)
  | replay {δ β : Type} (direction : Direction) (keeps : δ → Bool) (play : ρ → Except δ β)
  | clear

namespace Tape
variable {ρ : Type}

def near? (t : Tape ρ) : Direction → Option ρ
  | .forward => (t.records.drop t.cursor).head?
  | .backward => (t.records.take t.cursor).getLast?

def shortened (bound : Nat) (records : List ρ) : List ρ := records.drop (records.length - bound)

def written (t : Tape ρ) (bound : Nat) (record : ρ) : Tape ρ :=
  let records := shortened bound (t.records.take t.cursor ++ [record])
  ⟨records, records.length⟩

def moved (t : Tape ρ) : Direction → Tape ρ
  | .forward => { t with cursor := t.cursor + 1 }
  | .backward => { t with cursor := t.cursor - 1 }

def cut (t : Tape ρ) : Direction → Tape ρ
  | .forward => { t with records := t.records.eraseIdx t.cursor }
  | .backward => ⟨t.records.eraseIdx (t.cursor - 1), t.cursor - 1⟩

def used (bound : Nat) (t : Tape ρ) : History.Use ρ → Tape ρ
  | .push record => t.written bound record
  | .replay direction keeps play =>
    match (t.near? direction).map play with
    | none => t
    | some (.ok _) => t.moved direction
    | some (.error fault) => if keeps fault then t else t.cut direction
  | .clear => {}

end Tape

namespace History
variable {ρ δ β : Type} {h : History ρ}

def replayed (h : History ρ) (direction : Direction) (keeps : δ → Bool) (play : ρ → Except δ β) :
    Option (Except δ β) × History ρ :=
  match direction with
  | .forward => h.redo keeps play
  | .backward => h.undo keeps play

def used (h : History ρ) : Use ρ → History ρ
  | .push record => h.push record
  | .replay direction keeps play => (h.replayed direction keeps play).2
  | .clear => h.cleared

def tape (h : History ρ) : Tape ρ := ⟨h.timeline, h.done.length⟩

theorem near_tape (h : History ρ) (direction : Direction) :
    h.tape.near? direction = (h.side direction).head? := by
  cases direction with
  | forward => simp [Tape.near?, tape, timeline, side]
  | backward => simp [Tape.near?, tape, timeline, side]

theorem tape_push (h : History ρ) (record : ρ) :
    (h.push record).tape = h.tape.written h.maxDepth record := by
  have before : h.tape.records.take h.tape.cursor = h.done.reverse := by simp [tape, timeline]
  have kept : ((record :: h.done).take h.maxDepth).reverse =
      Tape.shortened h.maxDepth (h.done.reverse ++ [record]) := by
    rw [Tape.shortened, List.reverse_take, List.reverse_cons]
    simp
  simp only [Tape.written, before, ← kept, List.length_reverse]
  simp [push, tape, timeline]

def cut (h : History ρ) : Direction → History ρ
  | .forward => { h with undone := h.undone.tail }
  | .backward => { h with done := h.done.tail }

theorem replayed_eq (h : History ρ) (direction : Direction) (keeps : δ → Bool)
    (play : ρ → Except δ β) :
    h.replayed direction keeps play = ((h.tape.near? direction).map play,
      match (h.tape.near? direction).map play with
      | none => h
      | some (.ok _) => h.turned direction
      | some (.error fault) => if keeps fault then h else h.cut direction) := by
  rw [near_tape]
  cases direction with
  | forward =>
    cases near : h.undone with
    | nil => simp [replayed, redo, side, near]
    | cons record rest =>
      cases played : play record <;> simp [replayed, redo, side, turned, cut, near, played]
  | backward =>
    cases near : h.done with
    | nil => simp [replayed, undo, side, near]
    | cons record rest =>
      cases played : play record <;> simp [replayed, undo, side, turned, cut, near, played]

theorem tape_turned {direction : Direction} {record : ρ}
    (near : h.tape.near? direction = some record) :
    (h.turned direction).tape = h.tape.moved direction := by
  rw [near_tape] at near
  obtain ⟨rest, here⟩ := List.head?_eq_some_iff.mp near
  have same := timeline_turned h direction
  cases direction with
  | forward =>
    replace here : h.undone = record :: rest := here
    simp only [tape, Tape.moved, same]
    simp [turned, here]
  | backward =>
    replace here : h.done = record :: rest := here
    simp only [tape, Tape.moved, same]
    simp [turned, here]

theorem tape_cut {direction : Direction} {record : ρ}
    (near : h.tape.near? direction = some record) :
    (h.cut direction).tape = h.tape.cut direction := by
  rw [near_tape] at near
  obtain ⟨rest, here⟩ := List.head?_eq_some_iff.mp near
  cases direction with
  | forward =>
    replace here : h.undone = record :: rest := here
    simp [tape, timeline, cut, Tape.cut, here, List.eraseIdx_append_of_length_le]
  | backward =>
    replace here : h.done = record :: rest := here
    simp [tape, timeline, cut, Tape.cut, here, List.eraseIdx_append_of_length_le]

theorem tape_used (h : History ρ) (use : Use ρ) :
    (h.used use).tape = h.tape.used h.maxDepth use := by
  cases use with
  | push record => exact tape_push h record
  | replay direction keeps play =>
    simp only [used, replayed_eq, Tape.used]
    cases near : h.tape.near? direction with
    | none => rfl
    | some record =>
      cases played : play record with
      | ok out => simpa [played] using tape_turned near
      | error fault =>
        cases kept : keeps fault with
        | true => simp [played, kept]
        | false => simpa [played, kept] using tape_cut near
  | clear => rfl

theorem maxDepth_used (h : History ρ) (use : Use ρ) : (h.used use).maxDepth = h.maxDepth := by
  cases use with
  | push record => rfl
  | replay direction keeps play =>
    simp only [used, replayed_eq]
    split
    · rfl
    · cases direction <;> simp only [turned] <;> split <;> rfl
    · split
      · rfl
      · cases direction <;> rfl
  | clear => rfl

end History

theorem Tape.length_used {ρ : Type} {bound : Nat} {t : Tape ρ} (short : t.records.length ≤ bound)
    (use : History.Use ρ) : (t.used bound use).records.length ≤ bound := by
  cases use with
  | push record =>
    simp only [used, written, shortened, List.length_drop]
    omega
  | replay direction keeps play =>
    simp only [used]
    split
    · exact short
    · cases direction <;> exact short
    · split
      · exact short
      · cases direction <;> exact Nat.le_trans (List.length_eraseIdx_le ..) short
  | clear => exact Nat.zero_le bound

namespace History
variable {ρ δ β : Type} {h : History ρ}

/-- What several uses leave is the tape that they make of the tape before. -/
theorem tape_uses (h : History ρ) (uses : List (Use ρ)) :
    (uses.foldl used h).tape = uses.foldl (Tape.used h.maxDepth) h.tape := by
  induction uses generalizing h with
  | nil => rfl
  | cons use uses ih => rw [List.foldl_cons, List.foldl_cons, ih, maxDepth_used, tape_used]

theorem length_uses {t : Tape ρ} {bound : Nat} (short : t.records.length ≤ bound)
    (uses : List (Use ρ)) : (uses.foldl (Tape.used bound) t).records.length ≤ bound := by
  induction uses generalizing t with
  | nil => exact short
  | cons use uses ih => exact ih (Tape.length_used short use)

/-- Whatever a new history of any depth is used for: its stacks are the tape that these uses make,
with the cursor behind the last record that is done; the whole tape is within the bound; and the
next replay in either direction is given the record next to the cursor and hands on its outcome. -/
theorem stacks_are_a_bounded_tape (depth : Nat) (uses : List (Use ρ)) :
    let h := uses.foldl used { maxDepth := depth }
    let t := uses.foldl (Tape.used depth) {}
    h.done.reverse ++ h.undone = t.records ∧ h.done.length = t.cursor ∧
    h.done.length + h.undone.length ≤ depth ∧
    ∀ {δ β : Type} (direction : Direction) (keeps : δ → Bool) (play : ρ → Except δ β),
      (h.replayed direction keeps play).1 = (t.near? direction).map play := by
  intro h t
  have same : h.tape = t := tape_uses { maxDepth := depth } uses
  have short : t.records.length ≤ depth := length_uses (Nat.zero_le depth) uses
  refine ⟨congrArg Tape.records same, congrArg Tape.cursor same, ?_, ?_⟩
  · rw [← same] at short
    simpa [tape, timeline] using short
  · intro δ β direction keeps play
    rw [← same]
    exact congrArg Prod.fst (replayed_eq h direction keeps play)

/-- The oldest of three records goes at depth two, and the record after the cursor counts too. -/
example : let replays : Use Nat := .replay .backward (fun _ : Unit => true) Except.ok
    ([.push 1, .push 2, .push 3, replays].foldl used { maxDepth := 2 }).tape = ⟨[2, 3], 1⟩ := rfl

end History

end UndoableLists
