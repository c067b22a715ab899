import UndoableLists.History
import UndoableLists.Record

/-!
A history seen as a timeline with a cursor: the states that undoing leads back to, the present
one, and the states that redoing leads to. A history follows a timeline when each of its records,
replayed where it stands, leads from one state to the next. Main statements: recording, replaying
and forgetting keep that up, and never hold more records than the bound allows.
-/
namespace UndoableLists

structure Timeline (σ : Type) where
  past : List σ := []
  now : σ
  ahead : List σ := []

namespace Timeline
variable {σ : Type}

def side (t : Timeline σ) : Direction → List σ
  | .forward => t.ahead
  | .backward => t.past

def turned (t : Timeline σ) : Direction → Timeline σ
  | .forward =>
    match t.ahead with
    | [] => t
    | next :: ahead => ⟨t.now :: t.past, next, ahead⟩
  | .backward =>
    match t.past with
    | [] => t
    | last :: past => ⟨past, last, t.now :: t.ahead⟩

def walked (t : Timeline σ) (direction : Direction) : Nat → Timeline σ
  | 0 => t
  | k + 1 => (t.turned direction).walked direction k

/-- A change that is kept: what lay ahead is gone, and so is the oldest past beyond the bound. -/
def recorded (t : Timeline σ) (depth : Nat) (next : σ) : Timeline σ :=
  ⟨(t.now :: t.past).take depth, next, []⟩

def heard (t : Timeline σ) (signal : Bool) : Timeline σ := if signal then { now := t.now } else t

theorem side_turned {t : Timeline σ} {direction : Direction} {next : σ} {more : List σ}
    (here : t.side direction = next :: more) :
    (t.turned direction).now = next ∧ (t.turned direction).side direction = more := by
  cases direction <;> simp_all [side, turned]

theorem walked_succ (t : Timeline σ) (direction : Direction) (k : Nat) :
    t.walked direction (k + 1) = (t.walked direction k).turned direction := by
  induction k generalizing t with
  | zero => rfl
  | succ k ih => exact ih (t.turned direction)

theorem walked_back {t : Timeline σ} {k : Nat} (enough : k ≤ t.past.length) :
    (t.walked .backward k).ahead = ((t.now :: t.past).take k).reverse ++ t.ahead ∧
      (t.walked .backward k).walked .forward k = t := by
  induction k generalizing t with
  | zero => exact ⟨rfl, rfl⟩
  | succ k ih =>
    obtain ⟨past, now, ahead⟩ := t
    cases past with
    | nil => simp at enough
    | cons last past =>
      obtain ⟨passed, back⟩ := ih (t := ⟨past, last, now :: ahead⟩) (by simpa using enough)
      refine ⟨by simpa [walked, turned] using passed, ?_⟩
      rw [walked_succ]
      exact congrArg (turned · .forward) back

end Timeline

namespace History
variable {ρ σ : Type}

def side (h : History ρ) : Direction → List ρ
  | .forward => h.undone
  | .backward => h.done

def turned (h : History ρ) : Direction → History ρ
  | .forward =>
    match h.undone with
    | [] => h
    | record :: rest => { h with done := record :: h.done, undone := rest }
  | .backward =>
    match h.done with
    | [] => h
    | record :: rest => { h with done := rest, undone := record :: h.undone }

def Linked (leads : ρ → σ → σ → Prop) : List ρ → σ → List σ → Prop
  | [], _, [] => True
  | record :: rest, s, t :: more => leads record s t ∧ Linked leads rest t more
  | _, _, _ => False

/-- `moves` says where replaying a record in a direction leads. -/
structure Follows (moves : ρ → Direction → σ → σ → Prop) (h : History ρ) (t : Timeline σ) :
    Prop where
  linked : ∀ direction, Linked (moves · direction) (h.side direction) t.now (t.side direction)
  bounded : h.done.length + h.undone.length ≤ h.maxDepth

section
variable {leads : ρ → σ → σ → Prop} {moves : ρ → Direction → σ → σ → Prop}
  {h : History ρ} {t : Timeline σ}

theorem linked_length {records : List ρ} {s : σ} {states : List σ}
    (linked : Linked leads records s states) : states.length = records.length := by
  induction records generalizing s states with
  | nil => cases states <;> simp_all [Linked]
  | cons record rest ih =>
    cases states with
    | nil => exact linked.elim
    | cons next more => simp [ih linked.2]

theorem linked_take {records : List ρ} {s : σ} {states : List σ} (n : Nat)
    (linked : Linked leads records s states) :
    Linked leads (records.take n) s (states.take n) := by
  induction n generalizing records s states with
  | zero => simp [Linked]
  | succ n ih =>
    cases records with
    | nil => cases states <;> simp_all [Linked]
    | cons record rest =>
      cases states with
      | nil => exact linked.elim
      | cons next more => exact ⟨linked.1, ih linked.2⟩

theorem side_length (follows : Follows moves h t) (direction : Direction) :
    (t.side direction).length = (h.side direction).length :=
  linked_length (follows.linked direction)

theorem follows_cleared (now : σ) : Follows moves h.cleared { now } where
  linked direction := by cases direction <;> exact trivial
  bounded := Nat.zero_le _

theorem follows_push (follows : Follows moves h t) {record : ρ} {next : σ}
    (leads : moves record .backward next t.now) :
    Follows moves (h.push record) (t.recorded h.maxDepth next) where
  linked
    | .forward => trivial
    | .backward => linked_take (s := next) h.maxDepth ⟨leads, follows.linked .backward⟩
  bounded := List.length_take_le ..

theorem nearest (follows : Follows moves h t) {direction : Direction} {record : ρ}
    {rest : List ρ} (here : h.side direction = record :: rest) :
    ∃ next more, t.side direction = next :: more ∧ moves record direction t.now next ∧
      (t.turned direction).now = next := by
  have linked := follows.linked direction
  rw [here] at linked
  cases there : t.side direction with
  | nil => simp [there, Linked] at linked
  | cons next more =>
    rw [there] at linked
    refine ⟨next, more, rfl, linked.1, ?_⟩
    cases direction <;> simp_all [Timeline.side, Timeline.turned]

theorem nearest_record (follows : Follows moves h t) {direction : Direction} {next : σ}
    {more : List σ} (ahead : t.side direction = next :: more) :
    ∃ record rest, h.side direction = record :: rest ∧ moves record direction t.now next := by
  have number := side_length follows direction
  cases near : h.side direction with
  | nil => simp [near, ahead] at number
  | cons record rest =>
    obtain ⟨other, others, here, leads, -⟩ := nearest follows near
    rw [ahead] at here
    cases here
    exact ⟨record, rest, rfl, leads⟩

/-- Going one step in a direction. `reversible`: a record leads back from where it leads to. -/
theorem follows_turned (reversible : ∀ r a b, moves r .forward a b ↔ moves r .backward b a)
    (follows : Follows moves h t) (direction : Direction) :
    Follows moves (h.turned direction) (t.turned direction) := by
  have ahead := follows.linked .forward
  have behind := follows.linked .backward
  have bounded := follows.bounded
  obtain ⟨done, undone, depth⟩ := h
  obtain ⟨past, now, future⟩ := t
  cases direction with
  | forward =>
    cases undone with
    | nil =>
      cases future with
      | nil => exact follows
      | cons next more => exact ahead.elim
    | cons record rest =>
      cases future with
      | nil => exact ahead.elim
      | cons next more =>
        constructor
        · rintro (_ | _)
          · exact ahead.2
          · exact ⟨(reversible record now next).mp ahead.1, behind⟩
        · simp_all [turned]
          omega
  | backward =>
    cases done with
    | nil =>
      cases past with
      | nil => exact follows
      | cons last more => exact behind.elim
    | cons record rest =>
      cases past with
      | nil => exact behind.elim
      | cons last more =>
        constructor
        · rintro (_ | _)
          · exact ⟨(reversible record last now).mpr behind.1, ahead⟩
          · exact behind.2
        · simp_all [turned]
          omega

theorem timeline_push (h : History ρ) (record : ρ) :
    (h.push record).timeline.Sublist (h.timeline ++ [record]) := by
  have kept : ((record :: h.done).take h.maxDepth).reverse.Sublist (h.done.reverse ++ [record]) :=
    List.reverse_cons ▸ (List.take_sublist ..).reverse
  have oldest : (h.done.reverse ++ [record]).Sublist (h.timeline ++ [record]) :=
    (List.sublist_append_left ..).append_right _
  simpa [timeline, push] using kept.trans oldest

/-- Replaying moves a record from the one stack to the other. -/
theorem timeline_turned (h : History ρ) (direction : Direction) :
    (h.turned direction).timeline = h.timeline := by
  obtain ⟨done, undone, depth⟩ := h
  cases direction with
  | forward => cases undone <;> simp [turned, timeline]
  | backward => cases done <;> simp [turned, timeline]

theorem mem_timeline_of_near {direction : Direction} {record : ρ} {rest : List ρ}
    (near : h.side direction = record :: rest) : record ∈ h.timeline := by
  cases direction <;> simp_all [side, timeline]

end

end History

end UndoableLists
