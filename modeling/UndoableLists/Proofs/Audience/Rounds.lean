import UndoableLists.Proofs.Audience.Roll
import UndoableLists.Proofs.Minutes

/-!
A delivery as a row of calls. What a callback does is up to it, as long as it leaves the audience
one that subscribing, unsubscribing and deliveries of its own can lead to. Main statements: the
calls of a delivery are one for each event and each of those who attended when it began, whatever
they do and however they end; and what a delivery leaves is again such an audience.
-/
namespace UndoableLists
namespace Audience

structure Called (σ κ ε : Type) where
  id : SubscriberId
  listener : κ
  event : ε
  start : σ

def Called.what {σ κ ε : Type} (c : Called σ κ ε) : SubscriberId × κ × ε :=
  (c.id, c.listener, c.event)

section
variable {σ κ ε δ : Type}

def minuting (call : Call σ κ ε δ) : Call (Minuted σ (Called σ κ ε)) κ ε δ :=
  fun id listener event =>
    (call id listener event).minuted fun start _ => ⟨id, listener, event, start⟩

/-- The calls that a delivery makes itself, in order; those of the deliveries inside it are made by
the callbacks. -/
def callsOf [Journal σ] (place : Place σ (Audience κ)) (call : Call σ κ ε δ) (events : List ε)
    (s : σ) : List (Called σ κ ε) :=
  (raise (Minuted.place place) (minuting call) events ⟨s, []⟩).2.minutes

def turns (audience : List (Subscriber κ)) (events : List ε) : List (ε × Subscriber κ) :=
  events.flatMap fun event => audience.map (event, ·)

/-- What is so at a moment: the audience and what its users know of it are in keeping with the
subscriptions made and dropped so far. -/
structure Moment (place : Place σ (Audience κ)) (Book : List (Attendance κ) → σ → Prop)
    (past : List (Attendance κ)) (held : List (List SubscriberId)) (s : σ) : Prop where
  life : Life past held (place.get s)
  book : Book past s

def Later (place : Place σ (Audience κ)) (Book : List (Attendance κ) → σ → Prop)
    (past : List (Attendance κ)) (held : List (List SubscriberId)) (s : σ) : Prop :=
  ∃ since, Moment place Book (past ++ since) held s

/-- Callbacks come to the audience only by subscribing, unsubscribing and delivering, and each
delivery that they begin is over when they end. -/
structure Conduct [Journal σ] (place : Place σ (Audience κ))
    (Book : List (Attendance κ) → σ → Prop) (call : Call σ κ ε δ) : Prop where
  lawful : place.Lawful
  noted : ∀ notice s, place.get (Journal.note notice s) = place.get s
  book_set : ∀ past n s, Book past s → Book past (place.set n s)
  book_noted : ∀ past notice s, Book past s → Book past (Journal.note notice s)
  called : ∀ past held s id listener event, Moment place Book past held s →
    Later place Book past held (call id listener event s).2

variable [Journal σ] {place : Place σ (Audience κ)} {Book : List (Attendance κ) → σ → Prop}
  {call : Call σ κ ε δ} {past : List (Attendance κ)} {held : List (List SubscriberId)} {s : σ}
  {events : List ε}

omit [Journal σ] in
theorem later_refl (moment : Moment place Book past held s) : Later place Book past held s :=
  ⟨[], by rwa [List.append_nil]⟩

omit [Journal σ] in
theorem later_trans {since : List (Attendance κ)}
    (later : Later place Book (past ++ since) held s) : Later place Book past held s := by
  obtain ⟨more, moment⟩ := later
  exact ⟨since ++ more, by rwa [← List.append_assoc]⟩

theorem deliverEvents_eq (call : Call σ κ ε δ) (audience : List (Subscriber κ)) (events : List ε)
    (s : σ) : events.foldl (deliverEvent call audience) s =
      (turns audience events).foldl (fun s turn => deliverTo call turn.1 turn.2 s) s := by
  rw [turns, List.foldl_flatMap]
  refine List.foldl_ext _ _ _ fun s event _ => ?_
  rw [List.foldl_map]
  rfl

/-- A delivery strikes off the dead and, if anyone is left, holds on to them for all turns. -/
theorem raise_eq (lawful : place.Lawful) (call : Call σ κ ε δ) (some : events ≠ []) (s : σ) :
    raise place call events s =
      let n := (place.get s).struckOff
      if n.subscribers.isEmpty then (0, place.set n s)
      else (n.subscribers.length, Journal.note .delivered
        (place.modify (·.unguarded (place.get s).roundOf)
          ((turns n.subscribers events).foldl (fun s turn => deliverTo call turn.1 turn.2 s)
            (place.set (n.guarded (place.get s).roundOf) s)))) := by
  have something : ¬ events.isEmpty = true := by simpa using some
  rw [raise, if_neg something]
  simp only [Place.modify, lawful.get_set, lawful.set_set, deliverEvents_eq]
  rfl

theorem deliverTo_minuted (call : Call σ κ ε δ) (event : ε) (m : Subscriber κ) (s : σ)
    (minutes : List (Called σ κ ε)) : deliverTo (minuting call) event m ⟨s, minutes⟩ =
      ⟨deliverTo call event m s, minutes ++ [⟨m.id, m.listener, event, s⟩]⟩ := by
  unfold deliverTo minuting Act.minuted
  rcases call m.id m.listener event s with ⟨_ | _, t⟩ <;> rfl

def callsFrom (call : Call σ κ ε δ) : List (ε × Subscriber κ) → σ → List (Called σ κ ε)
  | [], _ => []
  | (event, m) :: rest, s =>
    ⟨m.id, m.listener, event, s⟩ :: callsFrom call rest (deliverTo call event m s)

theorem turns_minuted (call : Call σ κ ε δ) (row : List (ε × Subscriber κ)) (s : σ)
    (minutes : List (Called σ κ ε)) :
    row.foldl (fun s turn => deliverTo (minuting call) turn.1 turn.2 s) ⟨s, minutes⟩ =
      ⟨row.foldl (fun s turn => deliverTo call turn.1 turn.2 s) s,
        minutes ++ callsFrom call row s⟩ := by
  induction row generalizing s minutes with
  | nil => simp [callsFrom]
  | cons turn rest ih =>
    rw [List.foldl_cons, List.foldl_cons, deliverTo_minuted, ih, callsFrom, List.append_assoc]
    rfl

theorem what_callsFrom (call : Call σ κ ε δ) (row : List (ε × Subscriber κ)) (s : σ) :
    (callsFrom call row s).map Called.what = row.map fun t => (t.2.id, t.2.listener, t.1) := by
  induction row generalizing s with
  | nil => rfl
  | cons turn rest ih =>
    rw [callsFrom, List.map_cons, List.map_cons, ih]
    rfl

theorem callsOf_eq (lawful : place.Lawful) (call : Call σ κ ε δ) (events : List ε) (s : σ) :
    callsOf place call events s =
      callsFrom call (turns (place.get s).struckOff.subscribers events)
        (place.set ((place.get s).struckOff.guarded (place.get s).roundOf) s) := by
  by_cases some : events = []
  · subst some
    rfl
  rw [callsOf, raise_eq (Minuted.lawful_place lawful) _ some]
  dsimp only [Minuted.place]
  cases nobody : (place.get s).struckOff.subscribers.isEmpty with
  | true =>
    have noTurn : turns ([] : List (Subscriber κ)) events = [] :=
      List.flatMap_eq_nil_iff.mpr fun _ _ => rfl
    rw [if_pos rfl, List.isEmpty_iff.mp nobody, noTurn]
    rfl
  | false =>
    rw [if_neg (by simp), turns_minuted]
    exact List.nil_append _

theorem later_deliverTo (conduct : Conduct place Book call) (moment : Moment place Book past held s)
    (event : ε) (m : Subscriber κ) : Later place Book past held (deliverTo call event m s) := by
  have after := conduct.called past held s m.id m.listener event moment
  unfold deliverTo
  rcases ran : call m.id m.listener event s with ⟨_ | _, t⟩
  · rw [ran] at after
    obtain ⟨since, moment⟩ := after
    refine ⟨since, ?_, conduct.book_noted _ _ _ moment.book⟩
    rw [conduct.noted]
    exact moment.life
  · rwa [ran] at after

theorem later_turns (conduct : Conduct place Book call) (row : List (ε × Subscriber κ))
    (moment : Moment place Book past held s) :
    (∀ c ∈ callsFrom call row s, Later place Book past held c.start) ∧
    Later place Book past held
      (row.foldl (fun s turn => deliverTo call turn.1 turn.2 s) s) := by
  induction row generalizing past s with
  | nil => exact ⟨by simp [callsFrom], later_refl moment⟩
  | cons turn rest ih =>
    obtain ⟨since, next⟩ := later_deliverTo conduct moment turn.1 turn.2
    obtain ⟨during, after⟩ := ih next
    refine ⟨?_, later_trans after⟩
    rintro c (_ | ⟨_, member⟩)
    · exact later_refl moment
    · exact later_trans (during c member)

theorem moment_begun (conduct : Conduct place Book call) (moment : Moment place Book past held s) :
    Moment place Book past ((place.get s).roundOf :: held)
      (place.set ((place.get s).struckOff.guarded (place.get s).roundOf) s) where
  life := by
    rw [conduct.lawful.get_set]
    exact moment.life.begun
  book := conduct.book_set _ _ _ moment.book

theorem later_raise (conduct : Conduct place Book call) (moment : Moment place Book past held s)
    (events : List ε) :
    (∀ c ∈ callsOf place call events s,
      Later place Book past ((place.get s).roundOf :: held) c.start) ∧
    Later place Book past held (raise place call events s).2 := by
  have begun := moment_begun conduct moment
  obtain ⟨during, since, last⟩ := later_turns conduct
    (turns (place.get s).struckOff.subscribers events) begun
  rw [callsOf_eq conduct.lawful]
  refine ⟨during, ?_⟩
  -- nothing is struck off for an empty batch
  by_cases some : events = []
  · subst some
    exact later_refl moment
  rw [raise_eq conduct.lawful call some]
  dsimp only
  split
  -- nobody is left, so nobody is guarded
  · refine later_refl ⟨?_, conduct.book_set _ _ _ moment.book⟩
    rw [conduct.lawful.get_set]
    exact life_struckOff moment.life
  · refine ⟨since, ?_, conduct.book_noted _ _ _ (conduct.book_set _ _ _ last.book)⟩
    rw [conduct.noted, Place.modify, conduct.lawful.get_set]
    exact last.life.ended

theorem what_callsOf (lawful : place.Lawful) (call : Call σ κ ε δ) (events : List ε) (s : σ) :
    (callsOf place call events s).map Called.what = events.flatMap fun event =>
      (place.get s).struckOff.registered.map fun p => (p.1, p.2, event) := by
  rw [callsOf_eq lawful, what_callsFrom, turns, List.map_flatMap]
  simp only [registered, List.map_map]
  rfl

theorem raise_answers (lawful : place.Lawful) (call : Call σ κ ε δ) (some : events ≠ []) (s : σ) :
    (raise place call events s).1 = (place.get s).struckOff.registered.length := by
  rw [raise_eq lawful call some, registered, List.length_map]
  dsimp only
  split
  · rename_i nobody
    rw [List.isEmpty_iff.mp nobody]
    rfl
  · rfl

end
end Audience
end UndoableLists
