import UndoableLists.Proofs.Audience.Rounds
import UndoableLists.Session.Deliveries

/-!
Subscribers who follow scripts: they subscribe, drop subscriptions, deliver events and panic, one
inside the other, and whatever they do is a conduct. Main statement: a delivery calls exactly those
whom it found, for each event in the order of registration, and no live subscriber is ever struck
off. Whom it finds are those alive when it begins and, if it is made from inside another one, those
whom that one still holds on to.
-/
namespace UndoableLists
namespace Session.DeliverySession
open Audience (Attendance Moment Later Life Conduct alive everyone attending)

structure Keeps (below : SubscriberId) (past : List (Attendance ScriptedListener))
    (p : DeliverySession) : Prop where
  holds : ∀ g ∈ p.guards, g.2 ∈ (alive past).map (·.1)
  distinct : (p.guards.map (·.2)).Nodup
  fresh : ∀ q ∈ everyone past, q.1 < below

def Fits (past : List (Attendance ScriptedListener)) (p : DeliverySession) : Prop :=
  Keeps p.next past p

variable {past : List (Attendance ScriptedListener)} {held : List (List SubscriberId)}
  {p : DeliverySession}
  {below : SubscriberId} {exec : DeliveryStep → DeliverySession → DeliveryAnswer × DeliverySession}

theorem lookup_mem {name : String} {id : SubscriberId} {guards : List (String × SubscriberId)}
    (found : guards.lookup name = some id) : (name, id) ∈ guards := by
  obtain ⟨before, after, rfl, -⟩ := List.lookup_eq_some_iff.mp found
  simp

theorem alive_left {id x : SubscriberId} (there : x ∈ (alive past).map (·.1)) (other : x ≠ id) :
    x ∈ (alive (past ++ [.left id])).map (·.1) := by
  obtain ⟨q, living, rfl⟩ := List.mem_map.mp there
  refine List.mem_map_of_mem (Audience.mem_alive.mpr ?_)
  simpa [other] using Audience.mem_alive.mp living

theorem alive_joined {id x : SubscriberId} {l : ScriptedListener}
    (there : x ∈ (alive past).map (·.1)) : x ∈ (alive (past ++ [.joined id l])).map (·.1) := by
  obtain ⟨q, living, rfl⟩ := List.mem_map.mp there
  refine List.mem_map_of_mem (Audience.mem_alive.mpr ?_)
  rw [Audience.everyone_joined, Audience.departed_joined, List.mem_append]
  exact (Audience.mem_alive.mp living).imp_left .inl

theorem unsubscribe_next (name : String) (p : DeliverySession) :
    (p.unsubscribe name).2.next = p.next := by
  unfold unsubscribe
  cases p.guards.lookup name <;> rfl

theorem unsubscribe_guards (name : String) (p : DeliverySession) :
    (p.unsubscribe name).2.guards.Sublist p.guards := by
  unfold unsubscribe
  cases p.guards.lookup name with
  | none => exact .refl _
  | some id => exact List.filter_sublist

theorem keeps_unsubscribe (life : Life past held p.notifier) (keeps : Keeps below past p)
    (name : String) : ∃ since, Life (past ++ since) held (p.unsubscribe name).2.notifier ∧
      Keeps below (past ++ since) (p.unsubscribe name).2 ∧
      ∀ x ∈ (alive past).map (·.1), x ∉ p.guards.map (·.2) →
        x ∈ (alive (past ++ since)).map (·.1) := by
  unfold unsubscribe
  cases found : p.guards.lookup name with
  | none =>
    refine ⟨[], ?_⟩
    rw [List.append_nil]
    exact ⟨life, keeps, fun x living _ => living⟩
  | some id =>
    have kept : (name, id) ∈ p.guards := lookup_mem found
    refine ⟨[.left id], life.left (keeps.holds _ kept), ⟨?_, ?_, ?_⟩, ?_⟩
    -- no two names stand for one subscription, so the other ones are kept
    · intro g member
      obtain ⟨there, differs⟩ := List.mem_filter.mp member
      refine alive_left (keeps.holds g there) fun same => ?_
      have both : g = (name, id) := List.inj_on_of_nodup_map keeps.distinct there kept same
      simp [both] at differs
    · exact keeps.distinct.sublist (List.filter_sublist.map _)
    · rw [Audience.everyone_left]
      exact keeps.fresh
    · intro x living unkept
      refine alive_left living ?_
      rintro rfl
      exact unkept (List.mem_map_of_mem kept)

theorem later_unsubscribe (moment : Moment place Fits past held p) (name : String) :
    Later place Fits past held (p.unsubscribe name).2 := by
  obtain ⟨since, life, keeps, -⟩ := keeps_unsubscribe moment.life moment.book name
  refine ⟨since, life, ?_⟩
  rw [Fits, unsubscribe_next]
  exact keeps

theorem later_subscribe (moment : Moment place Fits past held p) (l : ScriptedListener) :
    Later place Fits past held (p.subscribe l) := by
  have below {x : SubscriberId} (member : x ∈ (everyone past).map (·.1)) : x < p.next := by
    obtain ⟨q, there, rfl⟩ := List.mem_map.mp member
    exact moment.book.fresh q there
  have kept {x : SubscriberId} (member : x ∈ p.guards.map (·.2)) : x < p.next := by
    obtain ⟨g, there, rfl⟩ := List.mem_map.mp member
    obtain ⟨q, living, same⟩ := List.mem_map.mp (moment.book.holds g there)
    exact same ▸ moment.book.fresh q (Audience.mem_alive.mp living).1
  have new : p.next ∉ (everyone past).map (·.1) := fun member => Nat.lt_irrefl _ (below member)
  let joined : DeliverySession := { p with notifier := p.notifier.subscribe p.next l }
  have life : Life (past ++ [.joined p.next l]) held joined.notifier := moment.life.joined new l
  have keeps : Keeps (p.next + 1) (past ++ [.joined p.next l]) joined := by
    refine ⟨fun g member => alive_joined (moment.book.holds g member), moment.book.distinct, ?_⟩
    intro q member
    rw [Audience.everyone_joined, List.mem_append, List.mem_singleton] at member
    rcases member with old | rfl
    · exact Nat.lt_succ_of_lt (moment.book.fresh q old)
    · exact Nat.lt_succ_self _
  have living : p.next ∈ (alive (past ++ [.joined p.next l])).map (·.1) := by
    refine List.mem_map.mpr ⟨(p.next, l), Audience.mem_alive.mpr ⟨by simp, ?_⟩, rfl⟩
    rw [Audience.departed_joined]
    exact fun gone => new ((Audience.accounted_of_life moment.life).gone _ gone)
  obtain ⟨since, after, still, stays⟩ := keeps_unsubscribe life keeps l.name
  have same : (joined.unsubscribe l.name).2.next = p.next := unsubscribe_next _ _
  have fewer : ((joined.unsubscribe l.name).2.guards.map (·.2)).Sublist (p.guards.map (·.2)) :=
    (unsubscribe_guards l.name joined).map _
  have unkept : p.next ∉ p.guards.map (·.2) := fun member => Nat.lt_irrefl _ (kept member)
  refine Audience.later_trans ⟨since, after, ?_, ?_, ?_⟩
  · rintro g (_ | ⟨_, member⟩)
    · rw [same]
      exact stays p.next living unkept
    · exact still.holds g member
  · refine List.nodup_cons.mpr ⟨fun member => unkept ?_, still.distinct⟩
    rw [same] at member
    exact fewer.subset member
  · intro q member
    have added : (p.subscribe l).next = p.next + 1 := congrArg (· + 1) same
    rw [added]
    exact still.fresh q member

theorem moment_log (moment : Moment place Fits past held p) (entry : DeliveryEntry) :
    Moment place Fits past held (p.log entry) :=
  ⟨moment.life, moment.book.holds, moment.book.distinct, moment.book.fresh⟩

theorem moment_countRun (moment : Moment place Fits past held p) (id : SubscriberId) :
    Moment place Fits past held (p.countRun id) :=
  ⟨moment.life, moment.book.holds, moment.book.distinct, moment.book.fresh⟩

def Lasting (exec : DeliveryStep → DeliverySession → DeliveryAnswer × DeliverySession) : Prop :=
  ∀ past held p s, Moment place Fits past held p → Later place Fits past held (exec s p).2

theorem later_runScript (lasting : Lasting exec) (name : String) (script : List DeliveryStep)
    (moment : Moment place Fits past held p) :
    Later place Fits past held (runScript exec name script p) := by
  induction script generalizing past p with
  | nil => exact Audience.later_refl moment
  | cons s rest ih =>
    obtain ⟨since, next⟩ := lasting past held p s moment
    exact Audience.later_trans (ih (moment_log next _))

theorem conduct_call (lasting : Lasting exec) : Conduct place Fits (call exec) where
  lawful := ⟨fun _ _ => rfl, fun _ _ _ => rfl, fun _ => rfl⟩
  noted _ _ := rfl
  book_set _ _ _ book := ⟨book.holds, book.distinct, book.fresh⟩
  book_noted _ _ _ book := ⟨book.holds, book.distinct, book.fresh⟩
  called past held p id l event moment := by
    have heard := moment_log moment (.event l.name event)
    have after : Later place Fits past held
        (if (p.log (.event l.name event)).runsOf id < l.limit
          then runScript exec l.name l.script ((p.log (.event l.name event)).countRun id)
          else p.log (.event l.name event)) := by
      split
      · exact later_runScript lasting l.name l.script (moment_countRun heard id)
      · exact Audience.later_refl heard
    unfold call
    dsimp only
    split <;> exact after

theorem lasting_step (lasting : Lasting exec) : Lasting (step exec) := by
  intro past held p s moment
  cases s with
  | subscribe name script limit panicOn => exact later_subscribe moment _
  | unsubscribe name => exact later_unsubscribe moment name
  | raise events => exact (Audience.later_raise (conduct_call lasting) moment events).2
  | count => exact Audience.later_refl moment
  | text => exact Audience.later_refl moment

/-- Whatever scripts do, however deep they nest, is a conduct. -/
theorem lasting_exec (fuel : Nat) : Lasting (DeliverySession.exec fuel) := by
  induction fuel with
  | zero => exact fun _ _ _ _ moment => Audience.later_refl moment
  | succ fuel ih => exact lasting_step ih

/-- Between the steps of a session no delivery is under way. -/
theorem later_session (fuel : Nat) (steps : List DeliveryStep)
    (moment : Moment place Fits past [] p) : Later place Fits past []
      (steps.foldl (fun p s => (DeliverySession.exec fuel s { p with entries := [] }).2) p) := by
  induction steps generalizing past p with
  | nil => exact Audience.later_refl moment
  | cons s rest ih =>
    have cleared : Moment place Fits past [] { p with entries := [] } :=
      ⟨moment.life, moment.book.holds, moment.book.distinct, moment.book.fresh⟩
    obtain ⟨since, next⟩ := lasting_exec fuel past [] _ s cleared
    exact Audience.later_trans (ih next)

end Session.DeliverySession

namespace Audience
open Session

section
variable {σ κ ε δ : Type} [Journal σ] {place : Place σ (Audience κ)}
  {Book : List (Attendance κ) → σ → Prop} {call : Call σ κ ε δ} {past : List (Attendance κ)}
  {held : List (List SubscriberId)} {s : σ}

/-- A delivery calls whom it found, once for each event, event by event and in the order of
registration, whatever they do and however they end, and answers how many they are. It finds
everyone who is alive, and nobody else unless it is made from inside another delivery that still
holds on to them; nobody who subscribes later is called. While it lasts and after it, as at any
other moment, everyone alive is registered. -/
theorem delivery_calls_whom_it_found (conduct : Conduct place Book call)
    (moment : Moment place Book past held s) (events : List ε) :
    (callsOf place call events s).map Called.what = events.flatMap (fun event =>
      (attending held past).map fun p => (p.1, p.2, event)) ∧
    ((attending held past).map (·.1)).Nodup ∧
    (raise place call events s).1 =
      (if events.isEmpty then 0 else (attending held past).length) ∧
    (alive past).Sublist (attending held past) ∧
    (held = [] → attending held past = alive past) ∧
    (∀ since others t, Moment place Book (past ++ since) others t →
      ∀ q ∈ everyone since, ∀ c ∈ callsOf place call events s, c.id ≠ q.1) ∧
    (∀ c ∈ callsOf place call events s,
      Later place Book past ((attending held past).map (·.1) :: held) c.start) ∧
    Later place Book past held (raise place call events s).2 ∧
    (∀ past held t, Moment place Book past held t →
      (alive past).Sublist (place.get t).registered) := by
  have found : (place.get s).struckOff.registered = attending held past :=
    registered_struckOff (accounted_of_life moment.life)
  have distinct := (accounted_of_life moment.life).distinct
  have calls := what_callsOf conduct.lawful call events s
  obtain ⟨during, after⟩ := later_raise conduct moment events
  rw [found] at calls
  rw [roundOf_eq, found] at during
  refine ⟨calls, distinct.sublist (List.filter_sublist.map _), ?_,
    alive_sublist_attending held past, fun outermost => outermost ▸ attending_nobody_held, ?_,
    during, after, fun _ _ _ moment => alive_registered moment.life⟩
  · cases events with
    | nil => rfl
    | cons event rest =>
      rw [raise_answers conduct.lawful call (List.cons_ne_nil _ _), found]
      rfl
  -- whoever joined since has a number that nobody had before
  · intro since others t later q new c member same
    have older : Called.what c ∈ (callsOf place call events s).map Called.what :=
      List.mem_map_of_mem member
    rw [calls] at older
    obtain ⟨event, -, turn⟩ := List.mem_flatMap.mp older
    obtain ⟨p, attends, what⟩ := List.mem_map.mp turn
    have known : c.id ∈ (everyone past).map (·.1) := by
      have here : p.1 = c.id := congrArg Prod.fst what
      exact here ▸ List.mem_map_of_mem (mem_attending.mp attends).1
    have apart := (accounted_of_life later.life).distinct
    rw [everyone_append, List.map_append] at apart
    exact (List.nodup_append.mp apart).2.2 _ known _ (List.mem_map_of_mem new) same

end

def meddler : ScriptedListener :=
  ⟨"a", [.unsubscribe "b", .subscribe "c" [] 0 none, .raise [.int 3]], 1, none⟩

def sufferer : ScriptedListener := ⟨"b", [], 0, some (.int 1)⟩

def meddled : List (Attendance ScriptedListener) := [.joined 0 meddler, .joined 1 sufferer]

def meddlers : DeliverySession :=
  { notifier := (({} : Audience _).subscribe 0 meddler).subscribe 1 sufferer
    guards := [("b", 1), ("a", 0)]
    next := 2 }

theorem meddled_delivery_reaches_both :
    Moment DeliverySession.place DeliverySession.Fits meddled [] meddlers ∧
    (callsOf DeliverySession.place (DeliverySession.call (DeliverySession.exec 8)) [.int 1, .int 2]
        meddlers).map Called.what =
      [(0, meddler, .int 1), (1, sufferer, .int 1), (0, meddler, .int 2), (1, sufferer, .int 2)] ∧
    (raise DeliverySession.place (DeliverySession.call (DeliverySession.exec 8)) [.int 1, .int 2]
        meddlers).1 = 2 := by
  have life : Life meddled [] meddlers.notifier :=
    .joined (.joined .opened (by decide) meddler) (by decide) sufferer
  have fits : DeliverySession.Fits meddled meddlers := ⟨by decide, by decide, by decide⟩
  have moment : Moment DeliverySession.place DeliverySession.Fits meddled [] meddlers :=
    ⟨life, fits⟩
  obtain ⟨calls, -, answer, -⟩ := delivery_calls_whom_it_found
    (DeliverySession.conduct_call (DeliverySession.lasting_exec 8)) moment [.int 1, .int 2]
  exact ⟨moment, calls, answer⟩

/-- A delivery made from inside another one still calls and counts a subscriber whose subscription
was dropped meanwhile. -/
theorem dropped_subscriber_is_called :
    let dropper : ScriptedListener := ⟨"a", [.unsubscribe "a", .raise [.int 2]], 1, none⟩
    let past := [.joined 0 dropper, .left 0]
    let inside : DeliverySession :=
      { notifier := ((({} : Audience _).subscribe 0 dropper).guarded [0]).unguarded [0]
        next := 1 }
    Moment DeliverySession.place DeliverySession.Fits past [[0]] inside ∧ alive past = [] ∧
    (callsOf DeliverySession.place (DeliverySession.call (DeliverySession.exec 8)) [.int 2]
        inside).map Called.what =
      [(0, dropper, .int 2)] ∧
    (raise DeliverySession.place (DeliverySession.call (DeliverySession.exec 8)) [.int 2]
        inside).1 = 1 ∧
    DeliverySession.run
        [.subscribe "a" [.unsubscribe "a", .raise [.int 2]] 1 none, .raise [.int 1]] =
      [(.done, []), (.count 1,
        [.event "a" (.int 1), .answer "a" (.flag true), .event "a" (.int 2),
          .notice .delivered, .answer "a" (.count 1), .notice .delivered])] := by
  intro dropper past inside
  have begun : Life [.joined 0 dropper] [[0]]
      ((({} : Audience ScriptedListener).subscribe 0 dropper).guarded [0]) :=
    .begun (.joined .opened (by decide) dropper)
  have life : Life past [[0]] inside.notifier := begun.left (by decide)
  have fits : DeliverySession.Fits past inside := ⟨by decide, by decide, by decide⟩
  exact ⟨⟨life, fits⟩, rfl, rfl, rfl, rfl⟩

end Audience
end UndoableLists
