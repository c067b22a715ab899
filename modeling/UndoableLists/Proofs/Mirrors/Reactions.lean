import UndoableLists.Proofs.Mirrors.Delivery

/-!
Subscribers that call back into the list that they hear of. What such a subscriber does is told to
everybody at once, while others have not yet heard of what it reacts to. Main statement: a
subscriber hears of the changes in the order in which the list underwent them, and keeps a right
copy, however deep reactions nest, as long as nobody who hears of changes before it calls back into
the list.
-/
namespace UndoableLists.World
variable {α κ : Type}

/-- What a subscriber goes on to do with the list: it may look at the world, and it sees how its
calls are answered. -/
inductive Reaction (α κ : Type) where
  | done
  | panics (label : Option String)
  | looks (next : World α κ (Mirrors α) → Reaction α κ)
  | mutates (op : Operation α) (next : Outcome ListRefusal (Reply α) → Reaction α κ)
  | replays (direction : Direction) (next : Outcome ListRefusal Bool → Reaction α κ)

variable [Element α]

def Reaction.perform (call : Call α κ (Mirrors α)) (id : ListId) :
    Reaction α κ → Work α κ (Mirrors α) Unit
  | .done => return ()
  | .panics label => Act.fail (.panicked label)
  | .looks next => fun w => (next w).perform call id w
  | .mutates op next => fun w =>
    let (r, w) := mutate call id true op w
    (next r).perform call id w
  | .replays direction next => fun w =>
    let (r, w) := replay call id true direction w
    (next r).perform call id w

def Reaction.Idle : Reaction α κ → Prop
  | .done => True
  | .panics _ => True
  | .looks next => ∀ w, (next w).Idle
  | _ => False

theorem Reaction.perform_idle {reaction : Reaction α κ} (idle : reaction.Idle)
    (call : Call α κ (Mirrors α)) (id : ListId) (w : World α κ (Mirrors α)) :
    (reaction.perform call id w).2 = w := by
  induction reaction with
  | done => rfl
  | panics label => rfl
  | looks next ih => exact ih w (idle w)
  | mutates op next ih => exact idle.elim
  | replays direction next ih => exact idle.elim

/-- Subscribers that keep their copies and then react. Reactions nest `depth` deep; further down
the subscribers only keep their copies. -/
def reacting (react : SubscriberId → κ → Event α → Reaction α κ) (id : ListId) :
    Nat → Call α κ (Mirrors α)
  | 0 => mirroring id
  | depth + 1 => fun s k event => do
    mirroring id s k event
    (react s k event).perform (reacting react id depth) id

/-- The changes that a list underwent between two worlds, in order. -/
inductive Undergoes {δ : Type} [Diary δ] (id : ListId) :
    World α κ δ → World α κ δ → List (Change α) → Prop
  | elsewhere {w v} (same : v.lists.get? id = w.lists.get? id) : Undergoes id w v []
  | mutated (w) (op : Operation α) :
    Undergoes id w (lockedMutation id op w).2 (handed (lockedMutation id op w).1).changes
  | replayed (w) (direction : Direction) :
    Undergoes id w (lockedReplay id direction w).2 (handed (lockedReplay id direction w).1).changes
  | andThen {w u v} {first second : List (Change α)} (before : Undergoes id w u first)
    (after : Undergoes id u v second) : Undergoes id w v (first ++ second)

structure Tellable (id : ListId) (l : UndoableList α) : Prop where
  context : l.context = id
  fresh : l.store.stale = false
  replayable : l.Replayable

/-- By `v` the subscriber `x` has heard of what it was behind by at `w` and then of what the list
underwent since, and is in step. -/
structure CatchesUp (people : Topic → List (SubscriberId × κ)) (id : ListId) (x : SubscriberId)
    (behind : List (Change α)) (w v : World α κ (Mirrors α)) : Prop where
  ready : ∃ l, Poised (Tellable id) people id x [] l v
  along : ∃ changes, Undergoes id w v changes ∧
    (v.client x).heard = (w.client x).heard ++ (behind ++ changes)
  audience : ∀ t, (channel (.list id) t).get v = (channel (.list id) t).get w

/-- Once among those who hear of changes there is `x`, and nobody who hears of them before it calls
back into the list. -/
def Foremost (react : SubscriberId → κ → Event α → Reaction α κ)
    (people : Topic → List (SubscriberId × κ)) (x : SubscriberId) : Prop :=
  ∃ before k after, people .changes = before ++ (x, k) :: after ∧
    (∀ p ∈ before, ∀ change, (react p.1 p.2 (.collection change)).Idle) ∧
    ∀ p ∈ before ++ after, p.1 ≠ x

section
variable {people : Topic → List (SubscriberId × κ)} {id : ListId} {x : SubscriberId}
  {behind : List (Change α)} {u v w z : World α κ (Mirrors α)} {l : UndoableList α}
  {t : Topic} {ids : List SubscriberId}

theorem catchesUp_refl (ready : Poised (Tellable id) people id x [] l w) :
    CatchesUp people id x [] w w where
  ready := ⟨l, ready⟩
  along := ⟨[], .elsewhere rfl, by simp⟩
  audience _ := rfl

theorem catchesUp_trans (first : CatchesUp people id x behind w u)
    (second : CatchesUp people id x [] u v) : CatchesUp people id x behind w v where
  ready := second.ready
  along := by
    obtain ⟨early, underwent, heard⟩ := first.along
    obtain ⟨late, further, also⟩ := second.along
    refine ⟨early ++ late, underwent.andThen further, ?_⟩
    rw [also, heard]
    simp
  audience t := (second.audience t).trans (first.audience t)

theorem catchesUp_apart (ready : Poised (Tellable id) people id x [] l w) (apart : Apart id x w v) :
    CatchesUp people id x [] w v where
  ready := ⟨l, poised_apart ready apart⟩
  along := ⟨[], .elsewhere apart.list, by rw [apart.mirror]; simp⟩
  audience := apart.audience

theorem catchesUp_after (apart : Apart id x w u) (after : CatchesUp people id x behind u v) :
    CatchesUp people id x behind w v where
  ready := after.ready
  along := by
    obtain ⟨changes, underwent, heard⟩ := after.along
    refine ⟨[] ++ changes, .andThen (.elsewhere apart.list) underwent, ?_⟩
    rw [heard, apart.mirror]
    rfl
  audience t := (after.audience t).trans (apart.audience t)

theorem catchesUp_delivered (assembled : Assembled people id w)
    (first : Placed id t (·.guarded ids) w u) (between : CatchesUp people id x behind u v)
    (last : Placed id t (·.unguarded ids) v z) : CatchesUp people id x behind w z where
  ready := by
    obtain ⟨m, ready⟩ := between.ready
    exact ⟨m, poised_delivered assembled first between.audience ready last⟩
  along := by
    obtain ⟨changes, underwent, heard⟩ := between.along
    have before : Undergoes id w u ([] : List (Change α)) := .elsewhere (by rw [first.lists])
    have after : Undergoes id v z ([] : List (Change α)) := .elsewhere (by rw [last.lists])
    refine ⟨[] ++ changes ++ [], (before.andThen underwent).andThen after, ?_⟩
    rw [last.client, heard, first.client]
    simp
  audience := audience_delivered first between.audience last

/-- What `x` can rely on in those who listen: who calls nothing leaves the list and `x` alone, and
all that is done in reaction is heard. -/
structure Obliging (react : SubscriberId → κ → Event α → Reaction α κ)
    (people : Topic → List (SubscriberId × κ)) (id : ListId) (x : SubscriberId)
    (call : Call α κ (Mirrors α)) : Prop where
  listens : ∀ s k change w, s ≠ x → (react s k (.collection change)).Idle →
    Apart id x w (call s k (.collection change) w).2
  follows : ∀ s k event w l, Poised (Tellable id) people id x [] l w →
    (s = x → ∃ p, event = .property p) → CatchesUp people id x [] w (call s k event w).2
  hears : ∀ k change w l, Poised (Tellable id) people id x [change] l w →
    CatchesUp people id x [change] w (call x k (.collection change) w).2

variable {react : SubscriberId → κ → Event α → Reaction α κ} {call : Call α κ (Mirrors α)}

theorem hearing_catchesUp {event : Event α} {p : SubscriberId × κ}
    (called : CatchesUp people id x behind w (call p.1 p.2 event w).2) :
    CatchesUp people id x behind w (hearing call event w p) := by
  obtain ⟨m, ready⟩ := called.ready
  exact catchesUp_trans called (catchesUp_apart ready (hearing_apart event p w))

theorem all_follow (obliging : Obliging react people id x call) (event : Event α)
    (ps : List (SubscriberId × κ)) (aware : ∀ p ∈ ps, p.1 = x → ∃ q, event = .property q)
    (ready : Poised (Tellable id) people id x [] l w) :
    CatchesUp people id x [] w (ps.foldl (hearing call event) w) := by
  induction ps generalizing w l with
  | nil => exact catchesUp_refl ready
  | cons p rest ih =>
    have first := hearing_catchesUp
      (obliging.follows p.1 p.2 event w l ready (aware p List.mem_cons_self))
    obtain ⟨m, again⟩ := first.ready
    exact catchesUp_trans first
      (ih (fun q member => aware q (List.mem_cons_of_mem _ member)) again)

theorem properties_followed (obliging : Obliging react people id x call)
    (ready : Poised (Tellable id) people id x [] l w) (ps : List Property) :
    CatchesUp people id x [] w
      (Audience.raise (channel (.list id) .properties) (callListener call)
        (ps.map .property) w).2 := by
  obtain ⟨ids, u, first, last⟩ := raise_placed call ready.assembled .properties
    (ps.map .property)
  have begun : Poised (Tellable id) people id x [] l u :=
    poised_placed ready first (assembled_guarded ready.assembled first)
  refine catchesUp_delivered ready.assembled first ?_ last
  clear first last ready
  induction ps generalizing u l with
  | nil => exact catchesUp_refl begun
  | cons p rest ih =>
    have one := all_follow obliging (.property p) (people .properties)
      (fun _ _ _ => ⟨p, rfl⟩) begun
    obtain ⟨m, again⟩ := one.ready
    exact catchesUp_trans one (ih _ again)

theorem changes_caught_up (obliging : Obliging react people id x call)
    (foremost : Foremost react people x) {changes : List (Change α)}
    (poised : Poised (Tellable id) people id x changes l w) (single : changes.length ≤ 1) :
    CatchesUp people id x changes w
      (Audience.raise (channel (.list id) .changes) (callListener call)
        (changes.map .collection) w).2 := by
  obtain ⟨before, k, after, order, ahead, others⟩ := foremost
  obtain ⟨ids, u, first, last⟩ := raise_placed call poised.assembled .changes
    (changes.map .collection)
  have begun := poised_placed poised first (assembled_guarded poised.assembled first)
  refine catchesUp_delivered poised.assembled first ?_ last
  clear first last
  match changes with
  | [] => exact catchesUp_refl begun
  | [change] =>
    simp only [List.map_cons, List.map_nil, List.foldl_cons, List.foldl_nil, order,
      List.foldl_append]
    have untouched : Apart id x u (before.foldl (hearing call (.collection change)) u) := by
      refine foldl_relates apart_refl apart_trans (fun p member w => ?_) u
      exact apart_trans (obliging.listens p.1 p.2 change w
        (others p (List.mem_append_left _ member)) (ahead p member change)) (hearing_apart _ p w)
    -- Nobody has called yet: the list is as the change left it, and `x` is one change behind.
    have heard := hearing_catchesUp (p := (x, k))
      (obliging.hears k change _ l (poised_apart begun untouched))
    obtain ⟨m, ready⟩ := heard.ready
    have rest := all_follow obliging (.collection change) after
      (fun p member same => absurd same (others p (List.mem_append_right _ member))) ready
    exact catchesUp_after untouched (catchesUp_trans heard rest)
  | first :: second :: rest => simp at single

/-- What a call hands on is told, and all that is done in reaction is part of what the list
underwent. -/
theorem call_followed (obliging : Obliging react people id x call)
    (foremost : Foremost react people x) (poised : Poised (Tellable id) people id x [] l w)
    {b : Bulletin α} {m : UndoableList α} (hands : Hands l b w v m)
    (hidden : channelsAndClient v = channelsAndClient w)
    (underwent : Undergoes id w v b.changes) :
    CatchesUp people id x [] w (announce call id b v) := by
  obtain ⟨step, assembled, rfl, fresh, replayable⟩ := poised
  have mirror : v.client x = w.client x := congrFun (client_of_channelsAndClient hidden) x
  have behind : Poised (Tellable l.context) people l.context x b.changes m v :=
    ⟨inStep_handed step hands mirror, assembled_hidden assembled hidden,
      hands.context, hands.stale.trans fresh, hands.replayable⟩
  have changes := changes_caught_up obliging foremost behind hands.single
  obtain ⟨n, ready⟩ := changes.ready
  have caught : CatchesUp people l.context x b.changes v (announce call l.context b v) :=
    catchesUp_trans changes (properties_followed obliging ready b.properties)
  obtain ⟨more, further, heard⟩ := caught.along
  exact ⟨caught.ready, ⟨b.changes ++ more, underwent.andThen further, mirror ▸ heard⟩,
    fun t => (caught.audience t).trans (audience_of_channelsAndClient hidden (.list l.context) t)⟩

theorem mutate_followed (obliging : Obliging react people id x call)
    (foremost : Foremost react people x) (poised : Poised (Tellable id) people id x [] l w)
    (op : Operation α) :
    CatchesUp people id x [] w (mutate call id true op w).2 := by
  obtain ⟨rfl, fresh, replayable⟩ := poised.kind
  obtain ⟨m, hands⟩ := lockedMutation_hands poised.step.here fresh replayable op
  rw [mutate_eq]
  exact call_followed obliging foremost poised hands
    (unseen_lockedMutation listFree_channelsAndClient l.context op w) (.mutated w op)

theorem replay_followed (obliging : Obliging react people id x call)
    (foremost : Foremost react people x) (poised : Poised (Tellable id) people id x [] l w)
    (direction : Direction) : CatchesUp people id x [] w (replay call id true direction w).2 := by
  obtain ⟨rfl, fresh, replayable⟩ := poised.kind
  obtain ⟨m, hands⟩ := lockedReplay_hands poised.step.here fresh replayable direction
  rw [replay_eq]
  exact call_followed obliging foremost poised hands
    (unseen_lockedReplay listFree_channelsAndClient l.context direction w) (.replayed w direction)

theorem perform_followed (obliging : Obliging react people id x call)
    (foremost : Foremost react people x) (reaction : Reaction α κ)
    (poised : Poised (Tellable id) people id x [] l w) :
    CatchesUp people id x [] w (reaction.perform call id w).2 := by
  induction reaction generalizing l w with
  | done => exact catchesUp_refl poised
  | panics label => exact catchesUp_refl poised
  | looks next ih => exact ih w poised
  | mutates op next ih =>
    have first := mutate_followed obliging foremost poised op
    obtain ⟨m, again⟩ := first.ready
    exact catchesUp_trans first (ih _ again)
  | replays direction next ih =>
    have first := replay_followed obliging foremost poised direction
    obtain ⟨m, again⟩ := first.ready
    exact catchesUp_trans first (ih _ again)

theorem mirroring_obliging : Obliging react people id x (mirroring id) where
  listens s k change w differs _ := apart_mirroring differs k (.collection change) w
  follows s k event w l poised aware := by
    by_cases differs : s = x
    · obtain ⟨p, rfl⟩ := aware differs
      exact catchesUp_refl poised
    · exact catchesUp_apart poised (apart_mirroring differs k event w)
  hears k change w l poised := by
    obtain ⟨v, heard, beside, mirror⟩ :=
      mirroring_hears (x := x) poised.step.here poised.step.free k change
    rw [heard]
    exact ⟨⟨l, poised_heard poised beside mirror⟩,
      ⟨[], .elsewhere beside.list, by rw [mirror]; rfl⟩, beside.audience⟩

theorem reacted {depth : Nat} (obliging : Obliging react people id x (reacting react id depth))
    (foremost : Foremost react people x) {s : SubscriberId} {k : κ} {event : Event α}
    (caught : CatchesUp people id x behind w (mirroring id s k event w).2) :
    CatchesUp people id x behind w (reacting react id (depth + 1) s k event w).2 := by
  obtain ⟨l, ready⟩ := caught.ready
  simp only [reacting, Act.bind_apply]
  rcases outcome : mirroring id s k event w with ⟨fault | _, v⟩
  all_goals rw [outcome] at caught ready
  · exact caught
  · exact catchesUp_trans caught (perform_followed obliging foremost (react s k event) ready)

/-- However deep reactions nest: the induction is on the depth. -/
theorem reacting_obliging (foremost : Foremost react people x) (depth : Nat) :
    Obliging react people id x (reacting react id depth) := by
  have mirrors : Obliging react people id x (mirroring id) := mirroring_obliging
  induction depth with
  | zero => exact mirrors
  | succ depth ih =>
    constructor
    · intro s k change w differs idle
      have untouched := mirrors.listens s k change w differs idle
      simp only [reacting, Act.bind_apply]
      rcases outcome : mirroring id s k (.collection change) w with ⟨fault | _, v⟩
      all_goals rw [outcome] at untouched
      · exact untouched
      · dsimp only
        rw [Reaction.perform_idle idle]
        exact untouched
    · intro s k event w l ready aware
      exact reacted ih foremost (mirrors.follows s k event w l ready aware)
    · intro k change w l behind
      exact reacted ih foremost (mirrors.hears k change w l behind)

/-- What a subscriber hears is what the list underwent, in that order. -/
theorem changes_heard_in_store_order (orderly : Orderly id w) (here : w.lists.get? id = some l)
    (fresh : l.store.stale = false) (free : w.locks.Free w.thread l.lock)
    (assembled : Assembled people id w) (foremost : Foremost react people x)
    (copy : (w.client x).copy = some l.contents) (depth : Nat) (calls : Reaction α κ) :
    let v := (calls.perform (reacting react id depth) id w).2
    (∃ changes, Undergoes id w v changes ∧
      (v.client x).heard = (w.client x).heard ++ changes) ∧
    ∃ m, v.lists.get? id = some m ∧ (v.client x).copy = some m.contents := by
  obtain ⟨m, there, context, readable⟩ := standing_of_orderly orderly
  obtain rfl : l = m := Option.some.inj (here.symm.trans there)
  have ready : Poised (Tellable id) people id x [] l w :=
    ⟨inStep_iff.mpr ⟨here, free, copy⟩, assembled, context, fresh, readable fresh⟩
  have caught := perform_followed (reacting_obliging foremost depth) foremost calls ready
  obtain ⟨n, again⟩ := caught.ready
  obtain ⟨present, -, right⟩ := inStep_iff.mp again.step
  exact ⟨caught.along, n, present, right⟩

end

def answering : SubscriberId → Bool → Event Value → Reaction Value Bool
  | _, true, .collection (.add _ [.int 1]) => .mutates (.push (.int 2)) fun _ => .done
  | _, _, _ => .done

def pushingOne : Reaction Value Bool := .mutates (.push (.int 1)) fun _ => .done

def answeredWorld (first second : Bool) : World Value Bool (Mirrors Value) :=
  (pushingOne.perform (reacting answering 1 1) 1 (hearersWorld first second)).2

theorem answered_push_is_heard_in_order :
    Undergoes 1 (hearersWorld false true) (answeredWorld false true)
        [.add 0 [.int 1], .add 1 [.int 2]] ∧
      ((answeredWorld false true).client 1).heard = [.add 0 [.int 1], .add 1 [.int 2]] ∧
      (answeredWorld false true).contentsOf 1 = [.int 1, .int 2] ∧
      ((answeredWorld false true).client 1).copy = some [.int 1, .int 2] := by
  have foremost : Foremost answering (hearers false true) 1 :=
    ⟨[(0, false)], true, [], rfl, by simp [answering, Reaction.Idle], by simp⟩
  have copied : ((hearersWorld false true).client 1).copy = some vacantList.contents := rfl
  have reached : (pushingOne.perform (reacting answering 1 1) 1 (hearersWorld false true)).2 =
      answeredWorld false true := by rw [answeredWorld]
  have caught := changes_heard_in_store_order (hearers_orderly false true) (hearers_here false true)
    rfl (hearers_free false true) (hearers_assembled false true) foremost copied 1 pushingOne
  rw [reached] at caught
  obtain ⟨⟨changes, underwent, heard⟩, m, there, copy⟩ := caught
  have order : ((answeredWorld false true).client 1).heard =
      [.add 0 [.int 1], .add 1 [.int 2]] := by cbv
  have contents : (answeredWorld false true).contentsOf 1 = [.int 1, .int 2] := by cbv
  have silent : ((hearersWorld false true).client 1).heard = [] := rfl
  rw [order, silent, List.nil_append] at heard
  rw [contentsOf, there] at contents
  refine ⟨heard ▸ underwent, order, ?_, ?_⟩
  · rw [contentsOf, there]
    exact contents
  · rw [copy]
    exact congrArg some contents

/-- A client that hears after an eager one hears of the answer first, and cannot make it on its
copy. -/
theorem answer_overtakes_push :
    (answeredWorld true false).contentsOf 1 = [.int 1, .int 2] ∧
      ((answeredWorld true false).client 0).heard = [.add 0 [.int 1], .add 1 [.int 2]] ∧
      ((answeredWorld true false).client 1).heard = [.add 1 [.int 2], .add 0 [.int 1]] ∧
      ((answeredWorld true false).client 1).copy = none := by
  refine ⟨by cbv, by cbv, by cbv, by cbv⟩

end UndoableLists.World
