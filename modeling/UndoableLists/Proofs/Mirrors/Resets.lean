import UndoableLists.Proofs.Mirrors.Delivery

/-!
Copies of a list whose store is changed behind its back. Subscribers hear of a call when all of it
is done: they answer its reset with contents that hold the changes told after the reset. Main
statement: a subscriber has a right copy after every call, as long as a call that hears of a signal
hands on nothing but replaced items along with its reset.
-/
namespace UndoableLists

def Bulletin.Unmixed {α : Type} (b : Bulletin α) : Prop :=
  .reset ∈ b.changes →
    ∀ change ∈ b.changes, change = .reset ∨ ∃ index old new, change = .replace index old new

theorem Change.settled_of_makesAll {α : Type} {s t : List α} {changes : List (Change α)}
    (makes : MakesAll t changes s t) (single : changes.length ≤ 1)
    (mild : ∀ change ∈ changes,
      change = .reset ∨ ∃ index old new, change = .replace index old new) :
    replayAll? t changes t = some t := by
  match changes with
  | [] => rfl
  | [change] =>
    obtain ⟨u, first, rfl⟩ : ∃ u, change.Makes t s u ∧ u = t := makes
    rcases mild change List.mem_cons_self with rfl | ⟨index, old, new, rfl⟩
    · rfl
    · obtain ⟨present, made⟩ := first
      have inside : index < u.length := by
        rw [made, List.length_set]
        exact (List.getElem?_eq_some_iff.mp present).1
      have again : u.set index new = u := by
        rw [made, List.set_set]
      simp [replayAll?, replay?, inside, again]
  | first :: second :: rest => simp at single

namespace World
variable {α κ : Type}

structure Observes (call : Call α κ (Mirrors α)) (id : ListId) (x : SubscriberId) : Prop where
  mirrors : ∀ k event, call x k event = mirroring id x k event
  others : ∀ s k event w, s ≠ x → Apart id x w (call s k event w).2

def Once (people : Topic → List (SubscriberId × κ)) (x : SubscriberId) : Prop :=
  ∃ before k after, people .changes = before ++ (x, k) :: after ∧ ∀ p ∈ before ++ after, p.1 ≠ x

section
variable {Kind : UndoableList α → Prop} {people : Topic → List (SubscriberId × κ)} {id : ListId}
  {x : SubscriberId} {behind changes : List (Change α)} {v w : World α κ (Mirrors α)}
  {l : UndoableList α} {b : Bulletin α} {call : Call α κ (Mirrors α)}

theorem observes_mirroring (id : ListId) (x : SubscriberId) :
    Observes (mirroring id : Call α κ (Mirrors α)) id x :=
  ⟨fun _ _ => rfl, fun _ k event w differs => apart_mirroring differs k event w⟩

theorem others_hear (observes : Observes call id x) {ps : List (SubscriberId × κ)}
    (others : ∀ p ∈ ps, p.1 ≠ x) (event : Event α) (w : World α κ (Mirrors α)) :
    Apart id x w (ps.foldl (hearing call event) w) :=
  foldl_relates apart_refl apart_trans (fun p member w =>
    apart_trans (observes.others p.1 p.2 event w (others p member)) (hearing_apart event p w)) w

theorem change_heard (observes : Observes call id x) (once : Once people x) {change : Change α}
    (poised : Poised Kind people id x (change :: behind) l w) :
    let v := (people .changes).foldl (hearing call (.collection change)) w
    Beside id w v ∧ Poised Kind people id x behind l v := by
  -- What is told before and after `x` hears leaves the list and `x` alone.
  obtain ⟨before, k, after, order, others⟩ := once
  have early := others_hear observes (fun p member => others p (List.mem_append_left _ member))
    (.collection change) w
  obtain ⟨u, named⟩ : ∃ u, u = before.foldl (hearing call (.collection change)) w := ⟨_, rfl⟩
  rw [← named] at early
  have near := poised_apart poised early
  obtain ⟨v, heard, beside, mirror⟩ :=
    mirroring_hears (x := x) near.step.here near.step.free k change
  have noted : Apart id x (call x k (.collection change) u).2
      (hearing call (.collection change) u (x, k)) := hearing_apart (.collection change) (x, k) u
  rw [observes.mirrors, heard] at noted
  have late := others_hear observes (fun p member => others p (List.mem_append_right _ member))
    (.collection change) (hearing call (.collection change) u (x, k))
  have rest := apart_trans noted late
  simp only [order, List.foldl_append, List.foldl_cons, ← named]
  exact ⟨beside_trans early.toBeside (beside_trans beside rest.toBeside),
    poised_apart (poised_heard near beside mirror) rest⟩

theorem changes_heard (observes : Observes call id x) (once : Once people x)
    (poised : Poised Kind people id x changes l w) :
    Poised Kind people id x [] l (Audience.raise (channel (.list id) .changes) (callListener call)
      (changes.map .collection) w).2 := by
  obtain ⟨ids, u, first, last⟩ := raise_placed call poised.assembled .changes
    (changes.map .collection)
  have begun := poised_placed poised first (assembled_guarded poised.assembled first)
  have all {changes : List (Change α)} {u : World α κ (Mirrors α)}
      (begun : Poised Kind people id x changes l u) :
      let v := (changes.map Event.collection).foldl (fun w event =>
        (people .changes).foldl (hearing call event) w) u
      Beside id u v ∧ Poised Kind people id x [] l v := by
    induction changes generalizing u with
    | nil => exact ⟨(apart_refl (x := x) u).toBeside, begun⟩
    | cons change rest ih =>
      obtain ⟨beside, next⟩ := change_heard observes once begun
      obtain ⟨further, done⟩ := ih next
      exact ⟨beside_trans beside further, done⟩
  obtain ⟨beside, done⟩ := all begun
  exact poised_delivered poised.assembled first beside.audience done last

theorem properties_heard (observes : Observes call id x)
    (poised : Poised Kind people id x [] l w) (ps : List Property) :
    Poised Kind people id x [] l (Audience.raise (channel (.list id) .properties)
      (callListener call) (ps.map .property) w).2 := by
  obtain ⟨ids, u, first, last⟩ := raise_placed call poised.assembled .properties
    (ps.map .property)
  have begun := poised_placed poised first (assembled_guarded poised.assembled first)
  have told (s : SubscriberId) (k : κ) (q : Property) (w : World α κ (Mirrors α)) :
      Apart id x w (call s k (.property q) w).2 := by
    by_cases same : s = x
    · rw [same, observes.mirrors]
      exact apart_refl w
    · exact observes.others s k (.property q) w same
  have apart : Apart id x u ((ps.map Event.property).foldl (fun w event =>
      (people .properties).foldl (hearing call event) w) u) := by
    rw [List.foldl_map]
    refine foldl_relates apart_refl apart_trans
      (fun q _ w => foldl_relates apart_refl apart_trans (fun p _ w => ?_) w) u
    exact apart_trans (told p.1 p.2 q w) (hearing_apart _ p w)
  exact poised_delivered poised.assembled first apart.audience (poised_apart begun apart) last

theorem announced (observes : Observes call id x) (once : Once people x)
    (poised : Poised Kind people id x b.changes l w) :
    Poised Kind people id x [] l (announce call id b w) :=
  properties_heard observes (changes_heard observes once poised) b.properties

end

structure Readable (id : ListId) (l : UndoableList α) : Prop where
  context : l.context = id
  replayable : l.store.stale = false → l.Replayable

/-- `x` has a copy, and it is a right one unless the store has signalled. -/
structure Watchful (people : Topic → List (SubscriberId × κ)) (id : ListId) (x : SubscriberId)
    (l : UndoableList α) (w : World α κ (Mirrors α)) : Prop where
  poised : Poised (Readable id) people id x [.reset] l w
  current : l.store.stale = false → InStep id x [] l w

variable [Element α]

inductive Called (call : Call α κ (Mirrors α)) (id : ListId) (w : World α κ (Mirrors α)) :
    World α κ (Mirrors α) → Prop
  | mutated (op : Operation α) (unmixed : (handed (lockedMutation id op w).1).Unmixed) :
    Called call id w (mutate call id true op w).2
  | replayed (direction : Direction) : Called call id w (replay call id true direction w).2
  | reworked {β : Type} {l : UndoableList α} (here : w.lists.get? id = some l) (r : Rework α β)
    (returns : ∃ b, (r.on l.store).1 = .ok b) :
    Called call id w (withStore call id (rework id r) w).2
  | renotified : Called call id w (notifyReset call id w).2

/-- The worlds that such calls lead to. The store may be changed behind the list's back, and signals
that; `elsewhere` is whatever touches neither the list nor what `x` keeps. -/
inductive Mirrored (call : Call α κ (Mirrors α)) (people : Topic → List (SubscriberId × κ))
    (id : ListId) (x : SubscriberId) : World α κ (Mirrors α) → Prop
  | begun {w l} (orderly : Orderly id w) (here : w.lists.get? id = some l)
    (free : w.locks.Free w.thread l.lock) (assembled : Assembled people id w)
    (copy : (w.client x).copy = some l.contents) : Mirrored call people id x w
  | called {w v} (mirrored : Mirrored call people id x w) (called : Called call id w v) :
    Mirrored call people id x v
  | rewritten {w l} (mirrored : Mirrored call people id x w) (here : w.lists.get? id = some l)
    (store : Store α) (signals : store.stale = true) :
    Mirrored call people id x { w with lists := w.lists.insert id { l with store } }
  | elsewhere {w v} (mirrored : Mirrored call people id x w) (apart : Apart id x w v) :
    Mirrored call people id x v

section
variable {people : Topic → List (SubscriberId × κ)} {id : ListId} {x : SubscriberId}
  {v w : World α κ (Mirrors α)} {l m : UndoableList α} {b : Bulletin α}
  {call : Call α κ (Mirrors α)}

omit [Element α] in
theorem inStep_reset_iff : InStep id x [.reset] l w ↔ w.lists.get? id = some l ∧
    w.locks.Free w.thread l.lock ∧ (w.client x).copy.isSome := by
  have same : (w.client x).copy.bind (Change.replayAll? l.contents [.reset]) = some l.contents ↔
      (w.client x).copy.isSome := by
    cases (w.client x).copy <;> simp [Change.replayAll?, Change.replay?]
  constructor
  · rintro ⟨here, free, copy⟩
    exact ⟨here, free, same.mp copy⟩
  · rintro ⟨here, free, copied⟩
    exact ⟨here, free, same.mpr copied⟩

omit [Element α] in
theorem watchful_of_poised (poised : Poised (Readable id) people id x [] l w) :
    Watchful people id x l w := by
  obtain ⟨here, free, copy⟩ := inStep_iff.mp poised.step
  have copied : InStep id x [.reset] l w :=
    inStep_reset_iff.mpr ⟨here, free, by rw [copy]; rfl⟩
  exact ⟨⟨copied, poised.assembled, poised.kind⟩, fun _ => poised.step⟩

omit [Element α] in
theorem inStep_resetting (hands : Hands l b w v m) (named : l.context = id)
    (free : w.locks.Free w.thread l.lock)
    (copied : (v.client x).copy.isSome)
    (settled : Change.replayAll? m.contents b.changes m.contents = some m.contents) :
    InStep id x (.reset :: b.changes) m v where
  here := named ▸ hands.there
  free := hands.lock ▸ hands.free _ free
  copy := by
    obtain ⟨copy, kept⟩ := Option.isSome_iff_exists.mp copied
    rw [kept]
    exact settled

theorem behind_by_heard_mutation (step : InStep l.context x [.reset] l w)
    (stale : l.store.stale = true) (op : Operation α)
    (unmixed : (handed (lockedMutation l.context op w).1).Unmixed) :
    ∃ m, InStep l.context x (handed (lockedMutation l.context op w).1).changes m
        (lockedMutation l.context op w).2 ∧ m.context = l.context ∧ m.Replayable := by
  obtain ⟨here, free, copied⟩ := inStep_reset_iff.mp step
  obtain ⟨u, y, taken, upgraded⟩ := upgrade_of_free free
  obtain ⟨b, r, v, mutated, -, told⟩ := lockedMutation_ends here op
  obtain ⟨handed, -, world⟩ := of_tells told
  have hidden := unseen_lockedMutation listFree_channelsAndClient l.context op w
  rw [← client_of_channelsAndClient hidden, world] at copied
  rw [handed] at unmixed ⊢
  rw [world]
  -- The lock is free, so that the signal neither goes on waiting nor is lost.
  cases mutated with
  | fresh fresh ended => simp [stale] at fresh
  | barred _ barred => simp [Act.succeeds_of_ok taken] at barred
  | lost _ _ barred =>
    rw [acquireInSteps, Act.succeeds_of_ok ((Act.bind_of_ok taken _).trans upgraded)] at barred
    cases barred
  | heard _ obtained ended =>
    obtain ⟨m, hands⟩ := hands_ended (l := l.reset) (afterReset_list w l)
      (UndoableList.replayable_cleared rfl) ended
    have mild := unmixed List.mem_cons_self
    have settled := Change.settled_of_makesAll hands.makes hands.single fun change member =>
      mild change (List.mem_cons_of_mem _ member)
    exact ⟨m, inStep_resetting hands rfl free copied settled, hands.context, hands.replayable⟩

theorem behind_by_mutation (watchful : Watchful people id x l w) (op : Operation α)
    (unmixed : (handed (lockedMutation id op w).1).Unmixed) :
    ∃ m, Poised (Readable id) people id x (handed (lockedMutation id op w).1).changes m
      (lockedMutation id op w).2 := by
  obtain ⟨⟨step, assembled, rfl, replayable⟩, current⟩ := watchful
  have hidden := unseen_lockedMutation listFree_channelsAndClient l.context op w
  have there := assembled_hidden assembled hidden
  cases stale : l.store.stale with
  | false =>
    obtain ⟨m, hands⟩ := lockedMutation_hands step.here stale (replayable stale) op
    have behind :=
      inStep_handed (current stale) hands (congrFun (client_of_channelsAndClient hidden) x)
    exact ⟨m, behind, there, hands.context, fun _ => hands.replayable⟩
  | true =>
    obtain ⟨m, behind, context, again⟩ := behind_by_heard_mutation step stale op unmixed
    exact ⟨m, behind, there, context, fun _ => again⟩

omit [Element α] in
theorem behind_by_heard_replay (step : InStep l.context x [.reset] l w)
    (stale : l.store.stale = true) (direction : Direction) :
    InStep l.context x (handed (lockedReplay l.context direction w).1).changes l.reset
      (lockedReplay l.context direction w).2 := by
  obtain ⟨here, free, copied⟩ := inStep_reset_iff.mp step
  obtain ⟨b, r, v, replayed, -, told⟩ := lockedReplay_ends here direction
  obtain ⟨handed, -, world⟩ := of_tells told
  have hidden := unseen_lockedReplay listFree_channelsAndClient l.context direction w
  rw [← client_of_channelsAndClient hidden, world] at copied
  rw [handed, world]
  cases replayed with
  | barred barred => simp [Act.succeeds_of_ok (acquire_of_free free)] at barred
  | fresh fresh => simp [stale] at fresh
  | heard _ obtained aside freed =>
    have hands := hands_nothing (l := l.reset) (afterReset_list w l)
      (UndoableList.replayable_cleared rfl) aside
    exact inStep_resetting hands rfl free copied rfl

omit [Element α] in
theorem behind_by_replay (watchful : Watchful people id x l w) (direction : Direction) :
    ∃ m, Poised (Readable id) people id x (handed (lockedReplay id direction w).1).changes m
      (lockedReplay id direction w).2 := by
  obtain ⟨⟨step, assembled, rfl, replayable⟩, current⟩ := watchful
  have hidden := unseen_lockedReplay listFree_channelsAndClient l.context direction w
  have there := assembled_hidden assembled hidden
  cases stale : l.store.stale with
  | false =>
    obtain ⟨m, hands⟩ := lockedReplay_hands step.here stale (replayable stale) direction
    have behind :=
      inStep_handed (current stale) hands (congrFun (client_of_channelsAndClient hidden) x)
    exact ⟨m, behind, there, hands.context, fun _ => hands.replayable⟩
  | true =>
    exact ⟨l.reset, behind_by_heard_replay step stale direction, there, rfl,
      fun _ => UndoableList.replayable_cleared rfl⟩

omit [Element α] in
theorem behind_by_rework (watchful : Watchful people id x l w) {β : Type} {b : β}
    {r : Rework α β} (returned : (r.on l.store).1 = .ok b) :
    ∃ m v, aloneWithStore id (rework id r) w = (.ok b, v) ∧
      Poised (Readable id) people id x [.reset] m v := by
  obtain ⟨⟨step, assembled, rfl, -⟩, -⟩ := watchful
  obtain ⟨here, free, copied⟩ := inStep_reset_iff.mp step
  have hidden := unseen_aloneWithStore listFree_channelsAndClient l.context r w
  obtain ⟨barred, -⟩ | ⟨-, v, ends⟩ := aloneWithStore_ends here r
  · simp [Act.succeeds_of_ok (acquire_of_free free)] at barred
  · rcases worked : r.on l.store with ⟨outcome, store⟩
    rw [worked] at ends returned
    obtain rfl : outcome = .ok b := returned
    obtain ⟨aside, done⟩ := ends
    rw [done] at hidden
    rw [← client_of_channelsAndClient hidden] at copied
    have left : (w.reworked l store).lists.get? l.context =
        some { l with store }.forgetful.newVersion := Table.get?_insert_self ..
    have hands := hands_nothing (l := { l with store }.forgetful.newVersion) left
      (UndoableList.replayable_cleared rfl) aside
    have behind := inStep_resetting hands rfl free copied rfl
    exact ⟨_, v, done, behind, assembled_hidden assembled hidden, rfl, fun _ => hands.replayable⟩

omit [Element α] in
theorem notifyReset_eq (here : w.lists.get? id = some l) (free : w.locks.Free w.thread l.lock)
    (call : Call α κ (Mirrors α)) :
    notifyReset call id w = (.ok (), announce call id .reset w) := by
  have usable : Host.isDisposed l.lock w = false := Locks.usable_of_free free
  rw [notifyReset, withList_present here]
  simp only [Act.bind_apply, Act.read, usable]
  rfl

/-- Each call leaves the copy behind by what it hands on, until that is told. -/
theorem called_right (observes : Observes call id x) (once : Once people x)
    (watchful : Watchful people id x l w) (called : Called call id w v) :
    ∃ m, Poised (Readable id) people id x [] m v := by
  cases called with
  | mutated op unmixed =>
    obtain ⟨m, behind⟩ := behind_by_mutation watchful op unmixed
    rw [mutate_eq]
    exact ⟨m, announced observes once behind⟩
  | replayed direction =>
    obtain ⟨m, behind⟩ := behind_by_replay watchful direction
    rw [replay_eq]
    exact ⟨m, announced observes once behind⟩
  | reworked here r returns =>
    obtain rfl := Option.some.inj (here.symm.trans watchful.poised.step.here)
    obtain ⟨b, returned⟩ := returns
    obtain ⟨m, v, done, behind⟩ := behind_by_rework watchful returned
    have told : withStore call id (rework id r) w = (.ok b, announce call id .reset v) :=
      Act.bind_of_ok done _
    rw [told]
    exact ⟨m, announced (b := .reset) observes once behind⟩
  | renotified =>
    obtain ⟨here, free, -⟩ := inStep_reset_iff.mp watchful.poised.step
    rw [notifyReset_eq here free]
    exact ⟨l, announced (b := .reset) observes once watchful.poised⟩

theorem watchful_of_mirrored (observes : Observes call id x) (once : Once people x)
    (mirrored : Mirrored call people id x w) : ∃ l, Watchful people id x l w := by
  induction mirrored with
  | @begun w l orderly here free assembled copy =>
    obtain ⟨m, there, context, readable⟩ := standing_of_orderly orderly
    obtain rfl : l = m := Option.some.inj (here.symm.trans there)
    exact ⟨l, watchful_of_poised ⟨inStep_iff.mpr ⟨here, free, copy⟩, assembled, context, readable⟩⟩
  | called mirrored called ih =>
    obtain ⟨l, watchful⟩ := ih
    obtain ⟨m, poised⟩ := called_right observes once watchful called
    exact ⟨m, watchful_of_poised poised⟩
  | @rewritten w l mirrored here store signals ih =>
    obtain ⟨m, ⟨step, assembled, kind⟩, -⟩ := ih
    obtain ⟨there, free, copied⟩ := inStep_reset_iff.mp step
    obtain rfl : l = m := Option.some.inj (here.symm.trans there)
    have stale : { l with store }.store.stale ≠ false := by simp [signals]
    have behind : InStep id x [.reset] { l with store }
        { w with lists := w.lists.insert id { l with store } } :=
      inStep_reset_iff.mpr ⟨Table.get?_insert_self .., free, copied⟩
    exact ⟨_, ⟨behind, assembled, kind.context, fun fresh => absurd fresh stale⟩,
      fun fresh => absurd fresh stale⟩
  | elsewhere mirrored apart ih =>
    obtain ⟨l, poised, current⟩ := ih
    exact ⟨l, poised_apart poised apart, fun fresh => inStep_apart (current fresh) apart⟩

/-- Who reads the list anew at a reset and makes all other changes on its copy has a right one. -/
theorem copy_is_right_after_every_call (observes : Observes call id x) (once : Once people x)
    (mirrored : Mirrored call people id x w) (called : Called call id w v) :
    ∃ l, v.lists.get? id = some l ∧ (v.client x).copy = some l.contents := by
  obtain ⟨l, watchful⟩ := watchful_of_mirrored observes once mirrored
  obtain ⟨m, poised⟩ := called_right observes once watchful called
  obtain ⟨there, -, copy⟩ := inStep_iff.mp poised.step
  exact ⟨m, there, copy⟩

end

def copiedWorld : World Value Bool (Mirrors Value) :=
  (mutate (mirroring 1) 1 true (.push (.int 1)) (hearersWorld false false)).2

def copiedList : UndoableList Value :=
  { vacantList with
    store := { items := [.int 1] }
    history := { done := [.add 0 (.int 1)], maxDepth := History.unlimited }
    version := 1 }

def alteredList : UndoableList Value :=
  { copiedList with store := { items := [.int 7], stale := true } }

def alteredWorld : World Value Bool (Mirrors Value) :=
  { copiedWorld with lists := copiedWorld.lists.insert 1 alteredList }

theorem hearers_mirrored :
    Mirrored (mirroring 1) (hearers false false) 1 1 (hearersWorld false false) :=
  .begun (hearers_orderly false false) (hearers_here false false) (hearers_free false false)
    (hearers_assembled false false) rfl

theorem undo_after_alteration_rereads :
    let v := (replay (mirroring 1) 1 true .backward alteredWorld).2
    (v.client 1).heard = [.add 0 [.int 1], .reset] ∧ v.contentsOf 1 = [.int 7] ∧
      (v.client 1).copy = some [.int 7] := by
  have told : (handed (lockedMutation 1 (.push (.int 1)) (hearersWorld false false)).1).changes =
      [.add 0 [.int 1]] := by cbv
  have alone :
      (handed (lockedMutation 1 (.push (.int 1)) (hearersWorld false false)).1).Unmixed := by
    intro reset
    rw [told] at reset
    simp at reset
  have called : Called (mirroring 1) 1 (hearersWorld false false) copiedWorld := by
    rw [copiedWorld]
    exact @Called.mutated _ _ _ (mirroring 1) 1 (hearersWorld false false) (.push (.int 1)) alone
  have pushed : Mirrored (mirroring 1) (hearers false false) 1 1 copiedWorld :=
    hearers_mirrored.called called
  have here : copiedWorld.lists.get? 1 = some copiedList := by cbv
  have altered : Mirrored (mirroring 1) (hearers false false) 1 1 alteredWorld := by
    rw [alteredWorld, alteredList]
    exact pushed.rewritten here { items := [.int 7], stale := true } rfl
  have once : Once (hearers false false) 1 := ⟨[(0, false)], false, [], rfl, by simp⟩
  obtain ⟨l, there, copy⟩ := copy_is_right_after_every_call (observes_mirroring 1 1) once altered
    (.replayed .backward)
  have contents :
      (replay (mirroring 1) 1 true .backward alteredWorld).2.contentsOf 1 = [.int 7] := by cbv
  refine ⟨by cbv, contents, ?_⟩
  rw [contentsOf, there] at contents
  rw [copy]
  exact congrArg some contents

/-- A push that hears of a signal: the copy read at the reset holds the new item already. -/
theorem push_after_signal_is_doubled :
    let w := (hearersWorld false false).signal 1
    let v := (mutate (mirroring 1) 1 true (.push (.int 1)) w).2
    Mirrored (mirroring 1) (hearers false false) 1 1 w ∧ v.contentsOf 1 = [.int 1] ∧
      (v.client 1).heard = [.reset, .add 0 [.int 1]] ∧
      (v.client 1).copy = some [.int 1, .int 1] := by
  have signalled : Mirrored (mirroring 1) (hearers false false) 1 1
      ((hearersWorld false false).signal 1) :=
    hearers_mirrored.rewritten (hearers_here false false) { stale := true } rfl
  exact ⟨signalled, by cbv, by cbv, by cbv⟩

end World

end UndoableLists
