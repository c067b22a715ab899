import UndoableLists.Proofs.List.Tracking
import UndoableLists.Proofs.UndoRedo.Course

/-!
The life of a list that does not capture its items, told beside a timeline by what its calls answer:
a change that is kept moves the present on and cuts off what lay ahead, an undo or a redo goes one
step, and what forgets the history leaves the present alone. Main statement: throughout its life the
list tracks that timeline.
-/
namespace UndoableLists.World
variable {α κ δ β : Type}

structure StoreOnly (id : ListId) (body : Work α κ δ β) : Prop where
  list : ∀ w l, w.lists.get? id = some l →
    ∃ store, (body w).2.lists.get? id = some { l with store }
  held : ∀ w, .list id ∈ w.held → .list id ∈ (body w).2.held

def signal (id : ListId) (w : World α κ δ) : World α κ δ :=
  { w with lists := w.lists.modify id fun l => { l with store := { l.store with stale := true } } }

def Living (id : ListId) (w : World α κ δ) (t : Timeline (List α)) : Prop :=
  .list id ∈ w.held ∧ ∃ l, w.lists.get? id = some l ∧ l.context = id ∧ l.access = none ∧ l.Tracks t

section
variable {id : ListId} {v w : World α κ δ} {t : Timeline (List α)} {l : UndoableList α}

theorem living_aside (living : Living id w t) (aside : Aside [] w v) : Living id v t := by
  obtain ⟨held, l, here, rest⟩ := living
  exact ⟨(held_aside aside).mpr held, l, aside.lists ▸ here, rest⟩

theorem living_afterReset (held : .list id ∈ w.held) (context : l.context = id)
    (plain : l.access = none) : Living id (w.afterReset l) { now := l.contents } :=
  ⟨held, l.reset, context ▸ afterReset_list w l, context, plain, UndoableList.tracks_cleared rfl⟩

theorem living_created [Diary δ] (b : Blueprint α) (plain : b.access = none) (w : World α κ δ) :
    Living w.nextContext (createList b w).2 { now := b.items } := by
  refine ⟨?_, b.listAt w.nextContext w.locks.next, ?_, rfl, plain, UndoableList.tracks_cleared rfl⟩
  · exact (held_aside (aside_createList b w)).mpr List.mem_cons_self
  · rw [lists_createList, if_pos rfl]

end

variable [Diary δ] [Element α]

/-- The life of a list, made without item capture, in steps of any order. A call is a step up to the
moment at which its lock is free again; what subscribers do when they are told are further steps.
`elsewhere` is whatever leaves the list and its handle as they are. -/
inductive Life (id : ListId) : World α κ δ → Timeline (List α) → Prop
  | created {w} (b : Blueprint α) (plain : b.access = none) (named : w.nextContext = id) :
    Life id (createList b w).2 { now := b.items }
  | elsewhere {w v t} (life : Life id w t) (same : v.lists.get? id = w.lists.get? id)
    (held : .list id ∈ v.held) : Life id v t
  | signalled {w t} (life : Life id w t) : Life id (w.signal id) t
  | mutated {w t l} (life : Life id w t) (here : w.lists.get? id = some l) (call : Call α κ δ)
    (op : Operation α) :
    Life id (mutate call id false op w).2
      (timelineMutated (·.contentsOf id) t l op w (mutate call id false op w))
  | replayed {w t l} (life : Life id w t) (here : w.lists.get? id = some l) (call : Call α κ δ)
    (direction : Direction) :
    Life id (replay call id false direction w).2
      (timelineReplayed t l direction (replay call id false direction w).1)
  | cleared {w t} (life : Life id w t) :
    Life id (clearHistory id w).2 (t.heard ((clearHistory id).succeeds w))
  | reworked {β w t l} (life : Life id w t) (here : w.lists.get? id = some l)
    (body : Work α κ δ β) (closed : StoreOnly id body)
    (returns : (Host.acquire l.lock .write).succeeds w → (aloneWithStore id body).succeeds w) :
    Life id (aloneWithStore id body w).2
      (if (aloneWithStore id body).succeeds w then
        { now := (aloneWithStore id body w).2.contentsOf id }
      else t)

section
variable {id : ListId} {v w : World α κ δ} {t : Timeline (List α)} {l : UndoableList α}

omit [Diary δ] in
theorem living_ended {lacking : Prop} {b : Bulletin α} {r : Outcome ListRefusal (Reply α)}
    {op : Operation α} (held : .list id ∈ w.held) (context : l.context = id)
    (plain : l.access = none)
    (tracks : l.Tracks t) (here : w.lists.get? id = some l)
    (ended : Ended [] lacking l op w b r v) : Living id v (match r with
      | .ok _ =>
        if op.idle (Element.current w.objects) l.contents then t
        else t.recorded l.history.maxDepth (v.contentsOf id)
      | .error _ => t) := by
  have same : Living id w t := ⟨held, l, here, context, plain, tracks⟩
  cases ended with
  | refused aside => exact living_aside same aside
  | idle planned aside =>
    simp only [Operation.plan_idle planned, Option.isNone_none, ↓reduceIte]
    exact living_aside same aside
  | carried planned done aside =>
    obtain ⟨next, leads, list, -⟩ := UndoableList.append_planned planned done
    have there := after_list list context aside
    have contents : v.contentsOf id = next := by
      rw [contentsOf, there]
      rfl
    simp only [Operation.plan_idle planned, Option.isNone_some, Bool.false_eq_true, ↓reduceIte,
      contents]
    exact ⟨(held_aside aside).mpr held, _, there, context, plain,
      UndoableList.tracks_appended tracks leads⟩

theorem living_mutated (living : Living id w t) (here : w.lists.get? id = some l)
    (call : Call α κ δ) (op : Operation α) :
    Living id (mutate call id false op w).2
      (timelineMutated (·.contentsOf id) t l op w (mutate call id false op w)) := by
  obtain ⟨held, m, there, context, plain, tracks⟩ := living
  obtain rfl : l = m := Option.some.inj (here.symm.trans there)
  subst context
  obtain ⟨b, r, v, mutated, -, outcome⟩ := mutate_ends here op
  rw [outcome call false]
  simp only [Bool.false_eq_true, ↓reduceIte]
  cases mutated with
  | fresh fresh ended =>
    have lives := living_ended held rfl plain tracks here ended
    cases r <;> simpa [timelineMutated, Timeline.heard, fresh] using lives
  | barred stale barred aside =>
    simp only [timelineMutated, inSteps_of_acquire_false barred, Bool.and_false, Timeline.heard,
      Bool.false_eq_true, ↓reduceIte]
    exact living_aside ⟨held, l, here, rfl, plain, tracks⟩ aside
  | lost stale taken barred aside =>
    simp only [timelineMutated, barred, Bool.and_false, Timeline.heard, Bool.false_eq_true,
      ↓reduceIte]
    have quieted : l.quieted.Tracks t := { tracks with }
    refine living_aside ?_ aside
    exact ⟨held, l.quieted, Table.get?_insert_self .., rfl, plain, quieted⟩
  | heard stale obtained ended =>
    have again : l.reset.Tracks { now := l.contents } := UndoableList.tracks_cleared rfl
    have lives := living_ended (w := w.afterReset l) (l := l.reset) held rfl plain again
      (afterReset_list w l) ended
    rw [tracks.now] at lives
    cases r with
    | ok reply =>
      simp only [timelineMutated, Timeline.heard, stale, ↓reduceIte]
      exact lives
    | error fault =>
      simp only [timelineMutated, Timeline.heard, stale, obtained, Bool.and_true, ↓reduceIte]
      exact lives

omit [Element α] in
theorem living_replayed (living : Living id w t) (here : w.lists.get? id = some l)
    (call : Call α κ δ) (direction : Direction) :
    Living id (replay call id false direction w).2
      (timelineReplayed t l direction (replay call id false direction w).1) := by
  obtain ⟨held, m, there, context, plain, tracks⟩ := living
  obtain rfl : l = m := Option.some.inj (here.symm.trans there)
  subst context
  obtain ⟨b, r, v, replayed, -, outcome⟩ := replay_ends here direction
  have same : Living l.context w t := ⟨held, l, here, rfl, plain, tracks⟩
  rw [outcome call false]
  simp only [Bool.false_eq_true, ↓reduceIte]
  cases replayed with
  | barred barred aside => exact living_aside same aside
  | fresh fresh obtained turned freed =>
    cases turned with
    | nothing none aside =>
      simp only [timelineReplayed, Timeline.heard, fresh, Bool.false_eq_true, ↓reduceIte]
      exact living_aside same aside
    | rejected near failed aside => exact living_aside same aside
    | carried near done aside =>
      obtain ⟨next, more, ahead, turns⟩ := UndoableList.nearest_turns tracks near
      have list := (UndoableList.commit_nearest turns done).1
      exact ⟨(held_aside aside).mpr held, _, after_list list rfl aside, rfl, plain,
        UndoableList.tracks_turned tracks ahead⟩
  | heard stale obtained aside freed =>
    simp only [timelineReplayed, Timeline.heard, stale, ↓reduceIte, ← tracks.now]
    exact living_aside (living_afterReset held rfl plain) aside

omit [Element α] in
theorem living_cleared (living : Living id w t) :
    Living id (clearHistory id w).2 (t.heard ((clearHistory id).succeeds w)) := by
  have same := living
  obtain ⟨held, l, here, rfl, plain, tracks⟩ := living
  obtain ⟨fault, v, -, aside, outcome⟩ | ⟨v, -, aside, outcome⟩ :=
    modifying_ends here UndoableList.forgetful
  all_goals
    have result : clearHistory l.context w = _ := outcome
    rw [result]
  · rw [Act.succeeds_of_error result]
    exact living_aside same aside
  · rw [Act.succeeds_of_ok result]
    have forgotten : l.forgetful.Tracks { now := l.contents } := UndoableList.tracks_cleared rfl
    rw [tracks.now] at forgotten
    refine living_aside ?_ aside
    refine ⟨held, l.forgetful, ?_, rfl, plain, forgotten⟩
    simp [Table.get?_modify, here]

omit [Element α] in
theorem resynchronize_list (here : w.lists.get? l.context = some l) :
    ∃ v, resynchronize l.context w = (.ok (), v) ∧
      v.lists.get? l.context = some l.forgetful.newVersion ∧
      (.list l.context ∈ w.held → .list l.context ∈ v.held) := by
  have entered : Aside [] _ (settle .forward (Site.resynchronized ⟨l, w.cells⟩) w) :=
    aside_settle w
  exact ⟨_, atSite_present here, after_list rfl rfl entered, (held_aside entered).mpr⟩

omit [Element α] in
theorem reworking_list (here : w.lists.get? l.context = some l) {body : Work α κ δ β}
    (closed : StoreOnly l.context body) (returns : (reworking l.context body).succeeds w) :
    ∃ b v store, reworking l.context body w = (.ok b, v) ∧
      v.lists.get? l.context = some { l with store }.forgetful.newVersion ∧
      (.list l.context ∈ w.held → .list l.context ∈ v.held) := by
  have freed : releaseMembers l.context w = (.ok (), w.putSite (Site.released ⟨l, w.cells⟩)) :=
    atSite_present here
  obtain ⟨store, there⟩ := closed.list (w.putSite (Site.released ⟨l, w.cells⟩)) l
    (Table.get?_insert_self ..)
  have held := closed.held (w.putSite (Site.released ⟨l, w.cells⟩))
  cases worked : body (w.putSite (Site.released ⟨l, w.cells⟩)) with
  | mk outcome x =>
    rw [worked] at there held
    cases outcome with
    | error fault =>
      have failed : reworking l.context body w = (.error fault, x) := by
        rw [reworking, Act.bind_of_ok freed, Act.bind_of_error worked]
      rw [Act.succeeds_of_error failed] at returns
      cases returns
    | ok b =>
      obtain ⟨v, resynchronized, entry, kept⟩ := resynchronize_list (l := { l with store }) there
      refine ⟨b, v, store, ?_, entry, fun holds => kept (held holds)⟩
      rw [reworking, Act.bind_of_ok freed, Act.bind_of_ok worked, Act.bind_of_ok resynchronized]
      rfl

omit [Element α] in
theorem living_reworked (living : Living id w t) (here : w.lists.get? id = some l)
    (body : Work α κ δ β) (closed : StoreOnly id body)
    (returns : (Host.acquire l.lock .write).succeeds w → (aloneWithStore id body).succeeds w) :
    Living id (aloneWithStore id body w).2
      (if (aloneWithStore id body).succeeds w then
        { now := (aloneWithStore id body w).2.contentsOf id }
      else t) := by
  have same := living
  obtain ⟨held, m, there, context, plain, tracks⟩ := living
  obtain rfl : l = m := Option.some.inj (here.symm.trans there)
  subst context
  obtain ⟨fault, u, failed, outcome⟩ | ⟨u, done, outcome⟩ :=
    holding_cases ListRefusal.ofLock l.lock .write (reworking l.context body) w
  all_goals
    have result : aloneWithStore l.context body w = _ := (withList_present here).trans outcome
  · rw [Act.succeeds_of_error result, result]
    exact living_aside same (of_acquire_error failed)
  · obtain ⟨x, inside⟩ := inside_of_acquire done
    have here' : u.lists.get? l.context = some l :=
      inside.taken.lists.trans inside.before.lists ▸ here
    have worked : (reworking l.context body).succeeds u := by
      have succeeded := returns (Act.succeeds_of_ok done)
      unfold Act.succeeds at succeeded ⊢
      rw [result] at succeeded
      revert succeeded
      rcases reworking l.context body u with ⟨_ | _, _⟩ <;> simp
    obtain ⟨b, v, store, finished, entry, kept⟩ := reworking_list here' closed worked
    rw [finished] at result
    rw [Act.succeeds_of_ok result, result]
    have contents : (Host.releaseFor u.thread l.lock v).contentsOf l.context = store.items := by
      rw [contentsOf, show (Host.releaseFor u.thread l.lock v).lists = v.lists from rfl, entry]
      rfl
    have holds : .list l.context ∈ u.held :=
      (held_aside inside.taken).mpr ((held_aside inside.before).mpr held)
    rw [if_pos rfl, contents]
    exact ⟨kept holds, _, entry, rfl, plain, UndoableList.tracks_cleared rfl⟩

theorem living_of_life (life : Life id w t) : Living id w t := by
  induction life with
  | created b plain named => exact named ▸ living_created b plain _
  | elsewhere life same held living =>
    obtain ⟨-, l, here, rest⟩ := living
    exact ⟨held, l, same.trans here, rest⟩
  | signalled life living =>
    obtain ⟨held, l, here, context, plain, tracks⟩ := living
    refine ⟨held, { l with store := { l.store with stale := true } }, ?_, context, plain,
      { tracks with }⟩
    simp [signal, Table.get?_modify, here]
  | mutated life here call op living => exact living_mutated living here call op
  | replayed life here call direction living => exact living_replayed living here call direction
  | cleared life living => exact living_cleared living
  | reworked life here body closed returns living =>
    exact living_reworked living here body closed returns

def Lives (id : ListId) (w : World α κ δ) : Prop := ∃ t, Life id w t

theorem keeps_lives {call : Call α κ δ}
    (called : ∀ s k e w, Lives id w → Lives id (call s k e w).2) : Keeps call (Lives id) where
  aside aside lives := by
    obtain ⟨t, life⟩ := lives
    exact ⟨t, life.elsewhere (by rw [aside.lists]) ((held_aside aside).mpr (living_of_life life).1)⟩
  removed {w gone _} _ loose lives := by
    obtain ⟨t, life⟩ := lives
    have held := (living_of_life life).1
    have differs : id ≠ gone := fun same => loose (same ▸ held)
    exact ⟨t, life.elsewhere ((Table.get?_erase ..).trans (if_neg differs)) held⟩
  called := called

/-- Calls that are told are part of a list's life too, whatever subscribers do with the list when
they are told, as long as that is part of its life. -/
theorem calls_live {call : Call α κ δ}
    (called : ∀ s k e w, Lives id w → Lives id (call s k e w).2) (lives : Lives id w)
    (here : w.lists.get? id = some l) (aloud : Bool) :
    (∀ op, Lives id (mutate call id aloud op w).2) ∧
    (∀ direction, Lives id (replay call id aloud direction w).2) ∧
    ∀ {β : Type} (body : Work α κ δ β), StoreOnly id body →
      ((Host.acquire l.lock .write).succeeds w → (aloneWithStore id body).succeeds w) →
      Lives id (withStore call id body w).2 := by
  obtain ⟨t, life⟩ := lives
  have keeps := keeps_lives called
  refine ⟨?_, ?_, ?_⟩
  · intro op
    exact telling_keeps keeps ⟨_, life.mutated here call op⟩ aloud
  · intro direction
    exact telling_keeps keeps ⟨_, life.replayed here call direction⟩ aloud
  · intro β body closed returns
    have silent : Lives id (aloneWithStore id body w).2 :=
      ⟨_, life.reworked here body closed returns⟩
    rcases outcome : aloneWithStore id body w with ⟨_ | out, v⟩
    · rw [outcome] at silent
      rwa [withStore, Act.bind_of_error outcome]
    · rw [outcome] at silent
      rw [withStore, Act.bind_of_ok outcome]
      exact announce_keeps keeps id .reset silent

end

end UndoableLists.World
