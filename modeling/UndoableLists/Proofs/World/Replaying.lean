import UndoableLists.Proofs.World.Sections

/-!
How an undo or a redo ends. The nearest record is replayed, or is refused and stays where it was, or
there is none. A list that was reset has none.
-/
namespace UndoableLists.World
variable {α κ δ : Type} [Diary δ]

inductive Turned (taken : List LockId) (l : UndoableList α) (direction : Direction)
    (w : World α κ δ) : Bulletin α → Outcome ListRefusal Bool → World α κ δ → Prop
  | nothing {v} (none : l.history.side direction = []) (aside : Aside taken w v) :
    Turned taken l direction w {} (.ok false) v
  | rejected {record rest fault v} (near : l.history.side direction = record :: rest)
    (failed : Site.commit ⟨l, w.cells⟩ record direction = .error fault)
    (aside : Aside taken w v) : Turned taken l direction w {} (.error fault) v
  | carried {record rest d v} (near : l.history.side direction = record :: rest)
    (done : Site.commit ⟨l, w.cells⟩ record direction = .ok d)
    (aside : Aside taken (w.after direction (d.withHistory (l.history.turned direction))) v) :
    Turned taken l direction w d.bulletin (.ok true) v

/-- How an undo or a redo of `l` ends; where the lock was had, it is free again. -/
inductive Replayed (l : UndoableList α) (direction : Direction) (w : World α κ δ) :
    Bulletin α → Outcome ListRefusal Bool → World α κ δ → Prop
  | barred {fault v} (barred : (Host.acquire l.lock .write).succeeds w = false)
    (aside : Aside [] w v) : Replayed l direction w {} (.error fault) v
  | fresh {b r v} (fresh : l.store.stale = false)
    (obtained : (Host.acquire l.lock .write).succeeds w = true)
    (ended : Turned [] l direction w b r v) (freed : v.locks.Free w.thread l.lock) :
    Replayed l direction w b r v
  | heard {v} (stale : l.store.stale = true)
    (obtained : (Host.acquire l.lock .write).succeeds w = true)
    (aside : Aside [] (w.afterReset l) v) (freed : v.locks.Free w.thread l.lock) :
    Replayed l direction w .reset (.ok false) v

variable {taken : List LockId} {u v w : World α κ δ} {l : UndoableList α} {id : ListId}

theorem turned_of_replayed {direction : Direction} {b : Bulletin α} {r : Outcome ListRefusal Bool}
    (fresh : l.store.stale = false) (obtained : (Host.acquire l.lock .write).succeeds w = true)
    (replayed : Replayed l direction w b r v) : Turned [] l direction w b r v := by
  cases replayed with
  | barred barred => simp [obtained] at barred
  | fresh _ _ ended => exact ended
  | heard stale => simp [fresh] at stale

theorem replayNearest_turned (before : Aside taken w u) (here : w.lists.get? id = some l)
    (first : Bulletin α) (direction : Direction) :
    ∃ b r v, Turned taken l direction w b r v ∧
      replayNearest first id direction u = (.ok (first ++ b, r), v) := by
  have there : u.lists.get? id = some l := before.lists ▸ here
  rw [replayNearest, atSite_present there, before.cells]
  cases near : l.history.side direction with
  | nil =>
    refine ⟨{}, .ok false, u, .nothing near before, ?_⟩
    rw [Site.replay_of_empty (s := ⟨l, w.cells⟩) near, Bulletin.append_empty]
    rfl
  | cons record rest =>
    rw [Site.replay_of_nearest (s := ⟨l, w.cells⟩) near]
    cases outcome : Site.commit ⟨l, w.cells⟩ record direction with
    | error fault =>
      refine ⟨{}, .error fault, Journal.note .replayRejected u,
        .rejected near outcome (aside_then before (aside_note _ u)), ?_⟩
      rw [Bulletin.append_empty]
      rfl
    | ok d =>
      have done : Aside taken (w.after direction (d.withHistory (l.history.turned direction)))
          (Journal.note .historyReplayed
            (settle direction (d.withHistory (l.history.turned direction)) u)) :=
        aside_then (aside_after before) (aside_trans (aside_settle u) (aside_note _ _))
      exact ⟨d.bulletin, .ok true, _, .carried near outcome done, rfl⟩

theorem replaying_fresh (before : Aside taken w u) (here : w.lists.get? id = some l)
    (fresh : l.store.stale = false) (direction : Direction) :
    ∃ b r v, Turned taken l direction w b r v ∧ replaying id direction u = (.ok (b, r), v) := by
  have there : u.lists.get? id = some l := before.lists ▸ here
  obtain ⟨b, r, v, turned, outcome⟩ := replayNearest_turned before here {} direction
  refine ⟨b, r, v, turned, ?_⟩
  rw [replaying, Act.bind_of_ok (takeSignal_fresh there fresh)]
  exact outcome

theorem replaying_stale (before : Aside taken w u) (here : w.lists.get? l.context = some l)
    (stale : l.store.stale = true) (direction : Direction) :
    ∃ v, Aside taken (w.afterReset l) v ∧
      replaying l.context direction u = (.ok (.reset, .ok false), v) := by
  have there : u.lists.get? l.context = some l := before.lists ▸ here
  have signal := takeSignal_present there
  rw [stale] at signal
  obtain ⟨y, reset, after⟩ := resetList_quieted (l := l) before
  obtain ⟨b, r, v, turned, outcome⟩ :=
    replayNearest_turned after (afterReset_list w l) .reset direction
  cases turned with
  | nothing none aside =>
    refine ⟨v, aside, ?_⟩
    rw [replaying, Act.bind_of_ok signal]
    simp only [↓reduceIte]
    rw [Act.bind_of_ok reset, outcome, Bulletin.append_empty]
  | rejected near failed aside => cases direction <;> cases near
  | carried near done aside => cases direction <;> cases near

theorem turned_release {lock : LockId} {access : Access} {direction : Direction} {b : Bulletin α}
    {r : Outcome ListRefusal Bool} {x : World α κ δ} (inside : Inside lock access w v u)
    (turned : Turned [lock] l direction v b r x) :
    Turned [] l direction w b r (Host.releaseFor u.thread lock x) ∧
      (access = .write → (Host.releaseFor u.thread lock x).locks.Free w.thread lock) := by
  cases turned with
  | nothing none aside =>
    obtain ⟨released, freed⟩ := release_framed framed_id inside aside
    exact ⟨.nothing none released, freed⟩
  | rejected near failed aside =>
    obtain ⟨released, freed⟩ := release_framed framed_id inside aside
    rw [inside.before.cells] at failed
    exact ⟨.rejected near failed released, freed⟩
  | carried near done aside =>
    obtain ⟨released, freed⟩ := release_framed framed_after inside aside
    rw [inside.before.cells] at done
    exact ⟨.carried near done released, freed⟩

def lockedReplay (id : ListId) (direction : Direction) : Work α κ δ (Told α Bool) :=
  withList id fun l => Host.holding ListRefusal.ofLock l.lock .write (replaying id direction)

/-- An undo or a redo is that, and then telling what was handed on. -/
theorem replay_eq (call : Call α κ δ) (id : ListId) (aloud : Bool) (direction : Direction)
    (w : World α κ δ) :
    let out := lockedReplay id direction w
    replay call id aloud direction w =
      (answered out.1, if aloud then announce call id (handed out.1) out.2 else out.2) :=
  telling_handed call id aloud (lockedReplay id direction) w

theorem replay_absent {id : ListId} (absent : w.lists.get? id = none) (call : Call α κ δ)
    (aloud : Bool) (direction : Direction) :
    replay call id aloud direction w = (.error (.refused .disposed), w) := by
  simp only [replay, telling, withList_absent absent]

theorem lockedReplay_ends (here : w.lists.get? l.context = some l) (direction : Direction) :
    ∃ b r v, Replayed l direction w b r v ∧
      (∀ answer, r = .ok answer → w.locks.isDisposed l.lock = false) ∧
      Tells (lockedReplay l.context direction w) b r v := by
  unfold lockedReplay
  rw [withList_present here]
  obtain ⟨fault, u, failed, outcome⟩ | ⟨u, done, outcome⟩ :=
    holding_cases ListRefusal.ofLock l.lock .write (replaying l.context direction) w
  · exact ⟨{}, .error (fault.map ListRefusal.ofLock), u,
      .barred (Act.succeeds_of_error failed) (of_acquire_error failed),
      by simp, .inr ⟨rfl, _, rfl, outcome⟩⟩
  · obtain ⟨v, inside⟩ := inside_of_acquire done
    have here' : v.lists.get? l.context = some l := inside.before.lists ▸ here
    have usable := usable_of_inside inside
    have obtained : (Host.acquire l.lock .write).succeeds w = true := Act.succeeds_of_ok done
    cases stale : l.store.stale with
    | false =>
      obtain ⟨b, r, x, turned, result⟩ := replaying_fresh inside.taken here' stale direction
      obtain ⟨released, freed⟩ := turned_release inside turned
      exact ⟨b, r, _, .fresh stale obtained released (freed rfl), fun _ _ => usable,
        holding_tells done (.inl result)⟩
    | true =>
      obtain ⟨x, aside, result⟩ := replaying_stale inside.taken here' stale direction
      obtain ⟨released, freed⟩ := release_framed (framed_afterReset l) inside aside
      exact ⟨.reset, .ok false, _, .heard stale obtained released (freed rfl),
        fun _ _ => usable, holding_tells done (.inl result)⟩

theorem replay_ends (here : w.lists.get? l.context = some l)
    (direction : Direction) : ∃ b r v, Replayed l direction w b r v ∧
      (∀ answer, r = .ok answer → w.locks.isDisposed l.lock = false) ∧ ∀ call aloud,
      replay call l.context aloud direction w =
        (r, if aloud then announce call l.context b v else v) := by
  obtain ⟨b, r, v, replayed, usable, told⟩ := lockedReplay_ends here direction
  exact ⟨b, r, v, replayed, usable, fun call aloud => telling_eq told call l.context aloud⟩

section
variable {direction : Direction} {record : Record α Edit} {rest : List (Record α Edit)} {d : Done α}

theorem replay_nothing (here : w.lists.get? l.context = some l) (fresh : l.store.stale = false)
    (obtained : (Host.acquire l.lock .write).succeeds w = true)
    (none : l.history.side direction = []) :
    ∃ v, Aside [] w v ∧ ∀ call aloud, replay call l.context aloud direction w = (.ok false, v) := by
  obtain ⟨b, r, v, replayed, -, outcome⟩ := replay_ends here direction
  cases replayed with
  | barred barred aside => simp [obtained] at barred
  | heard stale => simp [fresh] at stale
  | fresh _ _ turned _ =>
    cases turned with
    | nothing _ aside =>
      refine ⟨v, aside, ?_⟩
      intro call aloud
      rw [outcome call aloud, announce_nothing, ite_self]
    | rejected near => simp [none] at near
    | carried near => simp [none] at near

theorem replay_nearest (here : w.lists.get? l.context = some l) (fresh : l.store.stale = false)
    (obtained : (Host.acquire l.lock .write).succeeds w = true)
    (near : l.history.side direction = record :: rest)
    (done : Site.commit ⟨l, w.cells⟩ record direction = .ok d) :
    ∃ v, Aside [] (w.after direction (d.withHistory (l.history.turned direction))) v ∧
      v.locks.Free w.thread l.lock ∧ ∀ call aloud, replay call l.context aloud direction w =
        (.ok true, if aloud then announce call l.context d.bulletin v else v) := by
  obtain ⟨b, r, v, replayed, -, outcome⟩ := replay_ends here direction
  cases replayed with
  | barred barred aside => simp [obtained] at barred
  | heard stale => simp [fresh] at stale
  | fresh _ _ turned freed =>
    cases turned with
    | nothing none => simp [none] at near
    | rejected other failed =>
      rw [near] at other
      cases other
      rw [done] at failed
      cases failed
    | carried other also aside =>
      rw [near] at other
      cases other
      rw [done] at also
      cases also
      exact ⟨v, aside, freed, outcome⟩

end

end UndoableLists.World
