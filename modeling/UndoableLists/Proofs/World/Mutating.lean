import UndoableLists.Proofs.World.Sections

/-!
How a mutation ends. It is refused, or there is nothing to do, and then lists and items are as they
were; or what its record does at the list's site is entered into the world. A signal of the store is
heard first, if the lock can be had.
-/
namespace UndoableLists.World
variable {α κ δ : Type} [Diary δ] [Element α] {taken : List LockId} {u v w : World α κ δ}

def planFor (w : World α κ δ) (l : UndoableList α) (op : Operation α) :
    Except ListRefusal (Operation.Plan α Edit) :=
  op.plan (Element.current w.objects) l.contents

def OfLock (fault : Fault ListRefusal) : Prop :=
  ∃ cause : Fault LockRefusal, fault = cause.map ListRefusal.ofLock

inductive Refused (lacking : Prop) (l : UndoableList α) (op : Operation α) (w : World α κ δ) :
    Fault ListRefusal → Prop
  | unplanned {cause} (planned : w.planFor l op = .error cause) :
    Refused lacking l op w (.refused cause)
  | unfit {record reply fault} (planned : w.planFor l op = .ok (some record, reply))
    (failed : Site.append ⟨l, w.cells⟩ record = .error fault) : Refused lacking l op w fault
  | barred {fault} (barred : lacking) (ofLock : OfLock fault) : Refused lacking l op w fault

/-- How a mutation of `l` ends that found its store unsignalled: with what is to be told, the
outcome and the world it leaves. `lacking` says that the lock cannot be had. -/
inductive Ended (taken : List LockId) (lacking : Prop) (l : UndoableList α) (op : Operation α)
    (w : World α κ δ) : Bulletin α → Outcome ListRefusal (Reply α) → World α κ δ → Prop
  | refused {fault v} (aside : Aside taken w v) (why : Refused lacking l op w fault) :
    Ended taken lacking l op w {} (.error fault) v
  | idle {reply v} (planned : w.planFor l op = .ok (none, reply))
    (aside : Aside taken w v) : Ended taken lacking l op w {} (.ok reply) v
  | carried {record reply d v}
    (planned : w.planFor l op = .ok (some record, reply))
    (done : Site.append ⟨l, w.cells⟩ record = .ok d)
    (aside : Aside taken (w.after .forward d) v) :
    Ended taken lacking l op w d.bulletin (.ok reply) v

section
variable {l : UndoableList α} {op : Operation α} {id : ListId} {lock : LockId}
  {b : Bulletin α} {r : Outcome ListRefusal (Reply α)} {lacking lacking' : Prop}

omit [Diary δ] in
theorem planned_aside (before : Aside taken w u) (here : w.lists.get? id = some l)
    (op : Operation α) : planned id op u = ((w.planFor l op).mapError .refused, u) := by
  have there : u.lists.get? id = some l := before.lists ▸ here
  rw [planned, withList_present there, planFor, ← before.objects]
  rfl

omit [Element α] in
theorem carryOut_eq (here : w.lists.get? id = some l) (record : Record α Edit)
    (reply : Reply α) :
    carryOut id (some record, reply) w = match Site.append ⟨l, w.cells⟩ record with
      | .error fault => (.error fault, w)
      | .ok d => (.ok (d.bulletin, reply), Journal.note .listMutated (settle .forward d w)) := by
  rw [carryOut, atSite_present here]
  simp only [Act.bind_apply, ofOutcome]
  cases Site.append ⟨l, w.cells⟩ record <;> rfl

theorem carryOut_ended {plan : Operation.Plan α Edit} (before : Aside taken w u)
    (here : w.lists.get? id = some l)
    (planned : w.planFor l op = .ok plan) :
    ∃ b r v, Ended taken lacking l op w b r v ∧
      ∀ first, andThen first (carryOut id plan) u = (.ok (first ++ b, r), v) := by
  have there : u.lists.get? id = some l := before.lists ▸ here
  obtain ⟨_ | record, reply⟩ := plan
  · exact ⟨{}, .ok reply, u, .idle planned before, fun first => by rw [andThen_eq]; rfl⟩
  · cases outcome : Site.append ⟨l, w.cells⟩ record with
    | error fault =>
      refine ⟨{}, .error fault, u, .refused before (.unfit planned outcome), fun first => ?_⟩
      rw [andThen_eq, carryOut_eq there, before.cells, outcome, Bulletin.append_empty]
    | ok d =>
      refine ⟨d.bulletin, .ok reply, Journal.note .listMutated (settle .forward d u),
        .carried planned outcome ?_, fun first => ?_⟩
      · exact aside_then (aside_after before) (aside_trans (aside_settle u) (aside_note _ _))
      · rw [andThen_eq, carryOut_eq there, before.cells, outcome]

omit [Diary δ] [Element α] in
theorem checked_eq (here : w.lists.get? id = some l) (record : Record α Edit) :
    checked id record w =
      ((record.check none .forward l.store.length).map fun _ => (), w) := by
  rw [checked, withList_present here]
  cases record.check none .forward l.store.length <;> rfl

omit [Element α] in
theorem upgrade_of_ok (done : Host.upgrade lock u = (.ok (), v)) :
    (upgrade lock : Work α κ δ Unit) u = (.ok (), v) := by
  simp only [upgrade, Act.mapError, done]
  rfl

omit [Element α] in
theorem upgrade_of_error {fault : Fault LockRefusal}
    (failed : Host.upgrade lock u = (.error fault, v)) :
    (upgrade lock : Work α κ δ Unit) u = (.error (fault.map ListRefusal.ofLock), v) := by
  simp only [upgrade, Act.mapError, failed]
  rfl

theorem mutation_fresh (before : Aside [lock] w u) (here : w.lists.get? id = some l)
    (fresh : l.store.stale = false) (op : Operation α) :
    ∃ b r v, Ended [lock] ((Host.upgrade lock).succeeds u = false) l op w b r v ∧
      Tells (mutation id op lock u) b r v := by
  have there : u.lists.get? id = some l := before.lists ▸ here
  have plans := planned_aside before here op
  unfold mutation
  rw [Act.bind_of_ok (takeSignal_fresh there fresh)]
  simp only [Bool.false_eq_true, ↓reduceIte]
  cases comes : w.planFor l op with
  | error cause =>
    rw [comes] at plans
    exact ⟨{}, _, u, .refused before (.unplanned comes),
      .inr ⟨rfl, _, rfl, Act.bind_of_error plans _⟩⟩
  | ok plan =>
    rw [comes] at plans
    rw [Act.bind_of_ok plans]
    obtain ⟨_ | record, reply⟩ := plan
    · exact ⟨{}, .ok reply, u, .idle comes before, .inl rfl⟩
    · cases checks : record.check none .forward l.store.length with
      | error fault =>
        have failed : checked id record u = (.error fault, u) := by
          rw [checked_eq there, checks]
          rfl
        have unfit : Site.append ⟨l, w.cells⟩ record = .error fault :=
          Site.append_of_check_error checks
        exact ⟨{}, _, u, .refused before (.unfit comes unfit),
          .inr ⟨rfl, _, rfl, Act.bind_of_error failed _⟩⟩
      | ok length =>
        have passed : checked id record u = (.ok (), u) := by
          rw [checked_eq there, checks]
          rfl
        simp only [Act.bind_of_ok passed]
        cases upgraded : Host.upgrade lock u with
        | mk outcome x =>
          cases outcome with
          | error fault =>
            have barred := Act.succeeds_of_error upgraded
            exact ⟨{}, _, x, .refused (of_upgrade_error before upgraded) (.barred barred ⟨_, rfl⟩),
              .inr ⟨rfl, _, rfl, Act.bind_of_error (upgrade_of_error upgraded) _⟩⟩
          | ok _ =>
            obtain ⟨b, r, v, ended, told⟩ :=
              carryOut_ended (of_upgrade_ok before upgraded) here comes
            refine ⟨b, r, v, ended, .inl ?_⟩
            rw [Act.bind_of_ok (upgrade_of_ok upgraded), told, Bulletin.empty_append]

theorem mutation_stale (before : Aside [lock] w u) (here : w.lists.get? l.context = some l)
    (stale : l.store.stale = true) (op : Operation α) :
    (∃ (fault : Fault ListRefusal) (v : World α κ δ), OfLock fault ∧
      (Host.upgrade lock).succeeds u = false ∧
      Aside [lock] { w with lists := w.lists.insert l.context l.quieted } v ∧
      Tells (mutation l.context op lock u) {} (.error fault) v) ∨
    (Host.upgrade lock).succeeds u = true ∧ ∃ b r v,
      Ended [lock] False l.reset op (w.afterReset l) b r v ∧
      Tells (mutation l.context op lock u) (.reset ++ b) r v := by
  have there : u.lists.get? l.context = some l := before.lists ▸ here
  have signal := takeSignal_present there
  rw [stale] at signal
  have shown := settle_lists .upgradeTimedOut (fun ls => ls.attemptUpgrade u.thread lock)
    (u.lists.insert l.context l.quieted) u
  unfold mutation
  rw [Act.bind_of_ok signal]
  simp only [↓reduceIte]
  cases upgraded : Host.upgrade lock u with
  | mk outcome x =>
    have also : Host.upgrade lock { u with lists := u.lists.insert l.context l.quieted } =
        (outcome, { x with lists := u.lists.insert l.context l.quieted }) := by
      rw [upgrade_eq] at upgraded ⊢
      rw [upgraded] at shown
      exact shown
    cases outcome with
    | error fault =>
      refine .inl ⟨_, _, ⟨fault, rfl⟩, Act.succeeds_of_error upgraded, ?_,
        .inr ⟨rfl, _, rfl, Act.bind_of_error (upgrade_of_error also) _⟩⟩
      have aside := aside_lists (of_upgrade_error before upgraded)
        fun lists => lists.insert l.context l.quieted
      have kept : x.lists = u.lists := (of_upgrade_error (aside_refl u) upgraded).lists
      exact kept ▸ aside
    | ok _ =>
      refine .inr ⟨Act.succeeds_of_ok upgraded, ?_⟩
      have aside : Aside [lock] w x := of_upgrade_ok before upgraded
      have kept : x.lists = u.lists := aside.lists.trans before.lists.symm
      obtain ⟨y, reset, after⟩ := resetList_quieted (l := l) aside
      rw [kept] at reset
      have plans := planned_aside after (afterReset_list w l) op
      rw [Act.bind_of_ok (upgrade_of_ok also), Act.bind_of_ok reset]
      cases comes : (w.afterReset l).planFor l.reset op with
      | error cause =>
        rw [comes] at plans
        refine ⟨{}, .error (.refused cause), y, .refused after (.unplanned comes), .inl ?_⟩
        rw [andThen_eq, Act.bind_of_error plans, Bulletin.append_empty]
      | ok plan =>
        rw [comes] at plans
        obtain ⟨b, r, v, ended, told⟩ :=
          carryOut_ended after (afterReset_list w l) comes
        refine ⟨b, r, v, ended, .inl ?_⟩
        have whole := told .reset
        rw [andThen_eq] at whole ⊢
        rw [Act.bind_of_ok plans]
        exact whole

omit [Diary δ] in
theorem refused_aside {fault : Fault ListRefusal} (before : Aside taken w u)
    (why : Refused lacking l op u fault) (same : lacking → lacking') :
    Refused lacking' l op w fault := by
  cases why with
  | unplanned planned =>
    rw [planFor, before.objects] at planned
    exact .unplanned planned
  | unfit planned failed =>
    rw [planFor, before.objects] at planned
    rw [before.cells] at failed
    exact .unfit planned failed
  | barred barred ofLock => exact .barred (same barred) ofLock

theorem ended_release {access : Access} {x : World α κ δ} {g : World α κ δ → World α κ δ}
    (framed : Framed g) (inside : Inside lock access w v u) (same : lacking → lacking')
    (ended : Ended [lock] lacking l op (g v) b r x) :
    Ended [] lacking' l op (g w) b r (Host.releaseFor u.thread lock x) := by
  have before := framed.aside inside.before
  cases ended with
  | refused aside why =>
    exact .refused (release_framed framed inside aside).1 (refused_aside before why same)
  | idle planned aside =>
    refine .idle ?_ (release_framed framed inside aside).1
    rwa [planFor, before.objects] at planned
  | carried planned done aside =>
    rw [before.cells] at done
    refine .carried ?_ done (release_framed (framed_comp framed_after framed) inside aside).1
    rwa [planFor, before.objects] at planned

end

def acquireInSteps (lock : LockId) : Act (World α κ δ) LockRefusal Unit := do
  Host.acquire lock .upgradeable
  Host.upgrade lock

/-- How a mutation of `l` ends. A signal is heard if the lock can be had for writing. Where it can
be had beside readers but not alone, nothing is done and the signal is lost. -/
inductive Mutated (l : UndoableList α) (op : Operation α) (w : World α κ δ) :
    Bulletin α → Outcome ListRefusal (Reply α) → World α κ δ → Prop
  | fresh {b r v} (fresh : l.store.stale = false)
    (ended : Ended [] ((acquireInSteps l.lock).succeeds w = false) l op w b r v) :
    Mutated l op w b r v
  | barred {fault v} (stale : l.store.stale = true)
    (barred : (Host.acquire l.lock .upgradeable).succeeds w = false)
    (aside : Aside [] w v) (ofLock : OfLock fault) : Mutated l op w {} (.error fault) v
  | lost {fault v} (stale : l.store.stale = true)
    (taken : (Host.acquire l.lock .upgradeable).succeeds w = true)
    (barred : (acquireInSteps l.lock).succeeds w = false)
    (aside : Aside [] { w with lists := w.lists.insert l.context l.quieted } v)
    (ofLock : OfLock fault) : Mutated l op w {} (.error fault) v
  | heard {b r v} (stale : l.store.stale = true)
    (obtained : (acquireInSteps l.lock).succeeds w = true)
    (ended : Ended [] False l.reset op (w.afterReset l) b r v) :
    Mutated l op w (.reset ++ b) r v

theorem ended_of_mutated {b : Bulletin α} {r : Outcome ListRefusal (Reply α)} {v : World α κ δ}
    {l : UndoableList α} {op : Operation α} (fresh : l.store.stale = false)
    (mutated : Mutated l op w b r v) :
    Ended [] ((acquireInSteps l.lock).succeeds w = false) l op w b r v := by
  cases mutated with
  | fresh _ ended => exact ended
  | barred stale => simp [fresh] at stale
  | lost stale => simp [fresh] at stale
  | heard stale => simp [fresh] at stale

omit [Element α] in
theorem inSteps_of_acquire_false (barred : (Host.acquire lock .upgradeable).succeeds w = false) :
    (acquireInSteps lock).succeeds w = false := by
  cases tried : Host.acquire lock .upgradeable w with
  | mk outcome u =>
    cases outcome with
    | ok _ =>
      rw [Act.succeeds_of_ok tried] at barred
      cases barred
    | error fault => exact Act.succeeds_of_error (Act.bind_of_error tried _)

def lockedMutation (id : ListId) (op : Operation α) : Work α κ δ (Told α (Reply α)) :=
  withList id fun l => Host.holding ListRefusal.ofLock l.lock .upgradeable (mutation id op l.lock)

/-- A mutation is that, and then telling what was handed on. -/
theorem mutate_eq (call : Call α κ δ) (id : ListId) (aloud : Bool) (op : Operation α)
    (w : World α κ δ) :
    let out := lockedMutation id op w
    mutate call id aloud op w =
      (answered out.1, if aloud then announce call id (handed out.1) out.2 else out.2) :=
  telling_handed call id aloud (lockedMutation id op) w

theorem mutate_absent {id : ListId} (absent : w.lists.get? id = none) (call : Call α κ δ)
    (aloud : Bool) (op : Operation α) :
    mutate call id aloud op w = (.error (.refused .disposed), w) := by
  simp only [mutate, telling, withList_absent absent]

theorem lockedMutation_ends {l : UndoableList α} (here : w.lists.get? l.context = some l)
    (op : Operation α) : ∃ b r v, Mutated l op w b r v ∧
      (∀ reply, r = .ok reply → w.locks.isDisposed l.lock = false) ∧
      Tells (lockedMutation l.context op w) b r v := by
  unfold lockedMutation
  rw [withList_present here]
  obtain ⟨fault, u, failed, outcome⟩ | ⟨u, done, outcome⟩ :=
    holding_cases ListRefusal.ofLock l.lock .upgradeable (mutation l.context op l.lock) w
  · have aside := of_acquire_error failed
    refine ⟨{}, .error (fault.map ListRefusal.ofLock), u, ?_, by simp,
      .inr ⟨rfl, _, rfl, outcome⟩⟩
    have barred := Act.succeeds_of_error failed
    cases stale : l.store.stale with
    | false =>
      exact .fresh stale (.refused aside (.barred (inSteps_of_acquire_false barred) ⟨fault, rfl⟩))
    | true => exact .barred stale barred aside ⟨fault, rfl⟩
  · obtain ⟨v, inside⟩ := inside_of_acquire done
    have here' : v.lists.get? l.context = some l := inside.before.lists ▸ here
    have usable := usable_of_inside inside
    have steps : (acquireInSteps l.lock).succeeds w = (Host.upgrade l.lock).succeeds u := by
      unfold Act.succeeds
      rw [acquireInSteps, Act.bind_of_ok done]
    cases stale : l.store.stale with
    | false =>
      obtain ⟨b, r, x, ended, told⟩ := mutation_fresh inside.taken here' stale op
      exact ⟨b, r, _, .fresh stale (ended_release framed_id inside steps.trans ended),
        fun _ _ => usable, holding_tells done told⟩
    | true =>
      obtain ⟨fault, x, ofLock, failed, aside, told⟩ | ⟨upgraded, b, r, x, ended, told⟩ :=
        mutation_stale inside.taken here' stale op
      · have released :=
          (release_framed (framed_lists (·.insert l.context l.quieted)) inside aside).1
        have lost : Mutated l op w {} _ _ :=
          .lost stale (Act.succeeds_of_ok done) (steps.trans failed) released ofLock
        exact ⟨{}, _, _, lost, fun _ _ => usable, holding_tells done told⟩
      · exact ⟨.reset ++ b, r, _, .heard stale (steps.trans upgraded)
          (ended_release (framed_afterReset l) inside False.elim ended), fun _ _ => usable,
          holding_tells done told⟩

theorem mutate_ends {l : UndoableList α} (here : w.lists.get? l.context = some l)
    (op : Operation α) : ∃ b r v, Mutated l op w b r v ∧
      (∀ reply, r = .ok reply → w.locks.isDisposed l.lock = false) ∧ ∀ call aloud,
      mutate call l.context aloud op w = (r, if aloud then announce call l.context b v else v) := by
  obtain ⟨b, r, v, mutated, usable, told⟩ := lockedMutation_ends here op
  exact ⟨b, r, v, mutated, usable, fun call aloud => telling_eq told call l.context aloud⟩

end UndoableLists.World
