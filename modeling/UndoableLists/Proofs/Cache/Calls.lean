import UndoableLists.CachedView
import UndoableLists.Proofs.Cache.Hold
import UndoableLists.Proofs.Minutes

/-!
The calls of one cached view, wherever the cache has its place. Whether its lock was made, how the
thread holds it and whether the cache and its lock are disposed stand together at every moment, and
that decides how the next call ends. Main statements: the ends of the three calls, with the state in
which a build is run, and where the cache stands after each of them.
-/
namespace UndoableLists

namespace Host
variable {σ : Type} [Host σ] {s : σ} {id : LockId} {access : Access} {after : Locks}
  {cause : LockRefusal}

theorem acquire_granted
    (granted : (locks s).attempt (thread s) id access none = .granted after) :
    acquire id access s = (.ok (), setLocks after s) := by
  simp only [acquire, acquireWithin, settle, granted]

theorem acquire_refused
    (refused : (locks s).attempt (thread s) id access none = .refused cause) :
    acquire id access s = (.error (.refused cause), s) := by
  simp only [acquire, acquireWithin, settle, refused]

theorem upgrade_granted (granted : (locks s).attemptUpgrade (thread s) id = .granted after) :
    upgrade id s = (.ok (), setLocks after s) := by
  simp only [upgrade, settle, granted]

end Host

namespace CachedView

section
variable {K V σ : Type} [Host σ]

structure Housed (p : Place σ (CachedView K V)) : Prop extends p.Lawful where
  locks_setLocks : ∀ ls (s : σ), Host.locks (Host.setLocks ls s) = ls
  thread_setLocks : ∀ ls (s : σ), Host.thread (Host.setLocks ls s) = Host.thread s
  get_setLocks : ∀ ls s, p.get (Host.setLocks ls s) = p.get s
  locks_set : ∀ c s, Host.locks (p.set c s) = Host.locks s
  thread_set : ∀ c s, Host.thread (p.set c s) = Host.thread s
  locks_note : ∀ notice (s : σ), Host.locks (Journal.note notice s) = Host.locks s
  thread_note : ∀ notice (s : σ), Host.thread (Journal.note notice s) = Host.thread s
  get_note : ∀ notice s, p.get (Journal.note notice s) = p.get s

theorem housed_minuted {β : Type} {p : Place σ (CachedView K V)} (housed : Housed p) :
    Housed (Minuted.place p : Place (Minuted σ β) _) where
  toLawful := Minuted.lawful_place housed.toLawful
  locks_setLocks ls m := housed.locks_setLocks ls m.state
  thread_setLocks ls m := housed.thread_setLocks ls m.state
  get_setLocks ls m := housed.get_setLocks ls m.state
  locks_set c m := housed.locks_set c m.state
  thread_set c m := housed.thread_set c m.state
  locks_note n m := housed.locks_note n m.state
  thread_note n m := housed.thread_note n m.state
  get_note n m := housed.get_note n m.state

/-- Where a cache stands: its entry, whether it is disposed, and how the thread holds its lock. As
long as the lock is not made there is no entry. -/
structure Standing (p : Place σ (CachedView K V)) (entry : Option (K × V)) (disposed : Bool)
    (access : Option Access) (s : σ) : Prop where
  shown : (p.get s).entry = entry
  gone : (p.get s).disposed = disposed
  lock : ∀ own, (p.get s).lock = some own →
    (Host.locks s).HeldAs (Host.thread s) own access disposed
  unmade : (p.get s).lock = none → access = none ∧ entry = none
  older : ∀ held ∈ (Host.locks s).heldBy (Host.thread s), held < (Host.locks s).next

def ownLock (p : Place σ (CachedView K V)) (s : σ) : LockId :=
  (p.get s).lock.getD (Host.locks s).next

def withLock (p : Place σ (CachedView K V)) (s : σ) : σ :=
  match (p.get s).lock with
  | some _ => s
  | none =>
    p.set { p.get s with lock := some (Host.locks s).next }
      (Host.setLocks ((Host.locks s).create (p.get s).settings).2 s)

def entered (p : Place σ (CachedView K V)) (access : Access) (s : σ) : σ :=
  Host.setLocks ((Host.locks (withLock p s)).grant (Host.thread s) (ownLock p s) access)
    (withLock p s)

def started (p : Place σ (CachedView K V)) (s : σ) : σ :=
  let ls := Host.locks (entered p .upgradeable s)
  Host.setLocks { ls with table := ls.table.modify (ownLock p s) (·.raised (Host.thread s)) }
    (entered p .upgradeable s)

def withEntry (p : Place σ (CachedView K V)) (key : K) (r : Outcome ListRefusal V) (s : σ) : σ :=
  match r with
  | .ok view =>
    Journal.note .viewRebuilt (p.modify (fun c => { c with entry := some (key, view) }) s)
  | .error _ => s

def entryBuilt (key : K) (r : Outcome ListRefusal V) (entry : Option (K × V)) :
    Option (K × V) :=
  match r with
  | .ok view => some (key, view)
  | .error _ => entry

variable {p : Place σ (CachedView K V)} {s t : σ} {entry : Option (K × V)} {disposed : Bool}
  {access : Option Access} {a : Access} {own : LockId} {key : K} {build : Work σ V} {view : V}

theorem thread_withLock (housed : Housed p) (s : σ) :
    Host.thread (withLock p s) = Host.thread s := by
  unfold withLock
  split
  · rfl
  · rw [housed.thread_set, housed.thread_setLocks]

theorem get_withLock (housed : Housed p) (s : σ) :
    p.get (withLock p s) = { p.get s with lock := some (ownLock p s) } := by
  unfold withLock ownLock
  cases has : (p.get s).lock with
  | some own =>
    dsimp only [Option.getD_some]
    rw [← has]
  | none => exact housed.get_set _ _

theorem thread_entered (housed : Housed p) (a : Access) (s : σ) :
    Host.thread (entered p a s) = Host.thread s := by
  rw [entered, housed.thread_setLocks, thread_withLock housed]

theorem get_entered (housed : Housed p) (a : Access) (s : σ) :
    p.get (entered p a s) = { p.get s with lock := some (ownLock p s) } := by
  rw [entered, housed.get_setLocks, get_withLock housed]

theorem thread_started (housed : Housed p) (s : σ) :
    Host.thread (started p s) = Host.thread s := by
  rw [started, housed.thread_setLocks, thread_entered housed]

theorem get_started (housed : Housed p) (s : σ) :
    p.get (started p s) = { p.get s with lock := some (ownLock p s) } := by
  rw [started, housed.get_setLocks, get_entered housed]

theorem heldAs_withLock (housed : Housed p) (stands : Standing p entry false none s) :
    (Host.locks (withLock p s)).HeldAs (Host.thread s) (ownLock p s) none false := by
  unfold withLock ownLock
  cases has : (p.get s).lock with
  | some own => exact stands.lock own has
  | none =>
    rw [housed.locks_set, housed.locks_setLocks]
    exact Locks.heldAs_created _ stands.older

theorem standing_of_heldAs (own : LockId) (here : (p.get s).lock = some own)
    (shown : (p.get s).entry = entry) (gone : (p.get s).disposed = disposed)
    (held : (Host.locks s).HeldAs (Host.thread s) own access disposed) :
    Standing p entry disposed access s where
  shown := shown
  gone := gone
  lock other has := by
    obtain rfl := Option.some.inj (here.symm.trans has)
    exact held
  unmade none := by
    rw [here] at none
    cases none
  older := held.older

theorem own_of_held (stands : Standing p entry disposed (some a) s) :
    ∃ own, (p.get s).lock = some own := by
  cases has : (p.get s).lock with
  | some own => exact ⟨own, rfl⟩
  | none => cases (stands.unmade has).1

theorem standing_entered (housed : Housed p) (stands : Standing p entry false none s)
    (a : Access) : Standing p entry false (some a) (entered p a s) := by
  have cache := get_entered housed a s
  refine standing_of_heldAs (ownLock p s) ?_ ?_ ?_ ?_
  · rw [cache]
  · rw [cache]
    exact stands.shown
  · rw [cache]
    exact stands.gone
  · rw [thread_entered housed, entered, housed.locks_setLocks]
    exact Locks.heldAs_grant (heldAs_withLock housed stands)

theorem standing_started (housed : Housed p) (stands : Standing p entry false none s) :
    Standing p entry false (some .write) (started p s) := by
  have inside := standing_entered housed stands .upgradeable
  have cache := get_entered housed .upgradeable s
  have held := inside.lock (ownLock p s) (by rw [cache])
  rw [thread_entered housed] at held
  refine standing_of_heldAs (ownLock p s) ?_ ?_ ?_ ?_
  · rw [get_started housed]
  · rw [get_started housed]
    exact stands.shown
  · rw [get_started housed]
    exact stands.gone
  · rw [thread_started housed, started, housed.locks_setLocks]
    exact Locks.heldAs_raised held

theorem standing_note (housed : Housed p) (stands : Standing p entry disposed access s)
    (notice : Notice) : Standing p entry disposed access (Journal.note notice s) where
  shown := by rw [housed.get_note, stands.shown]
  gone := by rw [housed.get_note, stands.gone]
  lock := by
    rw [housed.get_note, housed.locks_note, housed.thread_note]
    exact stands.lock
  unmade := by
    rw [housed.get_note]
    exact stands.unmade
  older := by
    rw [housed.locks_note, housed.thread_note]
    exact stands.older

theorem standing_written (housed : Housed p) (stands : Standing p entry disposed (some a) s)
    (written : Option (K × V)) : Standing p written disposed (some a)
      (p.modify (fun c => { c with entry := written }) s) := by
  obtain ⟨own, here⟩ := own_of_held stands
  unfold Place.modify
  refine standing_of_heldAs own ?_ ?_ ?_ ?_
  · rw [housed.get_set, here]
  · rw [housed.get_set]
  · rw [housed.get_set, stands.gone]
  · rw [housed.locks_set, housed.thread_set]
    exact stands.lock own here

theorem standing_withEntry (housed : Housed p) (stands : Standing p entry disposed (some a) s)
    (key : K) (r : Outcome ListRefusal V) :
    Standing p (entryBuilt key r entry) disposed (some a) (withEntry p key r s) := by
  cases r with
  | ok view => exact standing_note housed (standing_written housed stands _) _
  | error fault => exact stands

theorem kept_withEntry (housed : Housed p) (key : K) (r : Outcome ListRefusal V) (s : σ) :
    (p.get (withEntry p key r s)).lock = (p.get s).lock ∧
      Host.thread (withEntry p key r s) = Host.thread s := by
  cases r with
  | ok view =>
    unfold withEntry Place.modify
    rw [housed.get_note, housed.get_set, housed.thread_note, housed.thread_set]
    exact ⟨rfl, rfl⟩
  | error fault => exact ⟨rfl, rfl⟩

theorem standing_released (housed : Housed p) (stands : Standing p entry disposed (some a) s)
    (here : (p.get s).lock = some own) :
    Standing p entry disposed none (Host.releaseFor (Host.thread s) own s) := by
  unfold Host.releaseFor
  refine standing_of_heldAs own ?_ ?_ ?_ ?_
  · rw [housed.get_setLocks, here]
  · rw [housed.get_setLocks, stands.shown]
  · rw [housed.get_setLocks, stands.gone]
  · rw [housed.locks_setLocks, housed.thread_setLocks]
    exact Locks.heldAs_release (stands.lock own here)

theorem fetch_gone [DecidableEq K] (gone : (p.get s).disposed = true) :
    fetch p key build s = (.error (.refused .disposed), s) := by
  have refused : theLock p s = (.error (.refused .disposed), s) := by
    simp only [theLock, gone, ↓reduceIte]
  exact Act.bind_of_error refused _

theorem fetch_eq [DecidableEq K] (usable : (p.get s).disposed = false) :
    fetch p key build s = Host.holding ListRefusal.ofLock (ownLock p s) .upgradeable
      (serve p (ownLock p s) key build) (withLock p s) := by
  have given : theLock p s = (.ok (ownLock p s), withLock p s) := by
    unfold theLock ownLock withLock
    simp only [usable, Bool.false_eq_true, ↓reduceIte]
    cases (p.get s).lock <;> rfl
  rw [fetch, Act.bind_of_ok given]

theorem fetch_again [DecidableEq K] (stands : Standing p entry false (some a) s) :
    fetch p key build s = (.error (.refused (.recursive .upgradeable)), s) := by
  obtain ⟨own, here⟩ := own_of_held stands
  have mine : ownLock p s = own := by rw [ownLock, here]; rfl
  have same : withLock p s = s := by rw [withLock, here]
  have refused := Host.acquire_refused
    (Locks.attempt_again (stands.lock own here) .upgradeable none)
  rw [fetch_eq stands.gone, mine, same, Host.holding, refused]
  rfl

theorem fetch_within [DecidableEq K] (housed : Housed p) (stands : Standing p entry false none s) :
    fetch p key build s =
      (serve p (ownLock p s) key build).ensuring
        (Host.releaseFor (Host.thread s) (ownLock p s)) (entered p .upgradeable s) := by
  have thread := thread_withLock housed s
  have held := heldAs_withLock housed stands
  rw [← thread] at held
  have granted := Host.acquire_granted
    (Locks.attempt_of_free (Locks.free_of_heldAs held) .upgradeable none)
  rw [fetch_eq stands.gone, Host.holding, granted]
  dsimp only
  rw [housed.thread_setLocks, thread]
  rfl

theorem fetch_hit [DecidableEq K] (housed : Housed p)
    (stands : Standing p (some (key, view)) false none s) : fetch p key build s =
      (.ok view, Host.releaseFor (Host.thread s) (ownLock p s) (entered p .upgradeable s)) := by
  have hit : (p.get (entered p .upgradeable s)).hit? key = some view := by
    rw [get_entered housed, hit?, stands.shown]
    exact if_pos rfl
  have served : serve p (ownLock p s) key build (entered p .upgradeable s) =
      (.ok view, entered p .upgradeable s) := by
    rw [serve, Act.bind_of_ok (show Act.read p.get _ = (.ok _, _) from rfl), hit]
    rfl
  rw [fetch_within housed stands, Act.ensuring, served]

theorem fetch_miss [DecidableEq K] (housed : Housed p) (stands : Standing p entry false none s)
    (miss : ∀ view, entry ≠ some (key, view)) : fetch p key build s =
      ((build (started p s)).1, Host.releaseFor (Host.thread s) (ownLock p s)
        (withEntry p key (build (started p s)).1 (build (started p s)).2)) := by
  have nothing : (p.get (entered p .upgradeable s)).hit? key = none := by
    rw [get_entered housed, hit?, stands.shown]
    rcases entry with _ | ⟨cached, view⟩
    · rfl
    · refine if_neg ?_
      rintro rfl
      exact miss view rfl
  have inside := standing_entered housed stands .upgradeable
  have held := inside.lock (ownLock p s) (by rw [get_entered housed])
  have upgraded := Host.upgrade_granted (Locks.attemptUpgrade_of_heldAs held)
  rw [thread_entered housed] at upgraded
  have mapped : (Host.upgrade (ownLock p s)).mapError ListRefusal.ofLock
      (entered p .upgradeable s) = (.ok (), started p s) := by
    simp only [Act.mapError, upgraded]
    rfl
  have served : serve p (ownLock p s) key build (entered p .upgradeable s) =
      ((build (started p s)).1,
        withEntry p key (build (started p s)).1 (build (started p s)).2) := by
    rw [serve, Act.bind_of_ok (show Act.read p.get _ = (.ok _, _) from rfl), nothing]
    dsimp only
    rw [rebuild, Act.bind_of_ok mapped]
    rcases built : build (started p s) with ⟨fault | view, t⟩
    · rw [Act.bind_of_error built]
      rfl
    · rw [Act.bind_of_ok built]
      rfl
  rw [fetch_within housed stands, Act.ensuring, served]

theorem invalidate_gone (gone : (p.get s).disposed = true) :
    invalidate p s = (.error (.refused .disposed), s) := by
  simp only [invalidate, Act.bind_apply, Act.read, gone]
  rfl

theorem invalidate_unmade (usable : (p.get s).disposed = false) (none : (p.get s).lock = none) :
    invalidate p s = (.ok (), s) := by
  simp only [invalidate, Act.bind_apply, Act.read, usable, none]
  rfl

theorem invalidate_made (usable : (p.get s).disposed = false) (here : (p.get s).lock = some own) :
    invalidate p s = (Host.holding ListRefusal.ofLock own .write
      (Act.modify (p.modify fun c => { c with entry := none })) >>= fun _ =>
        Act.modify (Journal.note .viewInvalidated)) s := by
  simp only [invalidate, Act.bind_apply, Act.read, usable, here]
  rfl

theorem invalidate_again (stands : Standing p entry false (some a) s) :
    invalidate p s = (.error (.refused (.recursive .write)), s) := by
  obtain ⟨own, here⟩ := own_of_held stands
  have refused := Host.acquire_refused (Locks.attempt_again (stands.lock own here) .write none)
  have failed : Host.holding ListRefusal.ofLock own .write
      (Act.modify (p.modify fun c => { c with entry := none })) s =
      (.error (.refused (.recursive .write)), s) := by
    rw [Host.holding, refused]
    rfl
  rw [invalidate_made stands.gone here, Act.bind_of_error failed]

theorem invalidate_free (housed : Housed p) (stands : Standing p entry false none s)
    (here : (p.get s).lock = some own) : invalidate p s =
      (.ok (), Journal.note .viewInvalidated (Host.releaseFor (Host.thread s) own
        (p.modify (fun c => { c with entry := none }) (entered p .write s)))) := by
  have mine : ownLock p s = own := by rw [ownLock, here]; rfl
  have same : withLock p s = s := by rw [withLock, here]
  have granted := Host.acquire_granted
    (Locks.attempt_of_free (Locks.free_of_heldAs (stands.lock own here)) .write none)
  have done : Host.holding ListRefusal.ofLock own .write
      (Act.modify (p.modify fun c => { c with entry := none })) s =
      (.ok (), Host.releaseFor (Host.thread s) own
        (p.modify (fun c => { c with entry := none }) (entered p .write s))) := by
    rw [Host.holding, granted, entered, same, mine]
    dsimp only [Act.ensuring, Act.modify]
    rw [housed.thread_setLocks]
  rw [invalidate_made stands.gone here, Act.bind_of_ok done]
  rfl

theorem invalidate_rests (housed : Housed p) (stands : Standing p entry false none s) :
    (invalidate p s).1 = .ok () ∧ Standing p none false none (invalidate p s).2 := by
  cases here : (p.get s).lock with
  | none =>
    rw [invalidate_unmade stands.gone here]
    obtain ⟨-, rfl⟩ := stands.unmade here
    exact ⟨rfl, stands⟩
  | some own =>
    rw [invalidate_free housed stands here]
    have inside := standing_written housed (standing_entered housed stands .write) none
    have thread : Host.thread (p.modify (fun c => { c with entry := none }) (entered p .write s)) =
        Host.thread s := by rw [Place.modify, housed.thread_set, thread_entered housed]
    have mine : (p.get (p.modify (fun c => { c with entry := none }) (entered p .write s))).lock =
        some own := by
      rw [Place.modify, housed.get_set, get_entered housed, ownLock, here]
      rfl
    have after := standing_released housed inside mine
    rw [thread] at after
    exact ⟨rfl, standing_note housed after _⟩

theorem dispose_gone (gone : (p.get s).disposed = true) : dispose p s = (false, s) := by
  simp only [dispose, gone, ↓reduceIte]

theorem dispose_first (housed : Housed p) (stands : Standing p entry false access s) :
    (dispose p s).1 = true ∧ Standing p entry true access (dispose p s).2 ∧
      (p.get (dispose p s).2).lock = (p.get s).lock ∧
      Host.thread (dispose p s).2 = Host.thread s := by
  unfold dispose
  simp only [stands.gone, Bool.false_eq_true, ↓reduceIte]
  split
  · rename_i none
    refine ⟨rfl, ⟨?_, ?_, ?_, ?_, ?_⟩, ?_, housed.thread_set _ _⟩
    · rw [housed.get_set, stands.shown]
    · rw [housed.get_set]
    · intro own has
      rw [housed.get_set] at has
      cases none.symm.trans has
    · exact fun _ => stands.unmade none
    · rw [housed.locks_set, housed.thread_set]
      exact stands.older
    · rw [housed.get_set]
  · rename_i own here
    refine ⟨rfl, standing_of_heldAs own ?_ ?_ ?_ ?_, ?_, ?_⟩
    · rw [housed.get_setLocks, housed.get_set, here]
    · rw [housed.get_setLocks, housed.get_set, stands.shown]
    · rw [housed.get_setLocks, housed.get_set]
    · rw [housed.locks_setLocks, housed.thread_setLocks, housed.locks_set, housed.thread_set]
      exact Locks.heldAs_dispose (stands.lock own here)
    · rw [housed.get_setLocks, housed.get_set]
    · rw [housed.thread_setLocks, housed.thread_set]

def startsOf [DecidableEq K] (p : Place σ (CachedView K V)) (key : K) (build : Work σ V)
    (s : σ) : List σ :=
  (fetch (Minuted.place p) key (build.minuted fun start _ => start) ⟨s, []⟩).2.minutes

theorem startsOf_gone [DecidableEq K] (gone : (p.get s).disposed = true) :
    startsOf p key build s = [] := by
  have shut : ((Minuted.place p).get (⟨s, []⟩ : Minuted σ σ)).disposed = true := gone
  rw [startsOf, fetch_gone shut]

theorem standing_minuted {β : Type} {minutes : List β}
    (stands : Standing p entry disposed access s) :
    Standing (Minuted.place p) entry disposed access (⟨s, minutes⟩ : Minuted σ β) :=
  ⟨stands.shown, stands.gone, stands.lock, stands.unmade, stands.older⟩

theorem startsOf_again [DecidableEq K] (stands : Standing p entry false (some a) s) :
    startsOf p key build s = [] := by
  rw [startsOf, fetch_again (standing_minuted stands)]

theorem withLock_minuted {β : Type} (s : σ) (minutes : List β) :
    withLock (Minuted.place p) ⟨s, minutes⟩ = ⟨withLock p s, minutes⟩ := by
  unfold withLock
  dsimp only [Minuted.place]
  cases (p.get s).lock <;> rfl

theorem entered_minuted {β : Type} (a : Access) (s : σ) (minutes : List β) :
    entered (Minuted.place p) a ⟨s, minutes⟩ = ⟨entered p a s, minutes⟩ := by
  unfold entered
  rw [withLock_minuted]
  rfl

theorem started_minuted {β : Type} (s : σ) (minutes : List β) :
    started (Minuted.place p) ⟨s, minutes⟩ = ⟨started p s, minutes⟩ := by
  unfold started
  rw [entered_minuted]
  rfl

theorem startsOf_hit [DecidableEq K] (housed : Housed p)
    (stands : Standing p (some (key, view)) false none s) : startsOf p key build s = [] := by
  rw [startsOf, fetch_hit (housed_minuted housed) (standing_minuted stands), entered_minuted]
  rfl

theorem startsOf_miss [DecidableEq K] (housed : Housed p)
    (stands : Standing p entry false none s) (miss : ∀ view, entry ≠ some (key, view)) :
    startsOf p key build s = [started p s] := by
  rw [startsOf, fetch_miss (housed_minuted housed) (standing_minuted stands) miss, started_minuted]
  unfold Act.minuted withEntry
  rcases build (started p s) with ⟨_ | _, _⟩ <;> rfl

end
end CachedView
end UndoableLists
