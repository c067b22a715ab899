import UndoableLists.Proofs.Cache.Course
import UndoableLists.Session.CachedViews

/-!
What a cached view serves. Main statement: at every moment of every course, with builds that
succeed, fail, panic and call the cache themselves, a fetch answers without building exactly what
the latest successful build made under its key, unless that was dropped since, and runs its build
once otherwise; a build that fails leaves the cache as it was; from inside a build the cache refuses
itself; and once it is disposed nothing is served any more.
-/
namespace UndoableLists
namespace CachedView

section
variable {K V σ : Type} [Host σ] [DecidableEq K] {p : Place σ (CachedView K V)}
  {past within : List (Happening K V)} {building : Bool} {s u : σ} {key old : K} {view : V}
  {build other : Work σ V} {fault : Fault ListRefusal}

theorem disposed_refuses (housed : Housed p) (moment : Moment p past building s)
    (gone : .disposed ∈ past) (key : K) (build : Work σ V) :
    fetch p key build s = (.error (.refused .disposed), s) ∧ startsOf p key build s = [] ∧
      invalidate p s = (.error (.refused .disposed), s) ∧ dispose p s = (false, s) := by
  have shut : (p.get s).disposed = true :=
    (stands_of_moment housed moment).gone.trans (closed_iff.mpr gone)
  exact ⟨fetch_gone shut, startsOf_gone shut, invalidate_gone shut, dispose_gone shut⟩

theorem building_refuses (housed : Housed p) (moment : Moment p past true s)
    (staying : .disposed ∉ past) (key : K) (build : Work σ V) :
    fetch p key build s = (.error (.refused (.recursive .upgradeable)), s) ∧
      startsOf p key build s = [] ∧
      invalidate p s = (.error (.refused (.recursive .write)), s) := by
  have held : Standing p (entryAfter past) false (some .write) s :=
    closed_of_staying staying ▸ stands_of_moment housed moment
  exact ⟨fetch_again held, startsOf_again held, invalidate_again held⟩

theorem resting_serves (housed : Housed p) (moment : Moment p past false s)
    (staying : .disposed ∉ past) (key : K) (build : Work σ V) :
    (startsOf p key build s = [] ↔ ∃ view, Latest past key view) ∧
    (∀ view, Latest past key view → (fetch p key build s).1 = .ok view) ∧
    ((¬ ∃ view, Latest past key view) →
      ∃ u, startsOf p key build s = [u] ∧ (fetch p key build s).1 = (build u).1) := by
  obtain ⟨view, shown, none, answer, -⟩ | ⟨miss, u, one, -, answer, -⟩ :=
    fetch_rests housed (stands_of_moment housed moment) (closed_of_staying staying) key build
  · have latest := entryAfter_eq_some_iff.mp shown
    refine ⟨iff_of_true none ⟨view, latest⟩, fun other is => ?_, fun never => ?_⟩
    · rw [answer]
      cases shown.symm.trans (entryAfter_eq_some_iff.mpr is)
      rfl
    · exact (never ⟨view, latest⟩).elim
  · have never (view : V) : ¬ Latest past key view :=
      fun latest => miss view (entryAfter_eq_some_iff.mpr latest)
    refine ⟨iff_of_false ?_ ?_, fun view latest => (never view latest).elim,
      fun _ => ⟨u, one, answer⟩⟩
    · simp [one]
    · exact fun ⟨view, latest⟩ => never view latest

theorem resting_free (housed : Housed p) (moment : Moment p past false s) {own : LockId}
    (here : (p.get s).lock = some own) :
    own ∉ (Host.locks s).heldBy (Host.thread s) ∧ (Host.locks s).holdsOf own = [] := by
  have held := (stands_of_moment housed moment).lock own here
  obtain ⟨l, there, -, none⟩ := held.lock
  refine ⟨List.count_eq_zero.mp held.ledger, ?_⟩
  rw [Locks.holdsOf, there]
  exact none

theorem failed_build_leaves (housed : Housed p) (moment : Moment p past building s)
    (start : u ∈ startsOf p key build s) (course : Course p u within (build u).2)
    (failed : (build u).1 = .error fault) :
    Moment p (past ++ within) false (fetch p key build s).2 ∧ (∀ x ∈ within, x = .disposed) ∧
    (∀ old view, Latest past old view → .disposed ∉ within → ∀ other,
      startsOf p old other (fetch p key build s).2 = [] ∧
      (fetch p old other (fetch p key build s).2).1 = .ok view) := by
  have staying : .disposed ∉ past := fun gone => by
    rw [(disposed_refuses housed moment gone key build).2.1] at start
    cases start
  have resting : building = false := by
    cases building with
    | false => rfl
    | true =>
      rw [(building_refuses housed moment staying key build).2.1] at start
      cases start
  subst resting
  obtain ⟨view, -, none, -⟩ | ⟨-, v, one, begun, -⟩ :=
    fetch_rests housed (stands_of_moment housed moment) (closed_of_staying staying) key build
  · rw [none] at start
    cases start
  · have same : u = v := List.mem_singleton.mp (one ▸ start)
    subst same
    have only := (carries_course housed course begun).only rfl
    have fetched := Course.fetched s key build (fun _ => within) (by
      intro x member
      rw [one] at member
      obtain rfl := List.mem_singleton.mp member
      exact course)
    have after := moment.later fetched
    rw [one, List.flatMap_singleton, failed, builtBy, List.append_nil] at after
    refine ⟨after, only, fun old view latest kept other => ?_⟩
    have stays : .disposed ∉ past ++ within :=
      fun gone => (List.mem_append.mp gone).elim staying kept
    have here : Latest (past ++ within) old view := by
      rw [← entryAfter_eq_some_iff, entryAfter_disposals only]
      exact entryAfter_eq_some_iff.mpr latest
    obtain ⟨hits, answers, -⟩ := resting_serves housed after stays old other
    exact ⟨hits.mpr ⟨view, here⟩, answers view here⟩

end
end CachedView

namespace Session.CacheSession
open CachedView (Housed Course Moment Happening)

theorem housed_place : Housed place where
  get_set _ _ := rfl
  set_set _ _ _ := rfl
  set_get _ := rfl
  locks_setLocks _ _ := rfl
  thread_setLocks _ _ := rfl
  get_setLocks _ _ := rfl
  locks_set _ _ := rfl
  thread_set _ _ := rfl
  locks_note _ _ := rfl
  thread_note _ _ := rfl
  get_note _ _ := rfl

theorem apart_entries {s t : CacheSession} (cache : t.cache = s.cache) (locks : t.locks = s.locks) :
    CachedView.Apart place s t where
  cache := cache
  thread := rfl
  lock own _ := by
    dsimp only [Host.locks]
    rw [locks]
    exact ⟨rfl, rfl⟩
  next := Nat.le_of_eq (congrArg Locks.next locks.symm)
  older held member := by
    dsimp only [Host.locks] at member
    rw [locks] at member
    exact .inl member

mutual

theorem course_perform : ∀ (c : CacheStep) (s : CacheSession),
    ∃ since, Course place s since (perform c s).2
  | .get key steps ending, s => by
    have inside (u : CacheSession) :
        ∃ within, Course place u within (build (performAll steps) ending u).2 := by
      have same : (build (performAll steps) ending u).2 = performAll steps u := by
        cases ending <;> rfl
      rw [same]
      exact course_performAll steps u
    obtain ⟨within, course⟩ := Classical.axiomOfChoice inside
    rw [perform]
    exact ⟨_, .fetched s key _ within fun u _ => course u⟩
  | .invalidate, s => by
    rw [perform]
    exact ⟨_, .invalidated s⟩
  | .dispose, s => by
    rw [perform]
    exact ⟨_, .disposed s⟩
  | .isDisposed, s => by
    rw [perform]
    exact ⟨[], .idle s⟩
  | .isConstructed, s => by
    rw [perform]
    exact ⟨[], .idle s⟩
  | .text, s => by
    rw [perform]
    exact ⟨[], .idle s⟩

theorem course_performAll : ∀ (steps : List CacheStep) (s : CacheSession),
    ∃ since, Course place s since (performAll steps s)
  | [], s => by
    rw [performAll]
    exact ⟨[], .idle s⟩
  | step :: rest, s => by
    obtain ⟨first, begins⟩ := course_perform step s
    obtain ⟨others, goesOn⟩ :=
      course_performAll rest ((perform step s).2.log (.build (perform step s).1))
    have logged : Course place s (first ++ [])
        ((perform step s).2.log (.build (perform step s).1)) :=
      begins.followed (.aside (apart_entries rfl rfl))
    have whole := logged.followed goesOn
    rw [performAll]
    exact ⟨_, whole⟩

end

/-- Between the steps of a session no build is under way. -/
theorem moment_of_steps {past : List (Happening Value Value)} {s : CacheSession}
    (moment : Moment place past false s) (steps : List CacheStep) : ∃ since,
      Moment place (past ++ since) false (steps.foldl (fun s c => (step s c).2.2) s) := by
  induction steps generalizing past s with
  | nil => exact ⟨[], by rwa [List.append_nil]⟩
  | cons c rest ih =>
    obtain ⟨first, course⟩ := course_perform c { s with entries := [] }
    have cleared : Course place s [] { s with entries := [] } := .aside (apart_entries rfl rfl)
    obtain ⟨since, after⟩ := ih (moment.later (cleared.followed course))
    exact ⟨([] ++ first) ++ since, by rwa [← List.append_assoc]⟩

def stocked : CacheSession :=
  (CachedView.fetch place (Value.int 1) (build id (.view (Value.int 5))) {}).2

def meddling : Act CacheSession ListRefusal Value :=
  build (performAll [.get (Value.int 1) [] (.view (.int 0)), .invalidate]) .boom

theorem moment_stocked : Moment place [.built (Value.int 1) (.int 5)] false stocked := by
  have new : Moment place [] false {} := .made {} rfl fun held member => nomatch member
  exact new.later (.fetched {} (Value.int 1) (build id (.view (Value.int 5))) (fun _ => [])
    fun u _ => .idle u)

end Session.CacheSession

namespace CachedView
open Session

section
variable {K V σ : Type} [Host σ] [DecidableEq K] {p : Place σ (CachedView K V)}
  {past : List (Happening K V)} {building : Bool} {s : σ}

/-- Once a cache is disposed every call is refused and every other disposal answers no. Until then a
disposal answers yes; while a build is under way fetching and dropping are refused and change
nothing; at rest dropping goes through, nobody has the lock, and a fetch builds nothing exactly if
the latest successful build was made under its key and nothing was dropped since, and answers that
build's view; else it runs its build once and ends as that does. A build that fails has changed
nothing: the lock is free and the old key is served as before. -/
theorem serves_only_what_was_built_for_the_key (housed : Housed p)
    (moment : Moment p past building s) (key : K) (build : Work σ V) :
    (.disposed ∈ past →
      fetch p key build s = (.error (.refused .disposed), s) ∧ startsOf p key build s = [] ∧
      invalidate p s = (.error (.refused .disposed), s) ∧ dispose p s = (false, s)) ∧
    (.disposed ∉ past → (dispose p s).1 = true) ∧
    (.disposed ∉ past → building = true →
      fetch p key build s = (.error (.refused (.recursive .upgradeable)), s) ∧
      startsOf p key build s = [] ∧
      invalidate p s = (.error (.refused (.recursive .write)), s)) ∧
    (.disposed ∉ past → building = false →
      (invalidate p s).1 = .ok () ∧
      (startsOf p key build s = [] ↔ ∃ view, Latest past key view) ∧
      (∀ view, Latest past key view → (fetch p key build s).1 = .ok view) ∧
      ((¬ ∃ view, Latest past key view) →
        ∃ u, startsOf p key build s = [u] ∧ (fetch p key build s).1 = (build u).1)) ∧
    (building = false → ∀ own, (p.get s).lock = some own →
      own ∉ (Host.locks s).heldBy (Host.thread s) ∧ (Host.locks s).holdsOf own = []) ∧
    (∀ u ∈ startsOf p key build s, ∀ within fault, Course p u within (build u).2 →
      (build u).1 = .error fault →
      Moment p (past ++ within) false (fetch p key build s).2 ∧ (∀ x ∈ within, x = .disposed) ∧
      ∀ old view, Latest past old view → .disposed ∉ within → ∀ other,
        startsOf p old other (fetch p key build s).2 = [] ∧
        (fetch p old other (fetch p key build s).2).1 = .ok view) := by
  refine ⟨fun gone => disposed_refuses housed moment gone key build, fun staying => ?_,
    fun staying under => ?_, fun staying rest => ?_, fun rest own here => ?_,
    fun u start within fault course failed => failed_build_leaves housed moment start course failed⟩
  · have stands := stands_of_moment housed moment
    unfold Stands at stands
    rw [closed_of_staying staying] at stands
    exact (dispose_first housed stands).1
  · subst under
    exact building_refuses housed moment staying key build
  · subst rest
    have rests : Standing p (entryAfter past) false none s :=
      closed_of_staying staying ▸ stands_of_moment housed moment
    exact ⟨(invalidate_rests housed rests).1, resting_serves housed moment staying key build⟩
  · subst rest
    exact resting_free housed moment here

end

theorem meddling_build_leaves_stocked_view :
    Moment CacheSession.place [.built (Value.int 1) (Value.int 5)] false CacheSession.stocked ∧
    (fetch CacheSession.place (Value.int 2) CacheSession.meddling CacheSession.stocked).1 =
      .error (.panicked (some "build")) ∧
    ∀ other, startsOf CacheSession.place (Value.int 1) other
        (fetch CacheSession.place (Value.int 2) CacheSession.meddling CacheSession.stocked).2 = [] ∧
      (fetch CacheSession.place (Value.int 1) other
        (fetch CacheSession.place (Value.int 2) CacheSession.meddling CacheSession.stocked).2).1 =
          .ok (Value.int 5) := by
  obtain ⟨-, -, -, serves, -, failing⟩ := serves_only_what_was_built_for_the_key
    CacheSession.housed_place CacheSession.moment_stocked (Value.int 2) CacheSession.meddling
  have latest : Latest [.built (Value.int 1) (Value.int 5)] (Value.int 1) (Value.int 5) :=
    ⟨[], [], rfl, by simp⟩
  have never : ¬ ∃ view, Latest [.built (Value.int 1) (Value.int 5)] (Value.int 2) view := by
    rintro ⟨view, is⟩
    have shown := entryAfter_eq_some_iff.mpr is
    cases shown
  obtain ⟨-, -, -, builds⟩ := serves (by simp) rfl
  obtain ⟨u, one, answer⟩ := builds never
  have start : u = started CacheSession.place CacheSession.stocked := by
    have here :
        startsOf CacheSession.place (Value.int 2) CacheSession.meddling CacheSession.stocked =
        [started CacheSession.place CacheSession.stocked] := rfl
    exact (List.cons.inj (one.symm.trans here)).1
  subst start
  have refused : Course CacheSession.place (started CacheSession.place CacheSession.stocked) []
      (CacheSession.meddling (started CacheSession.place CacheSession.stocked)).2 :=
    .aside (CacheSession.apart_entries rfl rfl)
  obtain ⟨-, -, kept⟩ := failing _ (by rw [one]; exact List.mem_singleton_self _) [] _ refused rfl
  exact ⟨CacheSession.moment_stocked, answer, kept (Value.int 1) (Value.int 5) latest (by simp)⟩

end CachedView
end UndoableLists
