import Mathlib.Data.List.Induction
import UndoableLists.Proofs.Cache.Calls

/-!
What can become of a cached view: calls in any order, with builds that end in any way and that may
make calls of the same cache themselves, and other work in between. What happened to the cache is
written down beside it. Main statement: at every moment the entry is what was built last, unless it
was dropped since, and the lock is held exactly while a build is under way.
-/
namespace UndoableLists.CachedView

/-- What happens to a cache: a build under a key succeeds with a view, the view is dropped, or the
cache is disposed. -/
inductive Happening (K V : Type) where
  | built (key : K) (view : V)
  | emptied
  | disposed

def Happening.isDisposal {K V : Type} : Happening K V → Bool
  | .disposed => true
  | _ => false

section
variable {K V : Type}

/-- The latest successful build was made under this key and answered this view, and nothing was
dropped since. -/
def Latest (past : List (Happening K V)) (key : K) (view : V) : Prop :=
  ∃ before since, past = before ++ .built key view :: since ∧ ∀ x ∈ since, x = .disposed

def closed (past : List (Happening K V)) : Bool := past.any (·.isDisposal)

def entryThen (entry : Option (K × V)) : Happening K V → Option (K × V)
  | .built key view => some (key, view)
  | .emptied => none
  | .disposed => entry

def entryAfter (past : List (Happening K V)) : Option (K × V) := past.foldl entryThen none

def builtBy (key : K) : Outcome ListRefusal V → List (Happening K V)
  | .ok view => [.built key view]
  | .error _ => []

def emptiedBy : Outcome ListRefusal Unit → List (Happening K V)
  | .ok () => [.emptied]
  | .error _ => []

def disposedBy : Bool → List (Happening K V)
  | true => [.disposed]
  | false => []

variable {past since : List (Happening K V)} {key : K} {view : V}

theorem entryAfter_append (past since : List (Happening K V)) :
    entryAfter (past ++ since) = since.foldl entryThen (entryAfter past) := List.foldl_append ..

theorem closed_append (past since : List (Happening K V)) :
    closed (past ++ since) = (closed past || closed since) := List.any_append ..

@[simp] theorem closed_builtBy (key : K) (r : Outcome ListRefusal V) :
    closed (builtBy key r) = false := by
  cases r <;> rfl

theorem closed_iff : closed past = true ↔ .disposed ∈ past := by
  rw [closed, List.any_eq_true]
  constructor
  · rintro ⟨_ | _ | _, member, disposal⟩
    · cases disposal
    · cases disposal
    · exact member
  · exact fun member => ⟨.disposed, member, rfl⟩

theorem closed_of_staying (staying : .disposed ∉ past) : closed past = false :=
  Bool.eq_false_iff.mpr fun gone => staying (closed_iff.mp gone)

theorem entryAfter_builtBy (past : List (Happening K V)) (key : K) (r : Outcome ListRefusal V) :
    entryAfter (past ++ builtBy key r) = entryBuilt key r (entryAfter past) := by
  rw [entryAfter_append]
  cases r <;> rfl

theorem entryAfter_disposals (only : ∀ x ∈ since, x = .disposed) :
    entryAfter (past ++ since) = entryAfter past := by
  rw [entryAfter_append]
  induction since generalizing past with
  | nil => rfl
  | cons x rest ih =>
    obtain ⟨rfl, others⟩ := List.forall_mem_cons.mp only
    exact ih others

/-- The entry is what was built last, unless it was dropped since. -/
theorem entryAfter_eq_some_iff : entryAfter past = some (key, view) ↔ Latest past key view := by
  constructor
  · induction past using List.reverseRecOn with
    | nil => exact fun none => nomatch none
    | append_singleton past x ih =>
      rw [entryAfter_append]
      intro shown
      cases x with
      | built key view =>
        cases shown
        exact ⟨past, [], rfl, by simp⟩
      | emptied => cases shown
      | disposed =>
        obtain ⟨before, since, rfl, only⟩ := ih shown
        refine ⟨before, since ++ [.disposed], by simp, fun x member => ?_⟩
        exact (List.mem_append.mp member).elim (only x) List.mem_singleton.mp
  · rintro ⟨before, since, rfl, only⟩
    have split : before ++ .built key view :: since = (before ++ [.built key view]) ++ since := by
      simp
    rw [split, entryAfter_disposals only, entryAfter_append]
    rfl

end

section
variable {K V σ : Type} [Host σ]

/-- Other work: the cache and its lock are left alone, and what other locks the thread has after
it are locks that were made. -/
structure Apart (p : Place σ (CachedView K V)) (s t : σ) : Prop where
  cache : p.get t = p.get s
  thread : Host.thread t = Host.thread s
  lock : ∀ own, (p.get s).lock = some own →
    (Host.locks t).get? own = (Host.locks s).get? own ∧
    ((Host.locks t).heldBy (Host.thread s)).count own =
      ((Host.locks s).heldBy (Host.thread s)).count own
  next : (Host.locks s).next ≤ (Host.locks t).next
  older : ∀ held ∈ (Host.locks t).heldBy (Host.thread s),
    held ∈ (Host.locks s).heldBy (Host.thread s) ∨ held < (Host.locks t).next

variable [DecidableEq K]

/-- Calls of a cache in any order, and what happens to it by them. Builds are such courses again,
from the states from which they are run; `within` says what happens while they last. -/
inductive Course (p : Place σ (CachedView K V)) : σ → List (Happening K V) → σ → Prop
  | idle (s : σ) : Course p s [] s
  | aside {s t : σ} (apart : Apart p s t) : Course p s [] t
  | fetched (s : σ) (key : K) (build : Work σ V) (within : σ → List (Happening K V))
    (inside : ∀ u ∈ startsOf p key build s, Course p u (within u) (build u).2) :
    Course p s ((startsOf p key build s).flatMap fun u => within u ++ builtBy key (build u).1)
      (fetch p key build s).2
  | invalidated (s : σ) : Course p s (emptiedBy (invalidate p s).1) (invalidate p s).2
  | disposed (s : σ) : Course p s (disposedBy (dispose p s).1) (dispose p s).2
  | followed {s t u : σ} {first second : List (Happening K V)} (begins : Course p s first t)
    (goesOn : Course p t second u) : Course p s (first ++ second) u

/-- The moments there can be, each with what happened to the cache so far; whether a build is under
way at that moment is told by `building`. -/
inductive Moment (p : Place σ (CachedView K V)) : List (Happening K V) → Bool → σ → Prop
  | made {s : σ} (settings : Patience) (new : p.get s = { settings })
    (older : ∀ held ∈ (Host.locks s).heldBy (Host.thread s), held < (Host.locks s).next) :
    Moment p [] false s
  | later {past since : List (Happening K V)} {building : Bool} {s t : σ}
    (moment : Moment p past building s) (course : Course p s since t) :
    Moment p (past ++ since) building t
  | inside {past : List (Happening K V)} {s u : σ} (moment : Moment p past false s) (key : K)
    (build : Work σ V) (start : u ∈ startsOf p key build s) : Moment p past true u

def Stands (p : Place σ (CachedView K V)) (past : List (Happening K V)) (building : Bool) (s : σ) :
    Prop :=
  Standing p (entryAfter past) (closed past) (if building then some .write else none) s

def SameHolder (p : Place σ (CachedView K V)) (s t : σ) : Prop :=
  Host.thread t = Host.thread s ∧ ∀ own, (p.get s).lock = some own → (p.get t).lock = some own

/-- What a course makes of a cache that stands: it stands as what happened says, and while a build
is under way nothing can have happened but that the cache is disposed. -/
structure Carries (p : Place σ (CachedView K V)) (past since : List (Happening K V))
    (building : Bool) (s t : σ) : Prop where
  stands : Stands p (past ++ since) building t
  only : building = true → ∀ x ∈ since, x = .disposed
  holder : building = true → SameHolder p s t

variable {p : Place σ (CachedView K V)} {past since more : List (Happening K V)} {building : Bool}
  {s t u : σ} {key : K} {view : V} {build : Work σ V}

omit [DecidableEq K] in
theorem carries_same (stands : Stands p past building s) : Carries p past [] building s s where
  stands := by rwa [List.append_nil]
  only _ := by simp
  holder _ := ⟨rfl, fun _ here => here⟩

omit [DecidableEq K] in
theorem carries_trans (first : Carries p past since building s t)
    (second : Carries p (past ++ since) more building t u) :
    Carries p past (since ++ more) building s u where
  stands := by
    rw [← List.append_assoc]
    exact second.stands
  only under x member :=
    (List.mem_append.mp member).elim (first.only under x) (second.only under x)
  holder under :=
    ⟨(second.holder under).1.trans (first.holder under).1, fun own here =>
      (second.holder under).2 own ((first.holder under).2 own here)⟩

omit [DecidableEq K] in
theorem carries_apart (stands : Stands p past building s) (apart : Apart p s t) :
    Carries p past [] building s t := by
  have older : ∀ held ∈ (Host.locks t).heldBy (Host.thread s), held < (Host.locks t).next :=
    fun held member => (apart.older held member).elim
      (fun before => Nat.lt_of_lt_of_le (stands.older held before) apart.next) id
  refine ⟨?_, fun _ => by simp, fun _ => ⟨apart.thread, ?_⟩⟩
  · rw [List.append_nil]
    refine ⟨?_, ?_, ?_, ?_, ?_⟩
    · rw [apart.cache, stands.shown]
    · rw [apart.cache, stands.gone]
    · rw [apart.cache, apart.thread]
      intro own here
      obtain ⟨same, count⟩ := apart.lock own here
      have held := stands.lock own here
      exact ⟨Nat.lt_of_lt_of_le held.made apart.next, same ▸ held.lock, count ▸ held.ledger, older⟩
    · rw [apart.cache]
      exact stands.unmade
    · rw [apart.thread]
      exact older
  · rw [apart.cache]
    exact fun _ here => here

theorem fetch_rests (housed : Housed p) (stands : Stands p past false s)
    (usable : closed past = false) (key : K) (build : Work σ V) :
    (∃ view, entryAfter past = some (key, view) ∧ startsOf p key build s = [] ∧
      (fetch p key build s).1 = .ok view ∧ Stands p past false (fetch p key build s).2) ∨
    ((∀ view, entryAfter past ≠ some (key, view)) ∧ ∃ u, startsOf p key build s = [u] ∧
      Stands p past true u ∧ (fetch p key build s).1 = (build u).1 ∧
      ∀ within, Carries p past within true u (build u).2 →
        Stands p (past ++ (within ++ builtBy key (build u).1)) false
          (fetch p key build s).2) := by
  unfold Stands at stands
  rw [usable] at stands
  by_cases hit : ∃ view, entryAfter past = some (key, view)
  · left
    obtain ⟨view, shown⟩ := hit
    have answers := shown ▸ stands
    refine ⟨view, shown, startsOf_hit housed answers, ?_, ?_⟩
    · rw [fetch_hit housed answers]
    · rw [fetch_hit housed answers, Stands, usable, ← thread_entered housed .upgradeable s]
      refine standing_released housed (standing_entered housed stands .upgradeable) ?_
      rw [get_entered housed]
  · right
    have miss : ∀ view, entryAfter past ≠ some (key, view) := fun view shown => hit ⟨view, shown⟩
    refine ⟨miss, started p s, startsOf_miss housed stands miss, ?_, ?_, ?_⟩
    · rw [Stands, usable]
      exact standing_started housed stands
    · rw [fetch_miss housed stands miss]
    -- the build kept the thread and the cache's lock, so what is let go of is what was taken
    · intro within ⟨inside, _, same⟩
      obtain ⟨thread, lock⟩ := same rfl
      rw [fetch_miss housed stands miss]
      obtain ⟨sameLock, sameThread⟩ :=
        kept_withEntry housed key (build (started p s)).1 (build (started p s)).2
      have written := standing_withEntry housed inside key (build (started p s)).1
      have here : (p.get (withEntry p key (build (started p s)).1
          (build (started p s)).2)).lock = some (ownLock p s) := by
        rw [sameLock]
        exact lock _ (by rw [get_started housed])
      have after := standing_released housed written here
      rw [sameThread, thread, thread_started housed] at after
      rw [Stands, ← List.append_assoc, entryAfter_builtBy, closed_append, closed_builtBy,
        Bool.or_false]
      exact after

theorem carries_fetched (housed : Housed p) (stands : Stands p past building s) (key : K)
    (build : Work σ V) (within : σ → List (Happening K V))
    (inside : ∀ u ∈ startsOf p key build s, Stands p past true u →
      Carries p past (within u) true u (build u).2) :
    Carries p past ((startsOf p key build s).flatMap fun u => within u ++ builtBy key (build u).1)
      building s (fetch p key build s).2 := by
  cases gone : closed past with
  | true =>
    have shut : (p.get s).disposed = true := stands.gone.trans gone
    rw [startsOf_gone shut, fetch_gone shut]
    exact carries_same stands
  | false =>
    cases building with
    | true =>
      have held : Standing p (entryAfter past) false (some .write) s := gone ▸ stands
      rw [startsOf_again held, fetch_again held]
      exact carries_same stands
    | false =>
      refine ⟨?_, (nomatch ·), (nomatch ·)⟩
      obtain ⟨view, -, none, -, after⟩ | ⟨-, u, one, start, -, after⟩ :=
        fetch_rests housed stands gone key build
      · rwa [none, List.flatMap_nil, List.append_nil]
      · rw [one, List.flatMap_singleton]
        exact after _ (inside u (by rw [one]; exact List.mem_singleton_self u) start)

omit [DecidableEq K] in
theorem carries_invalidated (housed : Housed p) (stands : Stands p past building s) :
    Carries p past (emptiedBy (invalidate p s).1) building s (invalidate p s).2 := by
  cases gone : closed past with
  | true =>
    rw [invalidate_gone (stands.gone.trans gone)]
    exact carries_same stands
  | false =>
    cases building with
    | true =>
      have held : Standing p (entryAfter past) false (some .write) s := gone ▸ stands
      rw [invalidate_again held]
      exact carries_same stands
    | false =>
      have rests : Standing p (entryAfter past) false none s := gone ▸ stands
      obtain ⟨done, after⟩ := invalidate_rests housed rests
      refine ⟨?_, (nomatch ·), (nomatch ·)⟩
      rw [done, Stands, entryAfter_append, closed_append, gone]
      exact after

omit [DecidableEq K] in
theorem carries_disposed (housed : Housed p) (stands : Stands p past building s) :
    Carries p past (disposedBy (dispose p s).1) building s (dispose p s).2 := by
  cases gone : closed past with
  | true =>
    rw [dispose_gone (stands.gone.trans gone)]
    exact carries_same stands
  | false =>
    have usable : Standing p (entryAfter past) false (if building then some .write else none) s :=
      gone ▸ stands
    obtain ⟨first, after, lock, thread⟩ := dispose_first housed usable
    rw [first]
    refine ⟨?_, fun _ => by simp [disposedBy], fun _ => ⟨thread, fun _ here => lock.trans here⟩⟩
    rw [Stands, entryAfter_append, closed_append, gone]
    exact after

/-- Whatever is done from a moment on, the cache stands as what happened says. -/
theorem carries_course (housed : Housed p) (course : Course p s since t) :
    ∀ {past building}, Stands p past building s → Carries p past since building s t := by
  induction course with
  | idle s => exact fun stands => carries_same stands
  | aside apart => exact fun stands => carries_apart stands apart
  | fetched s key build within inside ih =>
    exact fun stands => carries_fetched housed stands key build within
      fun u start begun => ih u start begun
  | invalidated s => exact fun stands => carries_invalidated housed stands
  | disposed s => exact fun stands => carries_disposed housed stands
  | followed begins goesOn first second =>
    exact fun stands => carries_trans (first stands) (second (first stands).stands)

theorem stands_of_moment (housed : Housed p) (moment : Moment p past building s) :
    Stands p past building s := by
  induction moment with
  | made settings new older =>
    refine ⟨?_, ?_, ?_, ?_, older⟩
    · rw [new]
      rfl
    · rw [new]
      rfl
    · intro own here
      rw [new] at here
      cases here
    · exact fun _ => ⟨rfl, rfl⟩
  | later moment course stands => exact (carries_course housed course stands).stands
  | @inside past s u moment key build start stands =>
    cases gone : closed past with
    | true =>
      rw [startsOf_gone (stands.gone.trans gone)] at start
      cases start
    | false =>
      obtain ⟨view, -, none, -⟩ | ⟨-, v, one, begun, -⟩ := fetch_rests housed stands gone key build
      · rw [none] at start
        cases start
      · rw [one] at start
        obtain rfl := List.mem_singleton.mp start
        exact begun

end
end UndoableLists.CachedView
