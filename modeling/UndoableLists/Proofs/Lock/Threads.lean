import Mathlib.Logic.Function.Basic
import UndoableLists.Journal
import UndoableLists.Proofs.Lock.Ease

/-!
Several threads at their locks. A thread takes a lock in steps: it enters the lock in its ledger and
waits, and then it gets a token, or its time is up and it strikes the entry out again; in between
the others go on. Nobody else sees a ledger, so a hold and its entry may go in one step. The holds
of a lock only say whom it cannot let in: a wait may end in vain at any time, whatever the holds. A
thread drops its tokens in whatever order it likes. Main statements: an acquisition or an upgrade
that is tried at once is a run of such steps, and a thread that waited in vain might as well not
have tried.
-/
namespace UndoableLists

namespace Locks

def register (ls : Locks) (thread : Thread) (id : LockId) : Locks :=
  { ls with ledger := ls.ledgerWith thread (ls.heldBy thread ++ [id]) }

def enter (ls : Locks) (thread : Thread) (id : LockId) (access : Access) :
    Except LockRefusal Locks :=
  if ls.isDisposed id then .error .disposed
  else if ls.isHeldBy id thread then .error (.recursive access)
  else .ok (ls.register thread id)

def strike (ls : Locks) (thread : Thread) (id : LockId) : Locks :=
  { ls with ledger := ls.ledgerWith thread (swapOut (ls.heldBy thread) id) }

def letIn (ls : Locks) (thread : Thread) (id : LockId) (access : Access) : Locks :=
  { ls with table := ls.table.modify id (·.holdingAs thread access) }

def raise (ls : Locks) (thread : Thread) (id : LockId) : Locks :=
  { ls with table := ls.table.modify id (·.raised thread) }

def Admits (ls : Locks) (id : LockId) (access : Access) : Prop :=
  ∃ l, ls.get? id = some l ∧ l.keepsOut access = false

def Uncontested (ls : Locks) (thread : Thread) (id : LockId) : Prop :=
  ∃ l, ls.get? id = some l ∧ l.contested thread = false

variable {ls : Locks} {thread other : Thread} {id : LockId} {access : Access}

theorem heldBy_register : (ls.register thread id).heldBy other =
    if other = thread then ls.heldBy thread ++ [id] else ls.heldBy other :=
  heldBy_ledgerWith ..

theorem heldBy_strike : (ls.strike thread id).heldBy other =
    if other = thread then swapOut (ls.heldBy thread) id else ls.heldBy other :=
  heldBy_ledgerWith ..

theorem heldBy_release : (ls.release thread id).heldBy other =
    if other = thread then swapOut (ls.heldBy thread) id else ls.heldBy other :=
  heldBy_ledgerWith ..

theorem enter_ok {entered : Locks} : ls.enter thread id access = .ok entered ↔
    ls.isDisposed id = false ∧ id ∉ ls.heldBy thread ∧ entered = ls.register thread id := by
  unfold enter isHeldBy
  cases ls.isDisposed id with
  | true => simp
  | false =>
    by_cases held : id ∈ ls.heldBy thread
    · simp [held]
    · simp [held, eq_comm]

theorem enter_error {cause : LockRefusal} : ls.enter thread id access = .error cause ↔
    (ls.isDisposed id = true ∧ cause = .disposed) ∨
      ls.isDisposed id = false ∧ id ∈ ls.heldBy thread ∧ cause = .recursive access := by
  unfold enter isHeldBy
  cases ls.isDisposed id with
  | true => simp [eq_comm]
  | false =>
    by_cases held : id ∈ ls.heldBy thread
    · simp [held, eq_comm]
    · simp [held]

/-- An acquisition is tried at once: either it fails before it is entered, or it is entered, and
then admitted, struck out, or left waiting. -/
theorem attempt_eq (timeout : Option Duration) :
    ls.attempt thread id access timeout =
      match ls.enter thread id access with
      | .error cause => .refused cause
      | .ok entered =>
        match ls.get? id with
        | none => .refused .disposed
        | some l =>
          if l.keepsOut access then
            match l.settings.policy with
            | .fail => .refused (.timeout access (timeout.getD l.settings.timeout))
            | .warnAndWait => .waits
          else .granted (entered.letIn thread id access) := by
  unfold attempt enter isDisposed
  cases there : ls.get? id with
  | none => rfl
  | some l =>
    simp only [Option.map_some, Option.getD_some]
    split
    · rfl
    · split
      · rfl
      · rfl

end Locks

structure Token where
  thread : Thread
  lock : LockId
  access : Access
  deriving DecidableEq

namespace Token

def hold (k : Token) : Hold := ⟨k.thread, k.access⟩

def raisedBy (thread : Thread) (lock : LockId) (k : Token) : Token :=
  if k.thread = thread ∧ k.lock = lock then { k with access := .write } else k

end Token

/-- What a thread is about. It waits until a deadline, if there is one. -/
inductive Doing where
  | nothing
  | taking (lock : LockId) (access : Access) (within : Option Duration)
  /-- With `orLose` the token is gone if the upgrade fails. -/
  | raising (lock : LockId) (orLose : Bool) (within : Option Duration)

def Doing.patiently : Doing → Doing
  | .nothing => .nothing
  | .taking lock access _ => .taking lock access none
  | .raising lock orLose _ => .raising lock orLose none

theorem Doing.patiently_nothing {x : Doing} (same : x.patiently = .nothing) : x = .nothing := by
  cases x with
  | nothing => rfl
  | taking lock access within => cases same
  | raising lock orLose within => cases same

structure Threads where
  locks : Locks := {}
  tokens : List Token := []
  doing : Thread → Doing := fun _ => .nothing

inductive Threads.Event where
  | created (settings : Patience)
  | disposed (lock : LockId)
  | entered (lock : LockId) (access : Access) (timeout : Option Duration)
  | refused (lock : LockId) (access : Access) (cause : LockRefusal)
  | taken (lock : LockId) (access : Access)
  | warned (notice : Notice)
  | began (lock : LockId) (orLose : Bool)
  | raised (lock : LockId)
  | kept (lock : LockId)
  | lost (lock : LockId) (cause : LockRefusal)
  | dropped (token : Token)

namespace Threads
open Function (update)

/-- A step of one thread. Calls begin when the thread is about nothing; a thread that waits can only
be let in, go on waiting, or give up. -/
inductive Step (t : Thread) : Threads → Event → Threads → Prop
  | created {s : Threads} {settings : Patience} (idle : s.doing t = .nothing) :
    Step t s (.created settings) { s with locks := (s.locks.create settings).2 }
  | disposed {s : Threads} {id : LockId} (idle : s.doing t = .nothing) :
    Step t s (.disposed id) { s with locks := (s.locks.dispose id).2 }
  | refused {s : Threads} {id : LockId} {access : Access} {cause : LockRefusal}
    (idle : s.doing t = .nothing) (fails : s.locks.enter t id access = .error cause) :
    Step t s (.refused id access cause) s
  | entered {s : Threads} {id : LockId} {access : Access} {timeout : Option Duration} {ls : Locks}
    (idle : s.doing t = .nothing) (passes : s.locks.enter t id access = .ok ls) :
    Step t s (.entered id access timeout)
      { s with locks := ls,
               doing := update s.doing t
                 (.taking id access (some (timeout.getD (s.locks.settings id).timeout))) }
  | taken {s : Threads} {id : LockId} {access : Access} {within : Option Duration}
    (waits : s.doing t = .taking id access within) (room : s.locks.Admits id access) :
    Step t s (.taken id access)
      { locks := s.locks.letIn t id access, tokens := s.tokens ++ [⟨t, id, access⟩],
        doing := update s.doing t .nothing }
  | timedOut {s : Threads} {id : LockId} {access : Access} {after : Duration}
    (waits : s.doing t = .taking id access (some after))
    (policy : (s.locks.settings id).policy = .fail) :
    Step t s (.refused id access (.timeout access after))
      { s with locks := s.locks.strike t id, doing := update s.doing t .nothing }
  | waitedOn {s : Threads} {id : LockId} {access : Access} {after : Duration}
    (waits : s.doing t = .taking id access (some after))
    (policy : (s.locks.settings id).policy = .warnAndWait) :
    Step t s (.warned .acquisitionTimedOut)
      { s with doing := update s.doing t (.taking id access none) }
  | began {s : Threads} {id : LockId} {orLose : Bool} (idle : s.doing t = .nothing)
    (has : ⟨t, id, .upgradeable⟩ ∈ s.tokens) :
    Step t s (.began id orLose)
      { s with doing := update s.doing t (.raising id orLose (some (s.locks.settings id).timeout)) }
  | raised {s : Threads} {id : LockId} {orLose : Bool} {within : Option Duration}
    (waits : s.doing t = .raising id orLose within) (alone : s.locks.Uncontested t id) :
    Step t s (.raised id)
      { locks := s.locks.raise t id, tokens := s.tokens.map (·.raisedBy t id),
        doing := update s.doing t .nothing }
  | kept {s : Threads} {id : LockId} {after : Duration}
    (waits : s.doing t = .raising id false (some after))
    (policy : (s.locks.settings id).policy = .fail) :
    Step t s (.kept id) { s with doing := update s.doing t .nothing }
  | lost {s : Threads} {id : LockId} {after : Duration}
    (waits : s.doing t = .raising id true (some after))
    (policy : (s.locks.settings id).policy = .fail) :
    Step t s (.lost id (.timeout .write after))
      { locks := s.locks.release t id, tokens := s.tokens.erase ⟨t, id, .upgradeable⟩,
        doing := update s.doing t .nothing }
  | raisesOn {s : Threads} {id : LockId} {orLose : Bool} {after : Duration}
    (waits : s.doing t = .raising id orLose (some after))
    (policy : (s.locks.settings id).policy = .warnAndWait) :
    Step t s (.warned .upgradeTimedOut)
      { s with doing := update s.doing t (.raising id orLose none) }
  | dropped {s : Threads} {id : LockId} {access : Access} (idle : s.doing t = .nothing)
    (has : ⟨t, id, access⟩ ∈ s.tokens) :
    Step t s (.dropped ⟨t, id, access⟩)
      { s with locks := s.locks.release t id, tokens := s.tokens.erase ⟨t, id, access⟩ }

inductive Run (allowed : Thread → Event → Prop) : Threads → Threads → Prop
  | here (s : Threads) : Run allowed s s
  | onward {a b c : Threads} {t : Thread} {e : Event} (before : Run allowed a b) (may : allowed t e)
    (step : Step t b e c) : Run allowed a c

def Reached (s : Threads) : Prop := Run (fun _ _ => True) {} s

def Waiting (t u : Thread) (e : Event) : Prop := u ≠ t ∨ ∃ notice, e = .warned notice

def Others (t u : Thread) (_ : Event) : Prop := u ≠ t

def Call (t : Thread) (first last : Event) (a d : Threads) : Prop :=
  ∃ b c, Step t a first b ∧ Run (Waiting t) b c ∧ Step t c last d

/-- A thread has what it had, and is about what it was about; only a deadline may have passed. -/
structure Untouched (t : Thread) (a b : Threads) : Prop where
  ledger : b.locks.heldBy t = a.locks.heldBy t
  doing : (b.doing t).patiently = (a.doing t).patiently
  tokens : ∀ id access, ⟨t, id, access⟩ ∈ b.tokens ↔ ⟨t, id, access⟩ ∈ a.tokens

/-- The same locks with the same holds, and the same tokens. All but the excepted threads have the
same ledgers and are about the same. -/
structure Alike (except : Thread → Prop) (a b : Threads) : Prop where
  table : b.locks.table = a.locks.table
  next : b.locks.next = a.locks.next
  tokens : b.tokens = a.tokens
  ledger : ∀ u, ¬except u → b.locks.heldBy u = a.locks.heldBy u
  doing : ∀ u, ¬except u → b.doing u = a.doing u

def Same (a b : Threads) : Prop := Alike (fun _ => False) a b

section
variable {except : Thread → Prop} {a b c d s : Threads} {t u : Thread} {e : Event} {id : LockId}
  {access : Access} {timeout : Option Duration} {cause : LockRefusal}

theorem alike_symm (alike : Alike except a b) : Alike except b a where
  table := alike.table.symm
  next := alike.next.symm
  tokens := alike.tokens.symm
  ledger u aside := (alike.ledger u aside).symm
  doing u aside := (alike.doing u aside).symm

theorem alike_trans (first : Alike except a b) (second : Alike except b c) : Alike except a c where
  table := second.table.trans first.table
  next := second.next.trans first.next
  tokens := second.tokens.trans first.tokens
  ledger u aside := (second.ledger u aside).trans (first.ledger u aside)
  doing u aside := (second.doing u aside).trans (first.doing u aside)

theorem step_unseeing {ledger : Table Thread (List LockId)} {doing : Thread → Doing}
    (unchanged : ∀ v, ¬except v → Locks.heldBy { a.locks with ledger } v = a.locks.heldBy v)
    (same : ∀ v, ¬except v → doing v = a.doing v) (step : Step u a e c) (aside : ¬except u) :
    ∃ d, Step u { a with locks := { a.locks with ledger }, doing } e d ∧ Alike except c d := by
  have mine := same u aside
  have turned (x : Doing) (v : Thread) (other : ¬except v) :
      update doing u x v = update a.doing u x v := by
    by_cases own : v = u
    · rw [own, Function.update_self, Function.update_self]
    · rw [Function.update_of_ne own, Function.update_of_ne own, same v other]
  have wrote (table : Table LockId Lock) {ids ids' : List LockId} (equal : ids' = ids) (v : Thread)
      (other : ¬except v) :
      Locks.heldBy { a.locks with
          table, ledger := Locks.ledgerWith { a.locks with ledger } u ids' } v =
        Locks.heldBy { a.locks with table, ledger := a.locks.ledgerWith u ids } v := by
    have left : _ = if v = u then ids' else Locks.heldBy { a.locks with ledger } v :=
      Locks.heldBy_ledgerWith { a.locks with ledger } table v ids'
    rw [unchanged v other, equal] at left
    rw [equal]
    exact left.trans (Locks.heldBy_ledgerWith a.locks table v ids).symm
  have ours := unchanged u aside
  cases step with
  | created idle =>
    exact ⟨_, .created (mine.trans idle), rfl, rfl, rfl, unchanged, same⟩
  | disposed idle =>
    exact ⟨_, .disposed (mine.trans idle), rfl, rfl, rfl, unchanged, same⟩
  | refused idle fails =>
    rw [Locks.enter_error, ← ours] at fails
    exact ⟨_, .refused (mine.trans idle) (Locks.enter_error.mpr fails), rfl, rfl, rfl, unchanged,
      same⟩
  | entered idle passes =>
    obtain ⟨usable, fresh, rfl⟩ := Locks.enter_ok.mp passes
    rw [← ours] at fresh
    exact ⟨_, .entered (mine.trans idle) (Locks.enter_ok.mpr ⟨usable, fresh, rfl⟩), rfl, rfl, rfl,
      wrote _ (by rw [ours]), turned _⟩
  | taken waits room =>
    exact ⟨_, .taken (mine.trans waits) room, rfl, rfl, rfl, unchanged, turned _⟩
  | timedOut waits policy =>
    exact ⟨_, .timedOut (mine.trans waits) policy, rfl, rfl, rfl, wrote _ (by rw [ours]), turned _⟩
  | waitedOn waits policy =>
    exact ⟨_, .waitedOn (mine.trans waits) policy, rfl, rfl, rfl, unchanged, turned _⟩
  | began idle has =>
    exact ⟨_, .began (mine.trans idle) has, rfl, rfl, rfl, unchanged, turned _⟩
  | raised waits alone =>
    exact ⟨_, .raised (mine.trans waits) alone, rfl, rfl, rfl, unchanged, turned _⟩
  | kept waits policy =>
    exact ⟨_, .kept (mine.trans waits) policy, rfl, rfl, rfl, unchanged, turned _⟩
  | lost waits policy =>
    exact ⟨_, .lost (mine.trans waits) policy, rfl, rfl, rfl, wrote _ (by rw [ours]), turned _⟩
  | raisesOn waits policy =>
    exact ⟨_, .raisesOn (mine.trans waits) policy, rfl, rfl, rfl, unchanged, turned _⟩
  | dropped idle has =>
    exact ⟨_, .dropped (mine.trans idle) has, rfl, rfl, rfl, wrote _ (by rw [ours]), same⟩

theorem step_alike (alike : Alike except a b) (step : Step u a e c) (aside : ¬except u) :
    ∃ d, Step u b e d ∧ Alike except c d := by
  have whole : { a with locks := { a.locks with ledger := b.locks.ledger }, doing := b.doing } =
      b := by
    simp only [← alike.table, ← alike.next, ← alike.tokens]
  exact whole ▸ step_unseeing alike.ledger alike.doing step aside

theorem untouched_refl (t : Thread) (s : Threads) : Untouched t s s :=
  ⟨rfl, rfl, fun _ _ => Iff.rfl⟩

theorem untouched_trans (first : Untouched t a b) (second : Untouched t b c) : Untouched t a c where
  ledger := second.ledger.trans first.ledger
  doing := second.doing.trans first.doing
  tokens id access := (second.tokens id access).trans (first.tokens id access)

theorem untouched_of_same (same : Same a b) : Untouched t a b where
  ledger := same.ledger t not_false
  doing := congrArg Doing.patiently (same.doing t not_false)
  tokens id access := by rw [same.tokens]

theorem step_untouched (step : Step u a e b) (other : u ≠ t) : Untouched t a b := by
  have turned (x : Doing) : (update a.doing u x t).patiently = (a.doing t).patiently := by
    rw [Function.update_of_ne other.symm]
  have released (id : LockId) : (a.locks.release u id).heldBy t = a.locks.heldBy t :=
    Locks.heldBy_release.trans (if_neg other.symm)
  have gone (k : Token) (theirs : k.thread = u) (id : LockId) (access : Access) :
      ⟨t, id, access⟩ ∈ a.tokens.erase k ↔ ⟨t, id, access⟩ ∈ a.tokens := by
    apply List.mem_erase_of_ne
    rintro rfl
    exact other theirs.symm
  cases step with
  | created idle => exact ⟨rfl, rfl, fun _ _ => Iff.rfl⟩
  | disposed idle => exact ⟨rfl, rfl, fun _ _ => Iff.rfl⟩
  | refused idle fails => exact untouched_refl t a
  | entered idle passes =>
    obtain ⟨-, -, rfl⟩ := Locks.enter_ok.mp passes
    exact ⟨Locks.heldBy_register.trans (if_neg other.symm), turned _, fun _ _ => Iff.rfl⟩
  | taken waits room =>
    refine ⟨rfl, turned _, fun id access => ?_⟩
    simp [other.symm]
  | timedOut waits policy =>
    exact ⟨Locks.heldBy_strike.trans (if_neg other.symm), turned _, fun _ _ => Iff.rfl⟩
  | raised waits alone =>
    refine ⟨rfl, turned _, fun id access => ?_⟩
    rw [List.mem_map]
    constructor
    · rintro ⟨k, member, raised⟩
      unfold Token.raisedBy at raised
      split at raised
      · rename_i mine
        cases raised
        exact absurd mine.1.symm other
      · exact raised ▸ member
    · intro member
      exact ⟨_, member, if_neg fun mine => other mine.1.symm⟩
  | lost waits policy => exact ⟨released _, turned _, gone _ rfl⟩
  | dropped idle has => exact ⟨released _, rfl, gone _ rfl⟩
  | _ => exact ⟨rfl, turned _, fun _ _ => Iff.rfl⟩

theorem warned_alike {notice : Notice} (step : Step t a (.warned notice) b) :
    Untouched t a b ∧ Alike (· = t) a b := by
  have others (x : Doing) (v : Thread) (other : v ≠ t) : update a.doing t x v = a.doing v :=
    Function.update_of_ne other _ _
  cases step with
  | waitedOn waits policy =>
    exact ⟨⟨rfl, by simp [waits, Doing.patiently], fun _ _ => Iff.rfl⟩,
      rfl, rfl, rfl, fun _ _ => rfl, others _⟩
  | raisesOn waits policy =>
    exact ⟨⟨rfl, by simp [waits, Doing.patiently], fun _ _ => Iff.rfl⟩,
      rfl, rfl, rfl, fun _ _ => rfl, others _⟩

theorem run_untouched (run : Run (Waiting t) a b) : Untouched t a b := by
  induction run with
  | here => exact untouched_refl t a
  | @onward _ _ u _ before may step ih =>
    refine untouched_trans ih ?_
    by_cases mine : u = t
    · subst mine
      obtain ⟨notice, rfl⟩ := may.resolve_left fun other => other rfl
      exact (warned_alike step).1
    · exact step_untouched step mine

theorem Run.mono {allowed more : Thread → Event → Prop} (wider : ∀ u e, allowed u e → more u e)
    (run : Run allowed a b) : Run more a b := by
  induction run with
  | here => exact .here _
  | onward before may step ih => exact .onward ih (wider _ _ may) step

theorem run_trans {allowed : Thread → Event → Prop} (first : Run allowed a b)
    (second : Run allowed b c) : Run allowed a c := by
  induction second with
  | here => exact first
  | onward before may step ih => exact .onward ih may step

theorem Reached.step (reached : Reached a) (step : Step t a e b) : Reached b :=
  .onward reached trivial step

theorem Reached.call {first last : Event} (reached : Reached a) (call : Call t first last a d) :
    Reached d := by
  obtain ⟨b, c, begun, meanwhile, ended⟩ := call
  have waited : Reached c :=
    run_trans (reached.step begun) (meanwhile.mono fun _ _ _ => trivial)
  exact waited.step ended

/-- While a thread waits, the others do what they could have done without it. -/
theorem run_beside (run : Run (Waiting t) b c) (alike : Alike (· = t) b a) :
    ∃ d, Run (Others t) a d ∧ Alike (· = t) c d := by
  -- the run without the thread skips its warnings and stays alike but for it
  induction run with
  | here => exact ⟨a, .here a, alike⟩
  | @onward _ _ u _ before may step ih =>
    obtain ⟨d, aside, same⟩ := ih
    by_cases mine : u = t
    · subst mine
      obtain ⟨notice, rfl⟩ := may.resolve_left fun other => other rfl
      exact ⟨d, aside, alike_trans (alike_symm (warned_alike step).2) same⟩
    · obtain ⟨d', theirs, same'⟩ := step_alike same step mine
      exact ⟨d', .onward aside mine theirs, same'⟩

theorem alike_doing (s : Threads) (x : Doing) :
    Alike (· = t) s { s with doing := update s.doing t x } :=
  ⟨rfl, rfl, rfl, fun _ _ => rfl, fun _ other => Function.update_of_ne other _ _⟩

theorem alike_own (s : Threads) (ids : List LockId) (x : Doing) :
    Alike (· = t) s { s with locks := { s.locks with ledger := s.locks.ledgerWith t ids },
                             doing := update s.doing t x } where
  table := rfl
  next := rfl
  tokens := rfl
  ledger _ other := (Locks.heldBy_ledgerWith ..).trans (if_neg other)
  doing _ other := Function.update_of_ne other _ _

theorem alike_whole (alike : Alike (· = t) a b) (ledger : b.locks.heldBy t = a.locks.heldBy t)
    (doing : b.doing t = a.doing t) : Same a b where
  table := alike.table
  next := alike.next
  tokens := alike.tokens
  ledger u _ := by
    by_cases mine : u = t
    · rw [mine, ledger]
    · exact alike.ledger u mine
  doing u _ := by
    by_cases mine : u = t
    · rw [mine, doing]
    · exact alike.doing u mine

theorem others_untouched (run : Run (Others t) a b) : Untouched t a b :=
  run_untouched (run.mono fun _ _ other => .inl other)

/-- A thread that is about nothing begins a call and waits. Beside what then comes there is what the
others would have come to without the call. -/
theorem waiting_beside (idle : a.doing t = .nothing) (begun : Alike (· = t) a b)
    (meanwhile : Run (Waiting t) b c) :
    ∃ e, Run (Others t) a e ∧ Alike (· = t) e c ∧ Untouched t b c ∧ Untouched t a e ∧
      e.doing t = .nothing := by
  obtain ⟨e, aside, same⟩ := run_beside meanwhile (alike_symm begun)
  have mine := others_untouched aside
  exact ⟨e, aside, alike_symm same, run_untouched meanwhile, mine,
    Doing.patiently_nothing (mine.doing.trans (by rw [idle]; rfl))⟩

theorem refused_call (call : Call t (.entered id access timeout) (.refused id access cause) a d) :
    ∃ e, Run (Others t) a e ∧ Same e d := by
  obtain ⟨b, c, begun, meanwhile, ended⟩ := call
  cases begun with
  | entered idle passes =>
    obtain ⟨-, -, rfl⟩ := Locks.enter_ok.mp passes
    obtain ⟨e, aside, same, waited, mine, still⟩ :=
      waiting_beside idle (alike_own a _ _) meanwhile
    refine ⟨e, aside, ?_⟩
    cases ended with
    | refused bored fails =>
      have busy := waited.doing
      simp [bored, Doing.patiently] at busy
    | timedOut waits policy =>
      have registered : c.locks.heldBy t = a.locks.heldBy t ++ [id] :=
        waited.ledger.trans (Locks.heldBy_register.trans (if_pos rfl))
      refine alike_whole (alike_trans same (alike_own c _ _)) ?_ ?_
      · refine Locks.heldBy_strike.trans ?_
        rw [if_pos rfl, registered, Locks.swapOut_concat, mine.ledger]
      · rw [still]
        exact Function.update_self ..

theorem kept_call (call : Call t (.began id false) (.kept id) a d) :
    ∃ e, Run (Others t) a e ∧ Same e d := by
  obtain ⟨b, c, begun, meanwhile, ended⟩ := call
  cases begun with
  | began idle has =>
    obtain ⟨e, aside, same, waited, mine, still⟩ := waiting_beside idle (alike_doing a _) meanwhile
    cases ended with
    | kept waits policy =>
      refine ⟨e, aside, alike_whole (alike_trans same (alike_doing c _)) ?_ ?_⟩
      · exact waited.ledger.trans mine.ledger.symm
      · rw [still]
        exact Function.update_self ..

theorem lost_call (call : Call t (.began id true) (.lost id cause) a d) :
    ∃ e f, Run (Others t) a e ∧ Step t e (.dropped ⟨t, id, .upgradeable⟩) f ∧
      Same f d := by
  obtain ⟨b, c, begun, meanwhile, ended⟩ := call
  cases begun with
  | began idle has =>
    obtain ⟨e, aside, same, waited, mine, still⟩ := waiting_beside idle (alike_doing a _) meanwhile
    have dropped : Step t e (.dropped ⟨t, id, .upgradeable⟩) _ :=
      .dropped still ((mine.tokens id .upgradeable).mpr has)
    cases ended with
    | lost waits policy =>
      have calm : Same e { c with doing := update c.doing t .nothing } := by
        refine alike_whole (alike_trans same (alike_doing c _)) ?_ ?_
        · exact waited.ledger.trans mine.ledger.symm
        · rw [still]
          exact Function.update_self ..
      obtain ⟨d, step, alike⟩ := step_alike calm dropped not_false
      cases step with
      | dropped => exact ⟨e, _, aside, dropped, alike⟩
end

def Acquires (s : Threads) (t : Thread) (id : LockId) (access : Access)
    (timeout : Option Duration) : Attempt → Prop
  | .granted after => ∃ b c, Step t s (.entered id access timeout) b ∧
      Step t b (.taken id access) c ∧
      c = { s with locks := after, tokens := s.tokens ++ [⟨t, id, access⟩] }
  | .refused cause => Step t s (.refused id access cause) s ∨
      ∃ d, Call t (.entered id access timeout) (.refused id access cause) s d
  | .waits => ∃ b c, Step t s (.entered id access timeout) b ∧
      Step t b (.warned .acquisitionTimedOut) c

def Upgrades (s : Threads) (t : Thread) (id : LockId) (orLose : Bool) : Attempt → Prop
  | .granted after => ∃ b c, Step t s (.began id orLose) b ∧ Step t b (.raised id) c ∧
      c = { s with locks := after, tokens := s.tokens.map (·.raisedBy t id) }
  | .refused cause =>
      ∃ d, Call t (.began id orLose) (if orLose then .lost id cause else .kept id) s d
  | .waits => ∃ b c, Step t s (.began id orLose) b ∧ Step t b (.warned .upgradeTimedOut) c

section
variable {s : Threads} {t : Thread} {id : LockId} {access : Access}

theorem settled {x : Doing} (idle : s.doing t = .nothing) :
    update (update s.doing t x) t .nothing = s.doing := by
  rw [Function.update_idem, ← idle, Function.update_eq_self]

theorem attempt_steps (idle : s.doing t = .nothing) (id : LockId) (access : Access)
    (timeout : Option Duration) :
    s.Acquires t id access timeout (s.locks.attempt t id access timeout) := by
  rw [Locks.attempt_eq]
  cases entry : s.locks.enter t id access with
  | error cause => exact .inl (.refused idle entry)
  | ok entered =>
    have begun : Step t s (.entered id access timeout) _ := .entered idle entry
    obtain ⟨usable, -, rfl⟩ := Locks.enter_ok.mp entry
    cases there : s.locks.get? id with
    | none => simp [Locks.isDisposed, there] at usable
    | some l =>
      have settings : s.locks.settings id = l.settings := by rw [Locks.settings, there]; rfl
      have waits (x : Doing) : update s.doing t x t = x := Function.update_self ..
      cases room : l.keepsOut access with
      | false =>
        simp only [room]
        exact ⟨_, _, begun, .taken (waits _) ⟨l, there, room⟩,
          congrArg (Threads.mk _ _) (settled idle)⟩
      | true =>
        cases policy : l.settings.policy with
        | fail =>
          simp only [room, policy]
          rw [← settings] at policy ⊢
          exact .inr ⟨_, _, _, begun, .here _, .timedOut (waits _) policy⟩
        | warnAndWait =>
          simp only [room, policy]
          rw [← settings] at policy
          exact ⟨_, _, begun, .waitedOn (waits _) policy⟩

theorem Reached.granted {after : Locks} (reached : Reached s) (idle : s.doing t = .nothing)
    (timeout : Option Duration) (granted : s.locks.attempt t id access timeout = .granted after) :
    Reached { s with locks := after, tokens := s.tokens ++ [⟨t, id, access⟩] } := by
  have steps := attempt_steps idle id access timeout
  rw [granted] at steps
  obtain ⟨b, c, entered, taken, rfl⟩ := steps
  exact (reached.step entered).step taken

theorem attemptUpgrade_steps (idle : s.doing t = .nothing)
    (has : ⟨t, id, .upgradeable⟩ ∈ s.tokens) {l : Lock} (there : s.locks.get? id = some l)
    (orLose : Bool) : s.Upgrades t id orLose (s.locks.attemptUpgrade t id) := by
  have begun : Step t s (.began id orLose) _ := .began idle has
  have settings : s.locks.settings id = l.settings := by rw [Locks.settings, there]; rfl
  have waits (x : Doing) : update s.doing t x t = x := Function.update_self ..
  simp only [Locks.attemptUpgrade, there]
  cases alone : l.contested t with
  | false =>
    exact ⟨_, _, begun, .raised (waits _) ⟨l, there, alone⟩,
      congrArg (Threads.mk _ _) (settled idle)⟩
  | true =>
    cases policy : l.settings.policy with
    | fail =>
      rw [← settings] at policy ⊢
      cases orLose with
      | false => exact ⟨_, _, _, begun, .here _, .kept (waits _) policy⟩
      | true => exact ⟨_, _, _, begun, .here _, .lost (waits _) policy⟩
    | warnAndWait =>
      rw [← settings] at policy
      exact ⟨_, _, begun, .raisesOn (waits _) policy⟩
end

end Threads
end UndoableLists
