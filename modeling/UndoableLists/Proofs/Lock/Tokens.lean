import Mathlib.Data.List.Nodup
import UndoableLists.Proofs.Lock.Threads

/-!
Tokens, holds and ledgers keep step. However several threads take, upgrade and drop their tokens,
the holds of a lock are those of its tokens; a thread's ledger names each lock of which it has a
token once, and beside these only the lock that it waits for; tokens of one lock belong to
different threads and bear with each other. Main statement: so it is whatever threads come to, what
a thread holds it does not get again, and what comes to nothing leaves nothing behind.
-/
namespace UndoableLists

namespace Token

def holdsOn (lock : LockId) (ks : List Token) : List Hold := (ks.filter (·.lock = lock)).map hold

def IsOf (thread : Thread) (lock : LockId) (k : Token) : Prop := k.thread = thread ∧ k.lock = lock

instance (thread : Thread) (lock : LockId) (k : Token) : Decidable (k.IsOf thread lock) :=
  inferInstanceAs (Decidable (_ ∧ _))

/-- Tokens of one lock belong to different threads and bear with each other. -/
def Compatible (a b : Token) : Prop :=
  a.lock = b.lock → a.thread ≠ b.thread ∧ a.access.excludes b.access = false

variable {ks : List Token} {thread : Thread} {lock id : LockId} {access : Access}

theorem mem_holdsOn {h : Hold} : h ∈ holdsOn lock ks ↔ ⟨h.thread, lock, h.access⟩ ∈ ks := by
  simp only [holdsOn, List.mem_map, List.mem_filter, decide_eq_true_eq]
  constructor
  · rintro ⟨k, ⟨member, rfl⟩, rfl⟩
    exact member
  · intro member
    exact ⟨_, ⟨member, rfl⟩, rfl⟩

theorem holdsOn_concat : holdsOn id (ks ++ [⟨thread, lock, access⟩]) =
    if id = lock then holdsOn lock ks ++ [⟨thread, access⟩] else holdsOn id ks := by
  by_cases same : id = lock
  · simp [holdsOn, hold, same]
  · simp [holdsOn, same, Ne.symm same]

theorem holdsOn_without : holdsOn id (ks.filter fun k => ¬k.IsOf thread lock) =
    if id = lock then (holdsOn lock ks).filter (·.thread != thread) else holdsOn id ks := by
  unfold holdsOn
  split
  · rename_i here
    subst here
    rw [List.filter_map, List.filter_filter, List.filter_filter]
    refine congrArg _ (List.filter_congr fun k _ => ?_)
    by_cases there : k.lock = id <;> by_cases mine : k.thread = thread <;>
      simp [IsOf, hold, there, mine]
  · rename_i elsewhere
    rw [List.filter_filter]
    refine congrArg _ (List.filter_congr fun k _ => ?_)
    by_cases there : k.lock = id <;> simp [IsOf, there, elsewhere]

@[simp] theorem thread_raisedBy (k : Token) : (k.raisedBy thread lock).thread = k.thread := by
  unfold raisedBy
  split <;> rfl

@[simp] theorem lock_raisedBy (k : Token) : (k.raisedBy thread lock).lock = k.lock := by
  unfold raisedBy
  split <;> rfl

theorem holdsOn_raised : holdsOn id (ks.map (·.raisedBy thread lock)) =
    if id = lock then
      (holdsOn lock ks).map fun h => if h.thread == thread then { h with access := .write } else h
    else holdsOn id ks := by
  have shape : (ks.map (·.raisedBy thread lock)).filter (·.lock = id) =
      (ks.filter (·.lock = id)).map (·.raisedBy thread lock) := by
    rw [List.filter_map]
    simp [Function.comp_def]
  unfold holdsOn
  rw [shape, List.map_map]
  split
  · rename_i here
    subst here
    rw [List.map_map]
    refine List.map_congr_left fun k member => ?_
    have there : k.lock = id := of_decide_eq_true (List.mem_filter.mp member).2
    by_cases mine : k.thread = thread <;> simp [raisedBy, hold, there, mine]
  · rename_i elsewhere
    refine List.map_congr_left fun k member => ?_
    have there : k.lock ≠ lock := of_decide_eq_true (List.mem_filter.mp member).2 ▸ elsewhere
    simp [raisedBy, there]

theorem erase_eq_filter (compatible : ks.Pairwise Compatible) (has : ⟨thread, lock, access⟩ ∈ ks) :
    ks.erase ⟨thread, lock, access⟩ = ks.filter fun k => ¬k.IsOf thread lock := by
  induction ks with
  | nil => cases has
  | cons k rest ih =>
    obtain ⟨first, compatible⟩ := List.pairwise_cons.mp compatible
    rcases List.mem_cons.mp has with rfl | later
    · have others : ∀ o ∈ rest, decide (¬o.IsOf thread lock) = true := by
        intro o member
        apply decide_eq_true
        rintro ⟨rfl, rfl⟩
        exact (first o member rfl).1 rfl
      rw [List.erase_cons_head, List.filter_cons_of_neg (by simp [IsOf]),
        List.filter_eq_self.mpr others]
    · have other : ¬k.IsOf thread lock := by
        rintro ⟨rfl, rfl⟩
        exact (first _ later rfl).1 rfl
      have differs : k ≠ ⟨thread, lock, access⟩ := by
        rintro rfl
        exact other ⟨rfl, rfl⟩
      rw [List.erase_cons_tail (by simpa using differs), ih compatible later,
        List.filter_cons_of_pos (by simpa using other)]

end Token

namespace Locks
variable {ls : Locks} {ids : List LockId} {id other : LockId}

theorem holdsOf_modify {ledger : Table Thread (List LockId)} {f : Lock → Lock}
    {g : List Hold → List Hold} (shape : ∀ l, (f l).holds = g l.holds)
    (nowhere : ls.get? id = none → g [] = []) :
    holdsOf { ls with table := ls.table.modify id f, ledger } other =
      if other = id then g (ls.holdsOf id) else ls.holdsOf other := by
  have found : get? { ls with table := ls.table.modify id f, ledger } other =
      if other = id then (ls.get? other).map f else ls.get? other := Table.get?_modify ..
  unfold holdsOf
  rw [found]
  split
  · rename_i here
    subst here
    cases there : ls.get? other with
    | none => exact (nowhere there).symm
    | some l => exact shape l
  · rfl

theorem holdsOf_create (settings : Patience) (ahead : ls.get? ls.next = none) :
    (ls.create settings).2.holdsOf other = ls.holdsOf other := by
  have found : (ls.create settings).2.get? other =
      if other = ls.next then some { settings } else ls.get? other := Table.get?_insert ..
  simp only [holdsOf, found]
  split
  · rename_i new
    rw [new, ahead]
    rfl
  · rfl

theorem holdsOf_dispose : (ls.dispose id).2.holdsOf other = ls.holdsOf other := by
  have same : (ls.dispose id).2.holdsOf other =
      if other = id then ls.holdsOf id else ls.holdsOf other :=
    holdsOf_modify (g := fun holds => holds) (fun _ => rfl) fun _ => rfl
  rw [same]
  split
  · rename_i here
    rw [here]
  · rfl

theorem holdsOf_letIn (thread : Thread) (access : Access) {l : Lock} (there : ls.get? id = some l) :
    (ls.letIn thread id access).holdsOf other =
      if other = id then ls.holdsOf id ++ [⟨thread, access⟩] else ls.holdsOf other :=
  holdsOf_modify (g := (· ++ [Hold.mk thread access])) (f := (·.holdingAs thread access))
    (fun _ => rfl) fun absent => by cases absent.symm.trans there

theorem holdsOf_raise (thread : Thread) : (ls.raise thread id).holdsOf other =
    if other = id then
      (ls.holdsOf id).map fun h => if h.thread == thread then { h with access := .write } else h
    else ls.holdsOf other :=
  holdsOf_modify (f := (·.raised thread)) (fun _ => rfl) fun _ => rfl

theorem holdsOf_release (thread : Thread) : (ls.release thread id).holdsOf other =
    if other = id then (ls.holdsOf id).filter (·.thread != thread) else ls.holdsOf other :=
  holdsOf_modify (f := (·.without thread)) (fun _ => rfl) fun _ => rfl

theorem get?_modify_none {ledger : Table Thread (List LockId)} {f : Lock → Lock}
    (absent : ls.get? other = none) :
    get? { ls with table := ls.table.modify id f, ledger } other = none := by
  refine (Table.get?_modify ..).trans ?_
  split
  · exact Option.map_eq_none_iff.mpr absent
  · exact absent

theorem nodup_swapOut (once : ids.Nodup) : (swapOut ids id).Nodup :=
  (swapOut_perm ids id).nodup_iff.mpr (once.erase id)

theorem mem_swapOut (once : ids.Nodup) : other ∈ swapOut ids id ↔ other ≠ id ∧ other ∈ ids :=
  (swapOut_perm ids id).mem_iff.trans once.mem_erase_iff

end Locks

namespace Threads
open Function (update)

def Has (s : Threads) (t : Thread) (id : LockId) : Prop := ∃ access, ⟨t, id, access⟩ ∈ s.tokens

def Takes (s : Threads) (t : Thread) (id : LockId) : Prop :=
  ∃ access, (s.doing t).patiently = .taking id access none

/-- A thread's ledger names what it has, and what it is about to have. -/
structure Owns (s : Threads) (t : Thread) : Prop where
  once : (s.locks.heldBy t).Nodup
  ledger : ∀ id, id ∈ s.locks.heldBy t ↔ s.Has t id ∨ s.Takes t id
  fresh : ∀ id, s.Takes t id → ¬s.Has t id
  raising : ∀ id orLose, (s.doing t).patiently = .raising id orLose none →
    ⟨t, id, .upgradeable⟩ ∈ s.tokens

structure Tallied (s : Threads) : Prop where
  owns : ∀ t, Owns s t
  holds : ∀ id, s.locks.holdsOf id = Token.holdsOn id s.tokens
  compatible : s.tokens.Pairwise Token.Compatible
  ahead : ∀ id, s.locks.next ≤ id → s.locks.get? id = none

variable {s s' : Threads} {t : Thread} {e : Event} {id : LockId} {access : Access} {orLose : Bool}
  {within : Option Duration}

theorem tallied_start : Tallied {} where
  owns t :=
    { once := List.nodup_nil
      ledger id := by simp [Locks.heldBy, Table.get?, Table.lookup, Table.empty, Has, Takes,
        Doing.patiently]
      fresh id takes := by simp [Takes, Doing.patiently] at takes
      raising id orLose about := by simp [Doing.patiently] at about }
  holds id := rfl
  compatible := .nil
  ahead id _ := rfl

theorem owns_untouched (owns : Owns s t) (untouched : Untouched t s s') : Owns s' t := by
  have has (id : LockId) : s'.Has t id ↔ s.Has t id :=
    exists_congr fun access => untouched.tokens id access
  have takes (id : LockId) : s'.Takes t id ↔ s.Takes t id := by rw [Takes, Takes, untouched.doing]
  constructor
  · rw [untouched.ledger]
    exact owns.once
  · intro id
    rw [untouched.ledger, has, takes]
    exact owns.ledger id
  · intro id
    rw [has, takes]
    exact owns.fresh id
  · intro id orLose
    rw [untouched.doing, untouched.tokens]
    exact owns.raising id orLose

theorem not_takes_idle (idle : s.doing t = .nothing) (id : LockId) : ¬s.Takes t id := by
  simp [Takes, idle, Doing.patiently]

theorem not_takes_raising (waits : s.doing t = .raising id orLose within) (other : LockId) :
    ¬s.Takes t other := by
  simp [Takes, waits, Doing.patiently]

theorem takes_taking (waits : s.doing t = .taking id access within) {other : LockId} :
    s.Takes t other ↔ other = id := by
  simp [Takes, waits, Doing.patiently, eq_comm]

theorem owns_of_idle (idle : s.doing t = .nothing) (once : (s.locks.heldBy t).Nodup)
    (ledger : ∀ id, id ∈ s.locks.heldBy t ↔ s.Has t id) : Owns s t where
  once := once
  ledger id := by rw [ledger, or_iff_left (not_takes_idle idle id)]
  fresh id takes := absurd takes (not_takes_idle idle id)
  raising id orLose about := by simp [idle, Doing.patiently] at about

theorem owns_of_taking (waits : s.doing t = .taking id access within)
    (once : (s.locks.heldBy t).Nodup)
    (ledger : ∀ other, other ∈ s.locks.heldBy t ↔ s.Has t other ∨ other = id)
    (fresh : ¬s.Has t id) : Owns s t where
  once := once
  ledger other := by rw [ledger, takes_taking waits]
  fresh other takes := (takes_taking waits).mp takes ▸ fresh
  raising other orLose about := by simp [waits, Doing.patiently] at about

theorem owns_of_raising (waits : s.doing t = .raising id orLose within)
    (once : (s.locks.heldBy t).Nodup) (ledger : ∀ id, id ∈ s.locks.heldBy t ↔ s.Has t id)
    (has : ⟨t, id, .upgradeable⟩ ∈ s.tokens) : Owns s t where
  once := once
  ledger other := by rw [ledger, or_iff_left (not_takes_raising waits other)]
  fresh other takes := absurd takes (not_takes_raising waits other)
  raising other orLose about := by
    simp only [waits, Doing.patiently, Doing.raising.injEq] at about
    exact about.1 ▸ has

theorem ledger_of_still (owns : Owns s t) (still : ∀ id, ¬s.Takes t id) :
    ∀ id, id ∈ s.locks.heldBy t ↔ s.Has t id := by
  intro id
  rw [owns.ledger, or_iff_left (still id)]

theorem has_iff : s.Has t id ↔ ∃ k ∈ s.tokens, k.IsOf t id := by
  constructor
  · rintro ⟨access, member⟩
    exact ⟨_, member, rfl, rfl⟩
  · rintro ⟨k, member, rfl, rfl⟩
    exact ⟨k.access, member⟩

theorem has_raised {ls : Locks} {doing : Thread → Doing} {other : LockId} :
    Has ⟨ls, s.tokens.map (·.raisedBy t id), doing⟩ t other ↔ s.Has t other := by
  simp [has_iff, Token.IsOf]

theorem owns_released (owns : Owns s t) (compatible : s.tokens.Pairwise Token.Compatible)
    (has : ⟨t, id, access⟩ ∈ s.tokens) (still : ∀ id, ¬s.Takes t id) {doing : Thread → Doing}
    (idle : doing t = .nothing) :
    Owns ⟨s.locks.release t id, s.tokens.erase ⟨t, id, access⟩, doing⟩ t := by
  have held : (s.locks.release t id).heldBy t = Locks.swapOut (s.locks.heldBy t) id :=
    Locks.heldBy_release.trans (if_pos rfl)
  refine owns_of_idle idle (held ▸ Locks.nodup_swapOut owns.once) fun other => ?_
  rw [held, Locks.mem_swapOut owns.once, ledger_of_still owns still,
    Token.erase_eq_filter compatible has]
  simp [Has, Token.IsOf, and_comm]

/-- What the step of a thread leaves of what it has itself. -/
theorem step_owns (tallied : Tallied s) (step : Step t s e s') : Owns s' t := by
  have owns := tallied.owns t
  have done (x : Doing) : update s.doing t x t = x := Function.update_self ..
  cases step with
  | created idle => exact owns_untouched owns ⟨rfl, rfl, fun _ _ => Iff.rfl⟩
  | disposed idle => exact owns_untouched owns ⟨rfl, rfl, fun _ _ => Iff.rfl⟩
  | refused idle fails => exact owns
  | @entered id access timeout _ idle passes =>
    obtain ⟨-, absent, rfl⟩ := Locks.enter_ok.mp passes
    have known := ledger_of_still owns (not_takes_idle idle)
    have held : (s.locks.register t id).heldBy t = s.locks.heldBy t ++ [id] :=
      Locks.heldBy_register.trans (if_pos rfl)
    refine owns_of_taking (done _) ?_ ?_ ?_
    · rw [held, List.nodup_append]
      refine ⟨owns.once, List.nodup_cons.mpr ⟨List.not_mem_nil, .nil⟩, ?_⟩
      rintro a member b new rfl
      exact absent (List.mem_singleton.mp new ▸ member)
    · intro other
      rw [held, List.mem_append, known, List.mem_singleton]
      exact Iff.rfl
    · exact fun had => absent ((known id).mpr had)
  | @taken id access within waits room =>
    refine owns_of_idle (done _) owns.once fun other => ?_
    refine (owns.ledger other).trans ?_
    rw [takes_taking waits]
    simp [Has, exists_or, or_comm]
  | @timedOut id access after waits policy =>
    have held : (s.locks.strike t id).heldBy t = Locks.swapOut (s.locks.heldBy t) id :=
      Locks.heldBy_strike.trans (if_pos rfl)
    have fresh := owns.fresh id ((takes_taking waits).mpr rfl)
    refine owns_of_idle (done _) (held ▸ Locks.nodup_swapOut owns.once) fun other => ?_
    rw [held, Locks.mem_swapOut owns.once, owns.ledger, takes_taking waits]
    constructor
    -- the struck entry was not one of a token, so no token loses its own
    · rintro ⟨differs, had | same⟩
      · exact had
      · exact absurd same differs
    · intro had
      refine ⟨?_, .inl had⟩
      rintro rfl
      exact fresh had
  | waitedOn waits policy => exact owns_untouched owns (warned_alike (.waitedOn waits policy)).1
  | began idle has =>
    have known := ledger_of_still owns (not_takes_idle idle)
    exact owns_of_raising (done _) owns.once known has
  | raised waits alone =>
    refine owns_of_idle (done _) owns.once fun other => ?_
    refine (ledger_of_still owns (not_takes_raising waits) other).trans ?_
    exact has_raised.symm
  | kept waits policy =>
    have known := ledger_of_still owns (not_takes_raising waits)
    exact owns_of_idle (done _) owns.once known
  | @lost id _ waits policy =>
    have has : ⟨t, id, .upgradeable⟩ ∈ s.tokens :=
      owns.raising id true (by rw [waits]; rfl)
    exact owns_released owns tallied.compatible has (not_takes_raising waits) (done _)
  | raisesOn waits policy => exact owns_untouched owns (warned_alike (.raisesOn waits policy)).1
  | dropped idle has =>
    exact owns_released owns tallied.compatible has (not_takes_idle idle) idle

theorem step_holds (tallied : Tallied s) (step : Step t s e s') (lock : LockId) :
    s'.locks.holdsOf lock = Token.holdsOn lock s'.tokens := by
  have before := tallied.holds
  have released {id : LockId} {access : Access} (has : ⟨t, id, access⟩ ∈ s.tokens) :
      (s.locks.release t id).holdsOf lock =
        Token.holdsOn lock (s.tokens.erase ⟨t, id, access⟩) := by
    rw [Token.erase_eq_filter tallied.compatible has, Token.holdsOn_without,
      Locks.holdsOf_release, before, before]
  cases step with
  | created idle =>
    exact (Locks.holdsOf_create _ (tallied.ahead _ (Nat.le_refl _))).trans (before lock)
  | disposed idle => exact Locks.holdsOf_dispose.trans (before lock)
  | entered idle passes =>
    obtain ⟨-, -, rfl⟩ := Locks.enter_ok.mp passes
    exact before lock
  | taken waits room =>
    obtain ⟨l, there, -⟩ := room
    rw [Token.holdsOn_concat, Locks.holdsOf_letIn t _ there, before, before]
  | raised waits alone => rw [Token.holdsOn_raised, Locks.holdsOf_raise, before, before]
  | lost waits policy => exact released ((tallied.owns t).raising _ true (by rw [waits]; rfl))
  | dropped idle has => exact released has
  | _ => exact before lock

theorem step_ahead (tallied : Tallied s) (step : Step t s e s') :
    ∀ id, s'.locks.next ≤ id → s'.locks.get? id = none := by
  have before := tallied.ahead
  cases step with
  | created idle =>
    intro id later
    exact (Table.get?_insert_of_ne s.locks.table (Nat.ne_of_gt later) _).trans
      (before id (Nat.le_of_succ_le later))
  | disposed idle => exact fun id later => Locks.get?_modify_none (before id later)
  | entered idle passes =>
    obtain ⟨-, -, rfl⟩ := Locks.enter_ok.mp passes
    exact before
  | taken waits room => exact fun id later => Locks.get?_modify_none (before id later)
  | raised waits alone => exact fun id later => Locks.get?_modify_none (before id later)
  | lost waits policy => exact fun id later => Locks.get?_modify_none (before id later)
  | dropped idle has => exact fun id later => Locks.get?_modify_none (before id later)
  | _ => exact before

theorem step_compatible (tallied : Tallied s) (step : Step t s e s') :
    s'.tokens.Pairwise Token.Compatible := by
  have before := tallied.compatible
  have holds {k : Token} {l : Lock} (member : k ∈ s.tokens) (there : s.locks.get? k.lock = some l) :
      k.hold ∈ l.holds := by
    have held : k.hold ∈ s.locks.holdsOf k.lock := by
      rw [tallied.holds]
      exact Token.mem_holdsOn.mpr member
    simpa [Locks.holdsOf, there] using held
  cases step with
  | @taken id access _ waits room =>
    obtain ⟨l, there, room⟩ := room
    simp only [Lock.keepsOut, List.any_eq_false, Bool.not_eq_true] at room
    refine List.pairwise_append.mpr ⟨before, List.pairwise_singleton _ _, ?_⟩
    intro k member new newest same
    rw [List.mem_singleton] at newest
    subst newest
    refine ⟨?_, room _ (holds member ((congrArg s.locks.get? same).trans there))⟩
    rintro mine
    have has : s.Has t id := has_iff.mpr ⟨k, member, mine, same⟩
    exact (tallied.owns t).fresh id ((takes_taking waits).mpr rfl) has
  | @raised id _ _ waits alone =>
    obtain ⟨l, there, alone⟩ := alone
    simp only [Lock.contested, List.any_eq_false, bne_iff_ne, Decidable.not_not] at alone
    refine List.pairwise_map.mpr (before.imp_of_mem ?_)
    intro a b first second compatible same
    rw [Token.lock_raisedBy, Token.lock_raisedBy] at same
    obtain ⟨apart, admitted⟩ := compatible same
    -- all tokens of the uncontested lock are this thread's, and it has but one
    have elsewhere : a.lock ≠ id := by
      intro here
      have mine : a.thread = t := alone _ (holds first (here ▸ there))
      have theirs : b.thread = t := alone _ (holds second (same ▸ here ▸ there))
      exact apart (mine.trans theirs.symm)
    have left : a.raisedBy t id = a := if_neg fun here => elsewhere here.2
    have right : b.raisedBy t id = b := if_neg fun here => elsewhere (same.trans here.2)
    rw [left, right]
    exact ⟨apart, admitted⟩
  | lost waits policy => exact before.sublist List.erase_sublist
  | dropped idle has => exact before.sublist List.erase_sublist
  | _ => exact before

theorem tallied_step (tallied : Tallied s) (step : Step t s e s') : Tallied s' where
  owns u := by
    by_cases mine : t = u
    · exact mine ▸ step_owns tallied step
    · exact owns_untouched (tallied.owns u) (step_untouched step mine)
  holds := step_holds tallied step
  compatible := step_compatible tallied step
  ahead := step_ahead tallied step

theorem tallied_of_reached (reached : Reached s) : Tallied s := by
  induction reached with
  | here => exact tallied_start
  | onward before may step ih => exact tallied_step ih step

theorem count_of_owns (owns : Owns s t) :
    (s.Has t id → (s.locks.heldBy t).count id = 1) ∧
    (s.Takes t id → (s.locks.heldBy t).count id = 1 ∧ ¬s.Has t id) ∧
    (¬s.Has t id → ¬s.Takes t id → (s.locks.heldBy t).count id = 0) := by
  have once (inside : s.Has t id ∨ s.Takes t id) : (s.locks.heldBy t).count id = 1 :=
    List.count_eq_one_of_mem owns.once ((owns.ledger id).mpr inside)
  refine ⟨fun has => once (.inl has), fun takes => ⟨once (.inr takes), owns.fresh id takes⟩, ?_⟩
  intro hasNot takesNot
  apply List.count_eq_zero_of_not_mem
  rw [owns.ledger]
  exact not_or.mpr ⟨hasNot, takesNot⟩

theorem held_refuses (tallied : Tallied s) (has : s.Has t id)
    (usable : s.locks.isDisposed id = false) (access : Access) :
    (∀ timeout, s.locks.attempt t id access timeout = .refused (.recursive access)) ∧
    (s.doing t = .nothing → Step t s (.refused id access (.recursive access)) s) ∧
    (∀ timeout s', ¬Step t s (.entered id access timeout) s') ∧
    ∀ cause s', Step t s (.refused id access cause) s' → cause = .recursive access ∧ s' = s := by
  have owns := tallied.owns t
  have held : id ∈ s.locks.heldBy t := (owns.ledger id).mpr (.inl has)
  have fails : s.locks.enter t id access = .error (.recursive access) :=
    Locks.enter_error.mpr (.inr ⟨usable, held, rfl⟩)
  refine ⟨fun timeout => by rw [Locks.attempt_eq, fails], fun idle => .refused idle fails, ?_, ?_⟩
  · intro timeout s' step
    cases step with
    | entered idle passes => cases fails.symm.trans passes
  · intro cause s' step
    cases step with
    | refused idle fails' => exact ⟨(Except.error.inj (fails.symm.trans fails')).symm, rfl⟩
    | timedOut waits policy => exact absurd has (owns.fresh id ((takes_taking waits).mpr rfl))

theorem hold_of_token (tallied : Tallied s) (has : ⟨t, id, access⟩ ∈ s.tokens) :
    ⟨t, access⟩ ∈ s.locks.holdsOf id := by
  rw [tallied.holds]
  exact Token.mem_holdsOn.mpr has

theorem lock_of_token (tallied : Tallied s) (has : ⟨t, id, access⟩ ∈ s.tokens) :
    ∃ l, s.locks.get? id = some l := by
  have held := hold_of_token tallied has
  unfold Locks.holdsOf at held
  cases there : s.locks.get? id with
  | none => simp [there] at held
  | some l => exact ⟨l, rfl⟩

theorem kept_has (reached : Reached s) (call : Call t (.began id false) (.kept id) s s') :
    ⟨t, id, .upgradeable⟩ ∈ s'.tokens ∧ ⟨t, .upgradeable⟩ ∈ s'.locks.holdsOf id ∧
      (s'.locks.heldBy t).count id = 1 ∧ Untouched t s s' := by
  have tallied := tallied_of_reached (reached.call call)
  obtain ⟨u, aside, same⟩ := kept_call call
  have untouched := untouched_trans (others_untouched aside) (untouched_of_same same)
  obtain ⟨b, c, begun, -, -⟩ := call
  cases begun with
  | began idle has =>
    have still : ⟨t, id, .upgradeable⟩ ∈ s'.tokens := (untouched.tokens id .upgradeable).mpr has
    exact ⟨still, hold_of_token tallied still,
      (count_of_owns (tallied.owns t)).1 ⟨.upgradeable, still⟩, untouched⟩

theorem lost_has_not (reached : Reached s) {cause : LockRefusal}
    (call : Call t (.began id true) (.lost id cause) s s') :
    ¬s'.Has t id ∧ (∀ access, ⟨t, access⟩ ∉ s'.locks.holdsOf id) ∧
      (s'.locks.heldBy t).count id = 0 := by
  have tallied := tallied_of_reached (reached.call call)
  obtain ⟨u, v, aside, dropped, same⟩ := lost_call call
  have between : Reached u := run_trans reached (aside.mono fun _ _ _ => trivial)
  have before := tallied_of_reached between
  cases dropped with
  | dropped idle has =>
    have gone : ¬s'.Has t id := by
      rw [has_iff, same.tokens, Token.erase_eq_filter before.compatible has]
      simp
    have still := not_takes_idle ((same.doing t not_false).trans idle) id
    refine ⟨gone, ?_, (count_of_owns (tallied.owns t)).2.2 gone still⟩
    intro access held
    rw [tallied.holds] at held
    exact gone ⟨access, Token.mem_holdsOn.mp held⟩

/-- Whatever threads come to, tokens and ledgers keep step; an acquisition or an upgrade that is
tried at once is a run of their steps. A ledger names a lock once if its thread has a token of it or
is waiting for one, and else not at all. A lock that a thread has is refused to it as taken already,
for whatever access. An acquisition in vain is as if it had not been tried, and so is an upgrade in
vain that leaves the token; one that does not is as if the token had been dropped. The holds of a
lock are those of its tokens; they belong to different threads, a writer is alone, and there is at
most one upgradeable reader. -/
theorem tokens_and_ledgers_keep_step (reached : Reached s) :
    (∀ t, s.doing t = .nothing →
      (∀ id access timeout,
        s.Acquires t id access timeout (s.locks.attempt t id access timeout)) ∧
      ∀ id orLose, ⟨t, id, .upgradeable⟩ ∈ s.tokens →
        s.Upgrades t id orLose (s.locks.attemptUpgrade t id)) ∧
    (∀ t id, (s.Has t id → (s.locks.heldBy t).count id = 1) ∧
      (s.Takes t id → (s.locks.heldBy t).count id = 1 ∧ ¬s.Has t id) ∧
      (¬s.Has t id → ¬s.Takes t id → (s.locks.heldBy t).count id = 0)) ∧
    (∀ t id, s.Has t id → s.locks.isDisposed id = false → ∀ access,
      (∀ timeout, s.locks.attempt t id access timeout = .refused (.recursive access)) ∧
      (s.doing t = .nothing → Step t s (.refused id access (.recursive access)) s) ∧
      (∀ timeout s', ¬Step t s (.entered id access timeout) s') ∧
      ∀ cause s', Step t s (.refused id access cause) s' →
        cause = .recursive access ∧ s' = s) ∧
    (∀ t id access cause s',
      (s.doing t = .nothing → Step t s (.refused id access cause) s' → s' = s) ∧
      ∀ timeout, Call t (.entered id access timeout) (.refused id access cause) s s' →
        Untouched t s s' ∧ ∃ u, Run (Others t) s u ∧ Same u s') ∧
    (∀ t id s', Call t (.began id false) (.kept id) s s' →
      (⟨t, id, .upgradeable⟩ ∈ s'.tokens ∧ ⟨t, .upgradeable⟩ ∈ s'.locks.holdsOf id ∧
        (s'.locks.heldBy t).count id = 1 ∧ Untouched t s s') ∧
      ∃ u, Run (Others t) s u ∧ Same u s') ∧
    (∀ t id cause s', Call t (.began id true) (.lost id cause) s s' →
      (¬s'.Has t id ∧ (∀ access, ⟨t, access⟩ ∉ s'.locks.holdsOf id) ∧
        (s'.locks.heldBy t).count id = 0) ∧
      ∃ u v, Run (Others t) s u ∧ Step t u (.dropped ⟨t, id, .upgradeable⟩) v ∧ Same v s') ∧
    (∀ id, s.locks.holdsOf id = Token.holdsOn id s.tokens) ∧
    s.tokens.Pairwise fun a b => a.lock = b.lock → a.thread ≠ b.thread ∧ a.access ≠ .write ∧
      b.access ≠ .write ∧ ¬(a.access = .upgradeable ∧ b.access = .upgradeable) := by
  have tallied := tallied_of_reached reached
  refine ⟨fun t idle => ⟨attempt_steps idle, ?_⟩, fun t id => count_of_owns (tallied.owns t),
    fun t id has usable access => held_refuses tallied has usable access, ?_,
    fun t id s' call => ⟨kept_has reached call, kept_call call⟩,
    fun t id cause s' call => ⟨lost_has_not reached call, lost_call call⟩, tallied.holds, ?_⟩
  · intro id orLose has
    obtain ⟨l, there⟩ := lock_of_token tallied has
    exact attemptUpgrade_steps idle has there orLose
  · intro t id access cause s'
    refine ⟨fun idle step => ?_, fun timeout call => ?_⟩
    · cases step with
      | refused => rfl
      | timedOut waits policy => cases idle.symm.trans waits
    · obtain ⟨u, aside, same⟩ := refused_call call
      exact ⟨untouched_trans (others_untouched aside) (untouched_of_same same), u, aside, same⟩
  · refine tallied.compatible.imp fun {a b} compatible same => ?_
    obtain ⟨apart, admitted⟩ := compatible same
    refine ⟨apart, ?_⟩
    revert admitted
    cases a.access <;> cases b.access <;> simp [Access.excludes]

def contested : Threads :=
  let made : Locks := (Locks.create {} { timeout := .ofMillis 30, policy := .fail }).2
  { locks := (made.grant 1 1 .read).grant 2 1 .upgradeable,
    tokens := [⟨1, 1, .read⟩, ⟨2, 1, .upgradeable⟩] }

theorem reached_contested : Reached contested := by
  have made :
      Reached { locks := (Locks.create {} { timeout := .ofMillis 30, policy := .fail }).2 } :=
    (Run.here {}).onward trivial (.created (t := 1) rfl)
  have first : Reached ⟨_, [⟨1, 1, .read⟩], _⟩ := made.granted rfl none rfl
  exact first.granted rfl none rfl

/-- The reader does not get the lock again; a third thread waits for it in vain. The upgrade in vain
either leaves the token or costs it. -/
theorem contested_attempts_leave_no_trace :
    contested.locks.attempt 1 1 .write none = .refused (.recursive .write) ∧
    (∃ s cause, Call 3 (.entered 1 .write none) (.refused 1 .write cause) contested s ∧
      Untouched 3 contested s) ∧
    (∃ s, Call 2 (.began 1 false) (.kept 1) contested s ∧ ⟨2, 1, .upgradeable⟩ ∈ s.tokens ∧
      (s.locks.heldBy 2).count 1 = 1) ∧
    ∃ s cause, Call 2 (.began 1 true) (.lost 1 cause) contested s ∧ ¬s.Has 2 1 ∧
      (s.locks.heldBy 2).count 1 = 0 := by
  obtain ⟨-, -, recursive, refused, kept, lost, -, -⟩ :=
    tokens_and_ledgers_keep_step reached_contested
  have has : contested.Has 1 1 := ⟨.read, List.mem_cons_self⟩
  have upgradeable : ⟨2, 1, .upgradeable⟩ ∈ contested.tokens := by decide
  have vain : Call 3 (.entered 1 .write none)
      (.refused 1 .write (.timeout .write (.ofMillis 30))) contested _ :=
    ⟨_, _, .entered rfl rfl, .here _, .timedOut rfl rfl⟩
  have leaves : Call 2 (.began 1 false) (.kept 1) contested _ :=
    ⟨_, _, .began rfl upgradeable, .here _, .kept rfl rfl⟩
  have costs : Call 2 (.began 1 true) (.lost 1 (.timeout .write (.ofMillis 30))) contested _ :=
    ⟨_, _, .began rfl upgradeable, .here _, .lost rfl rfl⟩
  obtain ⟨⟨still, -, once, -⟩, -⟩ := kept 2 1 _ leaves
  obtain ⟨⟨gone, -, absent⟩, -⟩ := lost 2 1 _ _ costs
  exact ⟨(recursive 1 1 has (by decide) .write).1 none,
    ⟨_, _, vain, ((refused 3 1 .write _ _).2 _ vain).1⟩, ⟨_, leaves, still, once⟩,
    _, _, costs, gone, absent⟩

end Threads
end UndoableLists
