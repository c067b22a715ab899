import UndoableLists.Lock.Basic

/-!
What the work of one thread leaves of the locks. The thread's ledger has grown by what the work
took; a lock is the one it was but for its holds, and no hold is new unless the work took it. A lock
that is taken and released again is eased: others may have let go of it meanwhile, nobody came.
Where it was free, taking it and letting it go leaves no trace at all.
-/
namespace UndoableLists

def Lock.withHolds (l : Lock) (holds : List Hold) : Lock := { l with holds }

namespace Locks

def holdsOf (ls : Locks) (id : LockId) : List Hold := ((ls.get? id).map (·.holds)).getD []

/-- `taken` are the locks that the thread took and still has. -/
structure Eased (thread : Thread) (taken : List LockId) (before after : Locks) : Prop where
  ledger : after.heldBy thread = before.heldBy thread ++ taken
  next : after.next = before.next
  lock : ∀ id, ∃ holds, after.get? id = (before.get? id).map (·.withHolds holds) ∧
    ∀ h ∈ holds, h ∈ before.holdsOf id ∨ id ∈ taken ∧ h.thread = thread

/-- A lock that a thread can have at once, for whatever access. -/
def Free (ls : Locks) (thread : Thread) (id : LockId) : Prop :=
  id ∉ ls.heldBy thread ∧ ∃ l, ls.get? id = some l ∧ l.disposed = false ∧ l.holds = []

section
variable {thread : Thread} {taken more : List LockId} {id : LockId} {a b c : Locks}

theorem heldBy_ledgerWith (ls : Locks) (table : Table LockId Lock) (other : Thread)
    (ids : List LockId) :
    heldBy { ls with table, ledger := ls.ledgerWith thread ids } other =
      if other = thread then ids else ls.heldBy other := by
  unfold heldBy ledgerWith
  cases ids with
  | nil => simp only [List.isEmpty_nil, ↓reduceIte, Table.get?_erase]; split <;> rfl
  | cons i rest =>
    simp only [List.isEmpty_cons, Bool.false_eq_true, ↓reduceIte, Table.get?_insert]
    split <;> rfl

theorem eased_refl (ls : Locks) : Eased thread [] ls ls where
  ledger := (List.append_nil _).symm
  next := rfl
  lock id := by
    refine ⟨ls.holdsOf id, ?_, fun h member => .inl member⟩
    cases found : ls.get? id with
    | none => rfl
    | some l => simp [holdsOf, found, Lock.withHolds]

theorem holdsOf_eq {holds : List Hold} (same : b.get? id = (a.get? id).map (·.withHolds holds)) :
    ∀ h ∈ b.holdsOf id, h ∈ holds := by
  intro h member
  unfold holdsOf at member
  rw [same] at member
  cases found : a.get? id with
  | none => simp [found] at member
  | some l => simpa [found, Lock.withHolds] using member

theorem eased_trans (first : Eased thread taken a b) (second : Eased thread more b c) :
    Eased thread (taken ++ more) a c where
  ledger := by rw [second.ledger, first.ledger, List.append_assoc]
  next := second.next.trans first.next
  lock id := by
    obtain ⟨mid, middle, fromFirst⟩ := first.lock id
    obtain ⟨holds, final, fromSecond⟩ := second.lock id
    refine ⟨holds, ?_, ?_⟩
    · rw [final, middle]
      cases a.get? id <;> rfl
    · intro h member
      cases fromSecond h member with
      | inl old =>
        cases fromFirst h (holdsOf_eq middle h old) with
        | inl older => exact .inl older
        | inr new => exact .inr ⟨List.mem_append_left _ new.1, new.2⟩
      | inr new => exact .inr ⟨List.mem_append_right _ new.1, new.2⟩

theorem eased_modify {f : Lock → Lock} {ledger : Table Thread (List LockId)}
    (grown : heldBy { a with table := a.table.modify id f, ledger } thread =
      a.heldBy thread ++ taken)
    (shape : ∀ l, ∃ holds, f l = l.withHolds holds ∧
      ∀ h ∈ holds, h ∈ l.holds ∨ id ∈ taken ∧ h.thread = thread) :
    Eased thread taken a { a with table := a.table.modify id f, ledger } where
  ledger := grown
  next := rfl
  lock other := by
    have refl : Eased thread [] a a := eased_refl a
    obtain ⟨same, untouched, old⟩ := refl.lock other
    have found : get? { a with table := a.table.modify id f, ledger } other =
        if other = id then (a.get? other).map f else a.get? other := Table.get?_modify ..
    rw [found]
    by_cases here : other = id
    · subst here
      cases there : a.get? other with
      | none => exact ⟨[], by simp, by simp⟩
      | some l =>
        obtain ⟨holds, changed, new⟩ := shape l
        refine ⟨holds, by simp [changed], ?_⟩
        simpa [holdsOf, there] using new
    · refine ⟨same, by rw [if_neg here, ← untouched], ?_⟩
      intro h member
      exact .inl ((old h member).resolve_right (by simp))

theorem eased_grant (access : Access) : Eased thread [id] a (a.grant thread id access) := by
  refine eased_modify ?_ ?_
  · rw [heldBy_ledgerWith, if_pos rfl]
  · intro l
    refine ⟨l.holds ++ [⟨thread, access⟩], rfl, ?_⟩
    intro h member
    rw [List.mem_append, List.mem_singleton] at member
    cases member with
    | inl old => exact .inl old
    | inr new => exact .inr ⟨List.mem_singleton_self id, new ▸ rfl⟩

theorem eased_release_other {other : Thread} (differs : other ≠ thread) :
    Eased thread [] a (a.release other id) := by
  refine eased_modify ?_ ?_
  · rw [heldBy_ledgerWith, if_neg differs.symm, List.append_nil]
  · exact fun l => ⟨_, rfl, fun h member => .inl ((List.mem_filter.mp member).1)⟩

theorem eased_releases {yields : List (Thread × LockId)} (others : ∀ y ∈ yields, y.1 ≠ thread) :
    Eased thread [] a (yields.foldl (fun ls y => ls.release y.1 y.2) a) := by
  induction yields generalizing a with
  | nil => exact eased_refl a
  | cons y rest ih =>
    have first : Eased thread [] a (a.release y.1 y.2) :=
      eased_release_other (others y List.mem_cons_self)
    exact eased_trans first (ih fun z member => others z (List.mem_cons_of_mem y member))

theorem eased_release (first : Eased thread [id] a b) :
    Eased thread [] a (b.release thread id) where
  ledger := by
    unfold release
    rw [heldBy_ledgerWith, if_pos rfl, first.ledger, swapOut_concat, List.append_nil]
  next := first.next
  lock other := by
    obtain ⟨holds, changed, old⟩ := first.lock other
    have found : (b.release thread id).get? other =
        if other = id then (b.get? other).map (·.without thread) else b.get? other :=
      Table.get?_modify ..
    rw [found, changed]
    by_cases here : other = id
    · refine ⟨holds.filter (·.thread != thread), ?_, ?_⟩
      · rw [if_pos here, Option.map_map]
        rfl
      · intro h member
        obtain ⟨present, foreign⟩ := List.mem_filter.mp member
        left
        apply (old h present).resolve_right
        intro new
        simp [new.2] at foreign
    · rw [if_neg here]
      refine ⟨holds, rfl, ?_⟩
      intro h member
      exact .inl ((old h member).resolve_right fun new => here (List.mem_singleton.mp new.1))

theorem free_of_idle {settings : Patience} (idle : a.heldBy thread = [])
    (there : a.get? id = some { settings }) : a.Free thread id :=
  ⟨by rw [idle]; exact List.not_mem_nil, _, there, rfl, rfl⟩

theorem isDisposed_eased (eased : Eased thread taken a b) :
    b.isDisposed id = a.isDisposed id := by
  obtain ⟨holds, changed, -⟩ := eased.lock id
  unfold isDisposed
  rw [changed]
  cases a.get? id <;> rfl

theorem usable_of_free (free : a.Free thread id) : a.isDisposed id = false := by
  obtain ⟨-, l, there, usable, -⟩ := free
  rw [isDisposed, there]
  exact usable

theorem free_eased (free : a.Free thread id) (eased : Eased thread [] a b) :
    b.Free thread id := by
  obtain ⟨fresh, l, there, usable, empty⟩ := free
  obtain ⟨holds, changed, old⟩ := eased.lock id
  refine ⟨by rw [eased.ledger, List.append_nil]; exact fresh, l.withHolds holds,
    by rw [changed, there]; rfl, usable, ?_⟩
  rw [List.eq_nil_iff_forall_not_mem]
  intro h member
  have present := (old h member).resolve_right (by simp)
  simp [holdsOf, there, empty] at present

theorem attempt_granted {access : Access} {timeout : Option Duration}
    (granted : a.attempt thread id access timeout = .granted b) :
    b = a.grant thread id access ∧ id ∉ a.heldBy thread ∧
      ∃ l, a.get? id = some l ∧ l.disposed = false ∧ l.keepsOut access = false := by
  unfold attempt at granted
  cases there : a.get? id with
  | none => simp [there] at granted
  | some l =>
    rw [there] at granted
    simp only at granted
    split at granted
    · cases granted
    · rename_i usable
      split at granted
      · cases granted
      · rename_i fresh
        split at granted
        · cases policy : l.settings.policy <;> simp [policy] at granted
        · rename_i room
          refine ⟨(Attempt.granted.inj granted).symm, ?_, l, rfl, by simpa using usable,
            by simpa using room⟩
          simpa [isHeldBy] using fresh

theorem attempt_of_free (free : a.Free thread id) (access : Access) (timeout : Option Duration) :
    a.attempt thread id access timeout = .granted (a.grant thread id access) := by
  obtain ⟨fresh, l, there, usable, empty⟩ := free
  simp [attempt, there, usable, isHeldBy, fresh, Lock.keepsOut, empty]

theorem free_of_granted {timeout : Option Duration}
    (granted : a.attempt thread id .write timeout = .granted b) : a.Free thread id := by
  obtain ⟨-, fresh, l, there, usable, room⟩ := attempt_granted granted
  refine ⟨fresh, l, there, usable, ?_⟩
  rw [List.eq_nil_iff_forall_not_mem]
  intro h member
  have excluded : h.access.excludes .write = true := by cases h.access <;> rfl
  simp only [Lock.keepsOut, List.any_eq_false] at room
  exact room h member excluded

theorem eased_upgrade (first : Eased thread [id] a b)
    (granted : b.attemptUpgrade thread id = .granted c) : Eased thread [id] a c := by
  unfold attemptUpgrade at granted
  cases there : b.get? id with
  | none => simp [there] at granted
  | some l =>
    rw [there] at granted
    simp only at granted
    split at granted
    · cases policy : l.settings.policy <;> simp [policy] at granted
    · obtain rfl := Attempt.granted.inj granted
      refine ⟨first.ledger, first.next, ?_⟩
      intro other
      obtain ⟨holds, changed, old⟩ := first.lock other
      have found : get? { b with table := b.table.modify id (·.raised thread) } other =
          if other = id then (b.get? other).map (·.raised thread) else b.get? other :=
        Table.get?_modify ..
      rw [found, changed]
      by_cases here : other = id
      · refine ⟨holds.map fun h => if h.thread == thread then { h with access := .write } else h,
          ?_, ?_⟩
        · rw [if_pos here, Option.map_map]
          rfl
        · intro h member
          obtain ⟨h', present, rfl⟩ := List.mem_map.mp member
          by_cases own : h'.thread = thread
          · exact .inr ⟨by simp [here], by simp [own]⟩
          · simpa [own] using old h' present
      · exact ⟨holds, by rw [if_neg here], old⟩

def Tidy (ls : Locks) : Prop := ∀ thread, ls.ledger.get? thread ≠ some []

theorem ledgerWith_nonempty (tidy : a.Tidy) (ids : List LockId) :
    ∀ other, (a.ledgerWith thread ids).get? other ≠ some [] := by
  intro other
  unfold ledgerWith
  cases ids with
  | nil =>
    rw [List.isEmpty_nil, if_pos rfl, Table.get?_erase]
    split
    · rintro ⟨⟩
    · exact tidy other
  | cons i rest =>
    rw [List.isEmpty_cons, if_neg Bool.false_ne_true, Table.get?_insert]
    split
    · simp
    · exact tidy other

/-- Ledgers are tidy from the start, and whatever is done with locks leaves them tidy. -/
theorem tidy_kept : ({} : Locks).Tidy ∧ ∀ ls : Locks, ls.Tidy →
    (∀ settings, (ls.create settings).2.Tidy) ∧
    (∀ thread id access, (ls.grant thread id access).Tidy) ∧
    (∀ thread id, (ls.release thread id).Tidy) ∧
    (∀ id, (ls.dispose id).2.Tidy) ∧
    ∀ thread id after, ls.attemptUpgrade thread id = .granted after → after.Tidy := by
  refine ⟨nofun, fun ls tidy => ⟨fun _ => tidy, fun _ _ _ => ledgerWith_nonempty tidy _,
    fun _ _ => ledgerWith_nonempty tidy _, fun _ => tidy, fun thread id after granted => ?_⟩⟩
  unfold attemptUpgrade at granted
  split at granted
  · cases granted
  · split at granted
    · split at granted <;> cases granted
    · cases granted
      exact tidy

theorem ledgerWith_heldBy (tidy : a.Tidy) {ids : List LockId}
    (entered : b.ledger = a.ledger.insert thread ids) :
    b.ledgerWith thread (a.heldBy thread) = a.ledger := by
  rw [ledgerWith, entered, heldBy]
  cases before : a.ledger.get? thread with
  | none =>
    rw [Option.getD_none, List.isEmpty_nil, if_pos rfl, Table.erase_insert,
      Table.erase_absent before]
  | some held =>
    have busy : held.isEmpty = false := by
      cases held with
      | nil => exact absurd before (tidy thread)
      | cons _ _ => rfl
    rw [Option.getD_some, busy, if_neg Bool.false_ne_true, Table.insert_insert,
      Table.insert_present before]

theorem release_grant (tidy : a.Tidy) (free : a.Free thread id) (access : Access) :
    (a.grant thread id access).release thread id = a := by
  obtain ⟨-, l, here, -, unheld⟩ := free
  have held : (a.grant thread id access).heldBy thread = a.heldBy thread ++ [id] := by
    rw [grant, heldBy_ledgerWith, if_pos rfl]
  have entered : (a.grant thread id access).ledger =
      a.ledger.insert thread (a.heldBy thread ++ [id]) := by
    simp [grant, ledgerWith]
  have table : (a.grant thread id access).table.modify id (·.without thread) = a.table := by
    rw [grant, Table.modify_modify]
    refine Table.modify_same fun l' there => ?_
    obtain rfl := Option.some.inj (here.symm.trans there)
    obtain ⟨settings, disposed, holds⟩ := l
    obtain rfl : holds = [] := unheld
    simp [Lock.holdingAs, Lock.without]
  rw [release, held, swapOut_concat, ledgerWith_heldBy tidy entered, table]
  rfl

end

end Locks

end UndoableLists
