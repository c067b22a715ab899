import UndoableLists.Lock.Scope
import UndoableLists.Proofs.Lock.Ease

/-!
One lock that only one thread uses. At every moment the thread holds it in one way or not at all,
and that decides how its next attempt ends. Main statements: how attempts to have the lock end, and
what taking, raising, releasing and disposing of it make of the hold.
-/
namespace UndoableLists.Locks

/-- A lock that nobody but a thread holds, that thread in this way or not at all; the thread holds
no lock that is still to be made. -/
structure HeldAs (ls : Locks) (thread : Thread) (id : LockId) (access : Option Access)
    (disposed : Bool) : Prop where
  made : id < ls.next
  lock : ∃ l, ls.get? id = some l ∧ l.disposed = disposed ∧
    l.holds = (access.map (⟨thread, ·⟩)).toList
  ledger : (ls.heldBy thread).count id = access.toList.length
  older : ∀ held ∈ ls.heldBy thread, held < ls.next

section
variable {ls : Locks} {thread : Thread} {id : LockId} {access : Access} {disposed : Bool}

theorem heldAs_created (settings : Patience) (older : ∀ held ∈ ls.heldBy thread, held < ls.next) :
    (ls.create settings).2.HeldAs thread ls.next none false where
  made := Nat.lt_succ_self _
  lock := ⟨{ settings }, Table.get?_insert_self .., rfl, rfl⟩
  ledger := List.count_eq_zero.mpr fun member => Nat.lt_irrefl _ (older _ member)
  older held member := Nat.lt_succ_of_lt (older held member)

theorem heldAs_changed (changed : Locks) (f : Lock → Lock) (ids : List LockId)
    {before after : Option Access} {gone : Bool} (held : ls.HeldAs thread id before disposed)
    (lock : ∀ l, l.disposed = disposed → l.holds = (before.map (⟨thread, ·⟩)).toList →
      (f l).disposed = gone ∧ (f l).holds = (after.map (⟨thread, ·⟩)).toList)
    (count : ids.count id = after.toList.length) (older : ∀ i ∈ ids, i ∈ ls.heldBy thread ∨ i = id)
    (table : changed.table = ls.table.modify id f) (ledger : changed.heldBy thread = ids)
    (next : changed.next = ls.next) :
    changed.HeldAs thread id after gone where
  made := next ▸ held.made
  lock := by
    obtain ⟨l, there, usable, holds⟩ := held.lock
    have now : changed.get? id = some (f l) := by
      rw [get?, table, Table.get?_modify_present there, if_pos rfl]
    exact ⟨f l, now, lock l usable holds⟩
  ledger := ledger ▸ count
  older i member := by
    rw [next]
    rcases older i (ledger ▸ member) with old | rfl
    · exact held.older i old
    · exact held.made

theorem heldAs_grant (held : ls.HeldAs thread id none disposed) :
    (ls.grant thread id access).HeldAs thread id (some access) disposed := by
  refine heldAs_changed _ (·.holdingAs thread access) (ls.heldBy thread ++ [id]) held
    ?_ ?_ ?_ rfl ?_ rfl
  · intro l usable holds
    exact ⟨usable, by rw [Lock.holdingAs, holds]; rfl⟩
  · rw [List.count_append, held.ledger, List.count_singleton_self]
    rfl
  · intro i member
    exact (List.mem_append.mp member).imp_right List.mem_singleton.mp
  · exact (heldBy_ledgerWith ..).trans (if_pos rfl)

theorem heldAs_release (held : ls.HeldAs thread id (some access) disposed) :
    (ls.release thread id).HeldAs thread id none disposed := by
  refine heldAs_changed _ (·.without thread) (swapOut (ls.heldBy thread) id) held
    ?_ ?_ ?_ rfl ?_ rfl
  · intro l usable holds
    exact ⟨usable, by rw [Lock.without, holds]; simp⟩
  · rw [(swapOut_perm _ id).count_eq, List.count_erase_self, held.ledger]
    rfl
  · intro i member
    exact .inl (List.mem_of_mem_erase ((swapOut_perm _ id).mem_iff.mp member))
  · exact (heldBy_ledgerWith ..).trans (if_pos rfl)

theorem heldAs_raised (held : ls.HeldAs thread id (some access) disposed) :
    HeldAs { ls with table := ls.table.modify id (·.raised thread) } thread id (some .write)
      disposed := by
  refine heldAs_changed _ (·.raised thread) (ls.heldBy thread) held ?_ held.ledger
    (fun i member => .inl member) rfl rfl rfl
  intro l usable holds
  exact ⟨usable, by rw [Lock.raised, holds]; simp⟩

theorem heldAs_dispose {access : Option Access} (held : ls.HeldAs thread id access disposed) :
    (ls.dispose id).2.HeldAs thread id access true := by
  refine heldAs_changed _ (fun l => { l with disposed := true }) (ls.heldBy thread) held ?_
    held.ledger (fun i member => .inl member) rfl rfl rfl
  exact fun l _ holds => ⟨rfl, holds⟩

theorem free_of_heldAs (held : ls.HeldAs thread id none false) : ls.Free thread id := by
  obtain ⟨l, there, usable, holds⟩ := held.lock
  exact ⟨List.count_eq_zero.mp held.ledger, l, there, usable, holds⟩

theorem attempt_again (held : ls.HeldAs thread id (some access) false) (wanted : Access)
    (timeout : Option Duration) :
    ls.attempt thread id wanted timeout = .refused (.recursive wanted) := by
  obtain ⟨l, there, usable, -⟩ := held.lock
  have holds : ls.isHeldBy id thread = true :=
    List.contains_iff_mem.mpr (List.count_pos_iff.mp (held.ledger ▸ Nat.one_pos))
  simp [attempt, there, usable, holds]

theorem attemptUpgrade_of_heldAs (held : ls.HeldAs thread id (some access) disposed) :
    ls.attemptUpgrade thread id =
      .granted { ls with table := ls.table.modify id (·.raised thread) } := by
  obtain ⟨l, there, -, holds⟩ := held.lock
  simp [attemptUpgrade, there, Lock.contested, holds]

end
end UndoableLists.Locks
