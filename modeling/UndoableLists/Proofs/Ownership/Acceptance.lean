import UndoableLists.Proofs.Capture.Faults
import UndoableLists.Proofs.List.Sequence
import UndoableLists.Proofs.Ownership.Charted
import UndoableLists.Proofs.Ownership.Visits

/-!
Which items a capture list accepts. An item is refused if it comes up twice in a call or is a member
of a live list, unless it is the very item that is replaced; for the first such item the list that
is in the way is named. Undo and redo bring back items that the list had: they are refused only
while another list holds one of them. Main statement: in every world that calls lead to, mutations
and replays are accepted or refused for exactly these reasons.
-/
namespace UndoableLists
variable {α : Type}

namespace Operation

def replaced (contents : List α) : Operation α → List α
  | .set index _ => contents[index]?.toList
  | _ => []

theorem replaced_sublist (op : Operation α) (contents : List α) :
    (op.replaced contents).Sublist contents := by
  cases op with
  | set index item =>
    cases present : contents[index]? with
    | none => simp [replaced, present]
    | some old => simpa [replaced, present] using List.mem_of_getElem? present
  | _ => exact List.nil_sublist contents

/-- With a planned record the items of the operation enter, and at most the one that is replaced
leaves; an operation without items brings none, or only moves a member. -/
theorem handover_of_plan {β ε : Type} [DecidableEq β] {worth : α → β} {contents : List α}
    {op : Operation α} {record : Record α ε} {reply : Reply α}
    (planned : op.plan worth contents = .ok (some record, reply)) :
    (op.items ≠ [] ∧ record.handover .forward = ⟨op.replaced contents, op.items⟩) ∨
    op.items = [] ∧ ((record.handover .forward).entering = [] ∨
      ∃ item, record.handover .forward = ⟨[item], [item]⟩) := by
  cases plans_of_plan planned with
  | push item => exact .inl ⟨List.cons_ne_nil item [], rfl⟩
  | insert index item => exact .inl ⟨List.cons_ne_nil item [], rfl⟩
  | addRange filled => exact .inl ⟨by simpa [items] using filled, rfl⟩
  | insertRange inside filled => exact .inl ⟨by simpa [items] using filled, rfl⟩
  | @set _ item _ present =>
    refine .inl ⟨List.cons_ne_nil item [], ?_⟩
    rw [replaced, present]
    rfl
  | move present inside differ => exact .inr ⟨rfl, .inr ⟨_, rfl⟩⟩
  | _ => exact .inr ⟨rfl, .inl rfl⟩

theorem items_of_idle {β ε : Type} [DecidableEq β] {worth : α → β} {contents : List α}
    {op : Operation α} {reply : Reply α}
    (planned : (op.plan worth contents : Except _ (Plan α ε)) = .ok (none, reply)) :
    op.items = [] := by
  have idle := plan_idle planned
  cases op <;> simp_all [Operation.idle, items]

theorem onSequence_refuses {β : Type} [DecidableEq β] {worth : α → β} {contents : List α}
    {op : Operation α} {cause : ListRefusal} (refused : op.onSequence worth contents = .error cause)
    (fault : CaptureRefusal) : cause ≠ .capture fault := by
  rintro rfl
  cases op <;> simp only [onSequence] at refused <;> (repeat' split at refused) <;> cases refused

end Operation

namespace Site
variable {s : Site α} {t : Handover α}

/-- An exchange of items of which the list owns those that leave: it is done and nothing was in the
way, or the first position is named at which something is. -/
theorem transfer_ends (leavers : ∀ x ∈ s.list.cellsOf t.leaving,
      s.cells.owner x = some s.list.context) :
    let Unfit := Unfit s.cells s.list.context (s.list.cellsOf t.leaving) (s.list.cellsOf t.entering)
    ((∃ given, s.transfer t = .ok given) ∧ ∀ k owner, ¬Unfit k owner) ∨
    ∃ k owner, Unfit k owner ∧ (∀ j < k, ∀ other, ¬Unfit j other) ∧
      s.transfer t = .error (.capture (.alreadyCaptured k owner)) := by
  unfold transfer
  cases access : s.list.access with
  | none =>
    refine .inl ⟨⟨_, rfl⟩, ?_⟩
    rintro k owner ⟨x, here, -⟩
    simp [UndoableList.cellsOf, access] at here
  | some cell =>
    have cells : s.list.cellsOf = List.map cell := by
      funext items
      rw [UndoableList.cellsOf, access]
    rw [cells] at leavers ⊢
    rcases enteringFault?_ends s.cells s.list.context (t.leaving.map cell) (t.entering.map cell)
      with ⟨passes, fits⟩ | ⟨k, owner, first, others, found⟩
    · obtain ⟨distinct, entrants⟩ := enteringFault?_eq_none.mp passes
      obtain ⟨after, notices, done⟩ := exchange_of_entrants distinct leavers entrants
      exact .inl ⟨⟨_, by simp only [done]; rfl⟩, fits⟩
    · refine .inr ⟨k, owner, first, others, ?_⟩
      simp only [exchange, found]
      rfl

end Site

/-- Where nothing is in the way the answer is as it should be; else the first position is named at
which something is, and what. -/
def Decides {β : Type} (blocked : Nat → Context → Prop) (answer : β)
    (r : Outcome ListRefusal β) : Prop :=
  (r = .ok answer ∧ ∀ k d, ¬blocked k d) ∨
  ∃ k d, blocked k d ∧ (∀ j < k, ∀ e, ¬blocked j e) ∧
    r = .error (.refused (.capture (.alreadyCaptured k d)))

section
variable {β : Type} {blocked : Nat → Context → Prop} {answer : β} {r : Outcome ListRefusal β}

theorem Decides.answers (decides : Decides blocked answer r) (free : ∀ k d, ¬blocked k d) :
    r = .ok answer := by
  rcases decides with ⟨done, -⟩ | ⟨k, d, first, -⟩
  · exact done
  · exact absurd first (free k d)

theorem Decides.refuses {k : Nat} {d : Context} (decides : Decides blocked answer r)
    (there : blocked k d) (only : ∀ j e, blocked j e → j = k ∧ e = d) :
    r = .error (.refused (.capture (.alreadyCaptured k d))) := by
  rcases decides with ⟨-, fits⟩ | ⟨j, e, first, -, refused⟩
  · exact absurd there (fits k d)
  · obtain ⟨rfl, rfl⟩ := only j e first
    exact refused

end

namespace World
variable {κ δ : Type} {w : World α κ δ} {l : UndoableList α}

/-- An item that comes with an operation cannot be taken: it comes up before, and then the list
itself is in the way, or a live list has it and it is not the one that is replaced. -/
def Blocked (w : World α κ δ) (l : UndoableList α) (op : Operation α) (k : Nat) (d : Context) :
    Prop :=
  ∃ x, (l.cellsOf op.items)[k]? = some x ∧
    (x ∈ (l.cellsOf op.items).take k ∧ d = l.context ∨
      x ∉ (l.cellsOf op.items).take k ∧ x ∉ l.cellsOf (op.replaced l.contents) ∧
        ∃ m, w.live d = some m ∧ x ∈ m.cellsOf m.contents)

/-- An item that the nearest record brings back is a member of another live list. -/
def Claimed (w : World α κ δ) (l : UndoableList α) (direction : Direction) (k : Nat)
    (d : Context) : Prop :=
  d ≠ l.context ∧ ∃ record rest x m, l.history.side direction = record :: rest ∧
    (l.cellsOf (record.handover direction).entering)[k]? = some x ∧
    w.live d = some m ∧ x ∈ m.cellsOf m.contents

section
variable {record : Record α Edit} {direction : Direction} {next : List α} {k : Nat} {d : Context}

theorem leavers_owned (sound : Sound w) (alive : w.live l.context = some l)
    (turns : record.Turns direction l.contents next) :
    ∀ x ∈ l.cellsOf (record.handover direction).leaving, w.cells.owner x = some l.context := by
  intro x leaves
  have members := UndoableList.cellsOf_subperm (l := l) (Record.leaving_subperm turns.1 turns.2)
  exact (Roster.owner_iff sound.owns trivial).mpr ⟨l, alive, members.subset leaves⟩

theorem commit_decides (sound : Sound w) (alive : w.live l.context = some l)
    (turns : record.Turns direction l.contents next) :
    let Unfit := Site.Unfit w.cells l.context (l.cellsOf (record.handover direction).leaving)
      (l.cellsOf (record.handover direction).entering)
    ((∃ d, Site.commit ⟨l, w.cells⟩ record direction = .ok d) ∧ ∀ k owner, ¬Unfit k owner) ∨
    ∃ k owner, Unfit k owner ∧ (∀ j < k, ∀ other, ¬Unfit j other) ∧
      Site.commit ⟨l, w.cells⟩ record direction =
        .error (.refused (.capture (.alreadyCaptured k owner))) := by
  obtain ⟨bulletin, outcome, -⟩ := Site.commit_eq (s := ⟨l, w.cells⟩) turns.1 turns.2
  rcases Site.transfer_ends (s := ⟨l, w.cells⟩) (leavers_owned sound alive turns) with
    ⟨⟨given, done⟩, fits⟩ | ⟨k, owner, first, others, refused⟩
  · rw [done] at outcome
    exact .inl ⟨⟨_, outcome⟩, fits⟩
  · rw [refused] at outcome
    exact .inr ⟨k, owner, first, others, outcome⟩

theorem blocked_iff (sound : Sound w) (alive : w.live l.context = some l) (op : Operation α) :
    Site.Unfit w.cells l.context (l.cellsOf (op.replaced l.contents)) (l.cellsOf op.items) k d ↔
      w.Blocked l op k d := by
  have members := UndoableList.cellsOf_subperm (l := l) (op.replaced_sublist l.contents).subperm
  unfold Site.Unfit Blocked
  simp only [Roster.owner_iff sound.owns trivial]
  refine exists_congr fun x => and_congr_right fun here => or_congr Iff.rfl
    (and_congr_right fun new => ?_)
  constructor
  · rintro ⟨⟨m, there, member⟩, kept⟩
    refine ⟨fun leaves => ?_, m, there, member⟩
    exact kept (Roster.members_apart sound.owns there alive member (members.subset leaves)) leaves
  · rintro ⟨stays, there⟩
    exact ⟨there, fun _ => stays⟩

theorem moved_fits {item : α}
    (owned : ∀ x ∈ l.cellsOf [item], w.cells.owner x = some l.context) :
    ¬Site.Unfit w.cells l.context (l.cellsOf [item]) (l.cellsOf [item]) k d := by
  rintro ⟨x, here, ⟨again, -⟩ | ⟨-, owner, stays⟩⟩
  · have inside := (List.getElem?_eq_some_iff.mp here).1
    have few : (l.cellsOf [item]).length ≤ 1 := by
      unfold UndoableList.cellsOf
      split <;> simp
    obtain rfl : k = 0 := by omega
    cases again
  · have member := List.mem_of_getElem? here
    rw [owned x member] at owner
    exact stays (Option.some.inj owner).symm member

theorem not_blocked {op : Operation α} (bare : op.items = []) : ¬w.Blocked l op k d := by
  rintro ⟨x, here, -⟩
  rw [bare, UndoableList.cellsOf] at here
  split at here <;> cases here

theorem append_decides [Element α] (sound : Sound w) (alive : w.live l.context = some l)
    {op : Operation α} {reply : Reply α} (planned : w.planFor l op = .ok (some record, reply))
    (turns : record.Turns .forward l.contents next) :
    ((∃ d, Site.append ⟨l, w.cells⟩ record = .ok d) ∧ ∀ k d, ¬w.Blocked l op k d) ∨
    ∃ k d, w.Blocked l op k d ∧ (∀ j < k, ∀ e, ¬w.Blocked l op j e) ∧
      Site.append ⟨l, w.cells⟩ record =
        .error (.refused (.capture (.alreadyCaptured k d))) := by
  have owned := leavers_owned sound alive turns
  rcases commit_decides sound alive turns with ⟨⟨d, done⟩, fits⟩ | ⟨k, d, first, others, failed⟩
  · refine .inl ⟨⟨_, by rw [Site.append, done]; rfl⟩, fun k d => ?_⟩
    rcases Operation.handover_of_plan planned with ⟨-, handed⟩ | ⟨bare, -⟩
    · rw [handed] at fits
      exact fun blocked => fits k d ((blocked_iff sound alive op).mpr blocked)
    · exact not_blocked bare
  · rcases Operation.handover_of_plan planned with ⟨-, handed⟩ | ⟨-, none | ⟨item, handed⟩⟩
    · rw [handed] at first others
      simp only [blocked_iff sound alive op] at first others
      exact .inr ⟨k, d, first, others, by rw [Site.append, failed]; rfl⟩
    · obtain ⟨x, here, -⟩ := first
      rw [none, UndoableList.cellsOf] at here
      split at here <;> cases here
    · rw [handed] at first owned
      exact absurd first (moved_fits owned)

end

section
variable [Diary δ] {direction : Direction}

omit [Diary δ] in
theorem turns_of_plan [Element α] {op : Operation α} {record : Record α Edit} {next : List α}
    {reply answer : Reply α} (planned : w.planFor l op = .ok (some record, answer))
    (valid : op.onSequence (Element.current w.objects) l.contents = .ok (next, reply)) :
    record.Turns .forward l.contents next ∧ answer = reply := by
  cases checks : record.check none .forward l.contents.length with
  | error fault =>
    obtain ⟨cause, -, refused⟩ := Operation.onSequence_of_check planned checks
    cases valid.symm.trans refused
  | ok after =>
    obtain ⟨ours, t, leads⟩ := Operation.plan_leads planned checks
    cases valid.symm.trans (Operation.onSequence_of_leads planned leads)
    exact ⟨⟨ours, leads⟩, rfl⟩

theorem alive_of_acquired (here : w.lists.get? l.context = some l) {access : Access}
    (obtained : (Host.acquire l.lock access).succeeds w) : w.live l.context = some l := by
  obtain ⟨_, u, acquired⟩ := Act.ok_of_succeeds obtained
  obtain ⟨v, inside⟩ := inside_of_acquire acquired
  exact live_iff.mpr ⟨here, usable_of_inside inside⟩

theorem acquired_of_inSteps {lock : LockId} (obtained : (acquireInSteps lock).succeeds w) :
    (Host.acquire lock .upgradeable).succeeds w := by
  by_contra barred
  rw [inSteps_of_acquire_false (by simpa using barred)] at obtained
  cases obtained

/-- A mutation that has the lock and whose positions are inside. -/
theorem mutation_decides [Element α] (sound : Sound w) (here : w.lists.get? l.context = some l)
    (obtained : (acquireInSteps l.lock).succeeds w) {op : Operation α} {next : List α}
    {reply : Reply α}
    (valid : op.onSequence (Element.current w.objects) l.contents = .ok (next, reply))
    (call : Call α κ δ) (aloud : Bool) :
    Decides (w.Blocked l op) reply (mutate call l.context aloud op w).1 := by
  have alive := alive_of_acquired here (acquired_of_inSteps obtained)
  obtain ⟨b, r, v, mutated, -, outcome⟩ := mutate_ends here op
  rw [outcome]
  cases ended_of_mutated (sound.enlisted here).fresh mutated with
  | refused aside why =>
    cases why with
    | unplanned planned => cases valid.symm.trans (Operation.onSequence_of_error planned)
    | barred barred => simp [obtained] at barred
    | unfit planned failed =>
      have turns := (turns_of_plan planned valid).1
      rcases append_decides sound alive planned turns with
        ⟨⟨d, done⟩, -⟩ | ⟨k, d, first, others, refused⟩
      · cases done.symm.trans failed
      · cases refused.symm.trans failed
        exact .inr ⟨k, d, first, others, rfl⟩
  | idle planned aside =>
    cases valid.symm.trans (Operation.onSequence_of_idle planned)
    exact .inl ⟨rfl, fun k d => not_blocked (Operation.items_of_idle planned)⟩
  | carried planned done aside =>
    obtain ⟨turns, rfl⟩ := turns_of_plan planned valid
    rcases append_decides sound alive planned turns with ⟨-, fits⟩ | ⟨k, d, -, -, refused⟩
    · exact .inl ⟨rfl, fits⟩
    · cases done.symm.trans refused

omit [Diary δ] in
theorem capture_not_ofLock {cause : CaptureRefusal} :
    ¬OfLock (.refused (ListRefusal.capture cause)) := by
  rintro ⟨fault, same⟩
  cases fault with
  | refused why => cases why <;> cases same
  | panicked label => cases same
  | stalled => cases same

theorem removal_never_refused [Element α] (sound : Sound w)
    (here : w.lists.get? l.context = some l) {op : Operation α} (bare : op.items = [])
    (call : Call α κ δ) (aloud : Bool) (cause : CaptureRefusal) :
    (mutate call l.context aloud op w).1 ≠ .error (.refused (.capture cause)) := by
  intro answer
  obtain ⟨fault, u, -, outcome⟩ | ⟨u, taken, -⟩ :=
    holding_cases ListRefusal.ofLock l.lock .upgradeable (mutation l.context op l.lock) w
  · have told : lockedMutation l.context op w = _ := (withList_present here).trans outcome
    rw [mutate_eq, told] at answer
    exact capture_not_ofLock ⟨fault, (Except.error.inj answer).symm⟩
  · have alive := alive_of_acquired here (Act.succeeds_of_ok taken)
    obtain ⟨b, r, v, mutated, -, outcome⟩ := mutate_ends here op
    rw [outcome] at answer
    obtain rfl : r = _ := answer
    cases ended_of_mutated (sound.enlisted here).fresh mutated with
    | refused aside why =>
      cases why with
      | unplanned planned =>
        exact Operation.onSequence_refuses (Operation.onSequence_of_error planned) cause rfl
      | barred _ ofLock => exact capture_not_ofLock ofLock
      | @unfit record _ _ planned failed =>
        cases checks : record.check none .forward l.contents.length with
        | error fault =>
          obtain ⟨why, rfl, refused⟩ := Operation.onSequence_of_check planned checks
          cases (Site.append_of_check_error checks).symm.trans failed
          exact Operation.onSequence_refuses refused cause rfl
        | ok after =>
          obtain ⟨ours, next, leads⟩ := Operation.plan_leads planned checks
          have turns : record.Turns .forward l.contents next := ⟨ours, leads⟩
          rcases append_decides sound alive planned turns with
            ⟨⟨d, done⟩, -⟩ | ⟨k, d, blocked, -⟩
          · cases done.symm.trans failed
          · exact not_blocked bare blocked

omit [Diary δ] in
theorem claimed_iff_owner {record : Record α Edit} {rest : List (Record α Edit)} {k : Nat}
    {d : Context} (sound : Sound w) (near : l.history.side direction = record :: rest) :
    w.Claimed l direction k d ↔ d ≠ l.context ∧
      ∃ x, (l.cellsOf (record.handover direction).entering)[k]? = some x ∧
        w.cells.owner x = some d := by
  constructor
  · rintro ⟨other, record', rest', x, m, near', here, there, member⟩
    cases near.symm.trans near'
    exact ⟨other, x, here, (Roster.owner_iff sound.owns trivial).mpr ⟨m, there, member⟩⟩
  · rintro ⟨other, x, here, owned⟩
    obtain ⟨m, there, member⟩ := (Roster.owner_iff sound.owns trivial).mp owned
    exact ⟨other, record, rest, x, m, near, here, there, member⟩

omit [Diary δ] in
theorem claimed_iff {record : Record α Edit} {rest : List (Record α Edit)} {next : List α} {k : Nat}
    {d : Context} (sound : Sound w) (alive : w.live l.context = some l)
    (near : l.history.side direction = record :: rest)
    (turns : record.Turns direction l.contents next) (distinct : (l.cellsOf next).Nodup) :
    Site.Unfit w.cells l.context (l.cellsOf (record.handover direction).leaving)
      (l.cellsOf (record.handover direction).entering) k d ↔ w.Claimed l direction k d := by
  have members := UndoableList.cellsOf_subperm (l := l) (Record.leaving_subperm turns.1 turns.2)
  have whole := UndoableList.cellsOf_perm (l := l)
    (Record.perm_of_moves record direction l.contents next turns.2)
  rw [UndoableList.cellsOf_append, UndoableList.cellsOf_append] at whole
  obtain ⟨once, news⟩ := gains_of_distinct distinct members whole
  constructor
  · rintro ⟨x, here, ⟨again, -⟩ | ⟨-, owned, stays⟩⟩
    · exact absurd again (nodup_iff_new.mp once k x here)
    · refine (claimed_iff_owner sound near).mpr ⟨?_, x, here, owned⟩
      rintro rfl
      obtain ⟨m, there, member⟩ := (Roster.owner_iff sound.owns trivial).mp owned
      obtain rfl : l = m := Option.some.inj (alive.symm.trans there)
      obtain new | leaves := news x (List.mem_of_getElem? here)
      · exact new member
      · exact stays rfl leaves
  · intro claimed
    obtain ⟨other, x, here, owned⟩ := (claimed_iff_owner sound near).mp claimed
    exact ⟨x, here, .inr ⟨nodup_iff_new.mp once k x here, owned, fun same => absurd same other⟩⟩

/-- An undo or a redo that has the lock. A refused one leaves the lists as they were. -/
theorem replay_decides (sound : Sound w) (charted : Charted l)
    (here : w.lists.get? l.context = some l)
    (direction : Direction) (obtained : (Host.acquire l.lock .write).succeeds w)
    (call : Call α κ δ) (aloud : Bool) :
    let out := replay call l.context aloud direction w
    Decides (w.Claimed l direction) (!(l.history.side direction).isEmpty) out.1 ∧
      ∀ fault, out.1 = .error fault → out.2.lists = w.lists := by
  intro out
  have alive := alive_of_acquired here obtained
  obtain ⟨t, tracks, distinct⟩ := charted
  have settles {record rest} (near : l.history.side direction = record :: rest) :
      ∃ next, record.Turns direction l.contents next ∧ (l.cellsOf next).Nodup := by
    obtain ⟨next, more, ahead, turns⟩ := UndoableList.nearest_turns tracks near
    have inside : next ∈ t.side direction := ahead ▸ List.mem_cons_self
    exact ⟨next, turns, distinct next (Timeline.mem_states_of_side inside)⟩
  obtain ⟨b, r, v, replayed, -, outcome⟩ := replay_ends here direction
  have result : out = _ := outcome call aloud
  rw [result]
  cases turned_of_replayed (sound.enlisted here).fresh obtained replayed with
  | nothing none aside =>
    refine ⟨.inl ⟨by rw [none]; rfl, ?_⟩, fun fault failed => by cases failed⟩
    rintro k d ⟨-, record, rest, x, m, near, -⟩
    cases none.symm.trans near
  | rejected near failed aside =>
    obtain ⟨next, turns, once⟩ := settles near
    refine ⟨?_, fun fault _ => ?_⟩
    · rcases commit_decides sound alive turns with
        ⟨⟨d, done⟩, -⟩ | ⟨k, d, first, others, refused⟩
      · cases done.symm.trans failed
      · cases refused.symm.trans failed
        simp only [claimed_iff sound alive near turns once] at first others
        exact .inr ⟨k, d, first, others, rfl⟩
    · rw [announce_nothing, ite_self]
      exact aside.lists
  | carried near done aside =>
    obtain ⟨next, turns, once⟩ := settles near
    refine ⟨?_, fun fault failed => by cases failed⟩
    rcases commit_decides sound alive turns with ⟨-, fits⟩ | ⟨k, d, -, -, refused⟩
    · simp only [claimed_iff sound alive near turns once] at fits
      exact .inl ⟨by rw [near]; rfl, fits⟩
    · cases done.symm.trans refused

end

section
variable [Diary δ] [Element α] {c : ListId}

/-- In every world that calls lead to, lists accept and refuse items exactly. Operations that bring
no items are never refused for the sake of one. An operation that brings items, has the lock and
whose positions are inside is refused if and only if something is in the way of one of them; the
first position at which something is gets named, and what it is. An undo or a redo that has the lock
is refused if and only if another live list has an item that it brings back; the list stays as it
was, and once nobody has these items any more it goes through. -/
theorem acceptance_is_exact (reach : Reach w) (here : w.lists.get? c = some l) :
    (∀ op : Operation α, op.items = [] → ∀ call aloud cause,
      (mutate call c aloud op w).1 ≠ .error (.refused (.capture cause))) ∧
    (∀ (op : Operation α) next reply, (acquireInSteps l.lock).succeeds w →
      op.onSequence (Element.current w.objects) l.contents = .ok (next, reply) →
      ∀ call aloud, Decides (w.Blocked l op) reply (mutate call c aloud op w).1) ∧
    ∀ direction, (Host.acquire l.lock .write).succeeds w → ∀ call aloud,
      let out := replay call c aloud direction w
      Decides (w.Claimed l direction) (!(l.history.side direction).isEmpty) out.1 ∧
        ∀ cause, out.1 = .error (.refused (.capture cause)) → out.2.lists = w.lists ∧
          ∀ u : World α κ δ, Reach u → u.lists.get? c = some l →
            (Host.acquire l.lock .write).succeeds u → (∀ k d, ¬u.Claimed l direction k d) →
            ∀ call aloud, (replay call c aloud direction u).1 = .ok true := by
  have sound := sound_of_reach reach
  obtain rfl := (sound.enlisted here).named
  refine ⟨fun op bare call aloud cause => removal_never_refused sound here bare call aloud cause,
    fun op next reply obtained valid call aloud =>
      mutation_decides sound here obtained valid call aloud,
    fun direction obtained call aloud => ?_⟩
  have charted := charting_of_reach reach _ l here
  obtain ⟨decides, stays⟩ :=
    replay_decides sound charted here direction obtained call aloud
  refine ⟨decides, fun cause refused => ⟨stays _ refused, ?_⟩⟩
  intro u later there free unclaimed call' aloud'
  obtain ⟨again, -⟩ :=
    replay_decides (sound_of_reach later) charted there direction free call' aloud'
  rcases decides with ⟨done, -⟩ | ⟨k, d, ⟨-, record, rest, x, m, near, -⟩, -⟩
  · cases done.symm.trans refused
  · rw [again.answers unclaimed, near]
    rfl

end

def unwatched : Call ObjectId Unit Unit := fun _ _ _ => pure ()

def passedWorld : World ObjectId Unit Unit :=
  let made := (createList { access := some id }
    (createList { access := some id } { client := () }).2).2
  (mutate unwatched 2 false (.push 0)
    (mutate unwatched 1 false (.removeAt 0) (mutate unwatched 1 false (.push 0) made).2).2).2

def releasedWorld : World ObjectId Unit Unit :=
  (mutate unwatched 2 false (.removeAt 0) passedWorld).2

theorem reach_passedWorld : Reach passedWorld := by
  have begun : Reach ({ client := () } : World ObjectId Unit Unit) :=
    .start (fun _ => rfl) fun _ => ⟨rfl, fun _ => rfl⟩
  have made := (begun.created { access := some id } fun _ => rfl).created
    { access := some id } fun _ => rfl
  exact ((made.mutated unwatched 1 _).mutated unwatched 1 _).mutated unwatched 2 _

theorem passedWorld_blocked {l : UndoableList ObjectId} (context : l.context = 1)
    (pair : l.cellsOf [1, 1] = [1, 1]) {k : Nat} {d : Context} :
    passedWorld.Blocked l (.addRange [1, 1]) k d ↔ k = 1 ∧ d = 1 := by
  have owner {x : CellId} {c : Context} := Roster.owner_iff (sound_of_reach reach_passedWorld).owns
    (x := x) (c := c) trivial
  rw [Blocked, Operation.items, pair, context]
  constructor
  · rintro ⟨x, found, blocked⟩
    rcases k with _ | _ | k
    · cases found
      obtain ⟨first, -⟩ | ⟨-, -, there⟩ := blocked
      · cases first
      · cases (owner.mpr there).symm.trans (by decide +kernel : passedWorld.cells.owner 1 = none)
    · cases found
      obtain ⟨-, rfl⟩ | ⟨new, -⟩ := blocked
      · exact ⟨rfl, rfl⟩
      · simp at new
    · cases found
  · rintro ⟨rfl, rfl⟩
    exact ⟨1, rfl, .inl ⟨by simp, rfl⟩⟩

theorem passed_claimed {w : World ObjectId Unit Unit} {l : UndoableList ObjectId} {k : Nat}
    {d : Context} (reach : Reach w) (context : l.context = 1)
    (entering : ((l.history.side .backward).map fun r =>
      l.cellsOf (r.handover .backward).entering) = [[0], []]) :
    w.Claimed l .backward k d ↔ d ≠ 1 ∧ k = 0 ∧ w.cells.owner 0 = some d := by
  obtain ⟨record, rest, near, enters, -⟩ := List.map_eq_cons_iff.mp entering
  rw [claimed_iff_owner (sound_of_reach reach) near, enters, context]
  refine and_congr_right fun other => ⟨?_, fun ⟨first, owned⟩ => ⟨0, by rw [first]; rfl, owned⟩⟩
  rintro ⟨x, found, owned⟩
  cases k with
  | zero =>
    cases found
    exact ⟨rfl, owned⟩
  | succ k => cases found

theorem releasedWorld_keeps {l : UndoableList ObjectId} (here : passedWorld.lists.get? 1 = some l) :
    releasedWorld.lists.get? 1 = some l := by
  have aloof : Aloof unwatched 1 := fun _ _ _ _ present => elsewhere_refl present
  have present : Present 1 passedWorld :=
    ⟨by decide +kernel,
      fun c m there => ((sound_of_reach reach_passedWorld).enlisted there).named,
      by decide +kernel⟩
  have kept :=
    (elsewhere_deed aloof present (by decide : 2 ≠ 1) (.mutate false (.removeAt 0))).list
  rw [Deed.on, here] at kept
  rw [releasedWorld, kept]

/-- The first list is offered another object twice, and then wants its own object back; it gets it
once the second list has given it up. -/
theorem passed_object_is_refused_until_released :
    (mutate unwatched 1 false (.addRange [1, 1]) passedWorld).1 =
      .error (.refused (.capture (.alreadyCaptured 1 1))) ∧
    (replay unwatched 1 false .backward passedWorld).1 =
      .error (.refused (.capture (.alreadyCaptured 0 2))) ∧
    (replay unwatched 1 false .backward releasedWorld).1 = .ok true := by
  have reach := reach_passedWorld
  have released : Reach releasedWorld := reach.mutated unwatched 2 (.removeAt 0)
  have facts : (passedWorld.lists.get? 1).any (fun l => l.context = 1 ∧
      l.cellsOf [1, 1] = [1, 1] ∧ (acquireInSteps l.lock).succeeds passedWorld ∧
      (Host.acquire l.lock .write).succeeds passedWorld ∧
      (Host.acquire l.lock .write).succeeds releasedWorld ∧
      ((l.history.side .backward).map fun r => l.cellsOf (r.handover .backward).entering) =
        [[0], []]) = true := by decide +kernel
  obtain ⟨l, here, facts⟩ := (Option.any_eq_true _ _).mp facts
  obtain ⟨context, pair, inSteps, alone, later, entering⟩ := of_decide_eq_true facts
  obtain ⟨-, mutations, replays⟩ := acceptance_is_exact reach here
  obtain ⟨decides, onward⟩ := replays .backward alone unwatched false
  have offered : (mutate unwatched 1 false (.addRange [1, 1]) passedWorld).1 = _ :=
    (mutations (.addRange [1, 1]) _ _ inSteps rfl unwatched false).refuses
      ((passedWorld_blocked context pair).mpr ⟨rfl, rfl⟩)
      fun j e => (passedWorld_blocked context pair).mp
  have taken : passedWorld.cells.owner 0 = some 2 := by decide +kernel
  have refused : (replay unwatched 1 false .backward passedWorld).1 = _ :=
    decides.refuses ((passed_claimed reach context entering).mpr ⟨by decide, rfl, taken⟩)
      fun j e claimed => by
        obtain ⟨-, first, owned⟩ := (passed_claimed reach context entering).mp claimed
        exact ⟨first, Option.some.inj (owned.symm.trans taken)⟩
  refine ⟨offered, refused,
    (onward _ refused).2 _ released (releasedWorld_keeps here) later ?_ unwatched false⟩
  intro k d claimed
  obtain ⟨-, -, owned⟩ := (passed_claimed released context entering).mp claimed
  cases owned.symm.trans (by decide +kernel : releasedWorld.cells.owner 0 = none)

end World

end UndoableLists
