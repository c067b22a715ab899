import UndoableLists.Proofs.Ownership.Tenure
import UndoableLists.Proofs.Ownership.Visits

/-!
Work on the store of a list that captures its items, while other threads are busy with their lists.
The members are free as long as the work goes on, so that a visitor can take one. Main statement: a
member that stays in the store and that no visitor brings to another list belongs to the list when
the work has returned, and the list has a free hand with it; one that a visitor took stays with the
visitor, and the list cannot take it out.
-/
namespace UndoableLists

/-- A client's work on the store of a list, and what other threads do meanwhile. -/
inductive Exposed (id : ListId) (α β : Type) where
  | returns (b : β)
  | panics (label : Option String)
  | access (e : StoreEdit α) (next : Reply α → Exposed id α β)
  | visited (thread : Thread) (visit : World.Visit id α) (next : Exposed id α β)

namespace World

section
variable {α κ δ β : Type} [Diary δ] [Element α] {id : ListId}

def exposed (call : Call α κ δ) : Exposed id α β → Work α κ δ β
  | .returns b => return b
  | .panics label => Act.fail (.panicked label)
  | .access e next => do exposed call (next (← editStore id e))
  | .visited thread visit next => do
    Act.modify (visit.on call thread)
    exposed call next

def brought (call : Call α κ δ) : Exposed id α β → World α κ δ → List CellId
  | .returns _, _ => []
  | .panics _, _ => []
  | .access e next, w =>
    match editStore id e w with
    | (.error _, _) => []
    | (.ok reply, w) => brought call (next reply) w
  | .visited thread visit next, w => visit.brings w ++ brought call next (visit.on call thread w)

def opened (w : World α κ δ) (l : UndoableList α) : World α κ δ :=
  (releaseMembers l.context (Host.acquire l.lock .write w).2).2

section
variable {call : Call α κ δ} {more : List CellId} {u v w : World α κ δ} {l m : UndoableList α}

omit [Diary δ] [Element α] in
theorem present_relisted (present : Present id w) (named : m.context = id) :
    Present id { w with lists := w.lists.insert id m } := by
  subst named
  exact ⟨present.held, keyed_insert present.keyed m, present.known⟩

omit [Diary δ] [Element α] in
theorem elsewhere_relisting (elsewhere : Elsewhere id more w u) (named : m.context = id) :
    Elsewhere id more { w with lists := w.lists.insert id m }
      { u with lists := u.lists.insert id m } where
  present := present_relisted elsewhere.present named
  list := by rw [Table.get?_insert_self, Table.get?_insert_self]
  mine := elsewhere.mine
  others := elsewhere.others

omit [Diary δ] [Element α] in
theorem elsewhere_reentered (present : Present id w) (here : w.lists.get? id = some l) :
    Elsewhere id [] { w with lists := w.lists.insert id l } w := by
  rw [Table.insert_present here]
  exact elsewhere_refl present

theorem elsewhere_exposed (aloof : Aloof call id) (present : Present id w)
    (here : w.lists.get? id = some l) (e : Exposed id α β) : ∃ store,
    Elsewhere id (brought call e w) { w with lists := w.lists.insert id { l with store } }
      (exposed call e w).2 := by
  induction e generalizing w l with
  | returns b => exact ⟨l.store, elsewhere_reentered present here⟩
  | panics label => exact ⟨l.store, elsewhere_reentered present here⟩
  | access e next ih =>
    have edited := editStore_eq here e
    rw [brought, exposed]
    cases outcome : l.store.edit? e with
    | none =>
      rw [outcome] at edited
      rw [edited, Act.bind_of_error edited]
      exact ⟨l.store, elsewhere_reentered present here⟩
    | some result =>
      obtain ⟨reply, store⟩ := result
      rw [outcome] at edited
      obtain ⟨last, elsewhere⟩ := ih reply (l := { l with store })
        (present_relisted (m := { l with store }) present (present.keyed id l here))
        (Table.get?_insert_self ..)
      rw [edited, Act.bind_of_ok edited]
      rw [Table.insert_insert] at elsewhere
      exact ⟨last, elsewhere⟩
  | visited thread visit next ih =>
    have visiting := elsewhere_visit aloof present thread visit
    obtain ⟨store, elsewhere⟩ := ih visiting.present (visiting.list.trans here)
    exact ⟨store,
      elsewhere_trans (elsewhere_relisting visiting (present.keyed id l here)) elsewhere⟩

omit [Element α] in
theorem opened_of_acquire {u : World α κ δ} (here : w.lists.get? l.context = some l)
    (done : Host.acquire l.lock .write w = (.ok (), u)) :
    releaseMembers l.context u = (.ok (), w.opened l) ∧
      w.opened l = u.putSite (Site.released ⟨l, w.cells⟩) := by
  obtain ⟨v, inside⟩ := inside_of_acquire done
  have taken := aside_trans inside.before inside.taken
  have freed : releaseMembers l.context u = (.ok (), u.putSite (Site.released ⟨l, w.cells⟩)) := by
    rw [releaseMembers, atSite_present (taken.lists ▸ here), taken.cells]
    rfl
  rw [opened, done, freed]
  exact ⟨rfl, rfl⟩

theorem exposed_returned (aloof : Aloof call l.context) (present : Present l.context w)
    (here : w.lists.get? l.context = some l) (e : Exposed l.context α β) {b : β}
    (returned : (aloneWithStore l.context (exposed call e) w).1 = .ok b) :
    (w.opened l).cells = (Site.released ⟨l, w.cells⟩).cells ∧
    ∃ store u locks, Elsewhere l.context (brought call e (w.opened l))
        { w.opened l with lists := (w.opened l).lists.insert l.context { l with store } } u ∧
      (aloneWithStore l.context (exposed call e) w).2 =
        { settle .forward (Site.resynchronized ⟨{ l with store }, u.cells⟩) u with locks } := by
  have result : aloneWithStore l.context (exposed call e) w = _ := withList_present here
  obtain ⟨fault, u, failed, outcome⟩ | ⟨u, done, outcome⟩ :=
    holding_cases ListRefusal.ofLock l.lock .write (reworking l.context (exposed call e)) w
  · rw [result, outcome] at returned
    cases returned
  obtain ⟨v, inside⟩ := inside_of_acquire done
  obtain ⟨freed, begun⟩ := opened_of_acquire here done
  have ready : Present l.context (w.opened l) := by
    have put := present_relisted (m := l)
      (present_aside present (aside_trans inside.before inside.taken)) rfl
    rw [begun]
    exact { put with }
  obtain ⟨store, elsewhere⟩ := elsewhere_exposed aloof ready (l := l)
    (by rw [begun]; exact Table.get?_insert_self ..) e
  have there : (exposed call e (w.opened l)).2.lists.get? l.context = some { l with store } :=
    elsewhere.list.trans (Table.get?_insert_self ..)
  rcases ended : exposed call e (w.opened l) with ⟨fault | c, x⟩
  · rw [result, outcome, reworking, Act.bind_of_ok freed, Act.bind_of_error ended] at returned
    cases returned
  rw [ended] at there elsewhere
  have closed : resynchronize l.context x =
      (.ok (), settle .forward (Site.resynchronized ⟨{ l with store }, x.cells⟩) x) :=
    atSite_present there
  have worked : reworking l.context (exposed call e) u = (.ok c,
      settle .forward (Site.resynchronized ⟨{ l with store }, x.cells⟩) x) := by
    rw [reworking, Act.bind_of_ok freed, Act.bind_of_ok ended, Act.bind_of_ok closed]
    rfl
  have cells : (w.opened l).cells = (Site.released ⟨l, w.cells⟩).cells := by
    rw [begun]
    rfl
  refine ⟨cells, store, x, (Host.releaseFor u.thread l.lock (settle .forward
    (Site.resynchronized ⟨{ l with store }, x.cells⟩) x)).locks, elsewhere, ?_⟩
  rw [result, outcome, worked]
  rfl

/-- What exposed work leaves that returned: the list has a store that differs, and every member of
it that the list had and owned is the list's, or is a visitor's who took it. -/
structure Reclaimed (l : UndoableList α) (brought : List CellId) (w v : World α κ δ) : Prop where
  present : Present l.context v
  list : ∃ m, v.lists.get? l.context = some m ∧ m.access = l.access ∧ m.lock = l.lock ∧
    ∀ x ∈ l.cellsOf m.contents, x ∈ l.cellsOf l.contents → w.cells.owner x = some l.context →
      v.cells.owner x = some l.context ∨
        x ∈ brought ∧ ∃ c, c ≠ l.context ∧ v.cells.owner x = some c

theorem reclaimed_of_returned (aloof : Aloof call l.context) (present : Present l.context w)
    (here : w.lists.get? l.context = some l) (e : Exposed l.context α β) {b : β}
    (returned : (aloneWithStore l.context (exposed call e) w).1 = .ok b) :
    Reclaimed l (brought call e (w.opened l)) w
      (aloneWithStore l.context (exposed call e) w).2 := by
  obtain ⟨begun, store, u, locks, elsewhere, outcome⟩ :=
    exposed_returned aloof present here e returned
  have aside : Aside [] (u.after .forward (Site.resynchronized ⟨{ l with store }, u.cells⟩)) _ :=
    aside_settle u
  have entered : Present l.context
      (u.after .forward (Site.resynchronized ⟨{ l with store }, u.cells⟩)) := by
    have put := present_relisted (m := { l with store }.forgetful.newVersion) elsewhere.present rfl
    exact { put with }
  have there : (settle .forward (Site.resynchronized ⟨{ l with store }, u.cells⟩) u).lists.get?
      l.context = some { l with store }.forgetful.newVersion := after_list rfl rfl aside
  rw [outcome]
  refine ⟨{ present_aside entered aside with }, { l with store }.forgetful.newVersion, there, rfl,
    rfl, fun x member before owned => ?_⟩
  have adopted := Cells.cell_adoptEach { l with store } (l.cellsOf store.items) u.cells x
  have owner : (settle .forward (Site.resynchronized ⟨{ l with store }, u.cells⟩) u).cells.owner x =
      (if x ∈ l.cellsOf store.items ∧ (u.cells.cell x).admits l.context then
        (u.cells.cell x).adoptedBy l.context l.handler? else u.cells.cell x).owner := by
    rw [aside.cells]
    exact congrArg Cell.owner adopted
  have free : (w.opened l).cells.owner x = none := by
    rw [begun, Cells.owner, cell_released, if_pos ⟨before, owned⟩]
    rfl
  cases admitted : (u.cells.cell x).admits l.context with
  | true =>
    left
    rw [if_pos ⟨member, admitted⟩] at owner
    exact owner
  | false =>
    right
    obtain ⟨other, differs, taken⟩ := Cell.owned_of_not_admits admitted
    rw [if_neg (by simp [admitted]), taken] at owner
    refine ⟨?_, other, differs, owner⟩
    by_contra stranger
    obtain none | same := elsewhere.others x stranger
    · rw [Cells.owner, taken] at none
      cases none
    · rw [show (_ : World α κ δ).cells.owner x = _ from free, Cells.owner, taken] at same
      cases same

omit [Diary δ] [Element α] in
theorem append_of_entrants {cell : α → CellId} {record : Record α Edit} {next : List α}
    (cells : Cells ListId) (access : l.access = some cell)
    (turns : record.Turns .forward l.contents next)
    (leavers : ∀ a ∈ (record.handover .forward).leaving, cells.owner (cell a) = some l.context)
    (once : ((record.handover .forward).entering.map cell).Nodup)
    (entrants : ∀ a ∈ (record.handover .forward).entering,
      cells.owner (cell a) = none ∨ a ∈ (record.handover .forward).leaving) :
    ∃ d, Site.append ⟨l, cells⟩ record = .ok d := by
  have mine : ∀ x ∈ (record.handover .forward).leaving.map cell,
      cells.owner x = some l.context := by
    simpa using leavers
  obtain ⟨after, notices, given⟩ :=
    Site.exchange_of_entrants (s := ⟨l, cells⟩) once mine fun x enters => by
      obtain ⟨a, entrant, rfl⟩ := List.mem_map.mp enters
      exact (entrants a entrant).imp_right fun leaves =>
        ⟨leavers a leaves, List.mem_map_of_mem leaves⟩
  have transferred :
      Site.transfer ⟨l, cells⟩ (record.handover .forward) = .ok (after, notices) := by
    simp only [Site.transfer, access, given]
    rfl
  obtain ⟨d, done⟩ := commit_of_transfer turns transferred
  rw [Site.append, done]
  exact ⟨_, rfl⟩

theorem mutate_answers {cell : α → CellId} (here : w.lists.get? l.context = some l)
    (access : l.access = some cell) (free : w.locks.Free w.thread l.lock) {op : Operation α}
    {record : Record α Edit} {reply : Reply α} {next : List α}
    (planned : w.planFor l op = .ok (some record, reply)) (leads : record.Leads l.contents next)
    (leavers : ∀ a ∈ (record.handover .forward).leaving, w.cells.owner (cell a) = some l.context)
    (once : ((record.handover .forward).entering.map cell).Nodup)
    (entrants : ∀ a ∈ (record.handover .forward).entering,
      (w.cells.owner (cell a) = none ∧ cell a ∉ l.contents.map cell) ∨
        a ∈ (record.handover .forward).leaving) (call : Call α κ δ) (aloud : Bool) :
    (mutate call l.context aloud op w).1 = .ok reply := by
  have turns : record.Turns .forward l.contents next := ⟨(Operation.plan_fits planned).1, leads⟩
  obtain ⟨d, fresh⟩ := append_of_entrants w.cells access turns leavers once
    fun a enters => (entrants a enters).imp_left And.left
  obtain ⟨d', heard⟩ := append_of_entrants (l := l.reset) (w.afterReset l).cells access
    turns (fun a leaves => owner_reset_of_owned (leavers a leaves)) once fun a enters => by
      refine (entrants a enters).imp_left fun ⟨vacant, stranger⟩ => ?_
      rw [owner_reset, if_neg, vacant]
      exact fun both => stranger (cellsOf_capturing access _ ▸ both.1)
  rw [mutate_of_free here free planned, fresh, heard]
  cases l.store.stale <;> rfl

/-- The list can take out the member at a position, move it, and put a free item in its place. -/
structure FreeHand (cell : α → CellId) (l : UndoableList α) (w : World α κ δ) (index : Nat)
    (a : α) : Prop where
  removes : ∀ call aloud,
    (mutate call l.context aloud (.removeAt index) w).1 = .ok (.item (some a))
  moves : ∀ target < l.contents.length, index ≠ target → ∀ call aloud,
    (mutate call l.context aloud (.move index target) w).1 = .ok .done
  replaces : ∀ new, w.cells.owner (cell new) = none → cell new ∉ l.contents.map cell →
    ∀ call aloud, (mutate call l.context aloud (.set index new) w).1 = .ok (.item (some a))

theorem freeHand_of_owned {cell : α → CellId} (here : w.lists.get? l.context = some l)
    (access : l.access = some cell) (free : w.locks.Free w.thread l.lock) {index : Nat} {a : α}
    (member : l.contents[index]? = some a) (owned : w.cells.owner (cell a) = some l.context) :
    FreeHand cell l w index a where
  removes := by
    have planned :
        w.planFor l (.removeAt index) = .ok (some (.remove index a), .item (some a)) := by
      simp only [planFor, Operation.plan, Operation.itemAt, member]
      rfl
    refine mutate_answers here access free planned (Operation.leads_remove member) ?_ ?_ ?_
    all_goals simp [Record.handover, Record.exchange, owned]
  moves target inside differ := by
    have planned :
        w.planFor l (.move index target) = .ok (some (.moved a index target), .done) := by
      have there : l.contents[target]? = some l.contents[target] := List.getElem?_eq_getElem inside
      simp only [planFor, Operation.plan, Operation.itemAt, member, there]
      simp only [bind, Except.bind, discard, if_neg differ]
      rfl
    refine mutate_answers here access free planned (Operation.leads_moved member inside) ?_ ?_ ?_
    all_goals simp [Record.moved, Record.handover, Record.handoverAll, Record.exchange,
      Handover.append, owned]
  replaces new vacant stranger := by
    have planned : w.planFor l (.set index new) =
        .ok (some (.changeAt index a new), .item (some a)) := by
      simp only [planFor, Operation.plan, Operation.itemAt, member]
      rfl
    have leads : (Record.changeAt index a new : Record α Edit).Leads l.contents
        (l.contents.set index new) := ⟨member, rfl⟩
    refine mutate_answers here access free planned leads ?_ ?_ ?_
    all_goals simp [Record.handover, Record.exchange, owned, vacant]
    exact .inl fun x there same => stranger (same ▸ List.mem_map_of_mem there)

theorem removal_refused {cell : α → CellId} (here : w.lists.get? l.context = some l)
    (access : l.access = some cell) (free : w.locks.Free w.thread l.lock) {index : Nat} {a : α}
    (member : l.contents[index]? = some a) {c : Context} (differs : c ≠ l.context)
    (taken : w.cells.owner (cell a) = some c) (call : Call α κ δ) (aloud : Bool) :
    (mutate call l.context aloud (.removeAt index) w).1 =
      .error (.refused (.capture (.capturedByOther 0 c l.context))) := by
  have planned : w.planFor l (.removeAt index) = .ok (some (.remove index a), .item (some a)) := by
    simp only [planFor, Operation.plan, Operation.itemAt, member]
    rfl
  have refuses {m : UndoableList α} {cells : Cells ListId} (access : m.access = some cell)
      (contents : m.contents = l.contents) (context : m.context = l.context)
      (taken : cells.owner (cell a) = some c) : Site.append ⟨m, cells⟩ (.remove index a) =
        .error (.refused (.capture (.capturedByOther 0 c l.context))) := by
    have moves : (Record.remove index a : Record α Edit).Moves .forward m.contents
        (l.contents.eraseIdx index) := by
      rw [contents]
      exact Operation.leads_remove (ε := Edit) member
    have ours : (Record.remove index a : Record α Edit).Planned := trivial
    obtain ⟨bulletin, outcome, -⟩ := Site.commit_eq (s := ⟨m, cells⟩) ours moves
    have given :
        Site.transfer ⟨m, cells⟩ ((Record.remove index a : Record α Edit).handover .forward) =
        .error (.capture (.capturedByOther 0 c l.context)) := by
      simp [Site.transfer, access, Record.handover, Record.exchange, Site.exchange,
        Site.enteringFault?, Cells.freeBatch, Cells.releaseFault?, taken, context, differs,
        bind, Except.bind, Except.mapError]
    rw [given] at outcome
    rw [Site.append, outcome]
    rfl
  rw [mutate_of_free here free planned, refuses access rfl rfl taken,
    refuses (m := l.reset) access rfl rfl (owner_reset_of_owned taken)]
  cases l.store.stale <;> rfl

end

/-- Work on the store of a list during which other threads do what they please with their own lists.
When it has returned and everybody was told, a member that the list had, owned and kept is the
list's if no visitor brought it to another list, and then the list has a free hand with it. While
another list owns it, the list cannot take it out. -/
theorem exposed_members_reclaimed {call : Call α κ δ} {cell : α → CellId} {w : World α κ δ}
    {l : UndoableList α} (aloof : Aloof call l.context) (present : Present l.context w)
    (here : w.lists.get? l.context = some l) (access : l.access = some cell)
    (e : Exposed l.context α β) {b : β}
    (returned : (withStore call l.context (exposed call e) w).1 = .ok b) :
    let v := (withStore call l.context (exposed call e) w).2
    ∃ m, v.lists.get? l.context = some m ∧ m.context = l.context ∧ m.lock = l.lock ∧
      ∀ index a, m.contents[index]? = some a → cell a ∈ l.contents.map cell →
        w.cells.owner (cell a) = some l.context →
        (cell a ∉ brought call e (w.opened l) → v.cells.owner (cell a) = some l.context) ∧
        (v.locks.Free v.thread m.lock →
          (v.cells.owner (cell a) = some m.context → FreeHand cell m v index a) ∧
          ∀ c, c ≠ m.context → v.cells.owner (cell a) = some c → ∀ call aloud,
            (mutate call m.context aloud (.removeAt index) v).1 =
              .error (.refused (.capture (.capturedByOther 0 c m.context)))) := by
  intro v
  cases worked : aloneWithStore l.context (exposed call e) w with
  | mk r u =>
    cases r with
    | error fault =>
      rw [withStore, Act.bind_of_error worked] at returned
      cases returned
    | ok c =>
      have reclaimed := reclaimed_of_returned aloof present here e
        (show (aloneWithStore l.context (exposed call e) w).1 = .ok c by rw [worked])
      rw [worked] at reclaimed
      obtain ⟨m, there, sameAccess, lock, members⟩ := reclaimed.list
      have told : v = announce call l.context .reset u := by
        simp only [v]
        rw [withStore, Act.bind_of_ok worked]
        rfl
      have quiet := elsewhere_announced aloof reclaimed.present l.context .reset
      rw [← told] at quiet
      have found := quiet.list.trans there
      have context : m.context = l.context := quiet.present.keyed _ _ found
      have capturing := sameAccess.trans access
      rw [← context] at found
      refine ⟨m, context ▸ found, context, lock, fun index a member before owned => ⟨?_, ?_⟩⟩
      · intro unclaimed
        have kept : cell a ∈ l.cellsOf m.contents := by
          rw [cellsOf_capturing access]
          exact List.mem_map_of_mem (List.mem_of_getElem? member)
        rw [← cellsOf_capturing access] at before
        rw [quiet.mine]
        exact (members _ kept before owned).resolve_right fun claimed => unclaimed claimed.1
      · intro free
        refine ⟨fun mine => freeHand_of_owned found capturing free member mine, ?_⟩
        exact fun d differs taken => removal_refused found capturing free member differs taken

end

def neighbours : World ObjectId Unit Unit :=
  (createList { access := some id } (storeWorld [0])).2

def tenantList : UndoableList ObjectId where
  context := 1
  lock := 1
  store := { items := [0] }
  history := { maxDepth := History.unlimited }
  access := some id
  tracksEdits := true

def borrowing (x : ObjectId) : Exposed tenantList.context ObjectId Unit :=
  .visited 1 (.act 2 (by decide) (.mutate true (.push x))) (.returns ())

def afterBorrowing (x : ObjectId) : World ObjectId Unit Unit :=
  (withStore unheard 1 (exposed unheard (borrowing x)) neighbours).2

theorem unclaimed_member_stays_at_hand :
    (afterBorrowing 1).cells.owner 0 = some 1 ∧ (afterBorrowing 1).cells.owner 1 = some 2 ∧
      (mutate unheard 1 true (.removeAt 0) (afterBorrowing 1)).1 = .ok (.item (some 0)) := by
  have aloof : Aloof unheard tenantList.context := fun _ _ _ _ present => elsewhere_refl present
  have adopted : Tenure id 1 (storeWorld [0]) { now := [0] } :=
    .adopted { items := [0], access := some id } rfl rfl (fun _ _ here => by cases here)
      (fun _ owned => by cases owned) (by decide) (fun _ _ => rfl)
  obtain ⟨l, possesses⟩ := possesses_of_tenure adopted
  have known : (storeWorld [0]).nextContext = 2 := rfl
  have alone : Present 1 (storeWorld [0]) :=
    ⟨possesses.held, possesses.inPlace, by rw [known]; decide⟩
  have present : Present tenantList.context neighbours :=
    (elsewhere_created alone { access := some id }).present
  obtain ⟨here, owned, returned, idle, lock, taken, contents⟩ :
      neighbours.lists.get? tenantList.context = some tenantList ∧
      neighbours.cells.owner 0 = some 1 ∧
      (withStore unheard tenantList.context (exposed unheard (borrowing 1)) neighbours).1 = .ok () ∧
      (afterBorrowing 1).locks.heldBy (afterBorrowing 1).thread = [] ∧
      (afterBorrowing 1).locks.get? 1 = some {} ∧ (afterBorrowing 1).cells.owner 1 = some 2 ∧
      brought unheard (borrowing 1) (neighbours.opened tenantList) = [1] := by
    refine ⟨?_, ?_, ?_, ?_, ?_, ?_, ?_⟩ <;> cbv
  obtain ⟨m, there, context, sameLock, members⟩ :=
    exposed_members_reclaimed aloof present here rfl (borrowing 1) returned
  have free : (afterBorrowing 1).locks.Free (afterBorrowing 1).thread m.lock := by
    rw [sameLock]
    refine ⟨?_, {}, lock, rfl, rfl⟩
    rw [idle]
    exact List.not_mem_nil
  have store : (afterBorrowing 1).contentsOf 1 = [0] := by cbv
  have member : m.contents[0]? = some 0 := by
    rw [← contentsOf_present there]
    exact congrArg (·[0]?) store
  obtain ⟨kept, hand⟩ := members 0 0 member (by decide) owned
  have mine := kept (by rw [contents]; decide)
  have removes := ((hand free).1 (by rw [context]; exact mine)).removes unheard true
  rw [context] at removes
  exact ⟨mine, taken, removes⟩

/-- A visitor takes a member while it is free, and the list keeps it in its store and cannot take it
out any more. -/
theorem member_is_taken_meanwhile :
    neighbours.contentsOf 1 = [0] ∧ neighbours.cells.owner 0 = some 1 ∧
      (withStore unheard 1 (exposed unheard (borrowing 0)) neighbours).1 = .ok () ∧
      (afterBorrowing 0).contentsOf 1 = [0] ∧ (afterBorrowing 0).contentsOf 2 = [0] ∧
      (afterBorrowing 0).cells.owner 0 = some 2 ∧
      (mutate unheard 1 true (.removeAt 0) (afterBorrowing 0)).1 =
        .error (.refused (.capture (.capturedByOther 0 2 1))) := by
  refine ⟨?_, ?_, ?_, ?_, ?_, ?_, ?_⟩ <;> cbv

end World

end UndoableLists
