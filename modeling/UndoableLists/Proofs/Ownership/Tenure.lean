import UndoableLists.Proofs.Ownership.Possession
import UndoableLists.Proofs.UndoRedo.ItemRetracing

/-!
The tenure of a list that took its members from a store. Adopting passes over nothing but what other
contexts own; it does not ask whether an item comes up twice. Main statement: if no item does, the
list owns its members ever after, every member can be taken out, and whatever was done can be
undone. An item that came up twice is given up with its first occurrence and cannot be taken out a
second time.
-/
namespace UndoableLists.World
variable {α κ δ β : Type}

/-- The tenure of a list that captures its items, told beside a timeline of its contents. It begins
when the list is made from a store or after work on its store, with items that are free and of which
none comes up twice. A call is a step up to the moment at which its lock is free again; what
subscribers do when they are told are further steps. `elsewhere` is whatever leaves the list and its
handle as they are, captures none of the items that matter and releases none of the members. -/
inductive Tenure [Diary δ] [Element α] (cell : α → CellId) (id : ListId) :
    World α κ δ → Timeline (List α) → Prop
  | adopted {w} (b : Blueprint α) (capturing : b.access = some cell) (named : w.nextContext = id)
    (inPlace : w.InPlace) (unused : ∀ a, w.cells.owner (cell a) ≠ some id)
    (once : (b.items.map cell).Nodup) (free : ∀ a ∈ b.items, w.cells.owner (cell a) = none) :
    Tenure cell id (createList b w).2 { now := b.items }
  | reworked {β w l b store} (inPlace : w.InPlace) (here : w.lists.get? id = some l)
    (held : .list id ∈ w.held) (access : l.access = some cell)
    (strays : ∀ a, w.cells.owner (cell a) = some id → cell a ∈ l.contents.map cell)
    (obtained : (Host.acquire l.lock .write).succeeds w) (r : Rework α β)
    (returned : r.on l.store = (.ok b, store)) (once : (store.items.map cell).Nodup)
    (free : ∀ x ∈ store.items.map cell, w.cells.owner x = none ∨ w.cells.owner x = some id) :
    Tenure cell id (aloneWithStore id (rework id r) w).2 { now := store.items }
  | elsewhere {w v t} (tenure : Tenure cell id w t) (list : v.lists.get? id = w.lists.get? id)
    (held : .list id ∈ v.held) (inPlace : v.InPlace) (unclaimed : Unclaimed cell id t w v) :
    Tenure cell id v t
  | signalled {w t} (tenure : Tenure cell id w t) : Tenure cell id (w.signal id) t
  | mutated {w t l} (tenure : Tenure cell id w t) (here : w.lists.get? id = some l)
    (call : Call α κ δ) (op : Operation α) :
    Tenure cell id (mutate call id false op w).2
      (timelineMutated (·.contentsOf id) t l op w (mutate call id false op w))
  | replayed {w t l} (tenure : Tenure cell id w t) (here : w.lists.get? id = some l)
    (call : Call α κ δ) (direction : Direction) :
    Tenure cell id (replay call id false direction w).2
      (timelineReplayed t l direction (replay call id false direction w).1)
  | cleared {w t} (tenure : Tenure cell id w t) :
    Tenure cell id (clearHistory id w).2
      (if (clearHistory id).succeeds w then { now := t.now } else t)
  | edited {w t l} (tenure : Tenure cell id w t) (here : w.lists.get? id = some l) (e : Edit) :
    Tenure cell id (enterEdit e id w).2
      (if (enterEdit e id).succeeds w then t.recorded l.history.maxDepth t.now else t)

section
variable [Diary δ] [Element α] {cell : α → CellId} {id : ListId} {l : UndoableList α}
  {v w : World α κ δ} {t : Timeline (List α)}

omit [Diary δ] [Element α] in
theorem possesses_signalled (possesses : Possesses cell id l w t) :
    ∃ m, Possesses cell id m (w.signal id) t := by
  have found (c : ListId) : (w.signal id).lists.get? c =
      if c = id then some { l with store := { l.store with stale := true } }
      else w.lists.get? c :=
    Table.get?_modify_present possesses.here c _
  exact ⟨_, possesses_relisted possesses ((found id).trans (if_pos rfl))
    (fun c differs => (found c).trans (if_neg differs)) possesses.held rfl rfl rfl
    { possesses.tracks with } rfl fun _ state => state⟩

theorem possesses_of_tenure (tenure : Tenure cell id w t) : ∃ l, Possesses cell id l w t := by
  induction tenure with
  | adopted b capturing named inPlace unused once free =>
    subst named
    exact ⟨_, possesses_adopted capturing inPlace unused once free⟩
  | @reworked β w l b store inPlace here held access strays obtained r returned once free =>
    obtain rfl := inPlace id l here
    obtain ⟨barred, -⟩ | ⟨-, v, ends⟩ := aloneWithStore_ends here r
    · rw [barred] at obtained
      cases obtained
    · rw [returned] at ends
      obtain ⟨aside, result⟩ := ends
      rw [result]
      exact possesses_reworked inPlace here held access strays once free aside
  | elsewhere tenure list held inPlace unclaimed possessed =>
    obtain ⟨l, possesses⟩ := possessed
    exact ⟨l, possesses_elsewhere possesses list held inPlace unclaimed⟩
  | signalled tenure possessed =>
    obtain ⟨l, possesses⟩ := possessed
    exact possesses_signalled possesses
  | mutated tenure here call op possessed =>
    obtain ⟨m, possesses⟩ := possessed
    obtain rfl := Option.some.inj (here.symm.trans possesses.here)
    obtain rfl := context_of_possesses possesses
    obtain ⟨b, r, v, mutated, -, outcome⟩ := mutate_ends here op
    obtain ⟨n, -, -, after⟩ := possesses_mutated possesses mutated
    rw [outcome call false]
    exact ⟨n, after⟩
  | replayed tenure here call direction possessed =>
    obtain ⟨m, possesses⟩ := possessed
    obtain rfl := Option.some.inj (here.symm.trans possesses.here)
    obtain rfl := context_of_possesses possesses
    obtain ⟨b, r, v, replayed, -, outcome⟩ := replay_ends here direction
    obtain ⟨n, -, after⟩ := possesses_replayed possesses replayed
    rw [outcome call false]
    exact ⟨n, after⟩
  | cleared tenure possessed =>
    obtain ⟨m, possesses⟩ := possessed
    refine possesses_modifying possesses (f := UndoableList.forgetful) rfl rfl rfl ?_ ?_
    · rw [← possesses.tracks.now]
      exact UndoableList.tracks_cleared (l := m.forgetful) rfl
    · intro s state
      rw [List.mem_singleton.mp state]
      exact Timeline.now_mem_states _
  | edited tenure here e possessed =>
    obtain ⟨m, possesses⟩ := possessed
    obtain rfl := Option.some.inj (here.symm.trans possesses.here)
    refine possesses_modifying possesses (f := (·.recordEdit e)) rfl rfl rfl
      (UndoableList.tracks_recordEdit possesses.tracks e) fun s state => ?_
    obtain rfl | before := Timeline.states_recorded state
    · exact Timeline.now_mem_states _
    · exact before

omit [Diary δ] [Element α] in
theorem unclaimed_removed {gone : ListId} {m : UndoableList α} (possesses : Possesses cell id l w t)
    (here : w.lists.get? gone = some m) (differs : id ≠ gone) :
    Unclaimed cell id t w (w.removeList gone m) := by
  have owner (x : CellId) : (w.removeList gone m).cells.owner x =
      if x ∈ m.cellsOf m.contents ∧ w.cells.owner x = some m.context then none
      else w.cells.owner x := by
    have cells : (w.removeList gone m).cells.cell x = _ :=
      Cells.cell_giveUp m.context (m.cellsOf m.contents) w.cells x
    rw [Cells.owner, cells]
    split <;> rfl
  have context := possesses.inPlace gone m here
  constructor
  · intro a
    rw [owner]
    split
    · rename_i freed
      rw [freed.2, context]
      simp [differs.symm]
    · rfl
  · intro s state x member
    rw [owner]
    split
    · exact .inl rfl
    · exact .inr rfl

omit [Diary δ] [Element α] in
theorem possesses_removed {gone : ListId} {m : UndoableList α} (possesses : Possesses cell id l w t)
    (here : w.lists.get? gone = some m) (loose : .list gone ∉ w.held) :
    Possesses cell id l (w.removeList gone m) t := by
  have differs : id ≠ gone := fun same => loose (same ▸ possesses.held)
  exact possesses_elsewhere possesses ((Table.get?_erase ..).trans (if_neg differs)) possesses.held
    (inPlace_removed possesses.inPlace) (unclaimed_removed possesses here differs)

omit [Diary δ] [Element α] in
theorem keeps_possesses {call : Call α κ δ} {lock : LockId}
    (quiet : QuietItems call cell id lock) :
    Keeps call fun w => Possesses cell id l w t ∧ w.locks.Free w.thread lock where
  aside aside kept := ⟨possesses_aside kept.1 aside,
    aside.thread ▸ Locks.free_eased kept.2 aside.locks⟩
  removed here loose kept := ⟨possesses_removed kept.1 here loose, kept.2⟩
  called s k e w kept := by
    have owner (a : α) : (call s k e w).2.cells.owner (cell a) = w.cells.owner (cell a) := by
      rw [Cells.owner, (quiet.items s k e w).cells a, Cells.owner]
    refine ⟨possesses_elsewhere kept.1 (quiet.list s k e w) (quiet.held s k e w kept.1.held)
      (quiet.inPlace s k e w kept.1.inPlace) ⟨fun a => by rw [owner], fun s state x member => ?_⟩,
      quiet.lock s k e w kept.2⟩
    obtain ⟨a, -, rfl⟩ := List.mem_map.mp member
    exact .inr (owner a)

def Tenant (cell : α → CellId) (id : ListId) (w : World α κ δ) : Prop := ∃ t, Tenure cell id w t

theorem keeps_tenant {call : Call α κ δ}
    (called : ∀ s k e w, Tenant cell id w → Tenant cell id (call s k e w).2) :
    Keeps call (Tenant cell id) where
  aside aside tenant := by
    obtain ⟨t, tenure⟩ := tenant
    obtain ⟨l, possesses⟩ := possesses_of_tenure tenure
    have after := possesses_aside possesses aside
    exact ⟨t, tenure.elsewhere (by rw [aside.lists]) after.held after.inPlace
      (unclaimed_of_owners (by rw [aside.cells]))⟩
  removed {w gone m} here loose tenant := by
    obtain ⟨t, tenure⟩ := tenant
    obtain ⟨l, possesses⟩ := possesses_of_tenure tenure
    have differs : id ≠ gone := fun same => loose (same ▸ possesses.held)
    exact ⟨t, tenure.elsewhere ((Table.get?_erase ..).trans (if_neg differs)) possesses.held
      (inPlace_removed possesses.inPlace) (unclaimed_removed possesses here differs)⟩
  called := called

omit [Element α] in
theorem inSteps_of_free {lock : LockId} (free : w.locks.Free w.thread lock) :
    (acquireInSteps lock).succeeds w = true := by
  obtain ⟨u, x, taken, upgraded⟩ := upgrade_of_free free
  exact Act.succeeds_of_ok ((Act.bind_of_ok taken _).trans upgraded)

theorem mutate_of_free (here : w.lists.get? l.context = some l)
    (free : w.locks.Free w.thread l.lock) {op : Operation α} {record : Record α Edit}
    {reply : Reply α} (planned : w.planFor l op = .ok (some record, reply)) (call : Call α κ δ)
    (aloud : Bool) : (mutate call l.context aloud op w).1 =
      (if l.store.stale then Site.append ⟨l.reset, (w.afterReset l).cells⟩ record
        else Site.append ⟨l, w.cells⟩ record).map fun _ => reply := by
  have obtained : (Host.acquire l.lock .upgradeable).succeeds w = true := succeeds_of_free free
  have inSteps := inSteps_of_free free
  have ends {lacking : Prop} {m : UndoableList α} {u v : World α κ δ} {b : Bulletin α}
      {r : Outcome ListRefusal (Reply α)} (had : ¬lacking)
      (planned : u.planFor m op = .ok (some record, reply))
      (ended : Ended [] lacking m op u b r v) :
      r = (Site.append ⟨m, u.cells⟩ record).map fun _ => reply := by
    cases ended with
    | refused aside why =>
      cases why with
      | unplanned other =>
        rw [planned] at other
        cases other
      | unfit other failed =>
        rw [planned] at other
        cases other
        rw [failed]
        rfl
      | barred barred ofLock => exact absurd barred had
    | idle other aside =>
      rw [planned] at other
      cases other
    | carried other done aside =>
      rw [planned] at other
      cases other
      rw [done]
      rfl
  obtain ⟨b, r, v, mutated, -, outcome⟩ := mutate_ends here op
  rw [outcome call aloud]
  cases mutated with
  | fresh fresh ended =>
    rw [fresh]
    exact ends (by simp [inSteps]) planned ended
  | barred stale barred aside =>
    rw [obtained] at barred
    cases barred
  | lost stale taken barred aside =>
    rw [inSteps] at barred
    cases barred
  | heard stale had ended =>
    rw [stale]
    exact ends not_false planned ended

theorem removeAt_answers (possesses : Possesses cell id l w t)
    (free : w.locks.Free w.thread l.lock) {index : Nat} {a : α}
    (member : l.contents[index]? = some a) (call : Call α κ δ) (aloud : Bool) :
    (mutate call id aloud (.removeAt index) w).1 = .ok (.item (some a)) := by
  obtain rfl := context_of_possesses possesses
  have planned : w.planFor l (.removeAt index) = .ok (some (.remove index a), .item (some a)) := by
    simp only [planFor, Operation.plan, Operation.itemAt, member]
    rfl
  obtain ⟨d, fresh⟩ := append_of_removal possesses member
  obtain ⟨d', heard⟩ := append_of_removal (possesses_reset possesses) member
  rw [mutate_of_free possesses.here free planned, fresh, heard]
  cases l.store.stale <;> rfl

omit [Element α] in
theorem replay_answers (possesses : Possesses cell id l w t) (free : w.locks.Free w.thread l.lock)
    (call : Call α κ δ) (aloud : Bool) (direction : Direction) :
    (replay call id aloud direction w).1 =
      .ok (!l.store.stale && !(l.history.side direction).isEmpty) := by
  obtain rfl := context_of_possesses possesses
  have obtained : (Host.acquire l.lock .write).succeeds w = true := succeeds_of_free free
  obtain ⟨b, r, v, replayed, -, outcome⟩ := replay_ends possesses.here direction
  rw [outcome call aloud]
  cases replayed with
  | barred barred aside =>
    rw [obtained] at barred
    cases barred
  | heard stale => simp [stale]
  | fresh fresh _ turned _ =>
    cases turned with
    | nothing none aside => simp [none]
    | rejected near failed aside =>
      obtain ⟨d, done⟩ := commit_of_possesses possesses near
      rw [done] at failed
      cases failed
    | carried near done aside => simp [fresh, near]

theorem undo_of_answered (possesses : Possesses cell id l w t)
    (free : w.locks.Free w.thread l.lock) {call : Call α κ δ}
    (quiet : QuietItems call cell id l.lock) (aloud : Bool) (op : Operation α) {reply : Reply α}
    (answered : (mutate call id aloud op w).1 = .ok reply) :
    let v := (mutate call id aloud op w).2
    ∃ b, (replay call id aloud .backward v).1 = .ok b ∧
      (op.idle (Element.current w.objects) l.contents = false → 0 < l.history.maxDepth →
        b = true ∧ (replay call id aloud .backward v).2.contentsOf id = l.contents) := by
  intro v
  obtain rfl := context_of_possesses possesses
  obtain ⟨b, r, u, mutated, -, outcome⟩ := mutate_ends possesses.here op
  rw [outcome call aloud] at answered
  obtain rfl : r = .ok reply := answered
  obtain ⟨m, lock, fresh, changed⟩ := possesses_mutated possesses mutated
  have unstale := fresh ⟨reply, rfl⟩
  rw [← lock] at quiet
  obtain ⟨after, unheld⟩ := told_keeps (keeps_possesses quiet) l.context b aloud
    ⟨changed, lock ▸ free_mutated mutated free⟩
  have result : v = if aloud then announce call l.context b u else u :=
    congrArg Prod.snd (outcome call aloud)
  rw [← result] at after unheld
  refine ⟨_, replay_answers after unheld call aloud .backward, fun busy room => ?_⟩
  have kept : l.contents ∈ ((timelineMutated (·.contentsOf l.context) t l op w
      ((.ok reply : Outcome ListRefusal (Reply α)), u)).side .backward).head? := by
    obtain ⟨depth, same⟩ : ∃ depth, l.history.maxDepth = depth + 1 :=
      ⟨_, (Nat.sub_add_cancel room).symm⟩
    have now : (t.heard l.store.stale).now = l.contents := by
      rw [possesses.tracks.now, Timeline.heard]
      split <;> rfl
    simp [timelineMutated, busy, Timeline.recorded, Timeline.side, same, now]
  obtain ⟨past, ahead⟩ := List.head?_eq_some_iff.mp kept
  obtain ⟨record, rest, near, -⟩ := History.nearest_record after.tracks.follows ahead
  obtain ⟨d, done⟩ := commit_of_possesses after near
  have context := context_of_possesses after
  obtain ⟨x, aside, freed, undone⟩ := replay_nearest (context.symm ▸ after.here) unstale
    (succeeds_of_free unheld) near done
  obtain ⟨n, turned, same⟩ := possesses_turned after near done aside
  rw [context] at undone
  have unheld' : x.locks.Free x.thread m.lock := aside.thread.symm ▸ freed
  obtain ⟨last, -⟩ :=
    told_keeps (keeps_possesses quiet) l.context d.bulletin aloud ⟨turned, unheld'⟩
  have result : (replay call l.context aloud .backward v).2 =
      if aloud then announce call l.context d.bulletin x else x :=
    congrArg Prod.snd (undone call aloud)
  rw [← result] at last
  refine ⟨by simp [unstale, near], ?_⟩
  rw [contentsOf_present last.here, last.tracks.now, (Timeline.side_turned ahead).1]

/-- Throughout the tenure of a list whose items came in once each, the list owns its members. While
its lock is free it can take out each of them, and no undo or redo is refused: there is something to
replay, or there is not. What was answered can be undone, also when it was told to subscribers that
keep out; if the change was kept, that leads back to the contents from before. Calls that are told
are part of the tenure, whatever subscribers do, as long as that is part of it too. -/
theorem tenant_keeps_members (tenure : Tenure cell id w t) (here : w.lists.get? id = some l) :
    l.contents = t.now ∧ (∀ a ∈ l.contents, w.cells.owner (cell a) = some id) ∧
    (w.locks.Free w.thread l.lock → ∀ call aloud,
      (∀ index a, l.contents[index]? = some a →
        (mutate call id aloud (.removeAt index) w).1 = .ok (.item (some a))) ∧
      (∀ direction, (replay call id aloud direction w).1 =
        .ok (!l.store.stale && !(l.history.side direction).isEmpty)) ∧
      (QuietItems call cell id l.lock → ∀ op reply,
        (mutate call id aloud op w).1 = .ok reply →
        let v := (mutate call id aloud op w).2
        ∃ b, (replay call id aloud .backward v).1 = .ok b ∧
          (op.idle (Element.current w.objects) l.contents = false → 0 < l.history.maxDepth →
            b = true ∧ (replay call id aloud .backward v).2.contentsOf id = l.contents))) ∧
    ∀ call, (∀ s k e w, Tenant cell id w → Tenant cell id (call s k e w).2) → ∀ aloud,
      (∀ op, Tenant cell id (mutate call id aloud op w).2) ∧
      ∀ direction, Tenant cell id (replay call id aloud direction w).2 := by
  obtain ⟨m, possesses⟩ := possesses_of_tenure tenure
  obtain rfl := Option.some.inj (here.symm.trans possesses.here)
  refine ⟨possesses.tracks.now, ?_, ?_, ?_⟩
  · intro a member
    exact (possesses.mine a).mpr (List.mem_map_of_mem member)
  · intro free call aloud
    refine ⟨?_, fun direction => replay_answers possesses free call aloud direction, ?_⟩
    · intro index a member
      exact removeAt_answers possesses free member call aloud
    · intro quiet op reply answered
      exact undo_of_answered possesses free quiet aloud op answered
  · intro call called aloud
    have keeps := keeps_tenant called
    exact ⟨fun op => telling_keeps keeps ⟨_, tenure.mutated here call op⟩ aloud,
      fun direction => telling_keeps keeps ⟨_, tenure.replayed here call direction⟩ aloud⟩

end

def storeWorld (items : List ObjectId) : World ObjectId Unit Unit :=
  (createList { items, access := some id } { client := () }).2

def unheard : Call ObjectId Unit Unit := fun _ _ _ => pure ()

def shortenedWorld : World ObjectId Unit Unit :=
  (mutate unheard 1 false (.removeAt 0) (storeWorld [0, 1])).2

def shortenedList : UndoableList ObjectId where
  context := 1
  lock := 1
  store := { items := [1] }
  history := { done := [.remove 0 0], maxDepth := History.unlimited }
  version := 1
  access := some id
  tracksEdits := true

theorem shortened_list_keeps_its_member :
    shortenedWorld.cells.owner 1 = some 1 ∧
    (mutate unheard 1 true (.removeAt 0) shortenedWorld).1 = .ok (.item (some 1)) ∧
    (replay unheard 1 true .backward shortenedWorld).1 = .ok true ∧
    (replay unheard 1 true .backward
      (mutate unheard 1 true .clear shortenedWorld).2).2.contentsOf 1 = [1] := by
  have adopted : Tenure id 1 (storeWorld [0, 1]) { now := [0, 1] } :=
    .adopted { items := [0, 1], access := some id } rfl rfl (fun _ _ here => by cases here)
      (fun _ owned => by cases owned) (by decide) (fun _ _ => rfl)
  obtain ⟨first, here, idle, lock, planned⟩ :
      (∃ l, (storeWorld [0, 1]).lists.get? 1 = some l) ∧
      shortenedWorld.lists.get? 1 = some shortenedList ∧
      shortenedWorld.locks.heldBy shortenedWorld.thread = [] ∧
      shortenedWorld.locks.get? 1 = some {} ∧
      (mutate unheard 1 true .clear shortenedWorld).1 = .ok .done := by
    refine ⟨⟨_, rfl⟩, ?_, ?_, ?_, ?_⟩ <;> cbv
  obtain ⟨l, before⟩ := first
  have tenure := adopted.mutated before unheard (.removeAt 0)
  obtain ⟨-, owns, able, -⟩ := tenant_keeps_members tenure here
  have free : shortenedWorld.locks.Free shortenedWorld.thread shortenedList.lock := by
    refine ⟨?_, {}, lock, rfl, rfl⟩
    rw [idle]
    exact List.not_mem_nil
  have quiet : QuietItems unheard id 1 shortenedList.lock :=
    ⟨⟨fun _ _ _ _ => rfl, fun _ _ _ _ => rfl, fun _ _ _ _ held => held, fun _ _ _ _ free => free⟩,
      fun _ _ _ _ => Nat.le_refl _, fun _ _ _ _ inPlace => inPlace,
      fun _ _ _ _ => ⟨fun _ => rfl, fun _ => rfl⟩⟩
  obtain ⟨removes, replays, undoes⟩ := able free unheard true
  obtain ⟨b, -, back⟩ := undoes quiet .clear .done planned
  exact ⟨owns 1 List.mem_cons_self, removes 0 1 rfl, replays .backward,
    (back rfl (by decide)).2⟩

/-- An object that came in twice is given up when it is taken out once: nobody owns it while it is
still in the list, where it stays; and taking everything out cannot be undone. -/
theorem repeated_member_is_lost :
    let left := mutate unheard 1 true (.removeAt 0) (storeWorld [0, 0])
    let emptied := mutate unheard 1 true .clear (storeWorld [0, 0])
    (storeWorld [0, 0]).cells.owner 0 = some 1 ∧
      left.1 = .ok (.item (some 0)) ∧ left.2.contentsOf 1 = [0] ∧ left.2.cells.owner 0 = none ∧
      (mutate unheard 1 true (.removeAt 0) left.2).1 =
        .error (.refused (.capture (.notCaptured 0))) ∧
      emptied.1 = .ok .done ∧ (replay unheard 1 true .backward emptied.2).1 =
        .error (.refused (.capture (.alreadyCaptured 1 1))) := by
  refine ⟨?_, ?_, ?_, ?_, ?_, ?_, ?_⟩ <;> cbv

end UndoableLists.World
