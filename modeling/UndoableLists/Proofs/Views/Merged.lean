import Mathlib.Algebra.GroupWithZero.Nat
import Mathlib.Algebra.Order.BigOperators.Group.List
import Mathlib.Algebra.Order.Group.Nat
import UndoableLists.Proofs.Views.Steps
import UndoableLists.World.Merging

/-!
The recipe of a merged list: the items of the master, then those of each slave in turn. The key
adds the versions of all slaves in one word; versions only grow, so below 2^64 equal sums are sums
of equal versions. A list that is a slave several times is added several times. Main statements:
what is built is what the recipe makes, and whatever is done with a merged list, its cache stays
true to its keys.
-/
namespace UndoableLists
variable {α κ δ : Type}

/-- Numbers that only grew, with the same sum, are the same numbers. -/
theorem same_of_sum {β : Type} {old new : β → Nat} {xs : List β}
    (grown : ∀ x ∈ xs, old x ≤ new x) (same : (xs.map old).sum = (xs.map new).sum) :
    ∀ x ∈ xs, old x = new x := by
  induction xs with
  | nil => simp
  | cons y rest ih =>
    have here := grown y List.mem_cons_self
    have later : ∀ x ∈ rest, old x ≤ new x :=
      fun x member => grown x (List.mem_cons_of_mem y member)
    have sums := List.sum_le_sum later
    simp only [List.map_cons, List.sum_cons] at same
    intro x member
    obtain rfl | member := List.mem_cons.mp member
    · omega
    · exact ih later (by omega) x member

theorem World.word_sum (version : ListId → Nat) (ids : List ListId) (n : Nat) :
    ids.foldl (fun total id => total + World.word (version id)) (World.word n) =
      World.word (n + (ids.map version).sum) := by
  induction ids generalizing n with
  | nil => simp
  | cons id rest ih =>
    rw [List.foldl_cons, ← World.word_add, ih, List.map_cons, List.sum_cons, Nat.add_assoc]

def MergedList.places (m : MergedList α) : List ListId := m.master :: m.slaves.map (·.list)

def Operation.place? {α : Type} : Operation α → Option (Nat × Bool)
  | .insert index _ => some (index, true)
  | .set index _ => some (index, false)
  | .removeAt index => some (index, false)
  | _ => none

def MergedList.recipe (m : MergedList α) : Recipe (UInt64 × UInt64) α where
  generation := m.generation
  places := m.places
  counts version := [version m.master, ((m.slaves.map (·.list)).map version).sum]
  key version := (World.word (version m.master), (m.slaves.map (·.list)).foldl
    (fun total id => total + World.word (version id)) 0)
  makes contents items := items = m.places.flatMap contents
  distinguishes old new grown bounded same c place := by
    obtain ⟨first, others⟩ := Prod.ext_iff.mp same
    have zero : (0 : UInt64) = World.word 0 := rfl
    simp only [zero, World.word_sum, Nat.zero_add] at others
    have master := grown m.master List.mem_cons_self
    have slaves : ∀ id ∈ m.slaves.map (·.list), old id ≤ new id :=
      fun id member => grown id (List.mem_cons_of_mem _ member)
    have sums := List.sum_le_sum slaves
    have few := bounded (new m.master) List.mem_cons_self
    have fewer := bounded _ (List.mem_cons_of_mem _ List.mem_cons_self)
    obtain rfl | member := List.mem_cons.mp place
    · exact World.word_injective first (by omega) few
    · exact same_of_sum slaves (World.word_injective others (by omega) fewer) c member
  confined before after items same made := made.trans (List.flatMap_congr same)

def MergedList.KeptIn (m : MergedList α) (w : World α κ δ) : Prop :=
  w.Kept m.lock m.recipe m.cache

namespace World
variable {u w : World α κ δ} {id : ViewId} {m g : MergedList α}

section
variable [Diary δ]

theorem reads_buildMerged (id : ViewId) (m : MergedList α) :
    Reads (buildMerged id m : Work α κ δ (Built α)) :=
  reads_bind (reads_contents m.master) fun _ => reads_bind (reads_slaveLists id) fun _ =>
    reads_bind (reads_contentsOfAll _) fun _ => reads_build _

theorem buildMerged_answers (here : w.merges.get? id = some g) (slaves : g.slaves = m.slaves)
    {b : Built α} (answer : (buildMerged id m w).1 = .ok b) :
    (∀ c ∈ m.places, ∃ l, w.lists.get? c = some l) ∧ b.items = m.places.flatMap w.contentsOf := by
  rw [buildMerged] at answer
  obtain ⟨first, u, read, asked, later⟩ := bind_answers (reads_contents m.master) answer
  obtain ⟨ids, x, reread, named, gathers⟩ := bind_answers (reads_slaveLists id) later
  obtain ⟨others, y, -, taken, builds⟩ := bind_answers (reads_contentsOfAll ids) gathers
  obtain ⟨l, there, rfl⟩ := contents_answers asked
  obtain rfl := slaveLists_answers (read.merges ▸ here) named
  obtain ⟨present, rfl⟩ := contentsOfAll_answers taken
  cases builds
  have still := still_trans read reread
  have same : x.contentsOf = w.contentsOf := contentsOf_congr still.lists
  rw [still.lists, slaves] at present
  refine ⟨fun c place => ?_, ?_⟩
  · obtain rfl | member := List.mem_cons.mp place
    · exact ⟨l, there⟩
    · exact Option.isSome_iff_exists.mp (present c member)
  · rw [same, slaves, MergedList.places, List.flatMap_cons, contentsOf, there]
    rfl

theorem buildMerged_of_free (here : w.merges.get? id = some g) (slaves : g.slaves = m.slaves)
    (unlocked : w.locks.Free w.thread g.lock)
    (free : ∀ c ∈ m.places, ∃ l, w.lists.get? c = some l ∧ w.locks.Free w.thread l.lock) :
    (buildMerged id m w).1.map Built.items = .ok (m.places.flatMap w.contentsOf) := by
  obtain ⟨l, there, unheld⟩ := free m.master List.mem_cons_self
  obtain ⟨u, read, asked⟩ := bind_given (reads_contents m.master) (contents_of_free there unheld)
  obtain ⟨x, reread, named⟩ := bind_given (reads_slaveLists id)
    (slaveLists_of_free (read.merges ▸ here) (free_still read (by simp) unlocked))
  have still := still_trans read reread
  have others : (contentsOfAll (m.slaves.map (·.list)) x).1 =
      .ok ((m.slaves.map (·.list)).flatMap x.contentsOf) := by
    apply contentsOfAll_of_free
    intro c member
    obtain ⟨l, there, unheld⟩ := free c (List.mem_cons_of_mem _ member)
    exact ⟨l, still.lists ▸ there, free_still still (by simp) unheld⟩
  obtain ⟨y, -, taken⟩ := bind_given (reads_contentsOfAll _) others
  have same : x.contentsOf = w.contentsOf := contentsOf_congr still.lists
  rw [buildMerged, asked, named, slaves, taken, same, MergedList.places, List.flatMap_cons,
    show w.contentsOf m.master = l.contents by rw [contentsOf, there]; rfl]
  rfl

end

abbrev MergeStep : ViewId → World α κ δ → World α κ δ → Prop :=
  ViewStep World.merges World.filters MergedList.KeptIn

theorem mergeStep_onward (onward : Onward w u) (views : SameViews w u) : MergeStep id w u :=
  viewStep_same onward views.merges views.filters fun _ kept => kept_onward kept onward

theorem mergeStep_still (still : Still [] w u) : MergeStep id w u :=
  mergeStep_onward (onward_still still (by simp)) still.toSameViews

theorem mergeCache_present (here : w.merges.get? id = some m) :
    (mergeCache id).get w = m.cache := by
  simp only [mergeCache, here, Option.map_some, Option.getD_some]

theorem merge_locked (here : w.merges.get? id = some m) :
    ∃ c, (locked (mergeCache id) w).merges.get? id = some { m with cache := c } := by
  unfold locked
  split
  · exact ⟨m.cache, here⟩
  · exact ⟨_, (Table.get?_modify_present here id _).trans (if_pos rfl)⟩

theorem mergeStep_cache (onward : Onward w u) {c : CachedView (UInt64 × UInt64 × UInt64) (Built α)}
    (views : SameViews ((mergeCache id).set c w) u)
    (kept : ∀ m, w.merges.get? id = some m →
      Kept w m.lock m.recipe ((mergeCache id).get w) → Kept u m.lock m.recipe c) :
    MergeStep id w u := by
  refine viewStep_modify onward (fun m => { m with cache := c }) views.merges views.filters ?_
  intro m here before
  refine kept m here ?_
  rw [mergeCache_present here]
  exact before

theorem mergeStep_removed (id : ViewId) (m : MergedList α) (w : World α κ δ) :
    MergeStep id w (w.removeMerge id m) := by
  have ended := still_unsubscribeAll (m.subscriptions ++ m.slaves.flatMap (·.subscriptions)) w
  have merges : (w.removeMerge id m).merges = w.merges.erase id := by
    rw [removeMerge, ended.merges]
  exact viewStep_erased (onward_aside (aside_removeMerge id m w)) merges ended.filters

theorem mergeStep_created (master : ListId) (settings : Patience) (w : World α κ δ) :
    MergeStep w.nextView w (createMerge master settings w) := by
  obtain ⟨u, reached⟩ : ∃ u, u = (follow master (.master w.nextView)
    { w with nextView := w.nextView + 1 }).2 := ⟨_, rfl⟩
  have followed : Still [] { w with nextView := w.nextView + 1 } u := reached ▸ still_follow ..
  obtain ⟨m, made, lock, cache⟩ : ∃ m : MergedList α, createMerge master settings w =
      { u with
        locks := (u.locks.create settings).2
        merges := u.merges.insert w.nextView m }.hold (.merge w.nextView) ∧
      m.lock = u.locks.next ∧ m.cache = { settings } := by
    rw [reached]
    exact ⟨_, rfl, rfl, rfl⟩
  rw [made]
  have moved := onward_viewCreated followed settings
  refine viewStep_inserted (v := m) (onward_congr moved rfl rfl rfl rfl)
    (congrArg (fun merges => merges.insert w.nextView m) followed.merges) followed.filters ?_
  rw [MergedList.KeptIn, lock, cache]
  exact kept_fresh settings _ (Nat.lt_succ_self _)

variable [Diary δ]

theorem mergeStep_invalidated (id : ViewId) (w : World α κ δ) :
    MergeStep id w (CachedView.invalidate (mergeCache id) w).2 := by
  obtain ⟨onward, c, views, keeps⟩ := kept_invalidated (mergeCachePlace id) w
  exact mergeStep_cache onward views fun m _ kept => keeps m.lock m.recipe kept

omit [Diary δ] in
theorem chooseSlaves_eq (here : w.merges.get? id = some m)
    (choose : List Slave → Except ListRefusal (List Slave × List Slave)) :
    chooseSlaves id choose w = match choose m.slaves with
      | .error cause => (.error (.refused cause), w)
      | .ok (gone, slaves) => (.ok gone, putMerge id (fun m => { m with slaves }) w) := by
  rw [chooseSlaves, withMerge_present here]
  rcases choose m.slaves with cause | ⟨gone, slaves⟩ <;> rfl

omit [Diary δ] in
theorem aside_chooseSlaves (id : ViewId)
    (choose : List Slave → Except ListRefusal (List Slave × List Slave)) (w : World α κ δ) :
    Aside [] w (chooseSlaves id choose w).2 := by
  cases here : w.merges.get? id with
  | none =>
    rw [chooseSlaves, withMerge_absent here]
    exact aside_refl w
  | some m =>
    rw [chooseSlaves_eq here]
    rcases choose m.slaves with cause | ⟨gone, slaves⟩
    · exact aside_refl w
    · exact ⟨rfl, rfl, rfl, rfl, rfl, fun _ => rfl, Locks.eased_refl _⟩

theorem exchangeSlaves_leaves (here : w.merges.get? id = some m)
    (choose : List Slave → Except ListRefusal (List Slave × List Slave)) :
    (∃ fault u, exchangeSlaves id choose w = (.error fault, u) ∧ Still [] w u ∧
      (w.locks.Free w.thread m.lock → ∃ cause, choose m.slaves = .error cause)) ∨
    ∃ gone slaves u, choose m.slaves = .ok (gone, slaves) ∧
      exchangeSlaves id choose w = (.ok gone, u) ∧ Aside [] w u ∧ u.filters = w.filters ∧
      u.merges = w.merges.modify id fun m => { m with slaves, generation := m.generation + 1 } := by
  have chosen {x : World α κ δ} (seen : SameViews w x) :=
    chooseSlaves_eq (seen.merges ▸ here) choose
  rw [exchangeSlaves, withMerge_present here]
  obtain ⟨fault, u, still, outcome⟩ | ⟨x, u, seen, aside, shown, outcome⟩ :=
    holding_leaves (aside_chooseSlaves id choose) m.lock .write w
  · refine .inl ⟨fault, u, Act.bind_of_error outcome _, still, fun free => ?_⟩
    obtain ⟨x, seen, answer⟩ :=
      holding_of_free ListRefusal.ofLock free .write (chooseSlaves id choose)
    rw [outcome, chosen seen.toSameViews] at answer
    cases choice : choose m.slaves with
    | error cause => exact ⟨cause, rfl⟩
    | ok _ =>
      rw [choice] at answer
      cases answer
  · rw [chosen seen] at outcome shown
    rcases choice : choose m.slaves with cause | ⟨gone, slaves⟩
    all_goals rw [choice] at outcome shown
    · exact .inl ⟨_, u, Act.bind_of_error outcome _, ⟨aside, sameViews_trans seen shown⟩,
        fun _ => ⟨cause, rfl⟩⟩
    · have merges : u.merges = w.merges.modify id fun m => { m with slaves } :=
        seen.merges ▸ shown.merges
      refine .inr ⟨gone, slaves, _, rfl, Act.bind_of_ok outcome _, { aside with },
        shown.filters.trans seen.filters, ?_⟩
      change u.merges.modify id (fun m => { m with generation := m.generation + 1 }) = _
      rw [merges, Table.modify_modify]

theorem mergeStep_exchanged (id : ViewId)
    (choose : List Slave → Except ListRefusal (List Slave × List Slave)) (w : World α κ δ) :
    MergeStep id w (exchangeSlaves id choose w).2 := by
  cases here : w.merges.get? id with
  | none =>
    rw [exchangeSlaves, withMerge_absent here]
    exact mergeStep_still (still_refl w)
  | some m =>
    obtain ⟨fault, u, outcome, still, -⟩ | ⟨gone, slaves, u, -, outcome, aside, filters, merges⟩ :=
      exchangeSlaves_leaves here choose
    all_goals rw [outcome]
    · exact mergeStep_still still
    · have moved : Onward w u := onward_aside aside
      exact viewStep_modify moved (fun m => { m with slaves, generation := m.generation + 1 })
        merges filters fun m _ kept => kept_onward (kept_renewed kept rfl) moved

omit [Diary δ] in
theorem dismissSlaves_leaves (id : ViewId) (w : World α κ δ) :
    Aside [] w (dismissSlaves id w).2 ∧ (dismissSlaves id w).2.filters = w.filters ∧
      (dismissSlaves id w).2.merges = w.merges.modify id fun m => { m with slaves := [] } := by
  cases here : w.merges.get? id with
  | none =>
    rw [dismissSlaves, withMerge_absent here]
    exact ⟨aside_refl w, rfl, (Table.modify_absent here _).symm⟩
  | some m =>
    have ended := still_unsubscribeAll (m.slaves.flatMap (·.subscriptions)) w
    have dismissed : (dismissSlaves id w).2 = putMerge id (fun m => { m with slaves := [] })
        (w.unsubscribeAll (m.slaves.flatMap (·.subscriptions))) := by
      rw [dismissSlaves, withMerge_present here]
      rfl
    rw [dismissed]
    refine ⟨{ ended.toAside with }, ended.filters, ?_⟩
    rw [putMerge, ended.merges]

theorem mergeStep_dismissed
    (closed : ∀ m, w.merges.get? id = some m → m.cache.disposed = true) (lock : LockId) :
    MergeStep id w (Act.attempt (ε := ListRefusal)
      (Host.holding ListRefusal.ofLock lock .write (dismissSlaves id)) w :
        Outcome ListRefusal Unit × World α κ δ).2 := by
  obtain ⟨fault, u, still, outcome⟩ | ⟨x, u, seen, aside, shown, outcome⟩ :=
    holding_leaves (fun x => (dismissSlaves_leaves id x).1) lock .write w
  all_goals rw [Act.attempt, outcome]
  · exact mergeStep_still still
  · obtain ⟨-, filters, merges⟩ := dismissSlaves_leaves id x
    have moved := onward_aside aside
    refine viewStep_modify moved (fun m => { m with slaves := [] }) ?_ ?_ fun m here kept => ?_
    · exact seen.merges ▸ shown.merges.trans merges
    · exact shown.filters.trans (filters.trans seen.filters)
    · exact kept_onward (kept_closed kept (closed m here) _) moved

theorem mergeStep_closed (id : ViewId) (w : World α κ δ) :
    MergeStep id w (closeMerge id w).2 := by
  cases here : w.merges.get? id with
  | none =>
    rw [closeMerge, withMerge_absent here]
    exact mergeStep_still (still_refl w)
  | some m =>
    obtain ⟨onward, c, views, closed, keeps⟩ := kept_given_up (mergeCachePlace id) w
    rcases given : CachedView.dispose (mergeCache id) w with ⟨first, u⟩
    rw [given] at onward views keeps
    have begun : MergeStep id w u :=
      mergeStep_cache onward views fun g _ kept => keeps g.lock g.recipe kept
    have unfolded : (closeMerge id w).2 =
        if first then
          let v :=
            (Act.attempt (Host.holding ListRefusal.ofLock m.lock .write (dismissSlaves id)) u :
            Outcome ListRefusal Unit × World α κ δ).2
          { v with locks := (v.locks.dispose m.lock).2 }
        else u := by
      rw [closeMerge, withMerge_present here]
      simp only [Bind.bind, Act.bind, given]
      cases first <;> rfl
    rw [unfolded]
    cases first with
    | false => exact begun
    | true =>
      have ended : ∀ g, u.merges.get? id = some g → g.cache.disposed = true := by
        intro g there
        rw [views.merges, show ((mergeCache id).set c w).merges.get? id = _ from
          Table.get?_modify_present here id _, if_pos rfl] at there
        cases there
        exact closed
      have dismissed := viewStep_trans begun (mergeStep_dismissed ended m.lock)
      exact viewStep_trans dismissed (mergeStep_onward (onward_disposeLock m.lock _) ⟨rfl, rfl⟩)

/-- Reading a merged list is fetching what its recipe makes under the key of the present versions,
if its slaves can be read. -/
theorem mergedItems_cases [Element α] (here : w.merges.get? id = some m) :
    ∃ x, x = (slaveLists id w).2 ∧ x.merges.get? id = some m ∧ Still [] w x ∧
      ((∃ fault, mergedItems id w = (.error fault, x)) ∨ mergedItems id w =
        CachedView.fetch (mergeCache id) (word m.recipe.generation, m.recipe.key x.version)
          (buildMerged id m) x) := by
  have read := reads_slaveLists id w
  rcases named : slaveLists id w with ⟨fault | ids, x⟩
  all_goals
    rw [named] at read
    refine ⟨x, rfl, read.merges ▸ here, read, ?_⟩
    rw [mergedItems, withMerge_present here]
  · exact .inl ⟨fault, Act.bind_of_error named _⟩
  · obtain rfl := slaveLists_answers here (by rw [named])
    exact .inr (Act.bind_of_ok named _)

theorem mergedItems_given [Element α] (here : w.merges.get? id = some m)
    (unlocked : w.locks.Free w.thread m.lock) :
    ∃ x, x.merges.get? id = some m ∧ Still [] w x ∧ mergedItems id w =
      CachedView.fetch (mergeCache id) (word m.recipe.generation, m.recipe.key x.version)
        (buildMerged id m) x := by
  obtain ⟨x, read, named⟩ := bind_given (reads_slaveLists id) (slaveLists_of_free here unlocked)
  refine ⟨x, read.merges ▸ here, read, ?_⟩
  rw [mergedItems, withMerge_present here, named]
  rfl

theorem mergeStep_read [Element α] (grounded : Grounded w) (id : ViewId) :
    MergeStep id w (mergedItems id w).2 := by
  cases here : w.merges.get? id with
  | none =>
    rw [mergedItems, withMerge_absent here]
    exact mergeStep_still (still_refl w)
  | some m =>
    obtain ⟨x, -, there, read, ⟨fault, failed⟩ | reads⟩ := mergedItems_cases here
    · rw [failed]
      exact mergeStep_still read
    · have begun : MergeStep id w x := mergeStep_still read
      obtain ⟨onward, c, views, keeps⟩ :=
        fetch_keeps (mergeCachePlace id) (reads_buildMerged id m) x
        (word m.recipe.generation, m.recipe.key x.version)
      rw [reads]
      refine viewStep_trans begun (mergeStep_cache onward views fun g standing kept => ?_)
      obtain rfl := Option.some.inj (there.symm.trans standing)
      apply keeps m.lock m.recipe (grounded_onward grounded begun.onward) rfl kept
      intro y b still built
      obtain ⟨c, standing⟩ := merge_locked there
      exact buildMerged_answers (g := { m with cache := c }) (still.merges ▸ standing) rfl built

def ensurePlaced (id : ViewId) (m : MergedList α) (op : Operation α) : Work α κ δ Unit :=
  match op.place? with
  | some (index, inserting) => ensureWritable id m index inserting
  | none => pure ()

theorem mutateMaster_eq [Element α] (here : w.merges.get? id = some m) (call : Call α κ δ)
    (op : Operation α) : mutateMaster call id op w =
      (ensurePlaced id m op >>= fun _ => mutate call m.master true op) w := by
  rw [mutateMaster, withMerge_present here]
  cases op <;> rfl

end World

end UndoableLists
