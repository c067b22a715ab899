import UndoableLists.Proofs.Meanwhile
import UndoableLists.Proofs.Views.Spared
import UndoableLists.Session.Lists

/-!
Writing through merged lists. What is done to a merged list is done to its master: the call answers
what the master would, and leaves the world that a call on the master would leave. A position that
is not the master's is refused, which leaves no trace. Main statement: in every run, whatever is
written to a merged list, no slave changes, and what is shown then are the master's new items and
those of the slaves.
-/
namespace UndoableLists

/-- Whether an operation stays within `length` positions; an item can be put behind them all. -/
def Operation.within {α : Type} (length : Nat) (op : Operation α) : Bool :=
  match op.place? with
  | none => true
  | some (index, inserting) => index < length || inserting && index = length

namespace World
variable {α κ δ : Type}

/-- A merged list that can be written: it can be read, it is held, its master is none of its slaves,
and ledgers are tidy. -/
structure MergeWritable (w : World α κ δ) (id : ViewId) (m : MergedList α) : Prop
    extends MergeReadable w id m where
  held : .merge id ∈ w.held
  apart : ∀ s ∈ m.slaves, s.list ≠ m.master
  tidy : w.locks.Tidy

section
variable [Diary δ] {w : World α κ δ} {id : ViewId} {m : MergedList α}

theorem readList_free {β : Type} {c : ListId} {l : UndoableList α} (tidy : w.locks.Tidy)
    (here : w.lists.get? c = some l) (free : w.locks.Free w.thread l.lock)
    (f : UndoableList α → β) : readList c f w = (.ok (f l), w) := by
  obtain ⟨u, named⟩ : ∃ u, u = { w with locks := w.locks.grant w.thread l.lock .read } := ⟨_, rfl⟩
  have taken : Host.acquire l.lock .read w = (.ok (), u) := named ▸ acquire_of_free free
  have there : u.lists.get? c = some l := named ▸ here
  have work : (withList c fun l => return f l : Work α κ δ β) u = (.ok (f l), u) :=
    withList_present there
  have given : Host.releaseFor u.thread l.lock u = w := by
    rw [named]
    exact congrArg (fun locks => { w with locks }) (Locks.release_grant tidy free .read)
  rw [readList, withList_present here]
  simp only [Host.holding, taken, Act.ensuring, work]
  exact congrArg (Prod.mk _) given

section
variable [Element α] {call : Call α κ δ} {op : Operation α} {index : Nat} {inserting : Bool}

omit [Element α] in
theorem ensureWritable_eq (writable : MergeWritable w id m) (index : Nat) (inserting : Bool) :
    ensureWritable id m index inserting w =
      if index < (w.contentsOf m.master).length ||
        inserting && index = (w.contentsOf m.master).length
      then (.ok (), w)
      else (do
        let total := (← mergedItems id).items.length
        if index < total then Act.refuse (.readOnlyIndex index)
        else Act.refuse (.indexOutOfRange index total) : Work α κ δ Unit) w := by
  obtain ⟨l, here, free⟩ := writable.free m.master List.mem_cons_self
  have length : (w.contentsOf m.master).length = l.store.length := by
    rw [contentsOf, here]
    rfl
  rw [ensureWritable, Act.bind_of_ok (readList_free writable.tidy here free _), length]
  split <;> rfl

theorem mutateMaster_within (writable : MergeWritable w id m)
    (within : op.within (w.contentsOf m.master).length = true) (call : Call α κ δ) :
    mutateMaster call id op w = mutate call m.master true op w := by
  rw [mutateMaster_eq writable.view, ensurePlaced]
  unfold Operation.within at within
  cases place : op.place? with
  | none => rfl
  | some p =>
    rw [place] at within
    exact Act.bind_of_ok ((ensureWritable_eq writable p.1 p.2).trans (if_pos within)) _

theorem mutateMaster_beyond (writable : MergeWritable w id m)
    (place : op.place? = some (index, inserting))
    (beyond : op.within (w.contentsOf m.master).length = false) {shown : List α}
    (shows : (mergedItems id w).1.map Built.items = .ok shown) (call : Call α κ δ) :
    mutateMaster call id op w = (.error (.refused
      (if index < shown.length then .readOnlyIndex index
        else .indexOutOfRange index shown.length)), (mergedItems id w).2) := by
  rw [mutateMaster_eq writable.view, ensurePlaced]
  unfold Operation.within at beyond
  rw [place] at beyond ⊢
  rcases looked : mergedItems id w with ⟨fault | b, v⟩
  all_goals rw [looked] at shows
  · cases shows
  · have items : b.items = shown := Except.ok.inj shows
    refine Act.bind_of_error ((ensureWritable_eq writable index inserting).trans ?_) _
    rw [if_neg (ne_true_of_eq_false beyond), Act.bind_of_ok looked, items]
    dsimp only
    split <;> rfl

end

/-- Subscribers whose reactions are part of the run, and who leave a merged list alone and its
slaves. -/
structure Considerate (call : Call α κ δ) [Element α] (id : ViewId) : Prop where
  run : ∀ s k e w, Run w → Run (call s k e w).2
  spares : ∀ s k e w, Spared id w (call s k e w).2

variable [Element α] {call : Call α κ δ} {value : α → Value}

omit [Diary δ] [Element α] in
theorem idle_locked {K : Type} {p : Place (World α κ δ) (CachedView K (Built α))}
    (cachePlace : CachePlace p) (w : World α κ δ) : Idle w (locked p w) := by
  unfold locked
  split
  · exact idle_aside (aside_refl w)
  · exact idle_trans (idle_locks w _) (idle_aside (cachePlace.aside _ _))

theorem idle_mergedItems (coherent : Coherent value w) (readable : MergeReadable w id m) :
    Idle w (mergedItems id w).2 := by
  obtain ⟨x, still, -, readable, reads⟩ := mergedItems_of_free coherent readable
  have usable := mergeCache_usable readable
  obtain ⟨aside, -⟩ := fetch_changes (mergeCachePlace id) (reads_buildMerged id m) usable
    (word m.recipe.generation, m.recipe.key x.version)
  rw [reads]
  exact idle_trans (idle_aside still.toAside)
    (idle_trans (idle_locked (mergeCachePlace id) x) (idle_aside aside))

theorem spared_mergedItems (coherent : Coherent value w) : Spared id w (mergedItems id w).2 := by
  have held := held_of_heldAndChannels (unseen_mergedItems outside_heldAndChannels id w)
  refine ⟨by rw [held], fun _ m readable => ?_⟩
  obtain ⟨lists, -, again⟩ := mergedItems_leaves coherent readable
  exact ⟨again, fun _ _ => by rw [lists]⟩

omit [Diary δ] [Element α] in
theorem apart_of_writable (writable : MergeWritable w id m) :
    ∀ g, w.merges.get? id = some g → ∀ s ∈ g.slaves, s.list ≠ m.master := by
  intro g here
  obtain rfl := Option.some.inj (writable.view.symm.trans here)
  exact writable.apart

theorem spared_mutateMaster (considerate : Considerate call id) (coherent : Coherent value w)
    (writable : MergeWritable w id m) (few : ∀ n ∈ w.counters m.recipe, n < 2 ^ 64)
    (op : Operation α) : Spared id w (mutateMaster call id op w).2 := by
  have leads := leads_spared considerate.spares
  obtain ⟨l, here, -⟩ := writable.free m.master List.mem_cons_self
  have named := coherent.grounded.keyed m.master l here
  cases within : op.within (w.contentsOf m.master).length with
  | true =>
    rw [mutateMaster_within writable within call, ← named]
    rw [← named] at here
    exact spared_mutate leads here (named ▸ apart_of_writable writable) true op
  | false =>
    cases place : op.place? with
    | none =>
      rw [Operation.within, place] at within
      cases within
    | some p =>
      have shows := mergedItems_answers coherent writable.toMergeReadable few
      rw [mutateMaster_beyond writable place within shows call]
      exact spared_mergedItems coherent

theorem spared_replayMaster (considerate : Considerate call id) (coherent : Coherent value w)
    (writable : MergeWritable w id m) (direction : Direction) :
    Spared id w (World.replay call m.master true direction w).2 := by
  obtain ⟨l, here, -⟩ := writable.free m.master List.mem_cons_self
  have named := coherent.grounded.keyed m.master l here
  rw [← named] at here ⊢
  exact spared_replay (leads_spared considerate.spares) here (named ▸ apart_of_writable writable)
    true direction

end

/-- A merged list whose slaves are as they were shows what its master has now, and then what its
slaves had before. -/
theorem asked_spared {κ δ : Type} [Diary δ] [Element α] {v w : World α κ δ} {id : ViewId}
    {m : MergedList α} (run : Run v) (spared : Spared id w v) (writable : MergeWritable w id m)
    (changes : m.generation < 2 ^ 64)
    (versions : (m.slaves.map fun s => w.version s.list).sum < 2 ^ 64)
    (master : v.version m.master < 2 ^ 64) {q : Session.Question} (asked : q.ofItems = true) :
    (Session.Stage.askMerge id q v).1 = .ok (Session.Stage.askItems v
      (v.contentsOf m.master ++ m.slaves.flatMap fun s => w.contentsOf s.list) q) := by
  obtain ⟨⟨c, readable⟩, slaves⟩ := spared.stands writable.held m writable.toMergeReadable
  have same : (m.slaves.map fun s => v.version s.list) = m.slaves.map fun s => w.version s.list :=
    List.map_congr_left fun s member => by rw [version, version, slaves s member]
  have items : (m.slaves.flatMap fun s => v.contentsOf s.list) =
      m.slaves.flatMap fun s => w.contentsOf s.list :=
    List.flatMap_congr fun s member => by rw [contentsOf, contentsOf, slaves s member]
  have few := counters_of_merged (m := { m with cache := c }) changes master (same ▸ versions)
  rw [askMerge_answers asked (coherent_of_run (Element.current v.objects) run) readable few,
    MergedList.places, List.flatMap_cons, List.flatMap_map, items]

end World

namespace Session.Stage
variable {α : Type} [Element α] {w : Stage α} {id : ViewId} {m : MergedList α}
  {call : World.Call α Client Notebook}

/-- What a call that writes to a merged list leaves. -/
inductive Written (call : World.Call α Client Notebook) (id : ViewId) (w : Stage α) :
    Stage α → Prop
  | mutated (op : Operation α) (aloud : Bool) :
    Written call id w (mutate call (.merge id) op aloud w).2
  | replayed (direction : Direction) (aloud : Bool) :
    Written call id w (replay call (.merge id) direction aloud w).2

theorem replying_leaves (work : Play α (Reply α)) (w : Stage α) :
    (replying work w).2 = (work w).2 := by
  rw [replying, Act.bind_apply]
  rcases work w with ⟨_ | r, v⟩ <;> rfl

omit [Element α] in
theorem replay_leaves (call : World.Call α Client Notebook) (c : ListId) (direction : Direction)
    (aloud : Bool) (w : Stage α) :
    (replay call (.list c) direction aloud w).2 = (World.replay call c aloud direction w).2 := by
  rw [replay, Act.bind_apply]
  rcases World.replay call c aloud direction w with ⟨_ | b, v⟩ <;> rfl

omit [Element α] in
theorem replay_master (here : w.merges.get? id = some m) (call : World.Call α Client Notebook)
    (direction : Direction) (aloud : Bool) :
    replay call (.merge id) direction aloud w = replay call (.list m.master) direction true w := by
  simp only [replay]
  rw [World.withMerge_present here]

theorem written_spares (considerate : World.Considerate call id) (run : World.Run w)
    (writable : World.MergeWritable w id m) (few : ∀ n ∈ w.counters m.recipe, n < 2 ^ 64)
    {v : Stage α} (written : Written call id w v) : World.Run v ∧ World.Spared id w v := by
  have coherent := World.coherent_of_run (Element.current w.objects) run
  cases written with
  | mutated op aloud =>
    rw [show mutate call (.merge id) op aloud = replying (World.mutateMaster call id op) from rfl,
      replying_leaves]
    exact ⟨World.run_mutateMaster considerate.run run id op,
      World.spared_mutateMaster considerate coherent writable few op⟩
  | replayed direction aloud =>
    rw [replay_master writable.view, replay_leaves]
    exact ⟨World.run_replay considerate.run run m.master true direction,
      World.spared_replayMaster considerate coherent writable direction⟩

/-- In every run, whoever writes to a merged list writes to its master. What stays within the master
comes to what the same call on the master comes to, in its answer and in the world that it leaves,
and so do undoing and redoing. Any other position is refused as a slave's, or as none at all, which
leaves lists, items and audiences alone, whatever subscribers would do. And after each of these
calls, if subscribers leave the merged list alone and its slaves, no slave has changed, and the
merged list shows what the master has then, and after it what the slaves have. -/
theorem merged_writes_touch_the_master_only (run : World.Run w)
    (writable : World.MergeWritable w id m) (changes : m.generation < 2 ^ 64)
    (master : World.version w m.master < 2 ^ 64)
    (versions : (m.slaves.map fun s => World.version w s.list).sum < 2 ^ 64) :
    let length := (World.contentsOf w m.master).length
    let slaves := m.slaves.flatMap fun s => World.contentsOf w s.list
    let total := length + slaves.length
    (∀ call op aloud, op.within length = true →
      mutate call (.merge id) op aloud w = mutate call (.list m.master) op true w) ∧
    (∀ call direction aloud,
      replay call (.merge id) direction aloud w = replay call (.list m.master) direction true w) ∧
    (∀ op index inserting, op.place? = some (index, inserting) → op.within length = false →
      ∃ v, World.Idle w v ∧ v.channels = w.channels ∧ ∀ call aloud,
        mutate call (.merge id) op aloud w = (.error (.refused
          (if index < total then .readOnlyIndex index else .indexOutOfRange index total)), v)) ∧
    ∀ call, World.Considerate call id → ∀ v, Written call id w v →
      (∀ s ∈ m.slaves, v.lists.get? s.list = w.lists.get? s.list) ∧
      (World.version v m.master < 2 ^ 64 → ∀ q : Question, q.ofItems = true →
        (askMerge id q v).1 = .ok (askItems v (World.contentsOf v m.master ++ slaves) q)) := by
  intro length slaves total
  have coherent := World.coherent_of_run (Element.current w.objects) run
  have few := World.counters_of_merged changes master versions
  have readable := writable.toMergeReadable
  refine ⟨fun call op aloud within => ?_, fun call direction aloud => ?_, ?_, ?_⟩
  · have same := World.mutateMaster_within writable within call
    simp only [mutate, replying, Act.bind_apply, same]
  · exact replay_master writable.view call direction aloud
  · intro op index inserting place beyond
    have shows := World.mergedItems_answers coherent readable few
    rw [MergedList.places, List.flatMap_cons, List.flatMap_map] at shows
    refine ⟨_, World.idle_mergedItems coherent readable,
      congrArg Prod.snd (World.unseen_mergedItems World.outside_heldAndChannels id w),
        fun call aloud => ?_⟩
    have refused := World.mutateMaster_beyond writable place beyond shows call
    rw [List.length_append] at refused
    simp only [mutate, replying, Act.bind_apply, refused]
    rfl
  · intro call considerate v written
    obtain ⟨later, spared⟩ := written_spares considerate run writable few written
    exact ⟨(spared.stands writable.held m readable).2, fun master q asked =>
      World.asked_spared later spared writable changes versions master asked⟩

def pairWorld : Stage Value :=
  (World.exchangeSlaves 0 (World.alongside 2) (World.createMerge 1 {}
    (World.createList { items := [.int 2] }
      (World.createList { items := [.int 1] } { client := {} }).2).2)).2

def silentlyGrownWorld : Stage Value :=
  (World.lockedMutation 1 (.push (.int 3)) (World.mergedItems 0 pairWorld).2).2

def silentlyGrownMerge : MergedList Value where
  master := 1
  lock := 3
  slaves := [⟨2, []⟩]
  generation := 1
  cache := { lock := some 4, entry := some ((1, 0, 0), ⟨0, [.int 1, .int 2]⟩) }
  subscriptions := [⟨.list 1, .changes, 0⟩, ⟨.list 1, .properties, 1⟩]

def silentlyGrownMaster : UndoableList Value where
  context := 1
  lock := 1
  store := { items := [.int 1, .int 3] }
  history := { done := [.add 1 (.int 3)], maxDepth := History.unlimited }
  version := 1

def silentlyGrownSlave : UndoableList Value where
  context := 2
  lock := 2
  store := { items := [.int 2] }
  history := { maxDepth := History.unlimited }

def writtenMaster : UndoableList Value where
  context := 1
  lock := 1
  store := { items := [.int 1, .int 7] }
  history :=
    { done := [.changeAt 1 (.int 3) (.int 7), .add 1 (.int 3)], maxDepth := History.unlimited }
  version := 2

theorem silentlyGrown_run : World.Run silentlyGrownWorld := by
  have empty : World.Run ({ client := {} } : Stage Value) := World.run_start _
  have both := (empty.list (.created { items := [.int 1] })).list (.created { items := [.int 2] })
  have merged : World.Run pairWorld := (both.merge (.made 1 {})).merge (.set 0 (World.alongside 2))
  have seen : World.Run (World.mergedItems 0 pairWorld).2 := merged.merge (.read 0)
  exact seen.list (.mutated _ _)

theorem silentlyGrown_lists :
    silentlyGrownWorld.lists.get? 1 = some silentlyGrownMaster ∧
    silentlyGrownWorld.lists.get? 2 = some silentlyGrownSlave := by cbv

theorem silentlyGrown_writable :
    World.MergeWritable silentlyGrownWorld 0 silentlyGrownMerge := by
  obtain ⟨master, slave⟩ := silentlyGrown_lists
  obtain ⟨idle, ledger, ⟨first, second, third, fourth⟩, held, view⟩ :
      silentlyGrownWorld.locks.heldBy silentlyGrownWorld.thread = [] ∧
      silentlyGrownWorld.locks.ledger.entries = [] ∧
      (silentlyGrownWorld.locks.get? 1 = some {} ∧ silentlyGrownWorld.locks.get? 2 = some {} ∧
        silentlyGrownWorld.locks.get? 3 = some {} ∧ silentlyGrownWorld.locks.get? 4 = some {}) ∧
      silentlyGrownWorld.held = [.merge 0, .list 2, .list 1] ∧
      silentlyGrownWorld.merges.get? 0 = some silentlyGrownMerge := by cbv
  refine ⟨⟨view, rfl, ?_, Locks.free_of_idle idle third, ?_⟩, ?_, ?_, ?_⟩
  · intro c place
    rcases place with _ | ⟨_, _ | ⟨_, ⟨⟩⟩⟩
    · exact ⟨silentlyGrownMaster, master, Locks.free_of_idle idle first⟩
    · exact ⟨silentlyGrownSlave, slave, Locks.free_of_idle idle second⟩
  · intro own has
    cases has
    exact Locks.free_of_idle idle fourth
  · rw [held]
    exact List.mem_cons_self
  · intro s member
    rw [List.mem_singleton.mp member]
    decide
  · intro thread
    rw [Table.get?, ledger]
    rintro ⟨⟩

/-- The second item belongs to the master, though the merged list has not shown it there yet. -/
theorem second_item_is_written :
    World.MergeWritable silentlyGrownWorld 0 silentlyGrownMerge ∧
    silentlyGrownMerge.generation < 2 ^ 64 ∧
    World.version silentlyGrownWorld silentlyGrownMerge.master < 2 ^ 64 ∧
    (silentlyGrownMerge.slaves.map fun s => World.version silentlyGrownWorld s.list).sum < 2 ^ 64 ∧
    ∃ call : World.Call Value Client Notebook,
      mutate call (.merge 0) (.set 1 (.int 7)) true silentlyGrownWorld =
        mutate call (.list 1) (.set 1 (.int 7)) true silentlyGrownWorld ∧
      (mutate call (.merge 0) (.set 2 (.int 7)) true silentlyGrownWorld).1 =
        .error (.refused (.readOnlyIndex 2)) ∧
      (mutate call (.merge 0) (.insert 3 (.int 7)) true silentlyGrownWorld).1 =
        .error (.refused (.indexOutOfRange 3 3)) ∧
      (askMerge 0 .contents
          (mutate call (.merge 0) (.set 1 (.int 7)) true silentlyGrownWorld).2).1 =
        .ok (.values [.int 1, .int 7, .int 2]) := by
  obtain ⟨master, slave⟩ := silentlyGrown_lists
  have version : World.version silentlyGrownWorld silentlyGrownMerge.master < 2 ^ 64 := by
    rw [World.version, silentlyGrownMerge, master]
    decide
  have versions : (silentlyGrownMerge.slaves.map fun s =>
      World.version silentlyGrownWorld s.list).sum < 2 ^ 64 := by
    simp [silentlyGrownMerge, World.version, slave, silentlyGrownSlave]
  have generation : silentlyGrownMerge.generation < 2 ^ 64 := by decide
  have two : (World.contentsOf silentlyGrownWorld silentlyGrownMerge.master).length = 2 := by
    rw [World.contentsOf, silentlyGrownMerge, master]
    rfl
  have one : (silentlyGrownMerge.slaves.flatMap fun s =>
      World.contentsOf silentlyGrownWorld s.list) = [.int 2] := by
    simp [silentlyGrownMerge, World.contentsOf, slave, silentlyGrownSlave, UndoableList.contents]
  let quiet : World.Call Value Client Notebook := fun _ _ _ => pure ()
  have considerate : World.Considerate quiet 0 :=
    ⟨fun _ _ _ _ run => run, fun _ _ _ => World.spared_refl⟩
  obtain ⟨within, -, beyond, afterwards⟩ := merged_writes_touch_the_master_only silentlyGrown_run
    silentlyGrown_writable generation version versions
  rw [two] at within
  rw [two, one] at beyond
  rw [one] at afterwards
  have same := within quiet (.set 1 (.int 7)) true rfl
  obtain ⟨_, -, -, slaves⟩ := beyond (.set 2 (.int 7)) 2 false rfl rfl
  obtain ⟨_, -, -, nobodys⟩ := beyond (.insert 3 (.int 7)) 3 true rfl rfl
  obtain ⟨-, shows⟩ := afterwards quiet considerate _ (.mutated (.set 1 (.int 7)) true)
  have written : (mutate quiet (.list 1) (.set 1 (.int 7)) true silentlyGrownWorld).2.lists.get? 1 =
      some writtenMaster := by cbv
  rw [same, World.version, World.contentsOf, show silentlyGrownMerge.master = 1 from rfl,
    written] at shows
  refine ⟨silentlyGrown_writable, generation, version, versions, quiet, same, ?_, ?_, ?_⟩
  · rw [slaves]
    rfl
  · rw [nobodys]
    rfl
  · rw [same]
    exact shows (by decide) .contents rfl

end Session.Stage
end UndoableLists
