import UndoableLists.Proofs.Views.Runs
import UndoableLists.Session.Questions

/-!
What views answer. Main statements: in every run, as long as no counter has come round, a filtered
view and a merged list that can be read answer what they would if they kept nothing. The sum of the
slaves' versions can come round before any list has changed 2 ^ 64 times, and then a merged list
shows items that are gone.
-/
namespace UndoableLists

def Session.Question.ofItems : Session.Question → Bool
  | .length | .isEmpty | .item _ | .contents | .contains _ | .position _ => true
  | _ => false

namespace World
open Session Session.Stage
variable {α κ δ : Type} [Element α]

section
variable {v w : World α κ δ} {items : Work α κ δ (Built α)} {q : Question}

theorem askItems_congr (same : v.objects = w.objects) (xs : List α) (q : Question) :
    askItems v xs q = askItems w xs q := by
  unfold askItems label resolve
  rw [same]

theorem askView_eq (asked : q.ofItems = true) (same : (items w).2.objects = w.objects) :
    askView items q w = ((items w).1.map fun b => askItems w b.items q, (items w).2) := by
  rcases outcome : items w with ⟨fault | b, v⟩
  all_goals rw [outcome] at same
  · cases q <;> simp_all [askView, Question.ofItems, Act.bind_apply, Except.map]
  · have answer := askItems_congr same b.items q
    cases q <;> simp_all [askView, Question.ofItems, Act.bind_apply, Except.map, Act.read]

end

end World

def FilteredView.judged (value : α → Value) (v : FilteredView α) (x : α) :
    Except (Option String) Bool :=
  match v.filter with
  | none => .ok true
  | some f => v.predicate f (value x)

def FilteredView.admits (value : α → Value) (v : FilteredView α) (x : α) : Bool :=
  match v.judged value x with
  | .ok passes => passes
  | .error _ => false

theorem Filter.judges_of_select {judge : Value → Except (Option String) Bool} {value : α → Value}
    {items chosen : List α} (done : Filter.select judge value items = .ok chosen) :
    ∀ x ∈ items, ∃ passes, judge (value x) = .ok passes := by
  induction items generalizing chosen with
  | nil => simp
  | cons y rest ih =>
    rw [Filter.select] at done
    cases here : judge (value y) with
    | error complaint =>
      rw [here] at done
      cases done
    | ok passes =>
      cases later : Filter.select judge value rest with
      | error complaint =>
        rw [here, later] at done
        cases done
      | ok others =>
        intro x member
        obtain rfl | member := List.mem_cons.mp member
        · exact ⟨passes, here⟩
        · exact ih later x member

theorem FilteredView.shown_of_judged {value : α → Value} {v : FilteredView α} {items : List α}
    (judged : ∀ x ∈ items, ∀ complaint, v.judged value x ≠ .error complaint) :
    v.shown value items = .ok (items.filter (v.admits value)) := by
  unfold FilteredView.shown
  cases filter : v.filter with
  | none =>
    have all : ∀ x, v.admits value x = true := by
      intro x
      simp only [FilteredView.admits, FilteredView.judged, filter]
    rw [List.filter_eq_self.mpr fun x _ => all x]
  | some f =>
    dsimp only
    induction items with
    | nil => rfl
    | cons x rest ih =>
      have others := ih fun y member => judged y (List.mem_cons_of_mem _ member)
      have here := judged x List.mem_cons_self
      have verdict : v.judged value x = v.predicate f (value x) := by
        simp only [FilteredView.judged, filter]
      rw [verdict] at here
      rw [Filter.select, others, List.filter_cons, FilteredView.admits, verdict]
      cases passes : v.predicate f (value x) with
      | error complaint => exact absurd passes (here complaint)
      | ok b => cases b <;> rfl

theorem FilteredView.shown_fails_iff {value : α → Value} {v : FilteredView α} {items : List α} :
    (∃ complaint, v.shown value items = .error complaint) ↔
      ∃ x ∈ items, ∃ complaint, v.judged value x = .error complaint := by
  constructor
  · rintro ⟨complaint, failed⟩
    by_contra none
    push Not at none
    have shown := FilteredView.shown_of_judged none
    rw [failed] at shown
    cases shown
  · rintro ⟨x, member, complaint, failed⟩
    cases outcome : v.shown value items with
    | error complaint => exact ⟨complaint, rfl⟩
    | ok chosen =>
      unfold FilteredView.shown at outcome
      unfold FilteredView.judged at failed
      cases filter : v.filter with
      | none =>
        rw [filter] at failed
        cases failed
      | some f =>
        rw [filter] at failed outcome
        dsimp only at failed outcome
        obtain ⟨passes, judged⟩ := Filter.judges_of_select outcome x member
        rw [judged] at failed
        cases failed

namespace World
open Session Session.Stage

/-- A filtered view can be read: neither it nor its base is disposed of, and the locks are free. -/
structure FilterReadable (w : World α κ δ) (id : ViewId) (f : FilteredView α)
    (l : UndoableList α) : Prop where
  view : w.filters.get? id = some f
  base : w.lists.get? f.base = some l
  usable : f.cache.disposed = false
  free : w.locks.Free w.thread l.lock
  unlocked : w.locks.Free w.thread f.lock
  own : ∀ own, f.cache.lock = some own → w.locks.Free w.thread own

section
variable [Element α] [Diary δ] {value : α → Value} {w : World α κ δ} {id : ViewId}
  {f : FilteredView α} {l : UndoableList α} {q : Question}

omit [Element α] [Diary δ] in
theorem filterCache_usable (readable : FilterReadable w id f l) :
    ((filterCache id).get w).disposed = false := by
  rw [filterCache_present readable.view]
  exact readable.usable

omit [Element α] [Diary δ] in
theorem filter_ownLock_free (grounded : Grounded w) (readable : FilterReadable w id f l) :
    (locked (filterCache id) w).locks.Free (locked (filterCache id) w).thread
      (ownLock (filterCache id) w) := by
  apply free_ownLock (filterCachePlace id)
  · intro member
    exact absurd (grounded.ledger _ member) (Nat.lt_irrefl _)
  · rw [filterCache_present readable.view]
    exact readable.own

theorem buildFiltered_meanwhile (coherent : Coherent value w) (readable : FilterReadable w id f l)
    {x : World α κ δ} (still : Still [ownLock (filterCache id) w] (locked (filterCache id) w) x) :
    (buildFiltered id f x).1.map Built.items =
      (f.shown (Element.current w.objects) l.contents).mapError Fault.panicked := by
  have kept : Kept w f.lock (f.dated value) ((filterCache id).get w) :=
    filterCache_present readable.view ▸ coherent.filters id f readable.view
  obtain ⟨-, apart, others⟩ := (kept_locked (filterCachePlace id) coherent.grounded kept).own _ rfl
  obtain ⟨c, standing⟩ := filter_locked readable.view
  have lists := locked_lists (filterCachePlace id) w
  have objects := still.objects.trans (locked_objects (filterCachePlace id) w)
  have there : x.lists.get? f.base = some l := by
    rw [still.lists, lists]
    exact readable.base
  have free := free_within (filterCachePlace id) still readable.free
    (others f.base l (lists ▸ readable.base))
  have unlocked := free_within (filterCachePlace id) still readable.unlocked apart.symm
  rw [← objects]
  exact buildFiltered_now (f := { f with cache := c }) (still.filters ▸ standing) rfl there unlocked
    free

theorem buildFiltered_within (fixed : Fixed value) (coherent : Coherent value w)
    (readable : FilterReadable w id f l) {x : World α κ δ}
    (still : Still [ownLock (filterCache id) w] (locked (filterCache id) w) x) :
    (buildFiltered id f x).1.map Built.items =
      (f.shown value l.contents).mapError Fault.panicked := by
  rw [buildFiltered_meanwhile coherent readable still,
    show Element.current w.objects = value from funext (fixed w.objects)]

theorem filteredItems_afresh (coherent : Coherent value w) (readable : FilterReadable w id f l)
    (missing : f.cache.hit? (word f.generation, word (w.version f.base)) = none) :
    (filteredItems id w).1.map Built.items =
      (f.shown (Element.current w.objects) l.contents).mapError Fault.panicked := by
  have cache := filterCache_present readable.view
  have usable := filterCache_usable readable
  have answered := fetch_of_free (filterCachePlace id) usable
    (filter_ownLock_free coherent.grounded readable)
    (word (f.recipe value).generation, (f.recipe value).key w.version) (buildFiltered id f)
  rw [filteredItems_eq value readable.view]
  rw [cache] at answered
  split at answered
  · rename_i b hit
    have hit : f.cache.hit? (word f.generation, word (w.version f.base)) = some b := hit
    rw [missing] at hit
    cases hit
  · obtain ⟨x, still, answer⟩ := answered
    rw [answer]
    exact buildFiltered_meanwhile coherent readable still

/-- A view that can be read shows the present items of its base, or fails as its filter does. -/
theorem filteredItems_answers (fixed : Fixed value)
    (coherent : Coherent value w) (readable : FilterReadable w id f l)
    (few : ∀ n ∈ w.counters (f.recipe value), n < 2 ^ 64) :
    (filteredItems id w).1.map Built.items =
      (f.shown value l.contents).mapError Fault.panicked := by
  have cache := filterCache_present readable.view
  have kept : Kept w f.lock (f.recipe value) ((filterCache id).get w) :=
    cache ▸ kept_of_faithful (coherent.filters id f readable.view) fixed
  have usable := filterCache_usable readable
  have items : w.contentsOf f.base = l.contents := by
    rw [contentsOf, readable.base]
    rfl
  have present : ∀ c ∈ (f.recipe value).places, ∃ l, w.lists.get? c = some l := by
    intro c place
    rw [List.mem_singleton.mp place]
    exact ⟨l, readable.base⟩
  rw [filteredItems_eq value readable.view]
  obtain ⟨b, answer, made⟩ | ⟨x, still, answer⟩ := fetch_answers (filterCachePlace id) kept usable
    (filter_ownLock_free coherent.grounded readable) few present (buildFiltered id f)
  · have shown : f.shown value l.contents = .ok b.items := items ▸ made
    rw [answer, shown]
    rfl
  · rw [answer]
    exact buildFiltered_within fixed coherent readable still

theorem filteredItems_leaves (coherent : Coherent value w) (readable : FilterReadable w id f l) :
    (filteredItems id w).2.lists = w.lists ∧ (filteredItems id w).2.objects = w.objects ∧
      ∃ c, FilterReadable (filteredItems id w).2 id { f with cache := c } l := by
  have usable := filterCache_usable readable
  obtain ⟨aside, c, stays, has, views, -⟩ := fetch_changes (filterCachePlace id)
    (reads_buildFiltered id f) usable
    (word (f.recipe value).generation, (f.recipe value).key w.version)
  rw [← filteredItems_eq value readable.view] at aside views
  have lists := aside.lists.trans (locked_lists (filterCachePlace id) w)
  refine ⟨lists, aside.objects.trans (locked_objects (filterCachePlace id) w), c, ?_⟩
  refine ⟨?_, lists ▸ readable.base, stays, ?_, ?_, ?_⟩
  · rw [views.filters]
    exact (Table.get?_modify_present readable.view id _).trans (if_pos rfl)
  · exact free_aside aside (free_locked (filterCachePlace id) readable.free)
  · exact free_aside aside (free_locked (filterCachePlace id) readable.unlocked)
  · intro own mine
    obtain rfl := Option.some.inj (has.symm.trans mine)
    exact free_aside aside (filter_ownLock_free coherent.grounded readable)

theorem askFilter_eq (asked : q.ofItems = true) (coherent : Coherent value w)
    (readable : FilterReadable w id f l) : askFilter id q w =
      ((filteredItems id w).1.map fun b => askItems w b.items q, (filteredItems id w).2) := by
  have same := (filteredItems_leaves coherent readable).2.1
  have asks : askFilter id q w = askView (filteredItems id) q w := by
    cases q <;> first | rfl | cases asked
  rw [asks, askView_eq asked same]

theorem askFilter_answers (fixed : Fixed value)
    (asked : q.ofItems = true) (coherent : Coherent value w) (readable : FilterReadable w id f l)
    (few : ∀ n ∈ w.counters (f.recipe value), n < 2 ^ 64) :
    (askFilter id q w).1 = ((f.shown value l.contents).mapError Fault.panicked).map fun items =>
      askItems w items q := by
  rw [askFilter_eq asked coherent readable,
    ← filteredItems_answers fixed coherent readable few]
  cases (filteredItems id w).1 <;> rfl

/-- In every run a filtered view that can be read answers as if it kept nothing: it asks about the
present items of its base that the present filter lets through, in their order, and panics exactly
if the filter fails on one of them. However a reading ends, it is part of the run, and the next one
answers what it would have answered without it. -/
theorem filtered_view_answers_from_scratch (fixed : Fixed value)
    (run : Run w) (readable : FilterReadable w id f l)
    (few : ∀ n ∈ w.counters (f.recipe value), n < 2 ^ 64) (asked : q.ofItems = true) :
    ((∃ complaint, (askFilter id q w).1 = .error (.panicked complaint)) ↔
      ∃ x ∈ l.contents, ∃ complaint, f.judged value x = .error complaint) ∧
    ((∀ x ∈ l.contents, ∀ complaint, f.judged value x ≠ .error complaint) →
      (askFilter id q w).1 = .ok (askItems w (l.contents.filter (f.admits value)) q)) ∧
    Run (askFilter id q w).2 ∧
    ∀ p : Question, p.ofItems = true →
      (askFilter id p (askFilter id q w).2).1 = (askFilter id p w).1 := by
  have coherent := coherent_of_run value run
  have answer := askFilter_answers fixed asked coherent readable few
  have left : (askFilter id q w).2 = (filteredItems id w).2 := by
    rw [askFilter_eq asked coherent readable]
  have later : Run (filteredItems id w).2 := run.filter (.read id)
  obtain ⟨lists, objects, c, again⟩ := filteredItems_leaves coherent readable
  refine ⟨?_, ?_, left ▸ later, ?_⟩
  · rw [answer, ← FilteredView.shown_fails_iff]
    cases f.shown value l.contents with
    | error complaint => simp [Except.mapError, Except.map]
    | ok items => simp [Except.mapError, Except.map]
  · intro judged
    rw [answer, FilteredView.shown_of_judged judged]
    rfl
  · intro p asked
    have versions := version_congr lists
    have still : ∀ n ∈ (filteredItems id w).2.counters
        (({ f with cache := c } : FilteredView α).recipe value), n < 2 ^ 64 := by
      rw [counters, versions]
      exact few
    rw [left, askFilter_answers fixed asked (coherent_of_run value later) again still,
      askFilter_answers fixed asked coherent readable few]
    congr 1
    funext items
    exact askItems_congr objects items p

end

def siftedWorld : World Value Unit Unit :=
  (exchangeFilter 0 (some (.above 1)) (createFilter 1 Filter.judge {}
    (createList { items := [.int 1, .int 2, .int 3] } { client := () }).2)).2

def overlookedWorld : World Value Unit Unit :=
  (lockedMutation 1 (.push (.int 5)) (filteredItems 0 siftedWorld).2).2

def overlookingView : FilteredView Value where
  base := 1
  lock := 2
  filter := some (.above 1)
  generation := 1
  cache := { lock := some 3, entry := some ((1, 0), ⟨0, [.int 2, .int 3]⟩) }
  subscriptions := [⟨.list 1, .changes, 0⟩, ⟨.list 1, .properties, 1⟩]

def overlookedList : UndoableList Value where
  context := 1
  lock := 1
  store := { items := [.int 1, .int 2, .int 3, .int 5] }
  history := { done := [.add 3 (.int 5)], maxDepth := History.unlimited }
  version := 1

theorem overlooked_push_is_shown :
    FilterReadable overlookedWorld 0 overlookingView overlookedList ∧
    (∀ n ∈ overlookedWorld.counters (overlookingView.recipe id), n < 2 ^ 64) ∧
    (askFilter 0 .contents overlookedWorld).1 = .ok (.values [.int 2, .int 3, .int 5]) := by
  have empty : Run ({ client := () } : World Value Unit Unit) := run_start ()
  have made := empty.list (.created { items := [.int 1, .int 2, .int 3] })
  have sifted : Run siftedWorld :=
    (made.filter (.made 1 Filter.judge {})).filter (.set 0 (some (.above 1)))
  have seen : Run (filteredItems 0 siftedWorld).2 := sifted.filter (.read 0)
  have run : Run overlookedWorld := seen.list (.mutated _ _)
  have readable : FilterReadable overlookedWorld 0 overlookingView overlookedList := by
    refine ⟨rfl, rfl, rfl, ⟨by decide, _, rfl, rfl, rfl⟩, ⟨by decide, _, rfl, rfl, rfl⟩, ?_⟩
    intro own has
    cases has
    exact ⟨by decide, _, rfl, rfl, rfl⟩
  have few : ∀ n ∈ overlookedWorld.counters (overlookingView.recipe id), n < 2 ^ 64 := by
    rw [show overlookedWorld.counters (overlookingView.recipe id) = [1, 1] from rfl]
    decide
  obtain ⟨-, answers, -, -⟩ := filtered_view_answers_from_scratch (q := .contents)
    (fun _ _ => rfl) run readable few rfl
  refine ⟨readable, few, answers ?_⟩
  intro x _ complaint failed
  cases failed

/-- A merged list can be read: neither it nor a list that it shows is disposed of, and the locks are
free. -/
structure MergeReadable (w : World α κ δ) (id : ViewId) (m : MergedList α) : Prop where
  view : w.merges.get? id = some m
  usable : m.cache.disposed = false
  free : ∀ c ∈ m.places, ∃ l, w.lists.get? c = some l ∧ w.locks.Free w.thread l.lock
  unlocked : w.locks.Free w.thread m.lock
  own : ∀ own, m.cache.lock = some own → w.locks.Free w.thread own

section
variable {w x : World α κ δ} {id : ViewId} {m : MergedList α} {q : Question}

theorem mergeCache_usable (readable : MergeReadable w id m) :
    ((mergeCache id).get w).disposed = false := by
  rw [mergeCache_present readable.view]
  exact readable.usable

theorem mergeReadable_still (readable : MergeReadable w id m) (still : Still [] w x) :
    MergeReadable x id m where
  view := still.merges ▸ readable.view
  usable := readable.usable
  free c place := by
    obtain ⟨l, here, free⟩ := readable.free c place
    exact ⟨l, still.lists ▸ here, free_aside still.toAside free⟩
  unlocked := free_aside still.toAside readable.unlocked
  own own has := free_aside still.toAside (readable.own own has)

theorem merge_ownLock_free (grounded : Grounded w) (readable : MergeReadable w id m) :
    (locked (mergeCache id) w).locks.Free (locked (mergeCache id) w).thread
      (ownLock (mergeCache id) w) := by
  apply free_ownLock (mergeCachePlace id)
  · intro member
    exact absurd (grounded.ledger _ member) (Nat.lt_irrefl _)
  · rw [mergeCache_present readable.view]
    exact readable.own

variable [Diary δ]

theorem buildMerged_within (grounded : Grounded w) (kept : m.KeptIn w)
    (readable : MergeReadable w id m)
    (still : Still [ownLock (mergeCache id) w] (locked (mergeCache id) w) x) :
    (buildMerged id m x).1.map Built.items = .ok (m.places.flatMap w.contentsOf) := by
  have faithful : Kept w m.lock m.recipe ((mergeCache id).get w) :=
    mergeCache_present readable.view ▸ kept
  obtain ⟨-, apart, others⟩ := (kept_locked (mergeCachePlace id) grounded faithful).own _ rfl
  obtain ⟨c, standing⟩ := merge_locked readable.view
  have lists : x.lists = w.lists := still.lists.trans (locked_lists (mergeCachePlace id) w)
  have free : ∀ c ∈ m.places, ∃ l, x.lists.get? c = some l ∧ x.locks.Free x.thread l.lock := by
    intro c place
    obtain ⟨l, here, unheld⟩ := readable.free c place
    have other := others c l (locked_lists (mergeCachePlace id) w ▸ here)
    exact ⟨l, lists ▸ here, free_within (mergeCachePlace id) still unheld other⟩
  have unlocked := free_within (mergeCachePlace id) still readable.unlocked apart.symm
  rw [← contentsOf_congr lists]
  exact buildMerged_of_free (g := { m with cache := c }) (still.merges ▸ standing) rfl unlocked free

theorem merged_fetch_answers (grounded : Grounded w) (kept : m.KeptIn w)
    (readable : MergeReadable w id m) (few : ∀ n ∈ w.counters m.recipe, n < 2 ^ 64) :
    (CachedView.fetch (mergeCache id) (word m.recipe.generation, m.recipe.key w.version)
      (buildMerged id m) w).1.map Built.items = .ok (m.places.flatMap w.contentsOf) := by
  have cache := mergeCache_present readable.view
  have faithful : Kept w m.lock m.recipe ((mergeCache id).get w) := cache ▸ kept
  have usable := mergeCache_usable readable
  have present : ∀ c ∈ m.recipe.places, ∃ l, w.lists.get? c = some l := by
    intro c place
    obtain ⟨l, here, -⟩ := readable.free c place
    exact ⟨l, here⟩
  obtain ⟨b, answer, made⟩ | ⟨x, still, answer⟩ :=
    fetch_answers (mergeCachePlace id) faithful usable
    (merge_ownLock_free grounded readable) few present (buildMerged id m)
  · rw [answer]
    exact congrArg Except.ok made
  · rw [answer]
    exact buildMerged_within grounded kept readable still

theorem merged_fetch_leaves (grounded : Grounded w) (readable : MergeReadable w id m)
    (key : UInt64 × UInt64 × UInt64) :
    let u := (CachedView.fetch (mergeCache id) key (buildMerged id m) w).2
    u.lists = w.lists ∧ u.objects = w.objects ∧ ∃ c, MergeReadable u id { m with cache := c } := by
  have usable := mergeCache_usable readable
  obtain ⟨aside, c, stays, has, views, -⟩ :=
    fetch_changes (mergeCachePlace id) (reads_buildMerged id m) usable key
  have lists := aside.lists.trans (locked_lists (mergeCachePlace id) w)
  refine ⟨lists, aside.objects.trans (locked_objects (mergeCachePlace id) w), c, ?_, stays,
    ?_, ?_, ?_⟩
  · rw [views.merges]
    exact (Table.get?_modify_present readable.view id _).trans (if_pos rfl)
  · intro c place
    obtain ⟨l, here, free⟩ := readable.free c place
    exact ⟨l, lists ▸ here, free_aside aside (free_locked (mergeCachePlace id) free)⟩
  · exact free_aside aside (free_locked (mergeCachePlace id) readable.unlocked)
  · intro own mine
    obtain rfl := Option.some.inj (has.symm.trans mine)
    exact free_aside aside (merge_ownLock_free grounded readable)

variable [Element α] {value : α → Value}

theorem mergedItems_of_free (coherent : Coherent value w) (readable : MergeReadable w id m) :
    ∃ x, Still [] w x ∧ Coherent value x ∧ MergeReadable x id m ∧ mergedItems id w =
      CachedView.fetch (mergeCache id) (word m.recipe.generation, m.recipe.key x.version)
        (buildMerged id m) x := by
  obtain ⟨x, -, still, reads⟩ := mergedItems_given readable.view readable.unlocked
  exact ⟨x, still, coherent_onward coherent (onward_still still (by simp)) still.toSameViews,
    mergeReadable_still readable still, reads⟩

theorem mergedItems_answers (coherent : Coherent value w) (readable : MergeReadable w id m)
    (few : ∀ n ∈ w.counters m.recipe, n < 2 ^ 64) :
    (mergedItems id w).1.map Built.items = .ok (m.places.flatMap w.contentsOf) := by
  obtain ⟨x, still, coherent, readable, reads⟩ := mergedItems_of_free coherent readable
  have versions := version_congr still.lists
  have same := contentsOf_congr still.lists
  have counted : ∀ n ∈ x.counters m.recipe, n < 2 ^ 64 := by
    rw [counters, versions]
    exact few
  rw [reads, ← same]
  exact merged_fetch_answers coherent.grounded (coherent.merges id m readable.view) readable counted

theorem mergedItems_leaves (coherent : Coherent value w) (readable : MergeReadable w id m) :
    (mergedItems id w).2.lists = w.lists ∧ (mergedItems id w).2.objects = w.objects ∧
      ∃ c, MergeReadable (mergedItems id w).2 id { m with cache := c } := by
  obtain ⟨x, still, coherent, readable, reads⟩ := mergedItems_of_free coherent readable
  obtain ⟨lists, objects, again⟩ := merged_fetch_leaves coherent.grounded readable
    (word m.recipe.generation, m.recipe.key x.version)
  rw [reads]
  exact ⟨lists.trans still.lists, objects.trans still.objects, again⟩

theorem mergedItems_kept (coherent : Coherent value w) (readable : MergeReadable w id m)
    {b : Built α}
    (hit : m.cache.hit? (word m.recipe.generation, m.recipe.key w.version) = some b) :
    (mergedItems id w).1 = .ok b := by
  obtain ⟨x, still, coherent, readable, reads⟩ := mergedItems_of_free coherent readable
  have cache := mergeCache_present readable.view
  have usable := mergeCache_usable readable
  have answered := fetch_of_free (mergeCachePlace id) usable
    (merge_ownLock_free coherent.grounded readable)
    (word m.recipe.generation, m.recipe.key x.version) (buildMerged id m)
  rw [cache, version_congr still.lists, hit] at answered
  rw [reads, version_congr still.lists]
  exact answered

theorem askMerge_eq (asked : q.ofItems = true) (coherent : Coherent value w)
    (readable : MergeReadable w id m) : askMerge id q w =
      ((mergedItems id w).1.map fun b => askItems w b.items q, (mergedItems id w).2) := by
  have same := (mergedItems_leaves coherent readable).2.1
  have asks : askMerge id q w = askView (mergedItems id) q w := by
    cases q <;> first | rfl | cases asked
  rw [asks, askView_eq asked same]

theorem askMerge_answers (asked : q.ofItems = true) (coherent : Coherent value w)
    (readable : MergeReadable w id m) (few : ∀ n ∈ w.counters m.recipe, n < 2 ^ 64) :
    (askMerge id q w).1 = .ok (askItems w (m.places.flatMap w.contentsOf) q) := by
  have shown := mergedItems_answers coherent readable few
  rw [askMerge_eq asked coherent readable]
  cases read : (mergedItems id w).1 with
  | error fault =>
    rw [read] at shown
    cases shown
  | ok b =>
    rw [read] at shown
    have items : b.items = m.places.flatMap w.contentsOf := Except.ok.inj shown
    exact congrArg (fun xs => Except.ok (askItems w xs q)) items

omit [Diary δ] [Element α] in
theorem counters_of_merged (changes : m.generation < 2 ^ 64) (master : w.version m.master < 2 ^ 64)
    (slaves : (m.slaves.map fun s => w.version s.list).sum < 2 ^ 64) :
    ∀ n ∈ w.counters m.recipe, n < 2 ^ 64 := by
  intro n counter
  simp only [counters, MergedList.recipe, List.map_map, List.mem_cons, List.not_mem_nil,
    or_false] at counter
  rcases counter with rfl | rfl | rfl
  · exact changes
  · exact master
  · exact slaves

/-- In every run a merged list that can be read answers as if it kept nothing: it asks about the
present items of its master, followed by those of each slave in the order in which they were added.
A reading is part of the run, and the next one answers what it would have answered without it.
No counter may have come round: neither that of the slaves' changes, nor the master's version, nor
the sum of the slaves' versions, to which a list that is a slave several times adds its version as
many times. -/
theorem merged_list_answers_from_scratch (run : Run w) (readable : MergeReadable w id m)
    (changes : m.generation < 2 ^ 64) (master : w.version m.master < 2 ^ 64)
    (slaves : (m.slaves.map fun s => w.version s.list).sum < 2 ^ 64) (asked : q.ofItems = true) :
    (askMerge id q w).1 = .ok (askItems w
      (w.contentsOf m.master ++ m.slaves.flatMap fun s => w.contentsOf s.list) q) ∧
    Run (askMerge id q w).2 ∧
    ∀ p : Question, p.ofItems = true →
      (askMerge id p (askMerge id q w).2).1 = (askMerge id p w).1 := by
  have coherent := coherent_of_run (Element.current w.objects) run
  have few := counters_of_merged changes master slaves
  have left : (askMerge id q w).2 = (mergedItems id w).2 := by
    rw [askMerge_eq asked coherent readable]
  have later : Run (mergedItems id w).2 := run.merge (.read id)
  obtain ⟨lists, objects, c, again⟩ := mergedItems_leaves coherent readable
  refine ⟨?_, left ▸ later, ?_⟩
  · have places : m.places.flatMap w.contentsOf =
        w.contentsOf m.master ++ m.slaves.flatMap fun s => w.contentsOf s.list := by
      rw [MergedList.places, List.flatMap_cons, List.flatMap_map]
    rw [askMerge_answers asked coherent readable few, places]
  · intro p asked
    have versions := version_congr lists
    have contents := contentsOf_congr lists
    have still : ∀ n ∈ (mergedItems id w).2.counters
        ({ m with cache := c } : MergedList α).recipe, n < 2 ^ 64 := by
      rw [counters, versions]
      exact few
    have afterwards := coherent_of_run (Element.current w.objects) later
    rw [left, askMerge_answers asked afterwards again still,
      askMerge_answers asked coherent readable few, contents]
    exact congrArg Except.ok (askItems_congr objects _ p)

end

def alongside (list : ListId) (slaves : List Slave) :
    Except ListRefusal (List Slave × List Slave) := .ok ([], slaves ++ [⟨list, []⟩])

def twiceMergedWorld : World Value Unit Unit :=
  (exchangeSlaves 0 (alongside 2) (exchangeSlaves 0 (alongside 2) (createMerge 1 {}
    (createList { items := [.int 2] }
      (createList { items := [.int 1] } { client := () }).2).2)).2).2

def outgrownWorld : World Value Unit Unit :=
  (lockedMutation 2 (.push (.int 3)) (mergedItems 0 twiceMergedWorld).2).2

def outgrownMerge : MergedList Value where
  master := 1
  lock := 3
  slaves := [⟨2, []⟩, ⟨2, []⟩]
  generation := 2
  cache := { lock := some 4, entry := some ((2, 0, 0), ⟨0, [.int 1, .int 2, .int 2]⟩) }
  subscriptions := [⟨.list 1, .changes, 0⟩, ⟨.list 1, .properties, 1⟩]

def outgrownMaster : UndoableList Value where
  context := 1
  lock := 1
  store := { items := [.int 1] }
  history := { maxDepth := History.unlimited }

def outgrownSlave : UndoableList Value where
  context := 2
  lock := 2
  store := { items := [.int 2, .int 3] }
  history := { done := [.add 1 (.int 3)], maxDepth := History.unlimited }
  version := 1

theorem outgrownMerge_readable {w : World Value Unit Unit} {l : UndoableList Value}
    (idle : w.locks.heldBy w.thread = [])
    (locks : w.locks.get? 1 = some {} ∧ w.locks.get? 2 = some {} ∧ w.locks.get? 3 = some {} ∧
      w.locks.get? 4 = some {})
    (master : w.lists.get? 1 = some outgrownMaster) (slave : w.lists.get? 2 = some l)
    (second : l.lock = 2) (view : w.merges.get? 0 = some outgrownMerge) :
    MergeReadable w 0 outgrownMerge := by
  obtain ⟨first, other, third, fourth⟩ := locks
  refine ⟨view, rfl, ?_, Locks.free_of_idle idle third, ?_⟩
  · intro c place
    rcases place with _ | ⟨_, _ | ⟨_, _ | ⟨_, ⟨⟩⟩⟩⟩
    · exact ⟨outgrownMaster, master, Locks.free_of_idle idle first⟩
    · exact ⟨l, slave, second ▸ Locks.free_of_idle idle other⟩
    · exact ⟨l, slave, second ▸ Locks.free_of_idle idle other⟩
  · intro own has
    cases has
    exact Locks.free_of_idle idle fourth

theorem outgrown_slave_is_shown :
    MergeReadable outgrownWorld 0 outgrownMerge ∧
    outgrownMerge.generation < 2 ^ 64 ∧ outgrownWorld.version outgrownMerge.master < 2 ^ 64 ∧
    (outgrownMerge.slaves.map fun s => outgrownWorld.version s.list).sum < 2 ^ 64 ∧
    (askMerge 0 .contents outgrownWorld).1 =
      .ok (.values [.int 1, .int 2, .int 3, .int 2, .int 3]) := by
  have empty : Run ({ client := () } : World Value Unit Unit) := run_start ()
  have both := (empty.list (.created { items := [.int 1] })).list (.created { items := [.int 2] })
  have merged : Run twiceMergedWorld :=
    ((both.merge (.made 1 {})).merge (.set 0 (alongside 2))).merge (.set 0 (alongside 2))
  have seen : Run (mergedItems 0 twiceMergedWorld).2 := merged.merge (.read 0)
  have run : Run outgrownWorld := seen.list (.mutated _ _)
  obtain ⟨idle, locks, master, slave, view⟩ :
      outgrownWorld.locks.heldBy outgrownWorld.thread = [] ∧
      (outgrownWorld.locks.get? 1 = some {} ∧ outgrownWorld.locks.get? 2 = some {} ∧
        outgrownWorld.locks.get? 3 = some {} ∧ outgrownWorld.locks.get? 4 = some {}) ∧
      outgrownWorld.lists.get? 1 = some outgrownMaster ∧
      outgrownWorld.lists.get? 2 = some outgrownSlave ∧
      outgrownWorld.merges.get? 0 = some outgrownMerge := by cbv
  have readable := outgrownMerge_readable idle locks master slave rfl view
  have sum : (outgrownMerge.slaves.map fun s => outgrownWorld.version s.list).sum < 2 ^ 64 := by
    have versions : outgrownWorld.version 2 = 1 := by rw [version, slave]; rfl
    simp [outgrownMerge, versions]
  have version : outgrownWorld.version outgrownMerge.master < 2 ^ 64 := by
    rw [show outgrownWorld.version outgrownMerge.master = 0 by
      rw [version, outgrownMerge, master]; rfl]
    decide
  obtain ⟨answer, -, -⟩ := merged_list_answers_from_scratch (q := .contents) run readable
    (by decide) version sum rfl
  have shown : outgrownWorld.contentsOf 1 ++ (outgrownMerge.slaves.flatMap fun s =>
      outgrownWorld.contentsOf s.list) = [.int 1, .int 2, .int 3, .int 2, .int 3] := by cbv
  rw [show outgrownMerge.master = 1 from rfl, shown] at answer
  exact ⟨readable, by decide, version, sum, answer⟩

def unrecordedWorld : World Value Unit Unit :=
  (exchangeSlaves 0 (alongside 2) (exchangeSlaves 0 (alongside 2) (createMerge 1 {}
    (createList { items := [.int 2], maxDepth := 0 }
      (createList { items := [.int 1] } { client := () }).2).2)).2).2

def lookedAtWorld : World Value Unit Unit := (mergedItems 0 unrecordedWorld).2

def replacedWorld : Nat → World Value Unit Unit
  | 0 => lookedAtWorld
  | n + 1 => (lockedMutation 2 (.set 0 (.int 3)) (replacedWorld n)).2

def replacedSlave (changes : Nat) : UndoableList Value where
  context := 2
  lock := 2
  store := { items := [.int 3] }
  history := { maxDepth := 0 }
  version := changes

def changedWorld (changes : Nat) : World Value Unit Unit :=
  { lookedAtWorld with lists := lookedAtWorld.lists.insert 2 (replacedSlave changes) }

theorem changedWorld_again (n : Nat) :
    (lockedMutation 2 (.set 0 (.int 3)) (changedWorld n)).2 = changedWorld (n + 1) := by
  cbv

theorem replacedWorld_succ (n : Nat) : replacedWorld (n + 1) = changedWorld (n + 1) := by
  induction n with
  | zero => cbv
  | succ n ih => rw [replacedWorld, ih, changedWorld_again]

theorem replacedWorld_eq {n : Nat} (changed : 0 < n) : replacedWorld n = changedWorld n := by
  obtain ⟨n, rfl⟩ := Nat.exists_eq_succ_of_ne_zero (Nat.ne_of_gt changed)
  exact replacedWorld_succ n

theorem run_replacedWorld (n : Nat) : Run (replacedWorld n) := by
  induction n with
  | zero =>
    have empty : Run ({ client := () } : World Value Unit Unit) := run_start ()
    have both := (empty.list (.created { items := [.int 1] })).list
      (.created { items := [.int 2], maxDepth := 0 })
    have merged : Run unrecordedWorld :=
      ((both.merge (.made 1 {})).merge (.set 0 (alongside 2))).merge (.set 0 (alongside 2))
    exact merged.merge (.read 0)
  | succ n ih =>
    rw [replacedWorld]
    exact ih.list (.mutated _ _)

theorem changedWorld_readable (n : Nat) : MergeReadable (changedWorld n) 0 outgrownMerge := by
  obtain ⟨idle, locks, master, slave, view⟩ :
      (changedWorld n).locks.heldBy (changedWorld n).thread = [] ∧
      ((changedWorld n).locks.get? 1 = some {} ∧ (changedWorld n).locks.get? 2 = some {} ∧
        (changedWorld n).locks.get? 3 = some {} ∧ (changedWorld n).locks.get? 4 = some {}) ∧
      (changedWorld n).lists.get? 1 = some outgrownMaster ∧
      (changedWorld n).lists.get? 2 = some (replacedSlave n) ∧
      (changedWorld n).merges.get? 0 = some outgrownMerge := by cbv
  exact outgrownMerge_readable idle locks master slave rfl view

theorem changedWorld_versions (n : Nat) :
    (changedWorld n).version 1 = 0 ∧ (changedWorld n).version 2 = n := by
  cbv

/-- Once twice the slave's version has come round to nothing, what was kept is shown again. -/
theorem replacedWorld_shows {n : Nat} (changed : 0 < n) (round : word n + word n = 0) :
    (mergedItems 0 (replacedWorld n)).1 = .ok ⟨0, [.int 1, .int 2, .int 2]⟩ := by
  have coherent := coherent_of_run id (run_replacedWorld n)
  rw [replacedWorld_eq changed] at coherent ⊢
  obtain ⟨master, slave⟩ := changedWorld_versions n
  refine mergedItems_kept coherent (changedWorld_readable n) ?_
  have key : (word outgrownMerge.recipe.generation,
      outgrownMerge.recipe.key (changedWorld n).version) = (2, 0, 0 + word n + word n) := by
    rw [MergedList.recipe]
    simp only [outgrownMerge, master, slave, List.map_cons, List.map_nil, List.foldl_cons,
      List.foldl_nil]
    rfl
  rw [key, UInt64.zero_add, round]
  rfl

/-- After 2 ^ 63 changes of a list that is a slave twice the sum of the slaves' versions is back at
zero, though all changes together are fewer than 2 ^ 64: the merged list shows items that are
gone. -/
theorem replaced_items_stay_shown :
    Run (replacedWorld (2 ^ 63)) ∧ MergeReadable (replacedWorld (2 ^ 63)) 0 outgrownMerge ∧
    outgrownMerge.generation + (replacedWorld (2 ^ 63)).version 1 +
      (replacedWorld (2 ^ 63)).version 2 < 2 ^ 64 ∧
    ((replacedWorld (2 ^ 63)).contentsOf outgrownMerge.master ++ outgrownMerge.slaves.flatMap
      fun s => (replacedWorld (2 ^ 63)).contentsOf s.list) = [.int 1, .int 3, .int 3] ∧
    (askMerge 0 .contents (replacedWorld (2 ^ 63))).1 =
      .ok (.values [.int 1, .int 2, .int 2]) := by
  have changed : 0 < 2 ^ 63 := by decide
  have run := run_replacedWorld (2 ^ 63)
  have coherent := coherent_of_run id run
  have readable := changedWorld_readable (2 ^ 63)
  have items (n : Nat) : ((changedWorld n).contentsOf outgrownMerge.master ++
      outgrownMerge.slaves.flatMap fun s => (changedWorld n).contentsOf s.list) =
        [.int 1, .int 3, .int 3] := by cbv
  have shown := replacedWorld_shows changed (by decide)
  obtain ⟨master, slave⟩ := changedWorld_versions (2 ^ 63)
  rw [replacedWorld_eq changed] at run coherent shown ⊢
  refine ⟨run, readable, ?_, items _, ?_⟩
  · rw [master, slave]
    decide
  · rw [askMerge_eq rfl coherent readable, shown]
    rfl

end World
end UndoableLists
