import UndoableLists.Proofs.Views.Steps
import UndoableLists.World.Filtering

/-!
The recipe of a filtered view: the items of one list that the filter lets through. Main statements:
what is built is what the recipe makes, and whatever is done with a filtered view, its cache stays
true to its keys.
-/
namespace UndoableLists
variable {α κ δ : Type}

def FilteredView.shown (value : α → Value) (v : FilteredView α) (items : List α) :
    Except (Option String) (List α) :=
  match v.filter with
  | none => .ok items
  | some f => Filter.select (v.predicate f) value items

def FilteredView.recipe (value : α → Value) (v : FilteredView α) : Recipe UInt64 α where
  generation := v.generation
  places := [v.base]
  counts version := [version v.base]
  key version := World.word (version v.base)
  makes contents items := v.shown value (contents v.base) = .ok items
  distinguishes old new grown bounded same c place := by
    obtain rfl := List.mem_singleton.mp place
    have below := grown v.base place
    have few := bounded (new v.base) List.mem_cons_self
    exact World.word_injective same (by omega) few
  confined before after items same made := same v.base List.mem_cons_self ▸ made

def Fixed [Element α] (value : α → Value) : Prop := ∀ os x, Element.current os x = value x

/-- The same view of items whose values may change: what it is built from is still noticed to have
moved on, but not what it came to. -/
def FilteredView.dated [Element α] (value : α → Value) (v : FilteredView α) : Recipe UInt64 α :=
  { v.recipe value with
    makes := fun contents items => Fixed value → (v.recipe value).makes contents items
    confined := fun before after items same made fixed =>
      (v.recipe value).confined before after items same (made fixed) }

namespace World
variable {u w : World α κ δ} {id : ViewId} {v f : FilteredView α} {value : α → Value}

variable [Element α]

theorem selected_now (v : FilteredView α) (items : List α) (w : World α κ δ) :
    selected v.predicate v.filter items w =
      ((v.shown (Element.current w.objects) items).mapError Fault.panicked, w) := by
  unfold selected FilteredView.shown
  cases v.filter with
  | none => rfl
  | some f =>
    dsimp only
    cases Filter.select (v.predicate f) (Element.current w.objects) items <;> rfl

theorem selected_eq (fixed : Fixed value) (v : FilteredView α)
    (items : List α) (w : World α κ δ) :
    selected v.predicate v.filter items w =
      ((v.shown value items).mapError Fault.panicked, w) := by
  rw [selected_now, show Element.current w.objects = value from funext (fixed w.objects)]

variable [Diary δ]

theorem reads_buildFiltered (id : ViewId) (v : FilteredView α) :
    Reads (buildFiltered id v : Work α κ δ (Built α)) :=
  reads_bind (reads_filterOf id) fun _ => reads_bind (reads_contents v.base) fun _ =>
    reads_bind (reads_selected _ _ _) fun _ => reads_build _

theorem buildFiltered_answers (here : w.filters.get? id = some f) (filter : f.filter = v.filter)
    {b : Built α} (answer : (buildFiltered id v w).1 = .ok b) :
    (∃ l, w.lists.get? v.base = some l) ∧
      (Fixed value → v.shown value (w.contentsOf v.base) = .ok b.items) := by
  rw [buildFiltered] at answer
  obtain ⟨answered, u, read, asked, later⟩ := bind_answers (reads_filterOf id) answer
  obtain ⟨items, x, -, taken, chooses⟩ := bind_answers (reads_contents v.base) later
  obtain ⟨chosen, y, -, selects, builds⟩ := bind_answers (reads_selected _ _ _) chooses
  obtain rfl := filterOf_answers here asked
  obtain ⟨l, there, rfl⟩ := contents_answers taken
  have present : w.lists.get? v.base = some l := read.lists ▸ there
  have shows : w.contentsOf v.base = l.contents := by rw [contentsOf, present]; rfl
  refine ⟨⟨l, present⟩, fun fixed => ?_⟩
  rw [filter, selected_eq fixed] at selects
  rw [shows]
  cases builds
  rcases outcome : v.shown value l.contents with complaint | items
  all_goals
    rw [outcome] at selects
    cases selects
  rfl

theorem buildFiltered_now (here : w.filters.get? id = some f) (filter : f.filter = v.filter)
    {l : UndoableList α} (there : w.lists.get? v.base = some l)
    (unlocked : w.locks.Free w.thread f.lock) (free : w.locks.Free w.thread l.lock) :
    (buildFiltered id v w).1.map Built.items =
      (v.shown (Element.current w.objects) l.contents).mapError Fault.panicked := by
  obtain ⟨u, read, asked⟩ := bind_given (reads_filterOf id) (filterOf_of_free here unlocked)
  obtain ⟨x, again, taken⟩ := bind_given (reads_contents v.base)
    (contents_of_free (read.lists ▸ there) (free_still read (by simp) free))
  have chosen := selected_now v l.contents x
  rw [again.objects.trans read.objects] at chosen
  rw [buildFiltered, asked, taken, filter]
  rcases outcome : v.shown (Element.current w.objects) l.contents with complaint | items
  all_goals rw [outcome] at chosen
  · rw [Act.bind_of_error chosen]
    rfl
  · rw [Act.bind_of_ok chosen]
    rfl

end World

/-- The view's cache is true to its keys; and to what the view shows, if values are fixed. -/
def FilteredView.Faithful [Element α] (value : α → Value) (v : FilteredView α) (w : World α κ δ) :
    Prop := w.Kept v.lock (v.dated value) v.cache

namespace World

abbrev FilterStep [Element α] (value : α → Value) :
    ViewId → World α κ δ → World α κ δ → Prop :=
  ViewStep World.filters World.merges (FilteredView.Faithful value)

section
variable [Element α] {value : α → Value} {u w x : World α κ δ} {id : ViewId}

theorem faithful_onward {v : FilteredView α} (faithful : v.Faithful value w) (onward : Onward w u) :
    v.Faithful value u := kept_onward faithful onward

theorem kept_of_faithful {v : FilteredView α} (faithful : v.Faithful value w)
    (fixed : Fixed value) : Kept w v.lock (v.recipe value) v.cache where
  made := faithful.made
  own := faithful.own
  entry usable key b holds := by
    cases faithful.entry usable key b holds with
    | outdated early => exact .outdated early
    | remembered old made enrolled later => exact .remembered old (made fixed) enrolled later

theorem filterStep_still (still : Still [] w u) : FilterStep value id w u := by
  have onward : Onward w u := onward_still still (by simp)
  exact viewStep_same onward still.filters still.merges fun v faithful =>
    faithful_onward faithful onward

omit [Element α] in
theorem filterCache_present {v : FilteredView α} (here : w.filters.get? id = some v) :
    (filterCache id).get w = v.cache := by
  simp only [filterCache, here, Option.map_some, Option.getD_some]

omit [Element α] in
theorem filter_locked {v : FilteredView α} (here : w.filters.get? id = some v) :
    ∃ c, (locked (filterCache id) w).filters.get? id = some { v with cache := c } := by
  unfold locked
  split
  · exact ⟨v.cache, here⟩
  · exact ⟨_, (Table.get?_modify_present here id _).trans (if_pos rfl)⟩

theorem filterStep_cache (onward : Onward w u) {c : CachedView (UInt64 × UInt64) (Built α)}
    (views : SameViews ((filterCache id).set c w) u)
    (kept : ∀ v, w.filters.get? id = some v →
      Kept w v.lock (v.dated value) ((filterCache id).get w) → Kept u v.lock (v.dated value) c) :
    FilterStep value id w u := by
  refine viewStep_modify onward (fun v => { v with cache := c }) views.filters views.merges ?_
  intro v here faithful
  refine kept v here ?_
  rw [filterCache_present here]
  exact faithful

theorem filterStep_removed (id : ViewId) (v : FilteredView α) (w : World α κ δ) :
    FilterStep value id w (w.removeFilter id v) := by
  have ended := still_unsubscribeAll v.subscriptions w
  have filters : (w.removeFilter id v).filters = w.filters.erase id := by
    rw [removeFilter, ended.filters]
  exact viewStep_erased (onward_aside (aside_removeFilter id v w)) filters ended.merges

theorem filterStep_created (base : ListId) (predicate : Predicate) (settings : Patience)
    (w : World α κ δ) :
    FilterStep value w.nextView w (createFilter base predicate settings w) := by
  obtain ⟨u, reached⟩ : ∃ u, u = (follow base (.filter w.nextView)
    { w with nextView := w.nextView + 1 }).2 := ⟨_, rfl⟩
  have followed : Still [] { w with nextView := w.nextView + 1 } u := reached ▸ still_follow ..
  obtain ⟨v, made, lock, cache⟩ : ∃ v : FilteredView α, createFilter base predicate settings w =
      { u with
        locks := (u.locks.create settings).2
        filters := u.filters.insert w.nextView v }.hold (.filter w.nextView) ∧
      v.lock = u.locks.next ∧ v.cache = { settings } := by
    rw [reached]
    exact ⟨_, rfl, rfl, rfl⟩
  rw [made]
  have moved := onward_viewCreated followed settings
  refine viewStep_inserted (v := v) (onward_congr moved rfl rfl rfl rfl)
    (congrArg (fun filters => filters.insert w.nextView v) followed.filters) followed.merges ?_
  rw [FilteredView.Faithful, lock, cache]
  exact kept_fresh settings _ (Nat.lt_succ_self _)

variable [Diary δ]

omit [Element α] in
theorem exchangeFilter_leaves {v : FilteredView α} (here : w.filters.get? id = some v)
    (filter : Option Filter) :
    (∃ fault u, exchangeFilter id filter w = (.error fault, u) ∧ Still [] w u ∧
      ¬ w.locks.Free w.thread v.lock) ∨
    ∃ u, exchangeFilter id filter w = (.ok (), u) ∧ Aside [] w u ∧ u.merges = w.merges ∧
      u.filters = w.filters.modify id fun v =>
        { v with filter, generation := v.generation + 1 } := by
  rw [exchangeFilter, withFilter_present here]
  obtain ⟨fault, u, still, outcome⟩ | ⟨x, u, seen, aside, shown, outcome⟩ :=
    holding_leaves (m := Act.modify (putFilter id fun v => { v with filter }))
      (fun x => ⟨rfl, rfl, rfl, rfl, rfl, fun _ => rfl, Locks.eased_refl _⟩) v.lock .write w
  · refine .inl ⟨fault, u, Act.bind_of_error outcome _, still, fun free => ?_⟩
    obtain ⟨x, -, answer⟩ := holding_of_free ListRefusal.ofLock free .write
      (Act.modify (putFilter id fun v => { v with filter }))
    rw [outcome] at answer
    cases answer
  · have filters : u.filters = w.filters.modify id fun v => { v with filter } :=
      seen.filters ▸ shown.filters
    refine .inr ⟨_, Act.bind_of_ok outcome _, { aside with }, shown.merges.trans seen.merges, ?_⟩
    change u.filters.modify id (fun v => { v with generation := v.generation + 1 }) = _
    rw [filters, Table.modify_modify]

theorem filterStep_exchanged (id : ViewId) (filter : Option Filter) (w : World α κ δ) :
    FilterStep value id w (exchangeFilter id filter w).2 := by
  cases here : w.filters.get? id with
  | none =>
    rw [exchangeFilter, withFilter_absent here]
    exact filterStep_still (still_refl w)
  | some v =>
    obtain ⟨fault, u, outcome, still, -⟩ | ⟨u, outcome, aside, merges, filters⟩ :=
      exchangeFilter_leaves here filter
    all_goals rw [outcome]
    · exact filterStep_still still
    · have moved : Onward w u := onward_aside aside
      refine viewStep_modify moved (fun v => { v with filter, generation := v.generation + 1 })
        filters merges ?_
      intro v here faithful
      exact kept_onward (kept_renewed faithful rfl) moved

theorem filterStep_invalidated (id : ViewId) (w : World α κ δ) :
    FilterStep value id w (CachedView.invalidate (filterCache id) w).2 := by
  obtain ⟨onward, c, views, keeps⟩ := kept_invalidated (filterCachePlace id) w
  apply filterStep_cache onward views
  intro v here kept
  exact keeps v.lock (v.dated value) kept

theorem filterStep_disposed (id : ViewId) (w : World α κ δ) :
    FilterStep value id w (disposeFilter id w).2 := by
  cases here : w.filters.get? id with
  | none =>
    rw [disposeFilter, withFilter_absent here]
    exact filterStep_still (still_refl w)
  | some v =>
    obtain ⟨onward, c, views, -, keeps⟩ := kept_given_up (filterCachePlace id) w
    have moved := onward_disposeLock v.lock (CachedView.dispose (filterCache id) w).2
    have given : (disposeFilter id w).2 = { (CachedView.dispose (filterCache id) w).2 with locks :=
        ((CachedView.dispose (filterCache id) w).2.locks.dispose v.lock).2 } := by
      rw [disposeFilter, withFilter_present here]
      rfl
    rw [given]
    apply filterStep_cache (onward_trans onward moved) ⟨views.filters, views.merges⟩
    intro f there kept
    exact kept_onward (keeps f.lock (f.dated value) kept) moved

theorem filteredItems_eq (value : α → Value) {v : FilteredView α}
    (here : w.filters.get? id = some v) : filteredItems id w =
      CachedView.fetch (filterCache id)
        (word (v.recipe value).generation, (v.recipe value).key w.version) (buildFiltered id v) w :=
  withFilter_present here

theorem filterStep_read (grounded : Grounded w) (id : ViewId) :
    FilterStep value id w (filteredItems id w).2 := by
  cases here : w.filters.get? id with
  | none =>
    rw [filteredItems, withFilter_absent here]
    exact filterStep_still (still_refl w)
  | some v =>
    rw [filteredItems_eq value here]
    obtain ⟨onward, c, views, keeps⟩ :=
      fetch_keeps (filterCachePlace id) (reads_buildFiltered id v) w
      (word (v.recipe value).generation, (v.recipe value).key w.version)
    apply filterStep_cache onward views
    intro f there kept
    obtain rfl := Option.some.inj (here.symm.trans there)
    apply keeps v.lock (v.dated value) grounded rfl kept
    intro x b still built
    obtain ⟨c, standing⟩ := filter_locked here
    have there := still.filters ▸ standing
    obtain ⟨present, made⟩ : _ ∧ (Fixed value → _) :=
      buildFiltered_answers (f := { v with cache := c }) there rfl built
    exact ⟨fun c place => List.mem_singleton.mp place ▸ present, made⟩

end

end World

end UndoableLists
