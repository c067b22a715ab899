import UndoableLists.Proofs.Following.Beginnings
import UndoableLists.Proofs.Following.Properties
import UndoableLists.Proofs.World.Editing

/-!
Edits of members under a filtered view. An edit moves no item of its list, so the list tells of a
property alone, and a view under a filter passes that on as two properties, whatever the filter
makes of the items afterwards. Main statement: after an edit, or an undo or a redo of one, the view
shows the items that pass the filter now, all who asked for its properties were told of the count
and of the items, and nobody was told of a change: a copy that waits for a reset stays as it was.
-/
namespace UndoableLists.World
variable {α κ : Type}

/-- The object `y` gets the value `n`: it is edited where the list `c`, and nobody else, is
registered with it, or the edit that is nearest in the history of the list is undone or redone. -/
inductive MemberEdit [Element α] (call : Call α κ (ViewCopies α)) (c : ListId) (l : UndoableList α)
    (w : World α κ (ViewCopies α)) : ObjectId → Int → World α κ (ViewCopies α) → Prop
  | committed {y : ObjectId} (registered : w.cells.handlers y = [(c, c)]) (n : Int) :
    MemberEdit call c l w y n (editObject call y n w).2
  | replayed {direction : Direction} {e : Edit} {rest : List (Record α Edit)}
    (nearest : l.history.side direction = .itemEdit e :: rest) :
    MemberEdit call c l w e.object (e.target direction) (replay call c true direction w).2

/-- The list `c` has moved on from `l` to `m`, since `y` got the value `n`, and nobody was told yet
that its items differ. -/
structure Amended [Element α] (c : ListId) (l m : UndoableList α) (y : ObjectId) (n : Int)
    (w v : World α κ (ViewCopies α)) : Prop extends Moved c l m { itemsDiffer := true } w v where
  version : m.version = l.version + 1
  objects : v.objects = w.objects.assign y n

section
variable [Element α] {value : α → Value} {h : Handle} {x : SubscriberId} {c : ListId}
  {l m : UndoableList α} {s : Listener κ} {y : ObjectId} {n : Int}
  {u v w : World α κ (ViewCopies α)}
  {call : Call α κ (ViewCopies α)}

theorem commitEdit_amends (here : w.lists.get? c = some l) (tellable : Tellable c l)
    (free : w.locks.Free w.thread l.lock) (y : ObjectId) (n : Int) : ∃ m u,
      commitEdit c y n (w.hold (.list c)) = u.hold (.list c) ∧ Amended c l m y n w u := by
  have obtained : (Host.acquire l.lock .write).succeeds (w.hold (.list c)) = true :=
    Act.succeeds_of_ok (acquire_of_free (w := w.hold (.list c)) free)
  obtain ⟨e, named⟩ : ∃ e : Edit, e = ⟨y, (w.objects.get y).value, n⟩ := ⟨_, rfl⟩
  have aside := (enterEdit_obtained (w := w.hold (.list c)) (x := y) here obtained n).2
  have lists := lists_commitEdit (w := w.hold (.list c)) (x := y) here obtained n
  have same : clientState (commitEdit c y n (w.hold (.list c))) = clientState (w.hold (.list c)) :=
    unseen_enterEdit listFree_clientState _ c ((w.hold (.list c)).assign y n)
  have views : SameViews w (commitEdit c y n (w.hold (.list c))) :=
    sameViews_iff.mpr (unseen_enterEdit listFree_views _ c ((w.hold (.list c)).assign y n))
  have run (run : Run w) : Run (commitEdit c y n (w.hold (.list c))) := by
    have begun : Run ((w.hold (.list c)).assign y n) := run_congr run rfl ⟨rfl, rfl⟩ rfl rfl rfl
    exact begun.list (.edited _ c)
  generalize commitEdit c y n (w.hold (.list c)) = z at aside lists same views run
  have held : z.held = .list c :: w.held := held_of_clientState same
  refine ⟨l.recordEdit e, { z with held := w.held }, ?_, ?_⟩
  · rw [hold, ← held]
  · exact {
      there := by rw [tellable.context, named]; exact (lists c).trans (if_pos rfl)
      context := rfl
      lock := rfl
      stale := rfl
      replayable := UndoableList.replayable_recordEdit tellable.replayable e
      makes := rfl
      single := Nat.zero_le 1
      free := fun lock free =>
        have kept : z.locks.Free z.thread lock := free_aside aside free
        kept
      here
      named := tellable.context
      fresh := tellable.fresh
      others := fun d differs => (lists d).trans (if_neg differs)
      views := ⟨views.filters, views.merges⟩
      tells := .inl rfl
      run := fun before => run_congr (run before) rfl ⟨rfl, rfl⟩ rfl rfl rfl
      clientState := by
        rw [World.clientState, show z.channels = w.channels from congrArg Prod.fst same,
          next_of_clientState same, client_of_clientState same]
        rfl
      version := rfl
      objects := aside.objects }

theorem replay_amends (here : w.lists.get? c = some l) (tellable : Tellable c l)
    (free : w.locks.Free w.thread l.lock) {direction : Direction} {e : Edit}
    {rest : List (Record α Edit)} (nearest : l.history.side direction = .itemEdit e :: rest) :
    ∃ m u, Amended c l m e.object (e.target direction) w u ∧ ∀ call : Call α κ (ViewCopies α),
      (replay call c true direction w).2 = announce call c { itemsDiffer := true } u := by
  obtain ⟨m, moved⟩ := lockedReplay_moves here tellable direction
  have obtained : (Host.acquire l.lock .write).succeeds w = true :=
    Act.succeeds_of_ok (acquire_of_free free)
  obtain ⟨rfl, fresh, -⟩ := tellable
  obtain ⟨b, r, u, replayed, -, told⟩ := lockedReplay_ends here direction
  obtain ⟨handed, -, world⟩ := of_tells told
  have whole (call : Call α κ (ViewCopies α)) :
      (replay call l.context true direction w).2 = announce call l.context b u := by
    rw [replay_eq, handed, world]
    rfl
  rw [handed, world] at moved
  obtain ⟨d, done, list, edits⟩ := Site.commit_itemEdit ⟨l, w.cells⟩ e direction
  have bulletin := Site.bulletin_of_itemEdit done
  cases replayed with
  | barred barred => simp [obtained] at barred
  | heard stale => simp [fresh] at stale
  | fresh _ _ turned =>
    cases turned with
    | nothing none => simp [nearest] at none
    | rejected near failed =>
      obtain ⟨rfl, -⟩ := List.cons_eq_cons.mp (nearest.symm.trans near)
      simp [done] at failed
    | carried near also aside =>
      obtain ⟨rfl, -⟩ := List.cons_eq_cons.mp (nearest.symm.trans near)
      obtain rfl := Except.ok.inj (done.symm.trans also)
      rw [bulletin] at moved whole
      have there : u.lists.get? l.context =
          some (l.newVersion.withHistory (l.history.turned direction)) :=
        after_list (congrArg (·.withHistory (l.history.turned direction)) list) rfl aside
      obtain rfl := Option.some.inj (moved.there.symm.trans there)
      refine ⟨_, u, { moved with version := rfl, objects := ?_ }, whole⟩
      have objects : u.objects = d.edits.foldl (·.replay direction) w.objects := aside.objects
      rw [objects, edits]
      rfl

def Reworded (call : Call α κ (ViewCopies α)) (c : ListId) (u v : World α κ (ViewCopies α)) :
    Prop :=
  v = announce call c { itemsDiffer := true } u ∨
    v = letGo (.list c) (announce call c { itemsDiffer := true } (u.hold (.list c)))

theorem edit_amends (here : w.lists.get? c = some l) (tellable : Tellable c l)
    (free : w.locks.Free w.thread l.lock) (edited : MemberEdit call c l w y n v) :
    ∃ m u, Amended c l m y n w u ∧ Reworded call c u v := by
  cases edited with
  | committed registered =>
    obtain ⟨m, u, entered, amended⟩ := commitEdit_amends here tellable free y n
    refine ⟨m, u, amended, .inr ?_⟩
    rw [editObject_registered registered here (Act.succeeds_of_ok (acquire_of_free free)), entered]
    rfl
  | replayed nearest =>
    obtain ⟨m, u, amended, whole⟩ := replay_amends here tellable free nearest
    exact ⟨m, u, amended, .inl (whole call)⟩

theorem items_told (notes : TakesNote call) (scene : Scene value h x w)
    (hears : Hears w h c s false) :
    let v := announce call c { itemsDiffer := true } w
    Unmoved value h x w v ∧ ∀ z i, (z, .client i) ∈ w.roster h .properties →
      Informed z (.property .count) w v ∧ Informed z (.property .items) w v := by
  rw [announce_congr (attending_agrees notes h x) rfl, announce_silent rfl]
  obtain ⟨unmoved, informed⟩ :=
    properties_passed (attends_attending value h x) scene hears [.items]
  have told := informed .items List.mem_cons_self
  refine ⟨unmoved, fun z i listens => ⟨told .count List.mem_cons_self z i listens, ?_⟩⟩
  exact told .items (List.mem_cons_of_mem _ List.mem_cons_self) z i listens

theorem reworded_told (id : ViewId) (notes : TakesNote call) (scene : Scene value h x u)
    (hears : Hears u h c s false) (reworded : Reworded call c u v) :
    Alike value h u v ∧ Hushed id u v ∧ ∀ z i, (z, .client i) ∈ u.roster h .properties →
      Informed z (.property .count) u v ∧ Informed z (.property .items) u v := by
  obtain rfl | rfl := reworded
  · obtain ⟨unmoved, informed⟩ := items_told notes scene hears
    exact ⟨unmoved.toAlike, hushed_announce notes c rfl u, informed⟩
  · have held : Hears (u.hold (.list c)) h c s false := hears_congr hears ⟨rfl, rfl⟩ fun _ => rfl
    obtain ⟨unmoved, informed⟩ := items_told notes (scene_hold scene _) held
    obtain ⟨left, alike⟩ := held_meanwhile scene.tidy unmoved.toAlike
    have quiet : Hushed id (u.hold (.list c))
        (announce call c { itemsDiffer := true } (u.hold (.list c))) :=
        hushed_announce notes c rfl _
    refine ⟨alike, hushed_trans (hushed_hold _ u) (hushed_trans quiet (hushed_letGo _ _)), ?_⟩
    rw [left]
    exact informed

theorem nothing_hit {id : ViewId} {f : FilteredView α} (run : Run w)
    (here : w.filters.get? id = some f) (usable : f.cache.disposed = false)
    (base : w.lists.get? f.base = some l) (generations : f.generation < 2 ^ 64)
    (versions : l.version + 1 < 2 ^ 64) {cache : CachedView (UInt64 × UInt64) (Built α)}
    (kept : ∀ e, cache.entry = some e → f.cache.entry = some e) :
    cache.hit? (word f.generation, word (l.version + 1)) = none := by
  have value : α → Value := Element.current w.objects
  have faithful : f.Faithful value w := (coherent_of_run value run).filters id f here
  unfold CachedView.hit?
  cases holds : cache.entry with
  | none => rfl
  | some e =>
    obtain ⟨key, b⟩ := e
    have recalls := faithful.entry usable key b (kept _ holds)
    have missed : key ≠ (word f.generation, (f.dated value).key fun _ => l.version + 1) :=
      missed_of_recalls recalls
      (by simpa [FilteredView.dated, FilteredView.recipe] using ⟨generations, versions⟩)
      (fun c place => by rw [List.mem_singleton.mp place]; exact ⟨l, base⟩)
      (fun c place => by
        rw [List.mem_singleton.mp place, version_present base]
        exact Nat.le_succ _)
      (List.mem_singleton_self f.base) (by rw [version_present base]; exact Nat.lt_succ_self _)
    exact if_neg missed

/-- Where the list of a view has moved on by an edit, and the view was told so, it shows the items
that pass now. -/
theorem look_amended {id : ViewId} {f : FilteredView α} (setting : Setting value (.filter id) x w)
    (here : w.filters.get? id = some f) (base : w.lists.get? f.base = some l)
    (generations : f.generation < 2 ^ 64) (versions : l.version + 1 < 2 ^ 64)
    (amended : Amended f.base l m y n w u) (alike : Alike value (.filter id) u v)
    (hushed : Hushed id u v) : (look (.filter id) v).1 =
      (f.shown (Element.current v.objects) l.contents).mapError Fault.panicked := by
  have later := setting_alike (setting_moved setting amended.toMoved) alike
  have there : u.filters.get? id = some f := amended.views.filters ▸ here
  obtain ⟨cache, again, -⟩ := filter_alike alike there
  obtain ⟨g, k, readable⟩ := later.readable
  obtain rfl := Option.some.inj (again.symm.trans readable.view)
  obtain rfl : m = k := by
    have standing : v.lists.get? f.base = some m := alike.lists ▸ amended.named ▸ amended.there
    exact Option.some.inj (standing.symm.trans readable.base)
  have usable : f.cache.disposed = false := by
    have usable := filterCache_open setting.readable
    rwa [filterCache_present here] at usable
  have kept (e) (holds : cache.entry = some e) : f.cache.entry = some e := by
    have left := hushed.entry e
    rw [filterCache_present again, filterCache_present there] at left
    exact left holds
  have missing : cache.hit? (word f.generation, word (v.version f.base)) = none := by
    rw [version_present readable.base, amended.version]
    exact nothing_hit setting.run here usable base generations versions kept
  have same : l.contents = m.contents := amended.makes
  rw [look, items_returned, filteredItems_afresh (coherent_of_run value later.run) readable missing,
    same]
  rfl

/-- When a member is edited, or an edit of a member is undone or redone, a view under a filter shows
the items that pass now, and all who asked for its properties are told of the count and of the
items. But whatever was shown before, nobody is told of a change, so that copies stay as they
were, and so it is with the next edit. -/
theorem edits_are_told_as_properties {id : ViewId} {f : FilteredView α}
    (setting : Setting value (.filter id) x w) (here : w.filters.get? id = some f)
    (sifts : f.filter.isSome) (base : w.lists.get? f.base = some l)
    (generations : f.generation < 2 ^ 64) (versions : l.version + 1 < 2 ^ 64)
    (notes : TakesNote call) (edited : MemberEdit call f.base l w y n v) :
    Setting value (.filter id) x v ∧ v.objects = w.objects.assign y n ∧
    (look (.filter id) v).1 =
      (f.shown (Element.current v.objects) l.contents).mapError Fault.panicked ∧
    (∀ z i, (z, .client i) ∈ w.roster (.filter id) .properties →
      Informed z (.property .count) w v ∧ Informed z (.property .items) w v) ∧
    (∃ more, v.client.told = w.client.told ++ more ∧ ∀ p ∈ more, ∃ q, p.2 = .property q) ∧
    v.client.copies = w.client.copies := by
  obtain ⟨tellable, free⟩ := setting.lists f.base l base
  obtain ⟨m, u, amended, reworded⟩ := edit_amends base tellable free edited
  have standing := setting_moved setting amended.toMoved
  have there : u.filters.get? id = some f := amended.views.filters ▸ here
  have hears : Hears u (.filter id) f.base (.filter id) f.filter.isNone :=
    hears_of_soleAt (.filter there) (standing.wired f there).listens
  rw [Option.isNone_eq_false_iff.mpr sifts] at hears
  obtain ⟨alike, hushed, informed⟩ := reworded_told id notes standing.toScene hears reworded
  have client : u.client = w.client := client_of_clientState amended.clientState
  have roster : u.roster (.filter id) .properties = w.roster (.filter id) .properties := by
    rw [World.roster, World.roster, living_of_clientState amended.clientState]
  refine ⟨setting_alike standing alike, hushed.objects.trans amended.objects,
    look_amended setting here base generations versions amended alike hushed, fun z i listens => ?_,
    client ▸ hushed.told, client ▸ hushed.copies⟩
  rw [Informed, Informed, ← client]
  exact informed z i (roster ▸ listens)

end

def capturedWorld : World ObjectId Bool (ViewCopies ObjectId) :=
  createFilter 1 Filter.judge {} (createList { items := [0], access := some fun x => x }
    { objects := Objects.create {} "a" 1, client := {} }).2

def appraisedWorld : World ObjectId Bool (ViewCopies ObjectId) :=
  (exchangeFilter 0 (some (.above 0)) ((capturedWorld.begin (.filter 0) true [0]).subscribe
    (.filter 0) .properties (.client false)).2).2

def devaluedWorld : World ObjectId Bool (ViewCopies ObjectId) :=
  (editObject (copying (.filter 0)) 0 0 appraisedWorld).2

theorem appraised_setting : Setting (fun _ => .int 0) (.filter 0) 2 appraisedWorld := by
  have grounds : Grounds (createList { items := [0], access := some fun x => x }
      ({ objects := Objects.create {} "a" 1, client := {} } :
        World ObjectId Bool (ViewCopies ObjectId))).2 :=
    grounds_createList (grounds_empty _ {}) _
  obtain ⟨l, here, contents⟩ : ∃ l, (createList { items := [0], access := some fun x => x }
      ({ objects := Objects.create {} "a" 1, client := {} } :
        World ObjectId Bool (ViewCopies ObjectId))).2.lists.get? 1 = some l ∧ l.contents = [0] :=
    ⟨_, rfl, rfl⟩
  obtain ⟨furnished, truthful, shows⟩ :=
    furnished_createFilter grounds here Filter.judge {}
  rw [contents] at shows
  have begun := abreast_begin furnished truthful shows true
  have joined := abreast_subscribe begun (.filter 0) .properties false
  obtain ⟨u, exchanged, -, setting⟩ := exchangeFilter_done joined.toSetting (some (.above 0))
  rw [appraisedWorld]
  exact (congrArg Prod.snd exchanged) ▸ setting

/-- The view shows nothing any more, but the copy is not read anew. -/
theorem devalued_object_stays_in_copy :
    (look (.filter 0) devaluedWorld).1 = .ok [] ∧
      devaluedWorld.client.copies 2 = some [0] ∧
      Informed 3 (.property .count) appraisedWorld devaluedWorld := by
  obtain ⟨f, here, based, filter, judged, generation⟩ : ∃ f,
      appraisedWorld.filters.get? 0 = some f ∧ f.base = 1 ∧ f.filter = some (.above 0) ∧
        f.predicate = Filter.judge ∧ f.generation = 1 := ⟨_, rfl, rfl, rfl, rfl, rfl⟩
  obtain ⟨l, base, contents, version⟩ : ∃ l, appraisedWorld.lists.get? 1 = some l ∧
      l.contents = [0] ∧ l.version = 0 := ⟨_, rfl, rfl, rfl⟩
  have registered : appraisedWorld.cells.handlers 0 = [(1, 1)] := by cbv
  have copied : appraisedWorld.client.copies 2 = some [0] := by cbv
  have asks : appraisedWorld.roster (.filter 0) .properties = [(3, .client false)] := by cbv
  have edited : MemberEdit (copying (.filter 0)) f.base l appraisedWorld 0 0 devaluedWorld := by
    rw [based, devaluedWorld]
    exact .committed registered 0
  obtain ⟨-, objects, looked, informed, -, copies⟩ := edits_are_told_as_properties
    appraised_setting here (by rw [filter]; rfl) (based ▸ base) (by rw [generation]; decide)
    (by rw [version]; decide) (fun _ _ _ _ => rfl) edited
  refine ⟨?_, copies ▸ copied, (informed 3 false (asks ▸ List.mem_singleton_self _)).1⟩
  have worth : Element.current devaluedWorld.objects (0 : ObjectId) = .int 0 := by
    rw [objects]
    rfl
  have none : f.shown (Element.current devaluedWorld.objects) [0] = .ok [] := by
    simp only [FilteredView.shown, filter, judged, Filter.select, worth]
    rfl
  rw [looked, contents, none]
  rfl

/-- What the view shows differs before and after the edit, and nobody was told of any change. -/
theorem edit_is_told_as_no_change :
    (look (.filter 0) appraisedWorld).1 = .ok [0] ∧ (look (.filter 0) devaluedWorld).1 = .ok [] ∧
      ∀ s change, (s, .collection change) ∉ devaluedWorld.client.told := by
  have before : (look (.filter 0) appraisedWorld).1 = .ok [0] := by cbv
  have after : (look (.filter 0) devaluedWorld).1 = .ok [] := by cbv
  have told : devaluedWorld.client.told = [(3, .property .count), (3, .property .items)] := by cbv
  refine ⟨before, after, fun s change member => ?_⟩
  rw [told] at member
  simp at member

end UndoableLists.World
