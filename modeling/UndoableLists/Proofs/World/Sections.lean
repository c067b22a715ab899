import UndoableLists.Proofs.List.Commit
import UndoableLists.Proofs.World.Aside
import UndoableLists.World.Mutation

/-!
What a call does while it holds its list's lock: work at the list's site, entered into the world.
What is to be told is told only afterwards and does not bear on the outcome.
-/
namespace UndoableLists

def UndoableList.quieted {α : Type} (l : UndoableList α) : UndoableList α :=
  { l with store := l.store.takeStale.2 }

def UndoableList.reset {α : Type} (l : UndoableList α) : UndoableList α :=
  l.quieted.forgetful.newVersion

theorem UndoableList.quieted_fresh {α : Type} {l : UndoableList α}
    (fresh : l.store.stale = false) : l.quieted = l := by
  obtain ⟨context, lock, ⟨items, stale, bulk⟩, history, version, access, tracks⟩ := l
  cases fresh
  rfl

theorem Bulletin.empty_append {α : Type} (b : Bulletin α) : ({} : Bulletin α) ++ b = b := rfl

theorem Bulletin.append_empty {α : Type} (b : Bulletin α) : b ++ ({} : Bulletin α) = b := by
  obtain ⟨changes, count, items⟩ := b
  change (⟨changes ++ [], count || false, items || false⟩ : Bulletin α) = _
  simp

namespace World
variable {α κ δ β : Type}

def after (w : World α κ δ) (direction : Direction) (d : Done α) : World α κ δ :=
  { w.putSite d.site with objects := d.edits.foldl (·.replay direction) w.objects }

def afterReset (w : World α κ δ) (l : UndoableList α) : World α κ δ :=
  w.after .forward (Site.reset ⟨l.quieted, w.cells⟩)

section
variable {taken : List LockId} {u w : World α κ δ} {direction : Direction} {d : Done α}

theorem aside_after (aside : Aside taken w u) :
    Aside taken (w.after direction d) (u.after direction d) where
  lists := by simp only [after, putSite, aside.lists]
  cells := rfl
  objects := by simp only [after, aside.objects]
  thread := aside.thread
  nextContext := aside.nextContext
  held := aside.held
  locks := aside.locks

theorem aside_afterReset (aside : Aside taken w u) (l : UndoableList α) :
    Aside taken (w.afterReset l) (u.afterReset l) := by
  unfold afterReset
  rw [aside.cells]
  exact aside_after aside

theorem framed_afterReset (l : UndoableList α) : Framed fun w : World α κ δ => w.afterReset l :=
  ⟨fun aside => aside_afterReset aside l, fun _ => rfl, fun _ => rfl⟩

theorem framed_after : Framed fun w : World α κ δ => w.after direction d :=
  ⟨aside_after, fun _ => rfl, fun _ => rfl⟩

theorem after_list {v : World α κ δ} {m : UndoableList α} {id : ListId} (list : d.site.list = m)
    (context : m.context = id) (aside : Aside taken (w.after direction d) v) :
    v.lists.get? id = some m := by
  have entered : v.lists = w.lists.insert d.site.list.context d.site.list := aside.lists
  rw [entered, list, context, Table.get?_insert_self]

end

variable [Diary δ] {taken : List LockId} {u v w : World α κ δ} {direction : Direction} {d : Done α}

theorem aside_replayEdits (edits : List Edit) (w : World α κ δ) :
    Aside [] { w with objects := edits.foldl (·.replay direction) w.objects }
      (edits.foldl (replayEdit direction) w) := by
  induction edits generalizing w with
  | nil => exact aside_refl w
  | cons e rest ih => exact { ih (replayEdit direction w e) with }

theorem aside_settle (w : World α κ δ) : Aside [] (w.after direction d) (settle direction d w) := by
  have noted := aside_noteAll d.notices (w.putSite d.site)
  have replayed : Aside [] _ (settle direction d w) :=
    aside_replayEdits d.edits (Journal.noteAll d.notices (w.putSite d.site))
  rw [noted.objects] at replayed
  exact aside_trans (aside_objects noted _) replayed

def enrolled (w : World α κ δ) (b : Blueprint α) : World α κ δ :=
  let site := (Site.adopted ⟨b.listAt w.nextContext w.locks.next, w.cells⟩).1
  ({ w with
    locks := (w.locks.create b.settings).2
    nextContext := w.nextContext + 1 }.putSite site).hold (.list w.nextContext)

theorem aside_createList (b : Blueprint α) (w : World α κ δ) :
    Aside [] (w.enrolled b) (createList b w).2 :=
  aside_noteAll _ _

omit [Diary δ] in
theorem enrolled_lists (b : Blueprint α) (w : World α κ δ) (c : ListId) :
    (w.enrolled b).lists.get? c =
      if c = w.nextContext then some (b.listAt w.nextContext w.locks.next)
      else w.lists.get? c :=
  Table.get?_insert ..

theorem lists_createList (b : Blueprint α) (w : World α κ δ) (c : ListId) :
    (createList b w).2.lists.get? c =
      if c = w.nextContext then some (b.listAt w.nextContext w.locks.next)
      else w.lists.get? c := by
  rw [(aside_createList b w).lists, enrolled_lists]

omit [Diary δ] in
theorem cellsOf_listAt {b : Blueprint α} (empty : b.access.isSome → b.items = [])
    (context : Context) (lock : LockId) :
    (b.listAt context lock).cellsOf (b.listAt context lock).contents = [] := by
  rw [show (b.listAt context lock).contents = b.items from rfl]
  unfold UndoableList.cellsOf
  cases access : b.access with
  | none => simp [Blueprint.listAt, access]
  | some cell => simp [Blueprint.listAt, access, empty]

omit [Diary δ] in
theorem enrolled_cells {b : Blueprint α} (empty : b.access.isSome → b.items = [])
    (w : World α κ δ) : (w.enrolled b).cells = w.cells := by
  have adopted : Site.adopted ⟨b.listAt w.nextContext w.locks.next, w.cells⟩ =
      (⟨b.listAt w.nextContext w.locks.next, w.cells⟩, []) := by
    rw [Site.adopted, cellsOf_listAt empty]
    rfl
  rw [enrolled, adopted]
  rfl

def handed : Outcome ListRefusal (Told α β) → Bulletin α
  | .ok (b, _) => b
  | .error _ => {}

def answered : Outcome ListRefusal (Told α β) → Outcome ListRefusal β
  | .ok (_, r) => r
  | .error fault => .error fault

def Tells (out : Outcome ListRefusal (Told α β) × World α κ δ) (b : Bulletin α)
    (r : Outcome ListRefusal β) (v : World α κ δ) : Prop :=
  out = (.ok (b, r), v) ∨ b = {} ∧ ∃ fault, r = .error fault ∧ out = (.error fault, v)

omit [Diary δ] in
theorem of_tells {out : Outcome ListRefusal (Told α β) × World α κ δ} {b : Bulletin α}
    {r : Outcome ListRefusal β} (told : Tells out b r v) :
    handed out.1 = b ∧ answered out.1 = r ∧ out.2 = v := by
  rcases told with rfl | ⟨rfl, fault, rfl, rfl⟩ <;> exact ⟨rfl, rfl, rfl⟩

theorem announce_nothing (call : Call α κ δ) (id : ListId) (w : World α κ δ) :
    announce call id {} w = w := rfl

theorem announce_silent {b : Bulletin α} (silent : b.changes = []) (call : Call α κ δ)
    (id : ListId) (w : World α κ δ) : announce call id b w =
      (Audience.raise (channel (.list id) .properties) (callListener call)
        (b.properties.map .property) w).2 := by
  rw [announce, silent]
  rfl

section
variable {b : Bulletin α} {r : Outcome ListRefusal β} {id : ListId} {lock : LockId}
  {access : Access} {body : Work α κ δ (Told α β)}

theorem telling_handed (call : Call α κ δ) (id : ListId) (aloud : Bool)
    (body : Work α κ δ (Told α β)) (w : World α κ δ) :
    telling call id aloud body w = (answered (body w).1,
      if aloud then announce call id (handed (body w).1) (body w).2 else (body w).2) := by
  unfold telling
  rcases body w with ⟨_ | ⟨b, r⟩, v⟩
  · simp only [answered, handed, announce_nothing, ite_self]
  · rfl

theorem telling_eq (told : Tells (body w) b r v) (call : Call α κ δ) (id : ListId)
    (aloud : Bool) :
    telling call id aloud body w = (r, if aloud then announce call id b v else v) := by
  obtain ⟨rfl, rfl, rfl⟩ := of_tells told
  exact telling_handed call id aloud body w

theorem holding_tells (done : Host.acquire lock access w = (.ok (), u))
    (told : Tells (body u) b r v) :
    Tells (Host.holding ListRefusal.ofLock lock access body w) b r
      (Host.releaseFor u.thread lock v) := by
  obtain ⟨fault, x, failed, -⟩ | ⟨x, had, outcome⟩ :=
    holding_cases ListRefusal.ofLock lock access body w
  · rw [failed] at done
    cases done
  · rw [had] at done
    cases done
    rw [outcome]
    rcases told with outcome | ⟨rfl, fault, rfl, outcome⟩
    · exact .inl (by rw [outcome])
    · exact .inr ⟨rfl, fault, rfl, by rw [outcome]⟩

omit [Diary δ] in
theorem withList_present {body : UndoableList α → Work α κ δ β} {l : UndoableList α}
    (here : w.lists.get? id = some l) : withList id body w = body l w := by
  simp only [withList, here]

omit [Diary δ] in
theorem atSite_present {body : Site α → Work α κ δ β} {l : UndoableList α}
    (here : w.lists.get? id = some l) : atSite id body w = body ⟨l, w.cells⟩ w := by
  unfold atSite withList
  simp only [here]

omit [Diary δ] in
theorem withList_absent (absent : w.lists.get? id = none)
    (body : UndoableList α → Work α κ δ β) :
    withList id body w = (.error (.refused .disposed), w) := by
  simp only [withList, absent]

/-- Work alone with a list that changes what the list remembers. -/
def modifying (id : ListId) (f : UndoableList α → UndoableList α) : Work α κ δ Unit :=
  withList id fun l =>
    Host.holding ListRefusal.ofLock l.lock .write
      (Act.modify fun w => { w with lists := w.lists.modify id f })

theorem modifying_ends {l : UndoableList α} (here : w.lists.get? id = some l)
    (f : UndoableList α → UndoableList α) :
    (∃ fault u, (Host.acquire l.lock .write).succeeds w = false ∧ Aside [] w u ∧
      modifying id f w = (.error fault, u)) ∨
    ∃ u, (Host.acquire l.lock .write).succeeds w = true ∧
      Aside [] { w with lists := w.lists.modify id f } u ∧ modifying id f w = (.ok (), u) := by
  rw [modifying, withList_present here]
  obtain ⟨fault, u, barred, aside, outcome⟩ | ⟨u, obtained, aside, -, outcome⟩ :=
    holding_modify ListRefusal.ofLock l.lock (framed_lists (·.modify id f)) w
  · exact .inl ⟨fault, u, barred, aside, outcome⟩
  · exact .inr ⟨u, obtained, aside, outcome⟩

theorem modifying_leaves (id : ListId) (f : UndoableList α → UndoableList α) (w : World α κ δ) :
    Aside [] w (modifying id f w).2 ∨ ∃ l, w.lists.get? id = some l ∧
      Aside [] { w with lists := w.lists.modify id f } (modifying id f w).2 := by
  cases here : w.lists.get? id with
  | none =>
    rw [modifying, withList_absent here]
    exact .inl (aside_refl w)
  | some l =>
    obtain ⟨fault, u, -, aside, outcome⟩ | ⟨u, -, aside, outcome⟩ := modifying_ends here f
    all_goals rw [outcome]
    · exact .inl aside
    · exact .inr ⟨l, rfl, aside⟩

theorem dispose_absent (absent : w.lists.get? id = none) :
    dispose id w = (.error (.refused .disposed), w) := by
  simp [dispose, withList, absent]

theorem dispose_leaves {l : UndoableList α} (here : w.lists.get? id = some l) :
    (dispose id w).2 = (disposeList id l w).2 := by
  simp [dispose, withList, here]

omit [Diary δ] in
theorem atSite_absent (absent : w.lists.get? id = none) (body : Site α → Work α κ δ β) :
    atSite id body w = (.error (.refused .disposed), w) :=
  withList_absent absent _

omit [Diary δ] in
theorem takeSignal_present {l : UndoableList α} (here : w.lists.get? id = some l) :
    takeSignal id w = (.ok l.store.stale, { w with lists := w.lists.insert id l.quieted }) := by
  rw [takeSignal, withList_present here]
  rfl

omit [Diary δ] in
theorem takeSignal_fresh {l : UndoableList α} (here : w.lists.get? id = some l)
    (fresh : l.store.stale = false) : takeSignal id w = (.ok false, w) := by
  rw [takeSignal_present here, UndoableList.quieted_fresh fresh, Table.insert_present here, fresh]

omit [Diary δ] in
theorem andThen_eq (first : Bulletin α) (body : Work α κ δ (Bulletin α × β)) (w : World α κ δ) :
    andThen first body w = match body w with
      | (.ok (second, b), v) => (.ok (first ++ second, .ok b), v)
      | (.error fault, v) => (.ok (first, .error fault), v) := by
  simp only [andThen, Act.bind_apply, Act.outcome]
  rcases body w with ⟨_ | ⟨second, b⟩, v⟩ <;> rfl

end

section
variable {l : UndoableList α} {id : ListId}

omit [Diary δ] in
theorem afterReset_list (w : World α κ δ) (l : UndoableList α) :
    (w.afterReset l).lists.get? l.context = some l.reset :=
  Table.get?_insert_self ..

theorem resetList_eq (here : w.lists.get? id = some l) :
    resetList id w = (.ok .reset, settle .forward (Site.reset ⟨l, w.cells⟩) w) := by
  rw [resetList, atSite_present here]
  rfl

theorem resetList_quieted (before : Aside taken w u) :
    ∃ v, resetList l.context { u with lists := u.lists.insert l.context l.quieted } =
      (.ok .reset, v) ∧ Aside taken (w.afterReset l) v := by
  refine ⟨_, resetList_eq (l := l.quieted) (Table.get?_insert_self ..), ?_⟩
  have same : after { u with lists := u.lists.insert l.context l.quieted } .forward
      (Site.reset ⟨l.quieted, u.cells⟩) = u.afterReset l := by
    simp only [afterReset, after, putSite]
    rw [show (Site.reset ⟨l.quieted, u.cells⟩).site.list.context = l.context from rfl,
      Table.insert_insert]
  have entered : Aside [] (u.afterReset l) _ := same ▸ aside_settle _
  exact aside_then (aside_afterReset before l) entered

end

end World

end UndoableLists
