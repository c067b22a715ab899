import Mathlib.Data.List.Permutation
import UndoableLists.Proofs.Failure

/-!
Work of a client on the store itself: one access after the other, as earlier ones were answered,
until the client returns or panics. The members are freed before and taken again after it. Main
statement: work that returns leaves a list without history, under a new version, that owns its
members and nothing else; work that panics leaves what the store had come to, the members freed, and
the history and the version as if nothing had happened.
-/
namespace UndoableLists

/-- A client's work on a store. -/
inductive Rework (α β : Type) where
  | returns (b : β)
  | panics (label : Option String)
  | access (e : StoreEdit α) (next : Reply α → Rework α β)

def Rework.on {α β : Type} : Rework α β → Store α → Outcome ListRefusal β × Store α
  | .returns b, s => (.ok b, s)
  | .panics label, s => (.error (.panicked label), s)
  | .access e next, s =>
    match s.edit? e with
    | none => (.error (.panicked none), s)
    | some (reply, s) => (next reply).on s

namespace World
variable {α κ δ β : Type} {v w : World α κ δ} {l : UndoableList α} {store : Store α}

def rework (id : ListId) : Rework α β → Work α κ δ β
  | .returns b => return b
  | .panics label => Act.fail (.panicked label)
  | .access e next => do rework id (next (← editStore id e))

theorem editStore_eq {id : ListId} (here : w.lists.get? id = some l) (e : StoreEdit α) :
    editStore id e w = match l.store.edit? e with
      | none => (.error (.panicked none), w)
      | some (reply, store) =>
        (.ok reply, { w with lists := w.lists.insert id { l with store } }) := by
  rw [editStore, withList_present here]
  cases l.store.edit? e <;> rfl

theorem rework_eq {id : ListId} (here : w.lists.get? id = some l) (r : Rework α β) :
    rework id r w = ((r.on l.store).1,
      { w with lists := w.lists.insert id { l with store := (r.on l.store).2 } }) := by
  induction r generalizing w l with
  | returns b =>
    rw [Rework.on, Table.insert_present here]
    rfl
  | panics label =>
    rw [Rework.on, Table.insert_present here]
    rfl
  | access e next ih =>
    rw [rework, Rework.on]
    cases edited : l.store.edit? e with
    | none =>
      have failed := editStore_eq here e
      rw [edited] at failed
      rw [Act.bind_of_error failed, Table.insert_present here]
    | some result =>
      obtain ⟨reply, store⟩ := result
      have done := editStore_eq here e
      rw [edited] at done
      rw [Act.bind_of_ok done, ih reply (Table.get?_insert_self ..), Table.insert_insert]

def abandoned (w : World α κ δ) (l : UndoableList α) (store : Store α) : World α κ δ :=
  w.putSite ⟨{ l with store }, (Site.released ⟨l, w.cells⟩).cells⟩

def reworked (w : World α κ δ) (l : UndoableList α) (store : Store α) : World α κ δ :=
  w.after .forward
    (Site.resynchronized ⟨{ l with store }, (Site.released ⟨l, w.cells⟩).cells⟩)

theorem framed_abandoned (l : UndoableList α) (store : Store α) :
    Framed fun w : World α κ δ => w.abandoned l store where
  aside {taken w u} aside := by
    rw [abandoned, abandoned, aside.cells, putSite, putSite, aside.lists]
    exact { aside with lists := rfl, cells := rfl }
  locks _ := rfl
  thread _ := rfl

theorem framed_reworked (l : UndoableList α) (store : Store α) :
    Framed fun w : World α κ δ => w.reworked l store where
  aside {taken w u} aside := by
    rw [reworked, reworked, aside.cells]
    exact aside_after aside
  locks _ := rfl
  thread _ := rfl

variable [Diary δ]

theorem reworking_ends (here : w.lists.get? l.context = some l) (r : Rework α β) :
    match r.on l.store with
    | (.ok b, store) => ∃ v, reworking l.context (rework l.context r) w = (.ok b, v) ∧
        Aside [] (w.reworked l store) v
    | (.error fault, store) =>
      reworking l.context (rework l.context r) w = (.error fault, w.abandoned l store) := by
  have freed : releaseMembers l.context w = (.ok (), w.putSite (Site.released ⟨l, w.cells⟩)) :=
    atSite_present here
  have worked : rework l.context r (w.putSite (Site.released ⟨l, w.cells⟩)) =
      ((r.on l.store).1, w.abandoned l (r.on l.store).2) := by
    refine (rework_eq (l := l) (Table.get?_insert_self ..) r).trans (congrArg (Prod.mk _) ?_)
    exact congrArg (fun lists => { w.putSite (Site.released ⟨l, w.cells⟩) with lists })
      (Table.insert_insert w.lists l.context l { l with store := (r.on l.store).2 })
  rcases ended : r.on l.store with ⟨fault | b, store⟩
  · rw [ended] at worked
    exact (Act.bind_of_ok freed _).trans (Act.bind_of_error worked _)
  · rw [ended] at worked
    have resynchronized : resynchronize l.context (w.abandoned l store) = (.ok (),
        settle .forward (Site.resynchronized ⟨{ l with store }, (w.abandoned l store).cells⟩)
          (w.abandoned l store)) :=
      atSite_present (l := { l with store }) (Table.get?_insert_self ..)
    have same : (w.abandoned l store).after .forward
        (Site.resynchronized ⟨{ l with store }, (w.abandoned l store).cells⟩) =
        w.reworked l store :=
      congrArg (fun lists => { w.reworked l store with lists }) (Table.insert_insert w.lists
        l.context { l with store } { l with store }.forgetful.newVersion)
    refine ⟨_, ?_, same ▸ aside_settle _⟩
    rw [reworking, Act.bind_of_ok freed, Act.bind_of_ok worked, Act.bind_of_ok resynchronized]
    rfl

theorem aloneWithStore_ends (here : w.lists.get? l.context = some l) (r : Rework α β) :
    ((Host.acquire l.lock .write).succeeds w = false ∧ ∃ fault v, Aside [] w v ∧
      aloneWithStore l.context (rework l.context r) w = (.error fault, v)) ∨
    ((Host.acquire l.lock .write).succeeds w = true ∧ ∃ v, match r.on l.store with
      | (.ok b, store) => Aside [] (w.reworked l store) v ∧
        aloneWithStore l.context (rework l.context r) w = (.ok b, v)
      | (.error fault, store) => Aside [] (w.abandoned l store) v ∧
        aloneWithStore l.context (rework l.context r) w = (.error fault, v)) := by
  obtain ⟨fault, u, failed, outcome⟩ | ⟨u, done, outcome⟩ :=
    holding_cases ListRefusal.ofLock l.lock .write (reworking l.context (rework l.context r)) w
  all_goals
    have result : aloneWithStore l.context (rework l.context r) w = _ :=
      (withList_present here).trans outcome
  · exact .inl ⟨Act.succeeds_of_error failed, fault.map ListRefusal.ofLock, u,
      of_acquire_error failed, result⟩
  · obtain ⟨v, inside⟩ := inside_of_acquire done
    have here' : u.lists.get? l.context = some l :=
      inside.taken.lists.trans inside.before.lists ▸ here
    have ends := reworking_ends here' r
    refine .inr ⟨Act.succeeds_of_ok done, ?_⟩
    rcases worked : r.on l.store with ⟨fault | b, store⟩
    · rw [worked] at ends
      rw [ends] at result
      have framed := framed_abandoned (κ := κ) (δ := δ) l store
      exact ⟨_, (release_framed framed inside (framed.aside inside.taken)).1, result⟩
    · rw [worked] at ends
      obtain ⟨x, finished, aside⟩ := ends
      rw [finished] at result
      have framed := framed_reworked (κ := κ) (δ := δ) l store
      exact ⟨_, (release_framed framed inside (aside_then (framed.aside inside.taken) aside)).1,
        result⟩

/-- The list holds what the store came to, under a new version and without history. It owns its
members and hears of their edits if it tracks any, but for those that another context owns, which
are as they were; an item that is no member is the list's only if it was before, without being
one. -/
structure Resynchronized (l : UndoableList α) (store : Store α) (w v : World α κ δ) : Prop where
  list : v.lists.get? l.context = some { l with
    store
    history := { l.history with done := [], undone := [] }
    version := l.version + 1 }
  others : ∀ c, c ≠ l.context → v.lists.get? c = w.lists.get? c
  members : ∀ x ∈ l.cellsOf store.items,
    (v.cells.owner x = some l.context ∧
      (l.tracksEdits = true → v.cells.handler? x l.context = some l.context)) ∨
    ∃ other, other ≠ l.context ∧ v.cells.owner x = some other ∧ v.cells.cell x = w.cells.cell x
  leftOut : ∀ x ∉ l.cellsOf store.items, v.cells.owner x = some l.context →
    x ∉ l.cellsOf l.contents ∧ w.cells.owner x = some l.context
  objects : v.objects = w.objects
  ledger : v.locks.heldBy w.thread = w.locks.heldBy w.thread

/-- The list holds what the store came to, under the version and with the history from before, and
owns none of the members that it had. -/
structure Abandoned (l : UndoableList α) (store : Store α) (w v : World α κ δ) : Prop where
  list : v.lists.get? l.context = some { l with store }
  others : ∀ c, c ≠ l.context → v.lists.get? c = w.lists.get? c
  freed : ∀ x ∈ l.cellsOf l.contents, v.cells.owner x ≠ some l.context
  untouched : ∀ x ∉ l.cellsOf l.contents, v.cells.cell x = w.cells.cell x
  objects : v.objects = w.objects
  ledger : v.locks.heldBy w.thread = w.locks.heldBy w.thread

omit [Diary δ] in
theorem cell_released (l : UndoableList α) (cells : Cells ListId) (x : CellId) :
    (Site.released ⟨l, cells⟩).cells.cell x =
      if x ∈ l.cellsOf l.contents ∧ cells.owner x = some l.context then
        (cells.cell x).freedBy l.context
      else cells.cell x :=
  Cells.cell_giveUp l.context (l.cellsOf l.contents) cells x

omit [Diary δ] in
theorem owner_released {l : UndoableList α} {cells : Cells ListId} {x : CellId}
    (mine : (Site.released ⟨l, cells⟩).cells.owner x = some l.context) :
    x ∉ l.cellsOf l.contents ∧ cells.owner x = some l.context := by
  rw [Cells.owner, cell_released] at mine
  split at mine
  · cases mine
  · rename_i kept
    exact ⟨fun member => kept ⟨member, mine⟩, mine⟩

omit [Diary δ] in
theorem abandoned_aside (aside : Aside [] (w.abandoned l store) v) : Abandoned l store w v where
  list := by
    rw [aside.lists]
    exact Table.get?_insert_self ..
  others c differs := by
    rw [aside.lists]
    exact Table.get?_insert_of_ne _ differs _
  freed x member mine := by
    rw [aside.cells] at mine
    exact (owner_released mine).1 member
  untouched x stranger := by
    rw [aside.cells]
    exact (cell_released l w.cells x).trans (if_neg fun both => stranger both.1)
  objects := aside.objects
  ledger := (ledger_aside aside :)

omit [Diary δ] in
theorem cell_reworked {x : CellId} {freed : Cell ListId}
    (given : (Site.released ⟨l, w.cells⟩).cells.cell x = freed) :
    (w.reworked l store).cells.cell x =
      if x ∈ l.cellsOf store.items ∧ freed.admits l.context then
        freed.adoptedBy l.context l.handler?
      else freed :=
  given ▸ Cells.cell_adoptEach { l with store } (l.cellsOf store.items)
    (Site.released ⟨l, w.cells⟩).cells x

omit [Diary δ] in
theorem resynchronized_aside (aside : Aside [] (w.reworked l store) v) :
    Resynchronized l store w v where
  list := by
    rw [aside.lists]
    exact Table.get?_insert_self ..
  others c differs := by
    rw [aside.lists]
    exact Table.get?_insert_of_ne _ differs _
  members x member := by
    have cell : (w.reworked l store).cells.cell x = _ := cell_reworked rfl
    rw [← aside.cells] at cell
    cases admitted : ((Site.released ⟨l, w.cells⟩).cells.cell x).admits l.context with
    | true =>
      left
      rw [if_pos ⟨member, admitted⟩] at cell
      rw [Cells.owner, Cells.handler?, cell]
      refine ⟨rfl, fun tracks => ?_⟩
      simp [Cell.adoptedBy, UndoableList.handler?, tracks]
    | false =>
      right
      obtain ⟨other, differs, owned⟩ := Cell.owned_of_not_admits admitted
      rw [if_neg (by simp [admitted])] at cell
      have kept := cell_released l w.cells x
      split at kept
      · rw [kept] at owned
        cases owned
      · exact ⟨other, differs, by rw [Cells.owner, cell, owned], cell.trans kept⟩
  leftOut x stranger mine := by
    rw [Cells.owner, aside.cells, cell_reworked rfl, if_neg fun both => stranger both.1] at mine
    exact owner_released mine
  objects := aside.objects
  ledger := (ledger_aside aside :)

/-- What work on a list's store comes to: the lock cannot be had and nothing is done; or the work
returns and everybody is told to look anew; or it panics, and nobody is told. -/
theorem store_reworked (here : w.lists.get? l.context = some l) (r : Rework α β) :
    ((Host.acquire l.lock .write).succeeds w = false ∧ ∃ fault v, Untouched w v ∧
      ∀ call, withStore call l.context (rework l.context r) w = (.error fault, v)) ∨
    ((Host.acquire l.lock .write).succeeds w = true ∧ ∃ v, match r.on l.store with
      | (.ok b, store) => Resynchronized l store w v ∧
        ∀ call, withStore call l.context (rework l.context r) w = (.ok b, announce call l.context
          { changes := [.reset], countDiffers := true, itemsDiffer := true } v)
      | (.error fault, store) => Abandoned l store w v ∧
        ∀ call, withStore call l.context (rework l.context r) w = (.error fault, v)) := by
  obtain ⟨barred, fault, v, aside, result⟩ | ⟨obtained, v, ends⟩ := aloneWithStore_ends here r
  · exact .inl ⟨barred, fault, v, untouched_aside aside, fun call => Act.bind_of_error result _⟩
  · refine .inr ⟨obtained, v, ?_⟩
    rcases worked : r.on l.store with ⟨fault | b, store⟩
    · rw [worked] at ends
      exact ⟨abandoned_aside ends.1, fun call => Act.bind_of_error ends.2 _⟩
    · rw [worked] at ends
      exact ⟨resynchronized_aside ends.1, fun call => Act.bind_of_ok ends.2 _⟩

def tendedWorld : World ObjectId Unit Unit :=
  (lockedMutation 1 (.push 0) (createList { access := some id } { client := () }).2).2

def tendedList : UndoableList ObjectId where
  context := 1
  lock := 1
  store := { items := [0] }
  history := { done := [.add 0 0], maxDepth := History.unlimited }
  version := 1
  access := some id
  tracksEdits := true

def growing (ending : Rework ObjectId Unit) : Rework ObjectId Unit :=
  .access (.insert 1 1) fun _ => ending

theorem growing_store_resynchronizes : ∃ v : World ObjectId Unit Unit,
    Resynchronized tendedList { items := [0, 1] } tendedWorld v ∧
      ∀ call, withStore call 1 (rework 1 (growing (.returns ()))) tendedWorld =
        (.ok (), announce call 1
          { changes := [.reset], countDiffers := true, itemsDiffer := true } v) := by
  have here : tendedWorld.lists.get? tendedList.context = some tendedList := rfl
  have obtained : (Host.acquire tendedList.lock .write).succeeds tendedWorld = true := rfl
  obtain ⟨barred, -⟩ | ⟨-, v, safe, told⟩ := store_reworked here (growing (.returns ()))
  · rw [obtained] at barred
    cases barred
  · exact ⟨v, safe, told⟩

/-- After a panic the contents differ under the same version, nobody owns the members, and the
history holds a record that can no longer be undone. -/
theorem panicking_work_abandons_members :
    let left := withStore (fun _ _ _ => pure ()) 1
      (rework 1 (growing (.panics (some "store")))) tendedWorld
    left.1 = .error (.panicked (some "store")) ∧
      left.2.lists.get? 1 = some { tendedList with store := { items := [0, 1] } } ∧
      left.2.cells.owner 0 = none ∧ left.2.cells.owner 1 = none ∧
      (replay (fun _ _ _ => pure ()) 1 true .backward left.2).1 =
        .error (.refused (.capture (.notCaptured 0))) := by
  refine ⟨?_, ?_, ?_, ?_, ?_⟩ <;> cbv

end World

end UndoableLists
