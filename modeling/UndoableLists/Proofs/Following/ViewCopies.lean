import UndoableLists.Proofs.Views.Answers

/-!
Subscribers that follow a view. Such a subscriber keeps a copy of what the view shows: at a reset it
reads the view anew, and all other changes it makes on its copy. What others do meanwhile is nothing
to it, as long as lists, views and audiences stay as they are, locks that were free are free again,
and what the view has cached is dropped or is right. Main statement: work that only reads is such
work.
-/
namespace UndoableLists
variable {α κ δ : Type}

/-- Who was told what, and the copies that subscribers keep. A change that points outside a copy
leaves none, for good. -/
structure ViewCopies (α : Type) where
  told : List (SubscriberId × Event α) := []
  copies : SubscriberId → Option (List α) := fun _ => none

instance : Diary (ViewCopies α) where
  note _ copies := copies
  replayed _ _ _ copies := copies

def FilteredView.bare (f : FilteredView α) : FilteredView α :=
  { f with cache := { disposed := f.cache.disposed } }

def MergedList.bare (m : MergedList α) : MergedList α :=
  { m with cache := { disposed := m.cache.disposed } }

namespace World

/-- What is to be seen at a handle, made from the present contents of lists, or what the filter says
on failing. -/
def shown (value : α → Value) (w : World α κ δ) : Handle → Except (Option String) (List α)
  | .list id => .ok (w.contentsOf id)
  | .filter id =>
    ((w.filters.get? id).map fun f => f.shown value (w.contentsOf f.base)).getD (.ok [])
  | .merge id =>
    ((w.merges.get? id).map fun m => .ok (m.places.flatMap w.contentsOf)).getD (.ok [])

def cacheLock (w : World α κ δ) : Handle → Option LockId
  | .list _ => none
  | .filter id => ((filterCache id).get w).lock
  | .merge id => ((mergeCache id).get w).lock

def cached (w : World α κ δ) : Handle → Option (List α)
  | .list _ => none
  | .filter id => ((filterCache id).get w).entry.map fun e => e.2.items
  | .merge id => ((mergeCache id).get w).entry.map fun e => e.2.items

def living (w : World α κ δ) (h : Handle) (t : Topic) : List (Subscriber (Listener κ)) :=
  ((channel h t).get w).struckOff.subscribers

/-- The lock of the view's cache is free, and while there is none nothing is cached. -/
structure Tended (h : Handle) (w : World α κ δ) : Prop where
  free : ∀ own, w.cacheLock h = some own → w.locks.Free w.thread own
  vacant : w.cacheLock h = none → w.cached h = none

def Truthful (value : α → Value) (h : Handle) (w : World α κ δ) : Prop :=
  ∀ items, w.cached h = some items → w.shown value h = .ok items

/-- To those who follow the view `h` the worlds are alike: nothing but caches, handles that come and
go, and what clients keep is any different. -/
structure Alike [Element α] (value : α → Value) (h : Handle) (w v : World α κ (ViewCopies α)) :
    Prop where
  lists : v.lists = w.lists
  filters : ∀ id, (v.filters.get? id).map FilteredView.bare =
    (w.filters.get? id).map FilteredView.bare
  merges : ∀ id, (v.merges.get? id).map MergedList.bare = (w.merges.get? id).map MergedList.bare
  held : v.held = w.held
  living : ∀ k t, v.living k t = w.living k t
  next : v.nextSubscriber = w.nextSubscriber
  free : ∀ lock, w.locks.Free w.thread lock → v.locks.Free v.thread lock
  tended : Run w → Tended h w → Tended h v
  truthful : Truthful value h w → Truthful value h v
  run : Run w → Run v
  told : w.client.told <+: v.client.told

structure Unmoved [Element α] (value : α → Value) (h : Handle) (x : SubscriberId)
    (w v : World α κ (ViewCopies α)) : Prop extends Alike value h w v where
  copy : v.client.copies x = w.client.copies x

section
variable [Element α] {value : α → Value} {h : Handle} {x : SubscriberId}
  {u v w : World α κ (ViewCopies α)}

theorem alike_trans (first : Alike value h w u) (second : Alike value h u v) :
    Alike value h w v where
  lists := second.lists.trans first.lists
  filters id := (second.filters id).trans (first.filters id)
  merges id := (second.merges id).trans (first.merges id)
  held := second.held.trans first.held
  living k t := (second.living k t).trans (first.living k t)
  next := second.next.trans first.next
  free lock free := second.free lock (first.free lock free)
  tended run tended := second.tended (first.run run) (first.tended run tended)
  truthful truthful := second.truthful (first.truthful truthful)
  run run := second.run (first.run run)
  told := first.told.trans second.told

theorem unmoved_trans (first : Unmoved value h x w u) (second : Unmoved value h x u v) :
    Unmoved value h x w v :=
  ⟨alike_trans first.toAlike second.toAlike, second.copy.trans first.copy⟩

def clientState (w : World α κ δ) : Table Handle (Channels κ) × List Handle × SubscriberId × δ :=
  (w.channels, w.held, w.nextSubscriber, w.client)

omit [Element α] in
theorem listFree_clientState : ListFree (clientState : World α κ (ViewCopies α) → _) :=
  ⟨fun _ _ _ => rfl, fun _ _ _ => rfl, fun _ _ => rfl, fun _ _ => rfl, fun _ _ _ _ => rfl⟩

omit [Element α] in
theorem living_of_clientState {v w : World α κ δ} (same : clientState v = clientState w)
    (k : Handle) (t : Topic) : v.living k t = w.living k t := by
  have channels : v.channels = w.channels := congrArg Prod.fst same
  simp only [living, channel, channels]

omit [Element α] in
theorem held_of_clientState {v w : World α κ δ} (same : clientState v = clientState w) :
    v.held = w.held :=
  congrArg (fun f => f.2.1) same

omit [Element α] in
theorem next_of_clientState {v w : World α κ δ} (same : clientState v = clientState w) :
    v.nextSubscriber = w.nextSubscriber := congrArg (fun f => f.2.2.1) same

omit [Element α] in
theorem client_of_clientState {v w : World α κ δ} (same : clientState v = clientState w) :
    v.client = w.client :=
  congrArg (fun f => f.2.2.2) same

omit [Element α] in
theorem shown_of_bare (value : α → Value) (w : World α κ δ) (h : Handle) : w.shown value h =
    match h with
    | .list id => .ok (w.contentsOf id)
    | .filter id => (((w.filters.get? id).map FilteredView.bare).map fun f =>
        f.shown value (w.contentsOf f.base)).getD (.ok [])
    | .merge id => (((w.merges.get? id).map MergedList.bare).map fun m =>
        .ok (m.places.flatMap w.contentsOf)).getD (.ok []) := by
  cases h <;> simp only [Option.map_map] <;> rfl

omit [Element α] in
theorem shown_eq {v w : World α κ δ} (contents : v.contentsOf = w.contentsOf)
    (filters : ∀ id, (v.filters.get? id).map FilteredView.bare =
      (w.filters.get? id).map FilteredView.bare)
    (merges : ∀ id, (v.merges.get? id).map MergedList.bare = (w.merges.get? id).map MergedList.bare)
    (value : α → Value) (h : Handle) : v.shown value h = w.shown value h := by
  simp only [shown_of_bare, contents, filters, merges]

theorem shown_alike (alike : Alike value h w v) (k : Handle) : v.shown value k = w.shown value k :=
  shown_eq (contentsOf_congr alike.lists) alike.filters alike.merges value k

theorem unmoved_still (still : Still [] w v) (same : clientState v = clientState w) :
    Unmoved value h x w v := by
  have filters (id : ViewId) : (v.filters.get? id).map FilteredView.bare =
      (w.filters.get? id).map FilteredView.bare := by rw [still.filters]
  have merges (id : ViewId) : (v.merges.get? id).map MergedList.bare =
      (w.merges.get? id).map MergedList.bare := by rw [still.merges]
  have shows := shown_eq (contentsOf_congr still.lists) filters merges value h
  have lock : v.cacheLock h = w.cacheLock h := by
    cases h <;> simp only [cacheLock, filterCache, mergeCache, still.filters, still.merges]
  have items : v.cached h = w.cached h := by
    cases h <;> simp only [cached, filterCache, mergeCache, still.filters, still.merges]
  have client : v.client = w.client := client_of_clientState same
  refine ⟨⟨still.lists, filters, merges, held_of_clientState same, living_of_clientState same,
    next_of_clientState same, fun _ => free_aside still.toAside, fun _ tended => ?_, ?_,
    fun run => run_still run still, client ▸ List.prefix_refl _⟩, by rw [client]⟩
  · exact ⟨fun own has => free_aside still.toAside (tended.free own (lock ▸ has)),
      fun without => items.trans (tended.vacant (lock.symm.trans without))⟩
  · intro truthful xs holds
    exact shows.trans (truthful xs (items.symm.trans holds))

theorem unmoved_refl (w : World α κ (ViewCopies α)) : Unmoved value h x w w :=
  unmoved_still (still_refl w) rfl

theorem alike_client {client : ViewCopies α} (told : w.client.told <+: client.told) :
    Alike value h w { w with client } where
  lists := rfl
  filters _ := rfl
  merges _ := rfl
  held := rfl
  living _ _ := rfl
  next := rfl
  free _ free := free
  tended _ tended := ⟨tended.free, tended.vacant⟩
  truthful truthful := truthful
  run run := run_congr run rfl ⟨rfl, rfl⟩ rfl rfl rfl
  told := told

end

end World

end UndoableLists
