import UndoableLists.Proofs.Mirrors.Handing
import UndoableLists.Proofs.World.Hearing

/-!
A delivery to the clients who listen to a list. While it lasts each of them is guarded once more;
when it is over the audience is the one it was, also if other deliveries took place in between.
Main statement: a delivery guards the audience, calls everyone for every event in order, and takes
the guards away again.
-/
namespace UndoableLists

structure Audience.Consists {κ : Type} (n : Audience (Listener κ))
    (people : List (SubscriberId × κ)) : Prop where
  alive : ∀ s ∈ n.subscribers, s.guards ≠ 0
  clients : n.subscribers.map (fun s => (s.id, s.listener)) =
    people.map fun p => (p.1, Listener.client p.2)

namespace Audience
variable {κ : Type} {n : Audience (Listener κ)} {people : List (SubscriberId × κ)}

theorem unguarded_guarded (n : Audience κ) (ids : List SubscriberId) :
    (n.guarded ids).unguarded ids = n := by
  obtain ⟨subscribers⟩ := n
  simp only [guarded, unguarded, List.map_map, mk.injEq]
  refine List.map_id'' (fun s => ?_) subscribers
  rw [Function.comp_apply]
  split <;> rfl

theorem consists_guarded (consists : n.Consists people) (ids : List SubscriberId) :
    (n.guarded ids).Consists people where
  alive s member := by
    obtain ⟨s, there, rfl⟩ := List.mem_map.mp member
    split
    · exact Nat.succ_ne_zero _
    · exact consists.alive s there
  clients := by
    rw [← consists.clients, guarded, List.map_map]
    refine List.map_congr_left fun s _ => ?_
    rw [Function.comp_apply]
    split <;> rfl

theorem struckOff_consists (consists : n.Consists people) : n.struckOff = n := by
  have all : n.subscribers.filter (·.guards ≠ 0) = n.subscribers :=
    List.filter_eq_self.mpr fun s member => by simpa using consists.alive s member
  exact congrArg Audience.mk all

end Audience

namespace World
variable {α κ : Type}

structure Placed (id : ListId) (t : Topic) (f : Audience (Listener κ) → Audience (Listener κ))
    (w v : World α κ (Mirrors α)) : Prop where
  lists : v.lists = w.lists
  locks : v.locks = w.locks
  thread : v.thread = w.thread
  client : v.client = w.client
  here : (channel (.list id) t).get v = f ((channel (.list id) t).get w)
  others : ∀ u, u ≠ t → (channel (.list id) u).get v = (channel (.list id) u).get w

def Assembled (people : Topic → List (SubscriberId × κ)) (id : ListId)
    (w : World α κ (Mirrors α)) : Prop :=
  ∀ t, ((channel (.list id) t).get w).Consists (people t)

def hearing (call : Call α κ (Mirrors α)) (event : Event α) (w : World α κ (Mirrors α))
    (p : SubscriberId × κ) : World α κ (Mirrors α) :=
  Audience.deliverTo (callListener call) event ⟨p.1, .client p.2, 1⟩ w

/-- `x` is behind a list of this kind by some changes, and those who listen are there. -/
structure Poised (Kind : UndoableList α → Prop) (people : Topic → List (SubscriberId × κ))
    (id : ListId) (x : SubscriberId) (behind : List (Change α)) (l : UndoableList α)
    (w : World α κ (Mirrors α)) : Prop where
  step : InStep id x behind l w
  assembled : Assembled people id w
  kind : Kind l

section
variable {id : ListId} {x : SubscriberId} {t : Topic} {u v w z : World α κ (Mirrors α)}
  {l : UndoableList α} {behind : List (Change α)} {ids : List SubscriberId}
  {Kind : UndoableList α → Prop}
  {people : Topic → List (SubscriberId × κ)} {call : Call α κ (Mirrors α)}
  {f : Audience (Listener κ) → Audience (Listener κ)}

theorem placed_modify (id : ListId) (t : Topic) (f : Audience (Listener κ) → Audience (Listener κ))
    (w : World α κ (Mirrors α)) : Placed id t f w ((channel (.list id) t).modify f w) :=
  ⟨rfl, rfl, rfl, rfl, (channel_set ..).trans (if_pos rfl),
    fun _ differs => (channel_set ..).trans (if_neg differs)⟩

theorem inStep_placed (step : InStep id x behind l w) (placed : Placed id t f w v) :
    InStep id x behind l v where
  here := placed.lists ▸ step.here
  free := by
    rw [placed.locks, placed.thread]
    exact step.free
  copy := placed.client ▸ step.copy

theorem assembled_beside (assembled : Assembled people id w) (beside : Beside id w v) :
    Assembled people id v := fun t => beside.audience t ▸ assembled t

theorem poised_apart (poised : Poised Kind people id x behind l w) (apart : Apart id x w v) :
    Poised Kind people id x behind l v where
  step := inStep_apart poised.step apart
  assembled := assembled_beside poised.assembled apart.toBeside
  kind := poised.kind

theorem poised_placed (poised : Poised Kind people id x behind l w) (placed : Placed id t f w v)
    (assembled : Assembled people id v) : Poised Kind people id x behind l v where
  step := inStep_placed poised.step placed
  assembled := assembled
  kind := poised.kind

theorem poised_heard {change : Change α} (poised : Poised Kind people id x (change :: behind) l w)
    (beside : Beside id w v) (heard : v.client x = (w.client x).hears change l.contents) :
    Poised Kind people id x behind l v where
  step := inStep_heard poised.step beside heard
  assembled := assembled_beside poised.assembled beside
  kind := poised.kind

theorem assembled_hidden (assembled : Assembled people id w)
    (hidden : channelsAndClient v = channelsAndClient w) : Assembled people id v :=
      fun t => audience_of_channelsAndClient hidden (.list id) t ▸ assembled t

theorem assembled_guarded (assembled : Assembled people id w)
    (placed : Placed id t (·.guarded ids) w v) : Assembled people id v := by
  intro u
  by_cases same : u = t
  · subst same
    rw [placed.here]
    exact Audience.consists_guarded (assembled u) ids
  · rw [placed.others u same]
    exact assembled u

theorem audience_delivered (first : Placed id t (·.guarded ids) w u)
    (between : ∀ s, (channel (.list id) s).get v = (channel (.list id) s).get u)
    (last : Placed id t (·.unguarded ids) v z) (s : Topic) :
    (channel (.list id) s).get z = (channel (.list id) s).get w := by
  by_cases same : s = t
  · subst same
    rw [last.here, between, first.here, Audience.unguarded_guarded]
  · rw [last.others s same, between, first.others s same]

theorem poised_delivered (assembled : Assembled people id w)
    (first : Placed id t (·.guarded ids) w u)
    (between : ∀ s, (channel (.list id) s).get v = (channel (.list id) s).get u)
    (poised : Poised Kind people id x behind l v) (last : Placed id t (·.unguarded ids) v z) :
    Poised Kind people id x behind l z :=
  poised_placed poised last fun s => audience_delivered first between last s ▸ assembled s

theorem hearing_apart (event : Event α) (p : SubscriberId × κ) (w : World α κ (Mirrors α)) :
    Apart id x (call p.1 p.2 event w).2 (hearing call event w p) := by
  unfold hearing Audience.deliverTo
  simp only [callListener]
  rcases call p.1 p.2 event w with ⟨fault | _, v⟩
  · exact apart_note _ v
  · exact apart_refl v

theorem deliverEvent_consists {n : Audience (Listener κ)} {ps : List (SubscriberId × κ)}
    (consists : n.Consists ps) (w : World α κ (Mirrors α)) (event : Event α) :
    Audience.deliverEvent (callListener call) n.subscribers w event =
      ps.foldl (hearing call event) w := by
  have roster : (n.subscribers.map fun s => (s.id, s.listener)).foldl (fun w p =>
      Audience.deliverTo (callListener call) event ⟨p.1, p.2, 1⟩ w) w =
      Audience.deliverEvent (callListener call) n.subscribers w event := List.foldl_map
  rw [← roster, consists.clients, List.foldl_map]
  rfl

theorem placed_back (guarded : Placed id t (·.guarded ids) w u) {z : World α κ (Mirrors α)}
    (placed : Placed id t (·) w z) : Placed id t (·.unguarded ids) u z where
  lists := placed.lists.trans guarded.lists.symm
  locks := placed.locks.trans guarded.locks.symm
  thread := placed.thread.trans guarded.thread.symm
  client := placed.client.trans guarded.client.symm
  here := by rw [placed.here, guarded.here, Audience.unguarded_guarded]
  others s differs := (placed.others s differs).trans (guarded.others s differs).symm

/-- Everyone hears of every event in order, and when all is delivered the guards are gone. -/
theorem raise_placed (call : Call α κ (Mirrors α)) (assembled : Assembled people id w) (t : Topic)
    (events : List (Event α)) :
    ∃ ids u, Placed id t (·.guarded ids) w u ∧ Placed id t (·.unguarded ids)
      (events.foldl (fun w event => (people t).foldl (hearing call event) w) u)
      (Audience.raise (channel (.list id) t) (callListener call) events w).2 := by
  have consists := assembled t
  have struck : Placed id t (·) w ((channel (.list id) t).modify Audience.struckOff w) := by
    have placed := placed_modify id t Audience.struckOff w
    exact { placed with here := placed.here.trans (Audience.struckOff_consists consists) }
  have each : Audience.deliverEvent (callListener call)
      ((channel (.list id) t).get w).subscribers = fun w event =>
        (people t).foldl (hearing call event) w :=
    funext fun w => funext (deliverEvent_consists consists w)
  obtain ⟨ids, named⟩ : ∃ ids, ids = ((channel (.list id) t).get w).subscribers.map (·.id) :=
    ⟨_, rfl⟩
  have guarded : Placed id t (·.guarded ids) w ((channel (.list id) t).modify (·.guarded ids)
      ((channel (.list id) t).modify Audience.struckOff w)) := by
    have placed := placed_modify id t (·.guarded ids)
      ((channel (.list id) t).modify Audience.struckOff w)
    exact ⟨placed.lists, placed.locks, placed.thread, placed.client,
      placed.here.trans (congrArg (·.guarded ids) struck.here),
      fun s differs => (placed.others s differs).trans (struck.others s differs)⟩
  refine ⟨ids, _, guarded, ?_⟩
  -- Without events or listeners no guards are put, which comes to the same.
  unfold Audience.raise
  split
  · rename_i nothing
    obtain rfl : events = [] := List.isEmpty_iff.mp nothing
    exact placed_back guarded ⟨rfl, rfl, rfl, rfl, rfl, fun _ _ => rfl⟩
  · simp only [struck.here]
    split
    · rename_i nobody
      have none : people t = [] := by
        have empty := consists.clients
        rw [List.isEmpty_iff.mp nobody] at empty
        exact List.map_eq_nil_iff.mp empty.symm
      have still (u : World α κ (Mirrors α)) : events.foldl (fun w event =>
          (people t).foldl (hearing call event) w) u = u := by
        rw [none]
        exact List.foldl_fixed' (fun _ => rfl) events
      rw [still]
      exact placed_back guarded struck
    · rw [← named, each]
      exact placed_modify id t (·.unguarded ids) _

end

def hearersWorld (first second : Bool) : World Value Bool (Mirrors Value) :=
  let w := (createList {} { client := fun _ => { copy := some [] } }).2
  let w := (w.subscribe (.list 1) .changes (.client first)).2
  (w.subscribe (.list 1) .changes (.client second)).2

def vacantList : UndoableList Value where
  context := 1
  lock := 1
  history := { maxDepth := History.unlimited }

def hearers (first second : Bool) : Topic → List (SubscriberId × Bool)
  | .changes => [(0, first), (1, second)]
  | .properties => []

theorem hearers_here (first second : Bool) :
    (hearersWorld first second).lists.get? 1 = some vacantList := rfl

theorem hearers_orderly (first second : Bool) : Orderly 1 (hearersWorld first second) := by
  have made : Orderly 1 (createList {} ({ client := fun _ => { copy := some [] } } :
      World Value Bool (Mirrors Value))).2 := .created {} rfl
  exact made.elsewhere rfl

theorem hearers_free (first second : Bool) :
    (hearersWorld first second).locks.Free (hearersWorld first second).thread 1 :=
  ⟨List.not_mem_nil, _, rfl, rfl, rfl⟩

theorem hearers_assembled (first second : Bool) :
    Assembled (hearers first second) 1 (hearersWorld first second) := by
  intro t
  cases t with
  | changes =>
    have present : ((channel (.list 1) .changes).get (hearersWorld first second)).subscribers =
        [⟨0, .client first, 1⟩, ⟨1, .client second, 1⟩] := rfl
    constructor <;> simp [present, hearers]
  | properties =>
    have present : ((channel (.list 1) .properties).get (hearersWorld first second)).subscribers =
        [] := rfl
    constructor <;> simp [present, hearers]

end World

end UndoableLists
