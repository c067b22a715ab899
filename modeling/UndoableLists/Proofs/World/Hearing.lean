import UndoableLists.Proofs.World.Sections

/-!
What subscribers hear. Main statement: where all subscribers of a list are clients that only listen,
a bulletin reaches them as one batch: each of its changes in order, then each of its properties, and
each of them once for every subscriber.
-/
namespace UndoableLists.World
variable {α κ δ : Type}

def alive (w : World α κ δ) (id : ListId) (t : Topic) : List (Subscriber (Listener κ)) :=
  ((channel (.list id) t).get w).struckOff.subscribers

def batch (w : World α κ δ) (id : ListId) (b : Bulletin α) : List (SubscriberId × Event α) :=
  (b.changes.map .collection).flatMap (fun e => (w.alive id .changes).map fun s => (s.id, e)) ++
    (b.properties.map .property).flatMap fun e => (w.alive id .properties).map fun s => (s.id, e)

structure Heard (heard : World α κ δ → List (SubscriberId × Event α)) (id : ListId) (t : Topic)
    (w v : World α κ δ) (more : List (SubscriberId × Event α)) : Prop where
  log : heard v = heard w ++ more
  others : ∀ u, u ≠ t → (channel (.list id) u).get v = (channel (.list id) u).get w

structure Listening [Diary δ] (call : Call α κ δ) (id : ListId)
    (heard : World α κ δ → List (SubscriberId × Event α)) : Prop where
  called : ∀ s k e t w, Heard heard id t w (call s k e w).2 [(s, e)]
  channels : ∀ t n w, heard ((channel (.list id) t).set n w) = heard w
  noted : ∀ n w, heard (Journal.note n w) = heard w

section
variable {call : Call α κ δ} {id : ListId} {t : Topic}
  {heard : World α κ δ → List (SubscriberId × Event α)} {u v w : World α κ δ}
  {more further : List (SubscriberId × Event α)}

theorem heard_trans (first : Heard heard id t w u more) (second : Heard heard id t u v further) :
    Heard heard id t w v (more ++ further) where
  log := by rw [second.log, first.log, List.append_assoc]
  others s differs := (second.others s differs).trans (first.others s differs)

theorem heard_foldl {ν : Type} {f : World α κ δ → ν → World α κ δ}
    {more : ν → List (SubscriberId × Event α)} {xs : List ν}
    (each : ∀ x ∈ xs, ∀ w, Heard heard id t w (f w x) (more x)) (w : World α κ δ) :
    Heard heard id t w (xs.foldl f w) (xs.flatMap more) := by
  induction xs generalizing w with
  | nil => exact ⟨(List.append_nil _).symm, fun _ _ => rfl⟩
  | cons x rest ih =>
    rw [List.foldl_cons, List.flatMap_cons]
    exact heard_trans (each x List.mem_cons_self w)
      (ih (fun y member => each y (List.mem_cons_of_mem _ member)) (f w x))

theorem channel_set (h : Handle) (t u : Topic) (n : Audience (Listener κ)) (w : World α κ δ) :
    (channel h u).get ((channel h t).set n w) = if u = t then n else (channel h u).get w := by
  simp only [channel, Table.get?_insert_self, Option.getD_some]
  cases t <;> cases u <;> rfl

variable [Diary δ]

theorem heard_note (listening : Listening call id heard) (n : Notice) (w : World α κ δ) :
    Heard heard id t w (Journal.note n w) [] :=
  ⟨(listening.noted n w).trans (List.append_nil _).symm, fun _ _ => rfl⟩

theorem heard_placed (listening : Listening call id heard)
    (f : Audience (Listener κ) → Audience (Listener κ)) (w : World α κ δ) :
    Heard heard id t w ((channel (.list id) t).modify f w) [] :=
  ⟨(listening.channels ..).trans (List.append_nil _).symm,
    fun _ differs => (channel_set ..).trans (if_neg differs)⟩

theorem heard_delivered (listening : Listening call id heard) {s : Subscriber (Listener κ)}
    (client : ∃ k, s.listener = .client k) (e : Event α) (w : World α κ δ) :
    Heard heard id t w (Audience.deliverTo (callListener call) e s w) [(s.id, e)] := by
  obtain ⟨k, listens⟩ := client
  have called := listening.called s.id k e t w
  simp only [Audience.deliverTo, callListener, listens]
  rcases outcome : call s.id k e w with ⟨fault | _, v⟩
  all_goals rw [outcome] at called
  · exact heard_trans called (heard_note listening _ v)
  · exact called

theorem heard_raised (listening : Listening call id heard)
    (clients : ∀ s ∈ w.alive id t, ∃ k, s.listener = .client k) (events : List (Event α)) :
    Heard heard id t w (Audience.raise (channel (.list id) t) (callListener call) events w).2
      (events.flatMap fun e => (w.alive id t).map fun s => (s.id, e)) := by
  have struck : Heard heard id t w _ [] := heard_placed listening Audience.struckOff w
  have reached : ((channel (.list id) t).get
      ((channel (.list id) t).modify Audience.struckOff w)).subscribers = w.alive id t :=
    congrArg Audience.subscribers ((channel_set ..).trans (if_pos rfl))
  have told (u : World α κ δ) : Heard heard id t u
      (events.foldl (Audience.deliverEvent (callListener call) (w.alive id t)) u)
      (events.flatMap fun e => (w.alive id t).map fun s => (s.id, e)) := by
    refine heard_foldl (fun e _ u => ?_) u
    rw [List.map_eq_flatMap]
    exact heard_foldl (fun s member u => heard_delivered listening (clients s member) e u) u
  unfold Audience.raise
  split
  · rename_i nothing
    obtain rfl : events = [] := List.isEmpty_iff.mp nothing
    exact told w
  · simp only [reached]
    split
    · rename_i nobody
      have silence : w.alive id t = [] := List.isEmpty_iff.mp nobody
      have nothing : (events.flatMap fun _ => []) = ([] : List (SubscriberId × Event α)) := by simp
      rw [silence]
      exact nothing ▸ struck
    · have guarded := heard_trans struck (heard_placed listening
        (·.guarded ((w.alive id t).map (·.id))) _)
      have unguarded := heard_trans (heard_trans guarded (told _)) (heard_placed listening
        (·.unguarded ((w.alive id t).map (·.id))) _)
      simpa only [List.nil_append, List.append_nil] using
        heard_trans unguarded (heard_note listening .delivered _)

theorem heard_announced (listening : Listening call id heard)
    (clients : ∀ t, ∀ s ∈ w.alive id t, ∃ k, s.listener = .client k) (b : Bulletin α) :
    heard (announce call id b w) = heard w ++ w.batch id b := by
  have changes := heard_raised listening (clients .changes) (b.changes.map .collection)
  have same := changes.others .properties (by simp)
  have still : alive _ id .properties = w.alive id .properties :=
    congrArg (fun n => n.struckOff.subscribers) same
  have properties := heard_raised listening (still ▸ clients .properties)
    (b.properties.map .property)
  rw [announce, properties.log, changes.log, still, batch, List.append_assoc]

end

end UndoableLists.World
