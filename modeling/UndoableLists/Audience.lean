import UndoableLists.Act
import UndoableLists.Journal

/-!
Delivery of events to subscribers. A subscriber lives as long as something guards it: the guard
its owner keeps, or a delivery under way that has to reach it. A delivery goes to the subscribers
alive at its start, event by event, and to each of them in the order of registration; a
subscriber that panics misses that one event. `κ` is what is known about a subscriber.
-/
namespace UndoableLists

abbrev SubscriberId := Nat

structure Subscriber (κ : Type) where
  id : SubscriberId
  listener : κ
  guards : Nat := 1

structure Audience (κ : Type) where
  subscribers : List (Subscriber κ) := []

namespace Audience
variable {κ σ ε δ : Type}

def subscribe (n : Audience κ) (id : SubscriberId) (listener : κ) : Audience κ :=
  ⟨n.subscribers ++ [⟨id, listener, 1⟩]⟩

/-- Registered subscribers, also those that are dead and not yet struck off. -/
def count (n : Audience κ) : Nat := n.subscribers.length

def struckOff (n : Audience κ) : Audience κ := ⟨n.subscribers.filter (·.guards ≠ 0)⟩

def guarded (n : Audience κ) (ids : List SubscriberId) : Audience κ :=
  ⟨n.subscribers.map fun s => if ids.contains s.id then { s with guards := s.guards + 1 } else s⟩

def unguarded (n : Audience κ) (ids : List SubscriberId) : Audience κ :=
  ⟨n.subscribers.map fun s => if ids.contains s.id then { s with guards := s.guards - 1 } else s⟩

abbrev Call (σ κ ε δ : Type) := SubscriberId → κ → ε → Act σ δ Unit

def deliverTo [Journal σ] (call : Call σ κ ε δ) (event : ε) (s : Subscriber κ) (state : σ) : σ :=
  match call s.id s.listener event state with
  | (.ok (), state) => state
  | (.error _, state) => Journal.note .subscriberPanicked state

def deliverEvent [Journal σ] (call : Call σ κ ε δ) (audience : List (Subscriber κ)) (state : σ)
    (event : ε) : σ :=
  audience.foldl (fun state s => deliverTo call event s state) state

/-- Delivers the events and answers how many subscribers were reached. -/
def raise [Journal σ] (place : Place σ (Audience κ)) (call : Call σ κ ε δ) (events : List ε)
    (state : σ) : Nat × σ :=
  if events.isEmpty then (0, state)
  else
    let state := place.modify struckOff state
    let audience := (place.get state).subscribers
    if audience.isEmpty then (0, state)
    else
      let ids := audience.map (·.id)
      let state := place.modify (·.guarded ids) state
      let state := events.foldl (deliverEvent call audience) state
      let state := place.modify (·.unguarded ids) state
      (audience.length, Journal.note .delivered state)

end Audience

end UndoableLists
