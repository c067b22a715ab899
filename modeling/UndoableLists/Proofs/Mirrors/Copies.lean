import Mathlib.Logic.Function.Basic
import UndoableLists.Proofs.Orderly
import UndoableLists.Proofs.Views.Reading

/-!
Subscribers that keep a copy of a list. Such a subscriber writes down each change that it hears of
and makes it on its copy as it arrives; at a reset it reads the list anew. Main statements: where
the list can be read, the subscriber hears the change and answers a reset with the contents of that
moment; and what one subscriber hears is nothing to another one's copy.
-/
namespace UndoableLists

/-- What a subscriber has heard of a list, and its copy of the contents. A change that points
outside the copy leaves none, for good. -/
structure Mirror (α : Type) where
  heard : List (Change α) := []
  copy : Option (List α) := none

def Mirror.hears {α : Type} (m : Mirror α) (change : Change α) (fresh : List α) : Mirror α :=
  ⟨m.heard ++ [change], m.copy.bind fun copy => change.replay? fresh copy⟩

abbrev Mirrors (α : Type) := SubscriberId → Mirror α

instance {α : Type} : Diary (Mirrors α) where
  note _ mirrors := mirrors
  replayed _ _ _ mirrors := mirrors

namespace World
variable {α κ : Type}

def reread {δ : Type} [Diary δ] (id : ListId) : Change α → Work α κ δ (List α)
  | .reset => contents id
  | _ => return []

def mirroring (id : ListId) : Call α κ (Mirrors α) := fun s _ event =>
  match event with
  | .property _ => return ()
  | .collection change => do
    let fresh ← reread id change
    Act.modify fun w =>
      { w with client := Function.update w.client s ((w.client s).hears change fresh) }

/-- The list and its audiences are the same, and locks that were free are free. -/
structure Beside (id : ListId) (w v : World α κ (Mirrors α)) : Prop where
  list : v.lists.get? id = w.lists.get? id
  free : ∀ lock, w.locks.Free w.thread lock → v.locks.Free v.thread lock
  audience : ∀ t, (channel (.list id) t).get v = (channel (.list id) t).get w

structure Apart (id : ListId) (x : SubscriberId) (w v : World α κ (Mirrors α)) : Prop
    extends Beside id w v where
  mirror : v.client x = w.client x

section
variable {id : ListId} {x s : SubscriberId} {u v w : World α κ (Mirrors α)} {l : UndoableList α}

theorem beside_trans (first : Beside id w u) (second : Beside id u v) : Beside id w v where
  list := second.list.trans first.list
  free lock free := second.free lock (first.free lock free)
  audience t := (second.audience t).trans (first.audience t)

theorem apart_refl (w : World α κ (Mirrors α)) : Apart id x w w :=
  ⟨⟨rfl, fun _ free => free, fun _ => rfl⟩, rfl⟩

theorem apart_trans (first : Apart id x w u) (second : Apart id x u v) : Apart id x w v :=
  ⟨beside_trans first.toBeside second.toBeside, second.mirror.trans first.mirror⟩

def channelsAndClient (w : World α κ (Mirrors α)) : Table Handle (Channels κ) × Mirrors α :=
  (w.channels, w.client)

theorem listFree_channelsAndClient : ListFree (channelsAndClient : World α κ (Mirrors α) → _) :=
  ⟨fun _ _ _ => rfl, fun _ _ _ => rfl, fun _ _ => rfl, fun _ _ => rfl, fun _ _ _ _ => rfl⟩

theorem audience_of_channelsAndClient (same : channelsAndClient v = channelsAndClient w)
    (h : Handle) (t : Topic) : (channel h t).get v = (channel h t).get w :=
  congrArg (fun channels => ((channels.get? h).getD {}).on t)
    (congrArg Prod.fst same : v.channels = w.channels)

theorem client_of_channelsAndClient (same : channelsAndClient v = channelsAndClient w) :
    v.client = w.client := congrArg Prod.snd same

theorem apart_aside (aside : Aside [] w v) (same : channelsAndClient v = channelsAndClient w) :
    Apart id x w v where
  list := by rw [aside.lists]
  free _ free := free_aside aside free
  audience := audience_of_channelsAndClient same (.list id)
  mirror := congrFun (client_of_channelsAndClient same) x

theorem apart_note (n : Notice) (w : World α κ (Mirrors α)) : Apart id x w (Journal.note n w) :=
  apart_aside (aside_note n w) rfl

theorem apart_kept (differs : s ≠ x) (mirror : Mirror α) (w : World α κ (Mirrors α)) :
    Apart id x w { w with client := Function.update w.client s mirror } :=
  ⟨⟨rfl, fun _ free => free, fun _ => rfl⟩, Function.update_of_ne (Ne.symm differs) ..⟩

theorem reread_apart (id : ListId) (change : Change α) (w : World α κ (Mirrors α)) :
    Aside [] w (reread id change w).2 ∧
      channelsAndClient (reread id change w).2 = channelsAndClient w := by
  cases change with
  | reset =>
    have unseen : Unseen channelsAndClient (contents id : Work α κ (Mirrors α) (List α)) :=
      unseen_withList id fun _ =>
        unseen_holding listFree_channelsAndClient (unseen_withList id fun _ => unseen_pure _)
    exact ⟨(reads_contents id w).toAside, unseen w⟩
  | _ => exact ⟨aside_refl w, rfl⟩

theorem apart_mirroring (differs : s ≠ x) (k : κ) (event : Event α) (w : World α κ (Mirrors α)) :
    Apart id x w (mirroring id s k event w).2 := by
  cases event with
  | property property => exact apart_refl w
  | collection change =>
    obtain ⟨aside, same⟩ := reread_apart id change w
    simp only [mirroring, Act.bind_apply]
    rcases outcome : reread id change w with ⟨fault | fresh, v⟩
    all_goals rw [outcome] at aside same
    · exact apart_aside aside same
    · exact apart_trans (apart_aside aside same) (apart_kept differs _ v)

theorem mirroring_hears (here : w.lists.get? id = some l) (free : w.locks.Free w.thread l.lock)
    (k : κ) (change : Change α) :
    ∃ v, mirroring id x k (.collection change) w = (.ok (), v) ∧ Beside id w v ∧
      v.client x = (w.client x).hears change l.contents := by
  obtain ⟨aside, same⟩ := reread_apart id change w
  have fresh : ∃ fresh, (reread id change w).1 = .ok fresh ∧
      ∀ m : Mirror α, m.hears change fresh = m.hears change l.contents := by
    cases change with
    | reset => exact ⟨l.contents, contents_of_free here free, fun _ => rfl⟩
    | _ => exact ⟨[], rfl, fun _ => rfl⟩
  obtain ⟨fresh, read, heard⟩ := fresh
  rcases outcome : reread id change w with ⟨r, v⟩
  rw [outcome] at aside same read
  obtain rfl : r = .ok fresh := read
  have kept : Apart id x w v := apart_aside aside same
  refine ⟨{ v with client := Function.update v.client x ((v.client x).hears change fresh) }, ?_,
    ⟨kept.list, kept.free, kept.audience⟩, ?_⟩
  · exact Act.bind_of_ok outcome _
  · refine (Function.update_self ..).trans ?_
    rw [heard, kept.mirror]

end

end World

end UndoableLists
