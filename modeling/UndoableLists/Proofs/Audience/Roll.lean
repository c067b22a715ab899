import Mathlib.Data.List.Nodup
import UndoableLists.Proofs.Mirrors.Delivery

/-!
Who belongs to an audience. Subscriptions are made and dropped; deliveries begin, hold on to whom
they have to reach and end, one inside the other. Main statements: whoever holds a subscription is
registered at every moment; a delivery that begins finds, in the order of registration, those who
hold a subscription and those whom a delivery around it still holds on to.
-/
namespace UndoableLists
namespace Audience

/-- A subscription is made, and dropped at some later time. -/
inductive Attendance (κ : Type) where
  | joined (id : SubscriberId) (listener : κ)
  | left (id : SubscriberId)

section
variable {κ : Type}

def everyone (past : List (Attendance κ)) : List (SubscriberId × κ) :=
  past.filterMap fun
    | .joined id listener => some (id, listener)
    | .left _ => none

def departed (past : List (Attendance κ)) : List SubscriberId :=
  past.filterMap fun
    | .joined .. => none
    | .left id => some id

def alive (past : List (Attendance κ)) : List (SubscriberId × κ) :=
  (everyone past).filter (·.1 ∉ departed past)

/-- Those who are alive or whom a delivery under way holds on to; `held` are the audiences of the
deliveries under way. -/
def attending (held : List (List SubscriberId)) (past : List (Attendance κ)) :
    List (SubscriberId × κ) :=
  (everyone past).filter fun p => p.1 ∉ departed past ∨ ∃ ids ∈ held, p.1 ∈ ids

def registered (n : Audience κ) : List (SubscriberId × κ) :=
  n.subscribers.map fun s => (s.id, s.listener)

def roundOf (n : Audience κ) : List SubscriberId := n.struckOff.subscribers.map (·.id)

/-- The audiences there can be, each with the subscriptions made and dropped so far and with the
deliveries under way, the innermost first. -/
inductive Life : List (Attendance κ) → List (List SubscriberId) → Audience κ → Prop
  | opened : Life [] [] {}
  | joined {past held n} (life : Life past held n) {id : SubscriberId}
    (new : id ∉ (everyone past).map (·.1)) (listener : κ) :
    Life (past ++ [.joined id listener]) held (n.subscribe id listener)
  | left {past held n} (life : Life past held n) {id : SubscriberId}
    (there : id ∈ (alive past).map (·.1)) : Life (past ++ [.left id]) held (n.unguarded [id])
  | begun {past held n} (life : Life past held n) :
    Life past (n.roundOf :: held) (n.struckOff.guarded n.roundOf)
  | ended {past held n} {ids : List SubscriberId} (life : Life past (ids :: held) n) :
    Life past held (n.unguarded ids)

/-- How the guards of an audience account for what happened. -/
structure Accounted (past : List (Attendance κ)) (held : List (List SubscriberId))
    (n : Audience κ) : Prop where
  distinct : ((everyone past).map (·.1)).Nodup
  gone : ∀ id ∈ departed past, id ∈ (everyone past).map (·.1)
  known : ∀ ids ∈ held, ∀ id ∈ ids, id ∈ (everyone past).map (·.1)
  order : n.registered.Sublist (everyone past)
  guards : ∀ s ∈ n.subscribers, s.guards =
    (if s.id ∈ departed past then 0 else 1) + held.countP (s.id ∈ ·)
  present : ∀ p ∈ attending held past, p ∈ n.registered

variable {past : List (Attendance κ)} {held : List (List SubscriberId)} {n : Audience κ}
  {id : SubscriberId} {listener : κ} {ids : List SubscriberId} {p : SubscriberId × κ}

theorem everyone_append (past since : List (Attendance κ)) :
    everyone (past ++ since) = everyone past ++ everyone since := List.filterMap_append

@[simp] theorem everyone_joined :
    everyone (past ++ [.joined id listener]) = everyone past ++ [(id, listener)] := by
  simp [everyone]

@[simp] theorem everyone_left : everyone (past ++ [.left id]) = everyone past := by
  simp [everyone]

@[simp] theorem departed_joined :
    departed (past ++ [.joined id listener]) = departed past := by
  simp [departed]

@[simp] theorem departed_left : departed (past ++ [.left id]) = departed past ++ [id] := by
  simp [departed]

@[simp] theorem mem_alive : p ∈ alive past ↔ p ∈ everyone past ∧ p.1 ∉ departed past := by
  simp [alive]

@[simp] theorem mem_attending : p ∈ attending held past ↔
    p ∈ everyone past ∧ (p.1 ∉ departed past ∨ ∃ ids ∈ held, p.1 ∈ ids) := by
  simp [attending]

theorem alive_sublist_attending (held : List (List SubscriberId)) (past : List (Attendance κ)) :
    (alive past).Sublist (attending held past) := by
  refine List.monotone_filter_right _ fun p here => ?_
  simp only [decide_eq_true_eq] at here ⊢
  exact .inl here

theorem attending_nobody_held : attending [] past = alive past := by simp [attending, alive]

@[simp] theorem registered_subscribe :
    (n.subscribe id listener).registered = n.registered ++ [(id, listener)] := by
  simp [registered, subscribe]

@[simp] theorem registered_guarded : (n.guarded ids).registered = n.registered := by
  simp only [registered, guarded, List.map_map]
  refine List.map_congr_left fun s _ => ?_
  rw [Function.comp_apply]
  split <;> rfl

@[simp] theorem registered_unguarded : (n.unguarded ids).registered = n.registered := by
  simp only [registered, unguarded, List.map_map]
  refine List.map_congr_left fun s _ => ?_
  rw [Function.comp_apply]
  split <;> rfl

theorem roundOf_eq : n.roundOf = n.struckOff.registered.map (·.1) := by
  simp [roundOf, registered]

theorem filter_of_sublist {α : Type} {part all : List α} {q : α → Bool} (sub : part.Sublist all)
    (distinct : all.Nodup) (present : ∀ x ∈ all.filter q, x ∈ part) :
    part.filter q = all.filter q := by
  refine (sub.filter q).eq_of_length_le (List.Subperm.length_le ?_)
  refine List.subperm_of_subset (distinct.filter q) fun x member => ?_
  exact List.mem_filter.mpr ⟨present x member, (List.mem_filter.mp member).2⟩

theorem registered_struckOff (sound : Accounted past held n) :
    n.struckOff.registered = attending held past := by
  have guarded : ∀ s ∈ n.subscribers, decide (s.guards ≠ 0) =
      decide (s.id ∉ departed past ∨ ∃ ids ∈ held, s.id ∈ ids) := by
    intro s member
    refine decide_eq_decide.mpr ?_
    rw [sound.guards s member, ne_eq, Nat.add_eq_zero_iff, List.countP_eq_zero, not_and_or]
    split <;> simp_all
  have kept : n.struckOff.registered =
      n.registered.filter fun p => p.1 ∉ departed past ∨ ∃ ids ∈ held, p.1 ∈ ids := by
    rw [registered, registered, struckOff, List.filter_map, List.filter_congr guarded]
    rfl
  rw [kept]
  exact filter_of_sublist sound.order (.of_map _ sound.distinct) sound.present

theorem accounted_opened : Accounted ([] : List (Attendance κ)) [] {} where
  distinct := .nil
  gone := by simp [departed]
  known := by simp
  order := .slnil
  guards := by simp
  present := by simp [everyone]

theorem accounted_joined (sound : Accounted past held n)
    (new : id ∉ (everyone past).map (·.1)) (listener : κ) :
    Accounted (past ++ [.joined id listener]) held (n.subscribe id listener) where
  distinct := by
    rw [everyone_joined, List.map_append]
    exact List.nodup_append.mpr ⟨sound.distinct, List.nodup_singleton _, by
      rintro a member b here rfl
      obtain rfl := List.mem_singleton.mp here
      exact new member⟩
  gone x member := by
    rw [departed_joined] at member
    rw [everyone_joined, List.map_append]
    exact List.mem_append_left _ (sound.gone x member)
  known ids member x inside := by
    rw [everyone_joined, List.map_append]
    exact List.mem_append_left _ (sound.known ids member x inside)
  order := by
    rw [registered_subscribe, everyone_joined]
    exact sound.order.append (.refl _)
  guards s member := by
    rw [departed_joined]
    rcases List.mem_append.mp member with old | added
    · exact sound.guards s old
    · obtain rfl := List.mem_singleton.mp added
      have staying : id ∉ departed past := fun gone => new (sound.gone id gone)
      have unheld : held.countP (id ∈ ·) = 0 :=
        List.countP_eq_zero.mpr fun ids member inside =>
          new (sound.known ids member id (by simpa using inside))
      rw [if_neg staying, unheld]
  present q member := by
    rw [mem_attending, everyone_joined, departed_joined, List.mem_append] at member
    rw [registered_subscribe, List.mem_append]
    exact member.1.imp_left fun old => sound.present q (mem_attending.mpr ⟨old, member.2⟩)

theorem accounted_left (sound : Accounted past held n) (there : id ∈ (alive past).map (·.1)) :
    Accounted (past ++ [.left id]) held (n.unguarded [id]) where
  distinct := by
    rw [everyone_left]
    exact sound.distinct
  gone x member := by
    rw [everyone_left]
    rw [departed_left, List.mem_append, List.mem_singleton] at member
    rcases member with gone | rfl
    · exact sound.gone x gone
    · obtain ⟨p, here, rfl⟩ := List.mem_map.mp there
      exact List.mem_map_of_mem (mem_alive.mp here).1
  known := by
    rw [everyone_left]
    exact sound.known
  order := by
    rw [registered_unguarded, everyone_left]
    exact sound.order
  guards s member := by
    obtain ⟨p, here, rfl⟩ := List.mem_map.mp there
    obtain ⟨s, old, rfl⟩ := List.mem_map.mp member
    rw [departed_left]
    by_cases named : s.id = p.1
    · have staying : p.1 ∉ departed past := (mem_alive.mp here).2
      simp [named, sound.guards s old, staying]
    · simp [named, sound.guards s old]
  present q member := by
    rw [mem_attending, everyone_left, departed_left] at member
    rw [registered_unguarded]
    refine sound.present q (mem_attending.mpr ⟨member.1, member.2.imp_left fun staying => ?_⟩)
    exact fun gone => staying (List.mem_append_left _ gone)

theorem accounted_begun (sound : Accounted past held n) :
    Accounted past (n.roundOf :: held) (n.struckOff.guarded n.roundOf) where
  distinct := sound.distinct
  gone := sound.gone
  known := by
    rintro ids (_ | ⟨_, member⟩) x inside
    · rw [roundOf_eq, registered_struckOff sound] at inside
      obtain ⟨p, attends, rfl⟩ := List.mem_map.mp inside
      exact List.mem_map_of_mem (mem_attending.mp attends).1
    · exact sound.known ids member x inside
  order := by
    rw [registered_guarded, registered_struckOff sound]
    exact List.filter_sublist
  guards s member := by
    obtain ⟨s, inside, rfl⟩ := List.mem_map.mp member
    have named : s.id ∈ n.roundOf := List.mem_map_of_mem inside
    have before := sound.guards s (List.mem_of_mem_filter inside)
    rw [if_pos (List.contains_iff_mem.mpr named)]
    simp only [List.countP_cons, named, decide_true, if_true]
    omega
  present q member := by
    rw [registered_guarded, registered_struckOff sound]
    obtain ⟨known, staying | ⟨ids, _ | ⟨_, among⟩, inside⟩⟩ := mem_attending.mp member
    · exact mem_attending.mpr ⟨known, .inl staying⟩
    -- whom the delivery holds on to attended when it began
    · rw [roundOf_eq, registered_struckOff sound] at inside
      obtain ⟨p, attends, same⟩ := List.mem_map.mp inside
      rwa [List.inj_on_of_nodup_map sound.distinct known (mem_attending.mp attends).1 same.symm]
    · exact mem_attending.mpr ⟨known, .inr ⟨ids, among, inside⟩⟩

theorem accounted_ended (sound : Accounted past (ids :: held) n) :
    Accounted past held (n.unguarded ids) where
  distinct := sound.distinct
  gone := sound.gone
  known others member := sound.known others (List.mem_cons_of_mem _ member)
  order := by
    rw [registered_unguarded]
    exact sound.order
  guards s member := by
    obtain ⟨s, there, rfl⟩ := List.mem_map.mp member
    have before := sound.guards s there
    rw [List.countP_cons] at before
    by_cases named : s.id ∈ ids
    · simp [named] at before ⊢
      omega
    · simpa [named] using before
  present q member := by
    rw [registered_unguarded]
    obtain ⟨known, why⟩ := mem_attending.mp member
    refine sound.present q (mem_attending.mpr ⟨known, why.imp_right ?_⟩)
    rintro ⟨others, among, inside⟩
    exact ⟨others, List.mem_cons_of_mem _ among, inside⟩

theorem accounted_of_life (life : Life past held n) : Accounted past held n := by
  induction life with
  | opened => exact accounted_opened
  | joined _ new listener sound => exact accounted_joined sound new listener
  | left _ there sound => exact accounted_left sound there
  | begun _ sound => exact accounted_begun sound
  | ended _ sound => exact accounted_ended sound

theorem alive_registered (life : Life past held n) : (alive past).Sublist n.registered := by
  have sound := accounted_of_life life
  refine (alive_sublist_attending held past).trans ?_
  rw [← registered_struckOff sound]
  exact List.filter_sublist.map _

theorem life_struckOff (life : Life past held n) : Life past held n.struckOff := by
  have after := life.begun.ended
  rwa [unguarded_guarded] at after

end
end Audience
end UndoableLists
