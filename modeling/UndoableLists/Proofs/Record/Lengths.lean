import UndoableLists.Record

/-!
Lengths as a check counts them. A check knows only the length of a store, and of the positions at
which several items are taken out it looks at the last. Main statement: a record whose positions
ascend is never checked into an overflow, as long as all its items could be counted on top of those
that are there.
-/
namespace UndoableLists.Record
variable {α ε : Type} {limit : Option Nat}

mutual

/-- Where several items are taken out, their positions ascend and there is an item for each. -/
def Regular : Record α ε → Prop
  | .removeMany indices items => indices.Pairwise (· < ·) ∧ indices.length = items.length
  | .composite children => RegularAll children
  | _ => True

def RegularAll : List (Record α ε) → Prop
  | [] => True
  | child :: rest => Regular child ∧ RegularAll rest

end

mutual

def size : Record α ε → Nat
  | .add _ _ => 1
  | .remove _ _ => 1
  | .addMany _ items => items.length
  | .removeMany _ items => items.length
  | .clear items => items.length
  | .composite children => sizeOfAll children
  | _ => 0

def sizeOfAll : List (Record α ε) → Nat
  | [] => 0
  | child :: rest => size child + sizeOfAll rest

end

theorem room_of_ascending {index length : Nat} {rest : List Nat}
    (ascending : (index :: rest).Pairwise (· < ·)) (inside : ∀ i ∈ index :: rest, i < length) :
    index + rest.length < length := by
  induction rest generalizing index with
  | nil => exact inside index List.mem_cons_self
  | cons next rest ih =>
    have room := ih ascending.of_cons fun i member => inside i (List.mem_cons_of_mem _ member)
    have before := List.rel_of_pairwise_cons ascending List.mem_cons_self
    rw [List.length_cons]
    omega

theorem inside_of_last {indices : List Nat} {last length : Nat}
    (ascending : indices.Pairwise (· < ·)) (final : indices.getLast? = some last)
    (inside : last < length) : ∀ i ∈ indices, i < length := by
  induction indices with
  | nil => simp
  | cons index rest ih =>
    cases rest with
    | nil =>
      obtain rfl : index = last := by simpa using final
      simpa using inside
    | cons next rest =>
      have others := ih ascending.of_cons (by simpa using final)
      have before := List.rel_of_pairwise_cons ascending List.mem_cons_self
      have here := others next List.mem_cons_self
      exact List.forall_mem_cons.mpr ⟨by omega, others⟩

theorem length_le_of_ascending {indices : List Nat} {length : Nat}
    (ascending : indices.Pairwise (· < ·)) (inside : ∀ i ∈ indices, i < length) :
    indices.length ≤ length := by
  cases indices with
  | nil => exact Nat.zero_le _
  | cons index rest =>
    have := room_of_ascending ascending inside
    rw [List.length_cons]
    omega

/-- The length is below the limit, if there is one. -/
def Within (limit : Option Nat) (length : Nat) : Prop := ∀ excess ∈ limit, length < excess

theorem within_mono {n m : Nat} (within : Within limit m) (le : n ≤ m) : Within limit n :=
  fun excess given => Nat.lt_of_le_of_lt le (within excess given)

theorem longer_within {length count : Nat} (within : Within limit (length + count)) :
    longer limit length count = .ok (length + count) := by
  cases limit with
  | none => rfl
  | some excess => simp [longer, within excess rfl]

/-- A result for which `P` holds, or a refusal; any other failure would break off the caller. -/
inductive Settles {β : Type} (P : β → Prop) : Outcome ListRefusal β → Prop
  | done {b : β} (holds : P b) : Settles P (.ok b)
  | refused (cause : ListRefusal) : Settles P (.error (.refused cause))

theorem settles_bind {β γ : Type} {P : β → Prop} {Q : γ → Prop} {first : Outcome ListRefusal β}
    {next : β → Outcome ListRefusal γ} (begun : Settles P first)
    (goes : ∀ b, P b → Settles Q (next b)) : Settles Q (first >>= next) := by
  cases begun with
  | done holds => exact goes _ holds
  | refused cause => exact .refused cause

theorem settles_mono {β : Type} {P Q : β → Prop} {outcome : Outcome ListRefusal β}
    (settles : Settles P outcome) (weaker : ∀ b, P b → Q b) : Settles Q outcome := by
  cases settles with
  | done holds => exact .done (weaker _ holds)
  | refused cause => exact .refused cause

theorem slot_settles (index length : Nat) :
    Settles (fun _ => index ≤ length) (slot index length) := by
  unfold slot
  split
  · exact .done ‹_›
  · exact .refused _

theorem member_settles (index length : Nat) :
    Settles (fun _ => index < length) (member index length) := by
  unfold member
  split
  · exact .done ‹_›
  · exact .refused _

theorem longer_settles {length count : Nat} (within : Within limit (length + count)) :
    Settles (· ≤ length + count) (longer limit length count) := by
  rw [longer_within within]
  exact .done (Nat.le_refl _)

theorem shorter_settles {length count most : Nat} (enough : count ≤ length) (few : length ≤ most) :
    Settles (· ≤ most) (shorter length count) := by
  rw [shorter, if_pos enough]
  exact .done (by omega)

theorem slots_settles {indices : List Nat} {length : Nat}
    (within : Within limit (length + indices.length)) :
    Settles (· ≤ length + indices.length) (slots limit indices length) := by
  induction indices generalizing length with
  | nil => exact .done (Nat.le_refl _)
  | cons index rest ih =>
    rw [List.length_cons] at within ⊢
    have one : longer limit length 1 = .ok (length + 1) :=
      longer_within (within_mono within (by omega))
    have others : Settles (· ≤ length + 1 + rest.length) (slots limit rest (length + 1)) :=
      ih (within_mono within (by omega))
    rw [Nat.add_assoc, Nat.add_comm 1] at others
    rw [slots, one]
    exact settles_bind (slot_settles index length) fun _ _ => others

mutual

/-- A check ends in a length or in a refusal, as long as there is room for all items of the record;
each child is checked on a length to which those before it have added their items at the most. -/
theorem check_settles (record : Record α ε) (direction : Direction) (length : Nat)
    (regular : record.Regular) (within : Within limit (length + record.size)) :
    Settles (· ≤ length + record.size) (record.check limit direction length) := by
  match record, direction with
  | .add index item, .forward =>
    exact settles_bind (slot_settles index length) fun _ _ => longer_settles within
  | .remove index item, .backward =>
    exact settles_bind (slot_settles index length) fun _ _ => longer_settles within
  | .addMany index items, .forward =>
    exact settles_bind (slot_settles index length) fun _ _ => longer_settles within
  | .add index item, .backward =>
    exact settles_bind (member_settles index length) fun _ inside =>
      shorter_settles (by omega) (Nat.le_add_right ..)
  | .remove index item, .forward =>
    exact settles_bind (member_settles index length) fun _ inside =>
      shorter_settles (by omega) (Nat.le_add_right ..)
  | .addMany index items, .backward =>
    rw [check]
    split
    · exact .done (by omega)
    · exact .refused _
  | .removeMany indices items, .forward =>
    rw [check]
    split
    · exact .done (Nat.le_add_right ..)
    · rename_i last final
      exact settles_bind (member_settles last length) fun _ inside =>
        shorter_settles (length_le_of_ascending regular.1 (inside_of_last regular.1 final inside))
          (Nat.le_add_right ..)
  | .removeMany indices items, .backward =>
    rw [size, ← regular.2] at within ⊢
    exact slots_settles within
  | .clear items, .forward =>
    rw [check]
    split
    · exact .done (Nat.zero_le _)
    · exact .refused _
  | .clear items, .backward =>
    rw [check]
    split
    · exact .done (Nat.le_add_left ..)
    · exact .refused _
  | .changeAt index old new, direction =>
    rw [check]
    exact settles_bind (member_settles index length) fun _ _ => .done (Nat.le_add_right ..)
  | .composite children, direction =>
    rw [check]
    exact checkAll_settles children direction length regular within
  | .itemEdit edit, direction =>
    rw [check]
    exact .done (Nat.le_add_right ..)

theorem checkAll_settles (records : List (Record α ε)) (direction : Direction) (length : Nat)
    (regular : RegularAll records) (within : Within limit (length + sizeOfAll records)) :
    Settles (· ≤ length + sizeOfAll records) (checkAll limit records direction length) := by
  match records, direction with
  | [], direction =>
    rw [checkAll]
    exact .done (Nat.le_add_right ..)
  | child :: rest, .forward =>
    rw [sizeOfAll] at within ⊢
    rw [checkAll]
    refine settles_bind (check_settles child .forward length regular.1
      (within_mono within (by omega))) fun k few => ?_
    exact settles_mono (checkAll_settles rest .forward k regular.2 (within_mono within (by omega)))
      fun m (least : m ≤ k + sizeOfAll rest) => by omega
  | child :: rest, .backward =>
    rw [sizeOfAll] at within ⊢
    rw [checkAll]
    refine settles_bind (checkAll_settles rest .backward length regular.2
      (within_mono within (by omega))) fun k few => ?_
    exact settles_mono (check_settles child .backward k regular.1 (within_mono within (by omega)))
      fun m (least : m ≤ k + child.size) => by omega

end

theorem least_of_settles {most m : Nat} {outcome : Outcome ListRefusal Nat}
    (settles : Settles (· ≤ most) outcome) (passed : outcome = .ok m) : m ≤ most := by
  subst passed
  cases settles with
  | done least => exact least

end UndoableLists.Record
