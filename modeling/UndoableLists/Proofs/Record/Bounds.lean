import UndoableLists.Proofs.Record.Accesses
import UndoableLists.Proofs.Record.Lengths

/-!
What a passed check is good for. Main statement: where the check of a record whose positions ascend
foretells a length, the application stays inside the store with every access, overflows at no
position and leaves a store of that length.
-/
namespace UndoableLists.Record
open StoreEdit Store
variable {α ε : Type} {limit : Option Nat}

mutual

def sums : Record α ε → Direction → List Nat
  | .addMany index items, _ => (List.range items.length).map (index + ·)
  | .removeMany indices _, _ => indices.dropLast.map (· + 1)
  | .clear items, .backward => (List.range items.length).map (0 + ·)
  | .composite children, direction => sumsOfAll children direction
  | _, _ => []

def sumsOfAll : List (Record α ε) → Direction → List Nat
  | [], _ => []
  | child :: rest, direction => sums child direction ++ sumsOfAll rest direction

end

mutual

theorem itemized_of_regular (record : Record α ε) (regular : record.Regular) :
    record.Itemized := by
  match record with
  | .removeMany indices items => exact Nat.le_of_eq regular.2
  | .composite children => exact itemizedAll_of_regularAll children regular
  | .add .. | .addMany .. | .remove .. | .clear .. | .changeAt .. | .itemEdit .. => trivial

theorem itemizedAll_of_regularAll (records : List (Record α ε)) (regular : RegularAll records) :
    ItemizedAll records := by
  match records with
  | [] => trivial
  | child :: rest =>
    exact ⟨itemized_of_regular child regular.1, itemizedAll_of_regularAll rest regular.2⟩

end

theorem fits_removals {indices : List Nat} {length : Nat} (ascending : indices.Pairwise (· < ·))
    (inside : ∀ i ∈ indices, i < length) :
    Fits ((indices.map .remove).reverse : List (StoreEdit α)) length
      (length - indices.length) := by
  induction indices with
  | nil => exact rfl
  | cons index rest ih =>
    have room := room_of_ascending ascending inside
    rw [List.map_cons, List.reverse_cons]
    refine fits_append
      (ih ascending.of_cons fun i member => inside i (List.mem_cons_of_mem _ member))
      ⟨?_, ?_⟩
    · show index < length - rest.length
      omega
    · show length - rest.length - 1 = length - (index :: rest).length
      rw [List.length_cons]
      omega

theorem fits_run {index count length : Nat} (inside : index + count ≤ length) :
    Fits (((List.range count).map fun offset => .remove (index + offset)).reverse :
      List (StoreEdit α)) length (length - count) := by
  have taken : Fits (((List.range' index count).map .remove).reverse : List (StoreEdit α)) length
      (length - (List.range' index count).length) :=
    fits_removals List.pairwise_lt_range' fun i member => by
      have := (List.mem_range'_1.mp member).2
      omega
  rwa [List.length_range', List.range'_eq_map_range, List.map_map] at taken

theorem of_slot_ok {index length : Nat} (passed : slot index length = .ok ()) : index ≤ length := by
  unfold slot at passed
  split at passed
  · assumption
  · cases passed

theorem of_member_ok {index length : Nat} (passed : member index length = .ok ()) :
    index < length := by
  unfold member at passed
  split at passed
  · assumption
  · cases passed

theorem of_longer_ok {length count m : Nat} (passed : longer limit length count = .ok m) :
    length + count = m := by
  unfold longer at passed
  split at passed
  · exact Except.ok.inj passed
  · cases passed

theorem of_shorter_ok {length count m : Nat} (passed : shorter length count = .ok m) :
    length - count = m := by
  unfold shorter at passed
  split at passed
  · exact Except.ok.inj passed
  · cases passed

theorem fits_slots {indices : List Nat} {items : List α} {length m : Nat}
    (lengths : indices.length = items.length) (passed : slots limit indices length = .ok m) :
    Fits ((indices.zip items).map fun p => .insert p.1 p.2) length m := by
  induction indices generalizing items length with
  | nil => exact Except.ok.inj passed
  | cons index rest ih =>
    cases items with
    | nil => cases lengths
    | cons item items =>
      obtain ⟨⟨⟩, here, passed⟩ := of_bind_ok passed
      obtain ⟨k, grown, others⟩ := of_bind_ok passed
      obtain rfl := of_longer_ok grown
      exact ⟨of_slot_ok here, ih (Nat.succ.inj lengths) others⟩

theorem fits_put {index length m : Nat} {item : α}
    (passed : (do slot index length; longer limit length 1) = .ok m) :
    Fits [.insert index item] length m := by
  obtain ⟨⟨⟩, here, grown⟩ := of_bind_ok passed
  exact ⟨of_slot_ok here, of_longer_ok grown⟩

theorem fits_drop {index length m : Nat}
    (passed : (do member index length; shorter length 1) = .ok m) :
    Fits [(.remove index : StoreEdit α)] length m := by
  obtain ⟨⟨⟩, here, shrunk⟩ := of_bind_ok passed
  exact ⟨of_member_ok here, of_shorter_ok shrunk⟩

theorem fits_swap {index length m : Nat} {item : α}
    (passed : (do member index length; return length) = .ok m) :
    Fits [.replace index item] length m := by
  obtain ⟨⟨⟩, here, same⟩ := of_bind_ok passed
  exact ⟨of_member_ok here, Except.ok.inj same⟩

mutual

/-- A record that passes its check makes accesses that stay inside, from the length that was
checked to the one that was foretold. -/
theorem fits_of_check (record : Record α ε) (direction : Direction) (length m : Nat)
    (regular : record.Regular) (passed : record.check limit direction length = .ok m) :
    Fits (record.accesses direction) length m := by
  match record, direction with
  | .add index item, .forward => exact fits_put passed
  | .add index item, .backward => exact fits_drop passed
  | .remove index item, .forward => exact fits_drop passed
  | .remove index item, .backward => exact fits_put passed
  | .addMany index items, .forward =>
    obtain ⟨⟨⟩, here, grown⟩ := of_bind_ok passed
    exact ⟨of_slot_ok here, of_longer_ok grown⟩
  | .addMany index items, .backward =>
    rw [check] at passed
    split at passed
    · rename_i inside
      obtain rfl := Except.ok.inj passed
      exact fits_run inside
    · cases passed
  | .removeMany indices items, .forward =>
    rw [check] at passed
    split at passed
    · rename_i none
      obtain rfl := List.getLast?_eq_none_iff.mp none
      exact Except.ok.inj passed
    · rename_i last final
      obtain ⟨⟨⟩, inside, shrunk⟩ := of_bind_ok passed
      obtain rfl := of_shorter_ok shrunk
      exact fits_removals regular.1 (inside_of_last regular.1 final (of_member_ok inside))
  | .removeMany indices items, .backward => exact fits_slots regular.2 passed
  | .clear items, .forward =>
    rw [check] at passed
    split at passed
    · exact ⟨trivial, Except.ok.inj passed⟩
    · cases passed
  | .clear items, .backward =>
    rw [check] at passed
    split at passed
    · rename_i empty
      subst empty
      exact ⟨Nat.le_refl 0, (Nat.zero_add _).trans (Except.ok.inj passed)⟩
    · cases passed
  | .changeAt index old new, .forward => exact fits_swap passed
  | .changeAt index old new, .backward => exact fits_swap passed
  | .composite children, direction =>
    rw [check] at passed
    exact fits_of_checkAll children direction length m regular passed
  | .itemEdit edit, direction =>
    rw [check] at passed
    exact Except.ok.inj passed

theorem fits_of_checkAll (records : List (Record α ε)) (direction : Direction) (length m : Nat)
    (regular : RegularAll records) (passed : checkAll limit records direction length = .ok m) :
    Fits (accessesOfAll records direction) length m := by
  match records, direction with
  | [], direction =>
    rw [checkAll] at passed
    exact Except.ok.inj passed
  | child :: rest, .forward =>
    rw [checkAll] at passed
    obtain ⟨k, first, others⟩ := of_bind_ok passed
    exact fits_append (fits_of_check child .forward length k regular.1 first)
      (fits_of_checkAll rest .forward k m regular.2 others)
  | child :: rest, .backward =>
    rw [checkAll] at passed
    obtain ⟨k, others, first⟩ := of_bind_ok passed
    exact fits_append (fits_of_checkAll rest .backward length k regular.2 others)
      (fits_of_check child .backward k m regular.1 first)

end

theorem of_move? {record : Record α ε} {item : α} {source target : Nat}
    (shape : record.move? = some (item, source, target)) :
    ∃ other, record = .composite [.remove source item, .add target other] := by
  unfold move? at shape
  split at shape
  · rename_i other
    cases shape
    exact ⟨other, rfl⟩
  · cases shape

theorem fits_shifting {s : Store α} {source target m : Nat} {item : α}
    (fits : Fits [.remove source, .insert target item] s.length m) :
    Fits (shifting s source target) s.length m := by
  have here : s.items[source]? = some _ := List.getElem?_eq_getElem fits.1
  rw [shifting, here]
  exact fits

theorem fits_calls {record : Record α ε} {direction : Direction} {s : Store α} {m : Nat}
    (regular : record.Regular) (passed : record.check limit direction s.length = .ok m) :
    Fits (record.calls direction s) s.length m := by
  have fits := fits_of_check record direction s.length m regular passed
  unfold calls
  cases shape : record.move? with
  | none => exact fits
  | some move =>
    obtain ⟨other, rfl⟩ := of_move? shape
    cases direction with
    | forward => exact fits_shifting fits
    | backward => exact fits_shifting fits

theorem slots_inside {indices : List Nat} {length m : Nat}
    (passed : slots limit indices length = .ok m) :
    m = length + indices.length ∧ ∀ i ∈ indices.dropLast, i + 1 < m := by
  induction indices generalizing length with
  | nil => exact ⟨(Except.ok.inj passed).symm, by simp⟩
  | cons index rest ih =>
    obtain ⟨⟨⟩, here, passed⟩ := of_bind_ok passed
    obtain ⟨k, grown, others⟩ := of_bind_ok passed
    obtain rfl := of_longer_ok grown
    obtain ⟨rfl, inside⟩ := ih others
    have here := of_slot_ok here
    refine ⟨by rw [List.length_cons]; omega, ?_⟩
    cases rest with
    | nil => simp
    | cons next rest =>
      rw [List.dropLast_cons_cons]
      refine List.forall_mem_cons.mpr ⟨?_, inside⟩
      rw [List.length_cons]
      omega

theorem run_inside {index count most : Nat} (inside : index + count ≤ most) :
    ∀ p ∈ (List.range count).map (index + ·), p < most := by
  intro p member
  obtain ⟨offset, within, rfl⟩ := List.mem_map.mp member
  have := List.mem_range.mp within
  omega

theorem successors_inside {indices : List Nat} {last length : Nat}
    (ascending : indices.Pairwise (· < ·)) (final : indices.getLast? = some last)
    (inside : last < length) : ∀ p ∈ indices.dropLast.map (· + 1), p < length := by
  obtain ⟨front, rfl⟩ := List.getLast?_eq_some_iff.mp final
  rw [List.dropLast_concat]
  refine List.forall_mem_map.mpr fun i early => ?_
  have before := (List.pairwise_append.mp ascending).2.2 i early last (List.mem_singleton_self last)
  omega

mutual

/-- No position that is reckoned out reaches the length with all items of the record added. -/
theorem sums_inside (record : Record α ε) (direction : Direction) (length m : Nat)
    (regular : record.Regular) (within : Within limit (length + record.size))
    (passed : record.check limit direction length = .ok m) :
    ∀ p ∈ record.sums direction, p < length + record.size := by
  match record, direction with
  | .addMany index items, .forward =>
    obtain ⟨⟨⟩, here, -⟩ := of_bind_ok passed
    exact run_inside (Nat.add_le_add_right (of_slot_ok here) _)
  | .addMany index items, .backward =>
    rw [check] at passed
    split at passed
    · exact run_inside (by omega)
    · cases passed
  | .removeMany indices items, .forward =>
    rw [check] at passed
    split at passed
    · rename_i none
      obtain rfl := List.getLast?_eq_none_iff.mp none
      simp [sums]
    · rename_i last final
      obtain ⟨⟨⟩, here, -⟩ := of_bind_ok passed
      exact successors_inside regular.1 final (Nat.lt_add_right _ (of_member_ok here))
  | .removeMany indices items, .backward =>
    obtain ⟨rfl, inside⟩ := slots_inside passed
    rw [size, ← regular.2]
    exact List.forall_mem_map.mpr inside
  | .clear items, .backward => exact run_inside (by rw [size]; omega)
  | .composite children, direction =>
    rw [check] at passed
    exact sumsOfAll_inside children direction length m regular within passed
  | .add .., _ | .remove .., _ | .clear _, .forward | .changeAt .., _ | .itemEdit _, _ =>
    simp [sums]

theorem sumsOfAll_inside (records : List (Record α ε)) (direction : Direction) (length m : Nat)
    (regular : RegularAll records) (within : Within limit (length + sizeOfAll records))
    (passed : checkAll limit records direction length = .ok m) :
    ∀ p ∈ sumsOfAll records direction, p < length + sizeOfAll records := by
  match records, direction with
  | [], _ => simp [sumsOfAll]
  | child :: rest, .forward =>
    rw [sizeOfAll] at within ⊢
    rw [checkAll] at passed
    obtain ⟨k, first, others⟩ := of_bind_ok passed
    have room : Within limit (length + child.size) := within_mono within (by omega)
    have few : k ≤ length + child.size :=
      least_of_settles (check_settles child .forward length regular.1 room) first
    refine List.forall_mem_append.mpr ⟨fun p member => ?_, fun p member => ?_⟩
    · have := sums_inside child .forward length k regular.1 room first p member
      omega
    · have := sumsOfAll_inside rest .forward k m regular.2 (within_mono within (by omega)) others
        p member
      omega
  | child :: rest, .backward =>
    rw [sizeOfAll] at within ⊢
    rw [checkAll] at passed
    obtain ⟨k, others, first⟩ := of_bind_ok passed
    have room : Within limit (length + sizeOfAll rest) := within_mono within (by omega)
    have few : k ≤ length + sizeOfAll rest :=
      least_of_settles (checkAll_settles rest .backward length regular.2 room) others
    refine List.forall_mem_append.mpr ⟨fun p member => ?_, fun p member => ?_⟩
    · have :=
        sums_inside child .backward k m regular.1 (within_mono within (by omega)) first p member
      omega
    · have := sumsOfAll_inside rest .backward length k regular.2 room others p member
      omega

end

/-- A check of a regular record whose items fit ends in a length or in a refusal. Where it foretells
the length `m`, the application does not break off: each of its accesses stays inside the store as
it is at that moment, no position overflows, no items are missing, and the store ends up with `m`
items. -/
theorem check_sound {record : Record α ε} {direction : Direction} {length : Nat}
    (regular : record.Regular) (fits : length + record.size < words) :
    (∀ fault, record.check (some words) direction length = .error fault →
      ∃ cause, fault = .refused cause) ∧
    ∀ m, record.check (some words) direction length = .ok m → ∀ s : Store α, s.length = length →
      ∃ t effects, record.apply direction s = .ok (t, effects) ∧
        Takes (record.calls direction s) s t ∧ (∀ p ∈ record.sums direction, p < words) ∧
        t.length = m := by
  have within : Within (some words) (length + record.size) := by
    rintro _ ⟨⟩
    exact fits
  constructor
  · intro fault failed
    have settles := check_settles record direction length regular within
    rw [failed] at settles
    cases settles with
    | refused cause => exact ⟨cause, rfl⟩
  · rintro m passed s rfl
    obtain ⟨t, takes, left⟩ := takes_of_fits (fits_calls regular passed)
    obtain ⟨effects, done⟩ := apply_of_takes (itemized_of_regular record regular) takes
    have below := sums_inside record direction s.length m regular within passed
    exact ⟨t, effects, done, takes, fun p member => Nat.lt_trans (below p member) fits, left⟩

/-- Three items from two runs, then two at the end, from a store of four and back. -/
theorem check_sound_gap :
    let record : Record Nat Unit :=
      .composite [.removeMany [0, 2, 3] [5, 7, 8], .addMany 1 [3, 4], .itemEdit ()]
    (∃ t effects, record.apply .forward ⟨[5, 6, 7, 8], false, .splice⟩ = .ok (t, effects) ∧
      t.length = 3) ∧
    ∃ t effects, record.apply .backward ⟨[6, 3, 4], false, .oneByOne⟩ = .ok (t, effects) ∧
      t.length = 4 := by
  intro record
  have regular : record.Regular := ⟨⟨by decide, rfl⟩, trivial, trivial, trivial⟩
  have fits : 4 + record.size < words := by decide
  have onward : record.check (some words) .forward 4 = .ok 3 := rfl
  have returned : record.check (some words) .backward 3 = .ok 4 := rfl
  obtain ⟨t, effects, done, -, -, left⟩ :=
    (check_sound regular fits).2 3 onward ⟨[5, 6, 7, 8], false, .splice⟩ rfl
  obtain ⟨u, others, back, -, -, restored⟩ :=
    (check_sound regular (Nat.lt_of_succ_lt fits)).2 4 returned ⟨[6, 3, 4], false, .oneByOne⟩ rfl
  exact ⟨⟨t, effects, done, left⟩, u, others, back, restored⟩

end UndoableLists.Record
