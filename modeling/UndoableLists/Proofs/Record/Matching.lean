import UndoableLists.Proofs.Record.Application
import UndoableLists.Proofs.Record.Lengths

/-!
Which contents a record matches. Forward its positions lie inside, ascend where there are several,
and what it takes out or replaces sits where it says; backward the same holds of what it puts in.
A child of a composite has to match what those before it leave. Main statements: a record leads
somewhere from all contents that it matches, and the positions of one that leads somewhere ascend.
-/
namespace UndoableLists.Record
variable {α ε : Type}

mutual

/-- The record matches the contents of the store when it is applied in the direction. -/
def Matches : Record α ε → Direction → Store α → Prop
  | .add index _, .forward, s => index ≤ s.length
  | .add index item, .backward, s => s.items[index]? = some item
  | .remove index item, .forward, s => s.items[index]? = some item
  | .remove index _, .backward, s => index ≤ s.length
  | .addMany index _, .forward, s => index ≤ s.length
  | .addMany index items, .backward, s => index ≤ s.length ∧ items <+: s.items.drop index
  | .removeMany indices items, .forward, s =>
    indices.Pairwise (· < ·) ∧ indices.map (s.items[·]?) = items.map some
  | .removeMany indices items, .backward, s =>
    indices.Pairwise (· < ·) ∧ indices.length = items.length ∧
      ∀ k i, indices[k]? = some i → i ≤ s.length + k
  | .clear items, .forward, s => s.items = items
  | .clear _, .backward, s => s.items = []
  | .changeAt index old _, .forward, s => s.items[index]? = some old
  | .changeAt index _ new, .backward, s => s.items[index]? = some new
  | .composite children, direction, s => MatchesAll children direction s
  | .itemEdit _, _, _ => True

def MatchesAll : List (Record α ε) → Direction → Store α → Prop
  | [], _, _ => True
  | child :: rest, .forward, s => Matches child .forward s ∧
    ∃ u effects, applyEach child .forward s = .ok (u, effects) ∧ MatchesAll rest .forward u
  | child :: rest, .backward, s => MatchesAll rest .backward s ∧
    ∃ u effects, applyAll rest .backward s = .ok (u, effects) ∧ Matches child .backward u

end

theorem changed_from {index : Nat} {new : α} {s : List α} (present : s[index]? = some new)
    (old : α) : ∃ t : List α, t[index]? = some old ∧ s = t.set index new := by
  obtain ⟨inside, rfl⟩ := List.getElem?_eq_some_iff.mp present
  refine ⟨s.set index old, List.getElem?_set_self inside, ?_⟩
  rw [List.set_set, List.set_getElem_self]

theorem getElem?_of_extracts {ps : List (Nat × α)} {s t : List α} {index : Nat}
    (h : Extracts ps s t) (below : ∀ p ∈ ps, index < p.1) : t[index]? = s[index]? := by
  induction ps generalizing t with
  | nil => rw [show s = t from h]
  | cons p rest ih =>
    obtain ⟨-, u, put, others⟩ := h
    obtain ⟨-, rfl⟩ := inserts_iff_taken.mp put
    rw [List.getElem?_eraseIdx_of_lt (below p List.mem_cons_self)]
    exact ih others fun q member => below q (List.mem_cons_of_mem _ member)

theorem before_of_ascending {index : Nat} {rest : List Nat} {items : List α}
    (ascending : (index :: rest).Pairwise (· < ·)) : ∀ p ∈ rest.zip items, index < p.1 :=
  fun _ member => List.rel_of_pairwise_cons ascending (List.of_mem_zip member).1

theorem extracts_present {indices : List Nat} {items s : List α}
    (ascending : indices.Pairwise (· < ·)) (here : indices.map (s[·]?) = items.map some) :
    ∃ t, Extracts (indices.zip items) s t := by
  induction indices generalizing items with
  | nil => exact ⟨s, rfl⟩
  | cons index rest ih =>
    cases items with
    | nil => cases here
    | cons item items =>
      rw [List.map_cons, List.map_cons, List.cons.injEq] at here
      obtain ⟨u, others⟩ := ih ascending.of_cons here.2
      have before : ∀ p ∈ rest.zip items, index < p.1 := before_of_ascending ascending
      have present : u[index]? = some item := (getElem?_of_extracts others before).trans here.1
      exact ⟨u.eraseIdx index, before, u, inserts_iff_taken.mpr ⟨present, rfl⟩, others⟩

theorem extracts_room {indices : List Nat} {items t : List α}
    (ascending : indices.Pairwise (· < ·)) (lengths : indices.length = items.length)
    (room : ∀ k i, indices[k]? = some i → i ≤ t.length + k) :
    ∃ s, Extracts (indices.zip items) s t := by
  induction indices generalizing items t with
  | nil => exact ⟨t, rfl⟩
  | cons index rest ih =>
    cases items with
    | nil => cases lengths
    | cons item items =>
      have put : Inserts index item t (t.insertIdx index item) := ⟨room 0 index rfl, rfl⟩
      have grown := length_of_inserts put
      obtain ⟨s, others⟩ := ih ascending.of_cons (Nat.succ.inj lengths) fun k i here => by
        have := room (k + 1) i here
        rw [grown]
        omega
      exact ⟨s, before_of_ascending ascending, _, put, others⟩

mutual

/-- A record leads somewhere from contents that it matches. -/
theorem moves_of_matches (record : Record α ε) (direction : Direction) (s : Store α)
    (h : record.Matches direction s) : ∃ t, record.Moves direction s.items t := by
  match record, direction with
  | .add index item, .forward => exact ⟨_, h, rfl⟩
  | .add index item, .backward => exact ⟨_, inserts_iff_taken.mpr ⟨h, rfl⟩⟩
  | .remove index item, .forward => exact ⟨_, inserts_iff_taken.mpr ⟨h, rfl⟩⟩
  | .remove index item, .backward => exact ⟨_, h, rfl⟩
  | .addMany index items, .forward =>
    exact ⟨_, s.items.take index, s.items.drop index, List.length_take_of_le h,
      (List.take_append_drop ..).symm, rfl⟩
  | .addMany index items, .backward =>
    obtain ⟨inside, back, rest⟩ := h
    refine ⟨_, s.items.take index, back, List.length_take_of_le inside, rfl, ?_⟩
    rw [List.append_assoc, rest, List.take_append_drop]
  | .removeMany indices items, .forward =>
    obtain ⟨ascending, here⟩ := h
    obtain ⟨t, taken⟩ := extracts_present ascending here
    exact ⟨t, by simpa using congrArg List.length here, taken⟩
  | .removeMany indices items, .backward =>
    obtain ⟨ascending, lengths, room⟩ := h
    obtain ⟨t, put⟩ := extracts_room ascending lengths room
    exact ⟨t, lengths, put⟩
  | .clear items, .forward => exact ⟨[], h, rfl⟩
  | .clear items, .backward => exact ⟨items, rfl, h⟩
  | .changeAt index old new, .forward => exact ⟨_, h, rfl⟩
  | .changeAt index old new, .backward => exact changed_from h old
  | .composite children, direction =>
    obtain ⟨t, moves⟩ := movesAll_of_matchesAll children direction s h
    exact ⟨t, by cases direction <;> exact moves⟩
  | .itemEdit edit, .forward => exact ⟨s.items, rfl⟩
  | .itemEdit edit, .backward => exact ⟨s.items, rfl⟩

theorem movesAll_of_matchesAll (records : List (Record α ε)) (direction : Direction) (s : Store α)
    (h : MatchesAll records direction s) : ∃ t, MovesAll records direction s.items t := by
  match records, direction with
  | [], .forward => exact ⟨s.items, rfl⟩
  | [], .backward => exact ⟨s.items, rfl⟩
  | child :: rest, .forward =>
    obtain ⟨first, u, effects, done, others⟩ := h
    obtain ⟨x, moves⟩ := moves_of_matches child .forward s first
    obtain ⟨changes, applied, -⟩ := applyEach_of_moves child .forward s x moves
    obtain ⟨rfl, -⟩ := Prod.mk.inj (Except.ok.inj (applied.symm.trans done))
    obtain ⟨t, onward⟩ := movesAll_of_matchesAll rest .forward _ others
    exact ⟨t, x, moves, onward⟩
  | child :: rest, .backward =>
    obtain ⟨others, u, effects, done, first⟩ := h
    obtain ⟨x, onward⟩ := movesAll_of_matchesAll rest .backward s others
    obtain ⟨changes, applied, -⟩ := applyAll_of_moves rest .backward s x onward
    obtain ⟨rfl, -⟩ := Prod.mk.inj (Except.ok.inj (applied.symm.trans done))
    obtain ⟨t, moves⟩ := moves_of_matches child .backward _ first
    exact ⟨t, x, moves, onward⟩

end

theorem ascending_of_extracts {ps : List (Nat × α)} {s t : List α} (h : Extracts ps s t) :
    (ps.map (·.1)).Pairwise (· < ·) := by
  induction ps generalizing t with
  | nil => exact .nil
  | cons p rest ih =>
    obtain ⟨before, u, -, others⟩ := h
    exact .cons (List.forall_mem_map.mpr before) (ih others)

mutual

theorem regular_of_leads (record : Record α ε) (s t : List α) (h : record.Leads s t) :
    record.Regular := by
  match record with
  | .removeMany indices items =>
    obtain ⟨lengths, taken⟩ := h
    have ascending := ascending_of_extracts taken
    rw [List.map_fst_zip (Nat.le_of_eq lengths)] at ascending
    exact ⟨ascending, lengths⟩
  | .composite children => exact regularAll_of_leadsAll children s t h
  | .add .. | .addMany .. | .remove .. | .clear .. | .changeAt .. | .itemEdit .. => trivial

theorem regularAll_of_leadsAll (records : List (Record α ε)) (s t : List α)
    (h : LeadsAll records s t) : RegularAll records := by
  match records with
  | [] => trivial
  | child :: rest =>
    obtain ⟨u, first, others⟩ := h
    exact ⟨regular_of_leads child s u first, regularAll_of_leadsAll rest u t others⟩

end

theorem regular_of_moves {record : Record α ε} {direction : Direction} {s t : List α}
    (h : record.Moves direction s t) : record.Regular := by
  cases direction with
  | forward => exact regular_of_leads record s t h
  | backward => exact regular_of_leads record t s h

theorem regularAll_of_movesAll {records : List (Record α ε)} {direction : Direction}
    {s t : List α} (h : MovesAll records direction s t) : RegularAll records := by
  cases direction with
  | forward => exact regularAll_of_leadsAll records s t h
  | backward => exact regularAll_of_leadsAll records t s h

end UndoableLists.Record
