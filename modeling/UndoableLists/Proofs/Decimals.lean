import Mathlib.Data.List.Induction
import UndoableLists.Json.Parser

/-!
Decimal digits: reading digits gives back the number that they write. Main statement: any digits are
zeros before the digits that the number is written with.
-/
namespace UndoableLists.Json

theorem ofDigits_eq (ds : List Char) : ofDigits ds = Nat.ofDigitChars 10 ds 0 := by
  unfold ofDigits Nat.ofDigitChars
  congr 1
  funext n c
  rw [Nat.mul_comm]

@[simp] theorem ofDigits_toDigits (n : Nat) : ofDigits (Nat.toDigits 10 n) = n := by
  rw [ofDigits_eq, Nat.ofDigitChars_toDigits (by decide) (by decide)]

theorem ofDigits_concat (ds : List Char) (c : Char) :
    ofDigits (ds ++ [c]) = 10 * ofDigits ds + (c.toNat - '0'.toNat) := by
  simp only [ofDigits, List.foldl_append, List.foldl_cons, List.foldl_nil]
  omega

theorem ofDigits_zeros (k : Nat) (ds : List Char) :
    ofDigits (List.replicate k '0' ++ ds) = ofDigits ds := by
  induction k with
  | zero => rfl
  | succ k ih => exact ih

theorem isDigit_toDigits {n : Nat} {c : Char} (member : c ∈ Nat.toDigits 10 n) :
    c.isDigit = true :=
  Nat.isDigit_of_mem_toDigits (by decide) (by decide) member

theorem toDigits_digit {c : Char} (digit : c.isDigit = true) :
    c.toNat - '0'.toNat < 10 ∧ Nat.toDigits 10 (c.toNat - '0'.toNat) = [c] := by
  obtain ⟨low, high⟩ : 48 ≤ c.toNat ∧ c.toNat ≤ 57 := by
    simpa [Char.isDigit, UInt32.le_iff_toNat_le] using digit
  have small : c.toNat - '0'.toNat < 10 := by
    change c.toNat - 48 < 10
    omega
  refine ⟨small, ?_⟩
  rw [Nat.toDigits_of_lt_base small]
  congr 1
  apply Char.toNat_inj.mp
  rw [Nat.toNat_digitChar_of_lt_ten small]
  change 48 + (c.toNat - 48) = c.toNat
  omega

theorem eq_zeros_toDigits {ds : List Char} (some : ds ≠ [])
    (digits : ∀ c ∈ ds, c.isDigit = true) :
    ∃ k, ds = List.replicate k '0' ++ Nat.toDigits 10 (ofDigits ds) := by
  induction ds using List.reverseRecOn with
  | nil => exact absurd rfl some
  | append_singleton ds c ih =>
    obtain ⟨small, written⟩ := toDigits_digit (digits c (by simp))
    rw [ofDigits_concat]
    -- What stands before the last digit may be zeros only; then the last digit is the whole number.
    rcases Nat.eq_zero_or_pos (ofDigits ds) with zero | positive
    · rw [zero, Nat.mul_zero, Nat.zero_add, written]
      by_cases empty : ds = []
      · exact ⟨0, by rw [empty]; rfl⟩
      · obtain ⟨k, zeros⟩ := ih empty fun d member => digits d (by simp [member])
        rw [zero] at zeros
        refine ⟨k + 1, ?_⟩
        rw [zeros, List.replicate_succ']
        rfl
    · have more : ds ≠ [] := by
        rintro rfl
        exact absurd positive (by decide)
      obtain ⟨k, zeros⟩ := ih more fun d member => digits d (by simp [member])
      refine ⟨k, ?_⟩
      rw [← Nat.toDigits_append_toDigits (by decide) positive small, written, ← List.append_assoc,
        ← zeros]

end UndoableLists.Json
