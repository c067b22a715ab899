import UndoableLists.LockDefaults
import UndoableLists.Proofs.Decimals
import Mathlib.Logic.Function.Basic

/-!
What lock defaults come from their sources. A variable sets its own field when it says a number or a
policy between blanks, and otherwise leaves it as it is by default. Main statement: a text is loaded
only with usable settings, and an environment yields usable ones unless it asks for a timeout of
zero.
-/
namespace UndoableLists

namespace Text
variable {before word after rest cs : List Char}

/-- The text says the word, with nothing but blanks around it. -/
def Says (cs word : List Char) : Prop :=
  ∃ before after, cs = before ++ word ++ after ∧ (∀ c ∈ before, isBlank c = true) ∧
    ∀ c ∈ after, isBlank c = true

theorem says_trimmed (cs : List Char) : Says cs (trimmed cs) := by
  refine ⟨cs.takeWhile isBlank, ((cs.dropWhile isBlank).reverse.takeWhile isBlank).reverse, ?_,
    ?_, ?_⟩
  · rw [List.append_assoc, trimmed, ← List.reverse_append, List.takeWhile_append_dropWhile,
      List.reverse_reverse, List.takeWhile_append_dropWhile]
  · exact List.all_eq_true.mp List.all_takeWhile
  · intro c member
    exact List.all_eq_true.mp List.all_takeWhile c (List.mem_reverse.mp member)

theorem dropWhile_blanks (blank : ∀ c ∈ before, isBlank c = true)
    (solid : ∀ c ∈ rest.head?, isBlank c = false) :
    (before ++ rest).dropWhile isBlank = rest := by
  rw [List.dropWhile_append_of_pos blank]
  cases rest with
  | nil => rfl
  | cons c rest => rw [List.dropWhile_cons_of_neg (by simp [solid c rfl])]

theorem trimmed_of_says (said : Says cs word) (some : word ≠ [])
    (solid : ∀ c ∈ word, isBlank c = false) : trimmed cs = word := by
  obtain ⟨before, after, rfl, leading, trailing⟩ := said
  have first : (before ++ word ++ after).dropWhile isBlank = word ++ after := by
    rw [List.append_assoc]
    refine dropWhile_blanks leading fun c head => solid c ?_
    obtain ⟨d, ds, rfl⟩ := List.exists_cons_of_ne_nil some
    cases head
    exact List.mem_cons_self
  have last : (word ++ after).reverse.dropWhile isBlank = word.reverse := by
    rw [List.reverse_append]
    refine dropWhile_blanks (fun c member => trailing c (List.mem_reverse.mp member)) ?_
    intro c head
    exact solid c (List.mem_reverse.mp (List.mem_of_mem_head? head))
  rw [trimmed, first, last, List.reverse_reverse]

end Text

namespace LockDefaults

def Numeral (n : Nat) (word : List Char) : Prop :=
  n < UInt64.size ∧ ∃ k, word = List.replicate k '0' ++ Nat.toDigits 10 n ∨
    word = '+' :: (List.replicate k '0' ++ Nat.toDigits 10 n)

def words : WaitPolicy → List String
  | .fail => ["fail", "error"]
  | .warnAndWait => ["warn-and-wait", "warn_and_wait", "wait"]

def Names (p : WaitPolicy) (word : List Char) : Prop :=
  ∃ name ∈ words p, word.map Char.toLower = name.toList

theorem digits_numeral (n k : Nat) : ∀ c ∈ List.replicate k '0' ++ Nat.toDigits 10 n,
    c.isDigit = true := by
  intro c member
  rcases List.mem_append.mp member with zero | digit
  · rw [List.eq_of_mem_replicate zero]
    rfl
  · exact Json.isDigit_toDigits digit

theorem digits_eq_some_iff {ds : List Char} {n : Nat} :
    (if !ds.isEmpty && ds.all Char.isDigit && Json.ofDigits ds < UInt64.size
      then some (Json.ofDigits ds) else none) = some n ↔
    n < UInt64.size ∧ ∃ k, ds = List.replicate k '0' ++ Nat.toDigits 10 n := by
  constructor
  · intro read
    split at read
    · rename_i fits
      cases read
      simp only [Bool.and_eq_true, Bool.not_eq_true', List.isEmpty_eq_false_iff, List.all_eq_true,
        decide_eq_true_eq] at fits
      obtain ⟨⟨some, digits⟩, fits⟩ := fits
      exact ⟨fits, Json.eq_zeros_toDigits some digits⟩
    · cases read
  · rintro ⟨fits, k, rfl⟩
    have digits := digits_numeral n k
    rw [if_pos]
    · rw [Json.ofDigits_zeros, Json.ofDigits_toDigits]
    · simp only [Bool.and_eq_true, Bool.not_eq_true', List.isEmpty_eq_false_iff, List.all_eq_true,
        decide_eq_true_eq, Json.ofDigits_zeros, Json.ofDigits_toDigits]
      exact ⟨⟨by simp [Nat.toDigits_ne_nil], digits⟩, fits⟩

theorem unsigned?_eq_some_iff {word : List Char} {n : Nat} :
    unsigned? word = some n ↔ Numeral n word := by
  unfold unsigned? Numeral
  -- A sign is taken off; digits do not begin with one.
  split
  · rename_i ds
    rw [digits_eq_some_iff]
    refine and_congr_right fun _ => exists_congr fun k => ⟨fun same => .inr (by rw [same]), ?_⟩
    rintro (same | same)
    · have digit := digits_numeral n k '+' (same ▸ List.mem_cons_self)
      cases digit
    · exact List.tail_eq_of_cons_eq same
  · rename_i unsigned
    rw [digits_eq_some_iff]
    refine and_congr_right fun _ => exists_congr fun k => ⟨.inl, ?_⟩
    rintro (same | same)
    · exact same
    · exact absurd same (unsigned _)

theorem policyOfWord?_eq_some_iff {word : List Char} {p : WaitPolicy} :
    policyOfWord? word = some p ↔ Names p word := by
  have spelled (name : String) :
      String.ofList (word.map Char.toLower) = name ↔ word.map Char.toLower = name.toList := by
    rw [← String.toList_inj, String.toList_ofList]
  unfold policyOfWord? Names
  simp only [Bool.or_eq_true, decide_eq_true_eq, spelled]
  constructor
  · intro read
    split at read
    · cases read
      simpa [words, or_assoc] using ‹(_ ∨ _) ∨ _›
    · split at read
      · cases read
        simpa [words] using ‹_ ∨ _›
      · cases read
  · rintro ⟨name, member, same⟩
    rw [same]
    cases p <;> simp only [words, List.mem_cons, List.not_mem_nil, or_false] at member
    · rcases member with rfl | rfl <;> rfl
    · rcases member with rfl | rfl | rfl <;> rfl

theorem not_blank_of_isDigit {c : Char} (digit : c.isDigit = true) : Text.isBlank c = false := by
  obtain ⟨low, high⟩ : 48 ≤ c.toNat ∧ c.toNat ≤ 57 := by
    simpa [Char.isDigit, UInt32.le_iff_toNat_le] using digit
  simp [Text.isBlank]
  omega

theorem solid_numeral {word : List Char} {n : Nat} (numeral : Numeral n word) :
    word ≠ [] ∧ ∀ c ∈ word, Text.isBlank c = false := by
  have digits (k : Nat) : List.replicate k '0' ++ Nat.toDigits 10 n ≠ [] ∧
      ∀ c ∈ List.replicate k '0' ++ Nat.toDigits 10 n, Text.isBlank c = false :=
    ⟨by simp [Nat.toDigits_ne_nil], fun c member =>
      not_blank_of_isDigit (digits_numeral n k c member)⟩
  obtain ⟨-, k, rfl | rfl⟩ := numeral
  · exact digits k
  · refine ⟨by simp, fun c member => ?_⟩
    obtain rfl | later := List.mem_cons.mp member
    · rfl
    · exact (digits k).2 c later

theorem toLower_blank {c : Char} (blank : Text.isBlank c = true) : c.toLower = c := by
  unfold Char.toLower
  rw [dif_neg]
  intro capital
  have letter : 65 ≤ c.toNat ∧ c.toNat ≤ 90 := by
    simpa [UInt32.le_iff_toNat_le] using capital
  simp [Text.isBlank] at blank
  omega

theorem solid_names {word : List Char} {p : WaitPolicy} (names : Names p word) :
    word ≠ [] ∧ ∀ c ∈ word, Text.isBlank c = false := by
  obtain ⟨name, member, same⟩ := names
  have solid : name.toList ≠ [] ∧ ∀ c ∈ name.toList, Text.isBlank c = false := by
    cases p <;> simp only [words, List.mem_cons, List.not_mem_nil, or_false] at member
    · rcases member with rfl | rfl <;> simp [Text.isBlank]
    · rcases member with rfl | rfl | rfl <;> simp [Text.isBlank]
  rw [← same] at solid
  refine ⟨by simpa using solid.1, fun c member => ?_⟩
  by_contra blank
  have blank : Text.isBlank c = true := by simpa using blank
  have lowered := solid.2 c.toLower (List.mem_map_of_mem member)
  rw [toLower_blank blank, blank] at lowered
  cases lowered

variable {lookup : String → Option String} {name text : String}

def Gives (value : Option String) (kind : List Char → Prop) : Prop :=
  ∃ text word, value = some text ∧ Text.Says text.toList word ∧ kind word

theorem read?_eq_some_iff {α : Type} {read : List Char → Option α} {kind : α → List Char → Prop}
    (reads : ∀ word a, read word = some a ↔ kind a word)
    (solid : ∀ a word, kind a word → word ≠ [] ∧ ∀ c ∈ word, Text.isBlank c = false) (a : α) :
    read? lookup name read = some a ↔ Gives (lookup name) (kind a) := by
  unfold read? Gives
  rw [Option.bind_eq_some_iff]
  constructor
  · rintro ⟨text, there, value⟩
    exact ⟨text, _, there, Text.says_trimmed _, (reads _ a).mp value⟩
  · rintro ⟨text, word, there, said, known⟩
    obtain ⟨some, solid⟩ := solid a word known
    refine ⟨text, there, ?_⟩
    rw [Text.trimmed_of_says said some solid]
    exact (reads word a).mpr known

theorem getD_eq_iff {α : Type} {value : Option α} {given : α → Prop}
    (gives : ∀ a, value = some a ↔ given a) (absent a : α) :
    value.getD absent = a ↔ given a ∨ a = absent ∧ ∀ b, ¬ given b := by
  cases value with
  | none =>
    have never (b : α) : ¬ given b := fun known => nomatch (gives b).mpr known
    simp [never, eq_comm]
  | some b =>
    have known : given b := (gives b).mp rfl
    rw [← gives a]
    simpa using fun _ none => absurd known (none b)

theorem timeout_eq_iff (n : Nat) : (ofEnvironment lookup).timeoutMs = n ↔
    Gives (lookup timeoutVariable) (Numeral n) ∨
      n = ({} : LockDefaults).timeoutMs ∧ ∀ m, ¬ Gives (lookup timeoutVariable) (Numeral m) :=
  getD_eq_iff (read?_eq_some_iff (fun _ _ => unsigned?_eq_some_iff) fun _ _ => solid_numeral) _ n

theorem policy_eq_iff (p : WaitPolicy) : (ofEnvironment lookup).policy = p ↔
    Gives (lookup policyVariable) (Names p) ∨
      p = ({} : LockDefaults).policy ∧ ∀ q, ¬ Gives (lookup policyVariable) (Names q) :=
  getD_eq_iff (read?_eq_some_iff (fun _ _ => policyOfWord?_eq_some_iff) fun _ _ => solid_names) _ p

theorem usable_iff {d : LockDefaults} : d.problems = [] ↔ d.timeoutMs ≠ 0 := by
  unfold problems
  split <;> simp [*]

theorem loaded_iff {read : Option LockDefaults} {refusal : SettingsRefusal} {d : LockDefaults} :
    (match read with
      | none => Except.error refusal
      | some e => e.checked) = .ok d ↔ read = some d ∧ d.problems = [] := by
  cases read with
  | none => simp
  | some e =>
    rw [checked_eq_ok_iff, Option.some_inj]
    exact and_congr_right fun same => by rw [same]

/-- A text is loaded with what it says, if that can be used at all. A variable that says a number
or a policy sets its own field, any other leaves it as it is by default, and neither has a say in
the other's field. What an environment sets can be used unless it asks for no time at all. -/
theorem settings_follow_their_sources (lookup : String → Option String) :
    (∀ text d, ofJson text = .ok d ↔
      (Json.parse? text).bind ofDocument? = some d ∧ d.problems = []) ∧
    (∀ text d, ofToml text = .ok d ↔
      (Toml.parse? text).bind ofEntries? = some d ∧ d.problems = []) ∧
    (∀ file d, ofTomlFile file = .ok d → d.problems = []) ∧
    (∀ n, (ofEnvironment lookup).timeoutMs = n ↔ Gives (lookup timeoutVariable) (Numeral n) ∨
      n = ({} : LockDefaults).timeoutMs ∧ ∀ m, ¬ Gives (lookup timeoutVariable) (Numeral m)) ∧
    (∀ p, (ofEnvironment lookup).policy = p ↔ Gives (lookup policyVariable) (Names p) ∨
      p = ({} : LockDefaults).policy ∧ ∀ q, ¬ Gives (lookup policyVariable) (Names q)) ∧
    (∀ value, (ofEnvironment (Function.update lookup policyVariable value)).timeoutMs =
      (ofEnvironment lookup).timeoutMs) ∧
    (∀ value, (ofEnvironment (Function.update lookup timeoutVariable value)).policy =
      (ofEnvironment lookup).policy) ∧
    ((ofEnvironment lookup).problems = [] ↔
      ¬ Gives (lookup timeoutVariable) (Numeral 0)) := by
  have apart : timeoutVariable ≠ policyVariable := by decide
  refine ⟨fun _ _ => loaded_iff, fun _ _ => loaded_iff, ?_, timeout_eq_iff, policy_eq_iff,
    ?_, ?_, ?_⟩
  · rintro (_ | text) d loaded
    · cases loaded
    · exact (loaded_iff.mp loaded).2
  · intro value
    simp [ofEnvironment, read?, Function.update_of_ne apart]
  · intro value
    simp [ofEnvironment, read?, Function.update_of_ne apart.symm]
  · rw [usable_iff, ne_eq, timeout_eq_iff]
    simp

def scribbled (policy : String) (name : String) : Option String :=
  if name = timeoutVariable then some " +007\t"
  else if name = policyVariable then some policy
  else none

theorem scribbled_environment_is_read :
    (ofEnvironment (scribbled "\nFail ")).timeoutMs = 7 ∧
      (ofEnvironment (scribbled "\nFail ")).policy = .fail ∧
      (ofEnvironment (scribbled "shrug")).timeoutMs = 7 ∧
      (ofEnvironment (scribbled "\nFail ")).problems = [] := by
  have seven (policy : String) : Gives (scribbled policy timeoutVariable) (Numeral 7) :=
    ⟨" +007\t", "+007".toList, rfl,
      ⟨[' '], ['\t'], by decide, by simp [Text.isBlank], by simp [Text.isBlank]⟩,
      by decide, 2, .inr (by decide)⟩
  have timeout (policy : String) :=
    ((settings_follow_their_sources (scribbled policy)).2.2.2.1 7).mpr (.inl (seven policy))
  refine ⟨timeout _, ?_, timeout _, ?_⟩
  · have says_fail : Text.Says "\nFail ".toList "Fail".toList :=
      ⟨['\n'], [' '], by decide, by simp [Text.isBlank], by simp [Text.isBlank]⟩
    exact ((settings_follow_their_sources _).2.2.2.2.1 .fail).mpr
      (.inl ⟨"\nFail ", "Fail".toList, rfl, says_fail, "fail", by decide, by decide⟩)
  · rw [usable_iff, timeout]
    decide

/-- Zero can be read like any other number. -/
theorem zero_timeout_is_taken :
    (ofEnvironment fun name => if name = timeoutVariable then some "0" else none).timeoutMs = 0 ∧
      ¬ ∀ lookup, (ofEnvironment lookup).problems = [] := by
  refine ⟨by decide, fun usable => ?_⟩
  have problems := usable fun name => if name = timeoutVariable then some "0" else none
  revert problems
  decide

end LockDefaults

end UndoableLists
