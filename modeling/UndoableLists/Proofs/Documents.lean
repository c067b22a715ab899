import UndoableLists.Proofs.Decimals

/-!
Documents that are read back. Texts come back whatever their characters are, and integers of 64 bits
digit by digit. Main statement: an array of values, written and read again, is the same array with
the same values, and nothing is left after it.
-/
namespace UndoableLists.Json
variable {c : Char} {cs ds rest : List Char} {fuel : Nat} {v : Value} {vs : List Value}

def Piece.Denotes (p : Piece) (c : Char) : Prop :=
  p = .char c ∨ p = .codeUnit c.toNat ∧ c.toNat < 32

theorem hexValue_digitChar : ∀ d < 16, hexValue (Nat.digitChar d) = some d := by decide

theorem controlEscape_eq (control : c.toNat < 32) : ∃ d, hexValue d = some (c.toNat / 16) ∧
    controlEscape c = ['\\', 'u', '0', '0', d, Nat.digitChar (c.toNat % 16)] := by
  unfold controlEscape
  refine ⟨Nat.digitChar (c.toNat / 16), hexValue_digitChar _ (by omega), ?_⟩
  by_cases small : c.toNat < 16
  · rw [Nat.toDigits_of_lt_base small, Nat.div_eq_of_lt small, Nat.mod_eq_of_lt small]
    rfl
  · rw [Nat.toDigits_of_base_le (by decide) (by omega),
      Nat.toDigits_of_lt_base (show c.toNat / 16 < 16 by omega)]
    rfl

theorem pieces_control (control : c.toNat < 32) (rest : List Char) :
    pieces (controlEscape c ++ rest) =
      (pieces rest).map fun (ps, rest) => (.codeUnit c.toNat :: ps, rest) := by
  obtain ⟨d, value, same⟩ := controlEscape_eq control
  have unit : hex4 '0' '0' d (Nat.digitChar (c.toNat % 16)) = some c.toNat := by
    have last := hexValue_digitChar (c.toNat % 16) (by omega)
    have zero : hexValue '0' = some 0 := rfl
    simp only [hex4, zero, value, last, Option.pure_def, Option.bind_eq_bind, Option.bind_some]
    congr 1
    omega
  rw [same]
  simp only [List.cons_append, List.nil_append, pieces, unit]
  cases pieces rest <;> rfl

theorem pieces_simple {e : Char} (escape : simpleEscape e = some c) (rest : List Char) :
    pieces ('\\' :: e :: rest) = (pieces rest).map fun (ps, rest) => (.char c :: ps, rest) := by
  have plain : e ≠ 'u' := by
    rintro rfl
    cases escape
  rw [pieces, escape]
  · cases pieces rest <;> rfl
  · simp [plain]

theorem pieces_plain (quote : c ≠ '"') (backslash : c ≠ '\\') (visible : ¬ c.toNat < 32)
    (rest : List Char) :
    pieces (c :: rest) = (pieces rest).map fun (ps, rest) => (.char c :: ps, rest) := by
  rw [pieces, if_neg (by simp [visible, backslash])]
  · cases pieces rest <;> rfl
  all_goals simp [quote, backslash]

theorem pieces_escaped (c : Char) : ∃ p : Piece, p.Denotes c ∧ ∀ rest,
    pieces (escapeChar c ++ rest) = (pieces rest).map fun (ps, rest) => (p :: ps, rest) := by
  unfold escapeChar
  -- Seven characters have an escape of their own.
  iterate 7
    split
    · subst_vars
      exact ⟨_, .inl rfl, pieces_simple rfl⟩
  split
  · rename_i control
    exact ⟨_, .inr ⟨rfl, control⟩, pieces_control control⟩
  · exact ⟨_, .inl rfl, pieces_plain ‹_› ‹_› ‹_›⟩

theorem assemble_cons {p : Piece} (denotes : p.Denotes c) (ps : List Piece) :
    assemble (p :: ps) = (assemble ps).map (c :: ·) := by
  obtain rfl | ⟨rfl, control⟩ := denotes
  · rw [assemble]
  · have whole : isHigh c.toNat = false ∧ isLow c.toNat = false := by
      simp only [isHigh, isLow, Bool.and_eq_false_iff, decide_eq_false_iff_not]
      omega
    rcases ps with _ | ⟨_ | low, ps⟩ <;> simp [assemble, whole, Char.ofNat_toNat]

theorem string_literal (s : String) (rest : List Char) :
    string (s.toList.flatMap escapeChar ++ '"' :: rest) = some (some s, rest) := by
  have read : ∀ cs : List Char, ∃ ps, assemble ps = some cs ∧
      pieces (cs.flatMap escapeChar ++ '"' :: rest) = some (ps, rest) := by
    intro cs
    induction cs with
    | nil => exact ⟨[], rfl, by simp [pieces]⟩
    | cons c cs ih =>
      obtain ⟨ps, assembled, read⟩ := ih
      obtain ⟨p, denotes, escaped⟩ := pieces_escaped c
      refine ⟨p :: ps, ?_, ?_⟩
      · rw [assemble_cons denotes, assembled]
        rfl
      · rw [List.flatMap_cons, List.append_assoc, escaped, read]
        rfl
  obtain ⟨ps, assembled, read⟩ := read s.toList
  simp [string, read, assembled]

def Closes (rest : List Char) : Prop := ∀ c ∈ rest.head?, c = ',' ∨ c = ']'

theorem closes_cases (closes : Closes rest) :
    rest = [] ∨ ∃ more, rest = ',' :: more ∨ rest = ']' :: more := by
  cases rest with
  | nil => exact .inl rfl
  | cons c more =>
    exact .inr ⟨more, (closes c rfl).imp (congrArg (· :: more)) (congrArg (· :: more))⟩

theorem takeDigits_eq (digits : ∀ c ∈ ds, c.isDigit = true) (closes : Closes rest) :
    takeDigits (ds ++ rest) = (ds, rest) := by
  have after : rest.takeWhile Char.isDigit = [] ∧ rest.dropWhile Char.isDigit = rest := by
    obtain rfl | ⟨more, rfl | rfl⟩ := closes_cases closes <;> exact ⟨rfl, rfl⟩
  rw [takeDigits, List.takeWhile_append_of_pos digits, List.dropWhile_append_of_pos digits,
    after.1, after.2, List.append_nil]

theorem toDigits_zero (n : Nat) (ds : List Char) (zero : Nat.toDigits 10 n = '0' :: ds) :
    ds = [] := by
  by_contra more
  obtain ⟨k, same⟩ := eq_zeros_toDigits more fun c member =>
    isDigit_toDigits (zero ▸ List.mem_cons_of_mem _ member)
  have value : ofDigits ds = n := by
    rw [← ofDigits_toDigits n, zero]
    rfl
  rw [value, zero] at same
  have lengths := congrArg List.length same
  simp at lengths
  omega

theorem wholePart_eq (n : Nat) (closes : Closes rest) :
    wholePart (Nat.toDigits 10 n ++ rest) = some (Nat.toDigits 10 n, rest) := by
  rw [wholePart, takeDigits_eq (fun _ => isDigit_toDigits) closes]
  cases written : Nat.toDigits 10 n with
  | nil => exact absurd written Nat.toDigits_ne_nil
  | cons d ds =>
    by_cases zero : d = '0'
    · subst zero
      rw [toDigits_zero n ds written]
      rfl
    · simp [zero]

theorem unsignedNumber_eq (negative : Bool) (n : Nat) (closes : Closes rest) :
    unsignedNumber negative (Nat.toDigits 10 n ++ rest) =
      some (numberOf negative (Nat.toDigits 10 n) [], rest) := by
  have after : fractionPart rest = some ([], rest) ∧ exponentPart rest = some ([], rest) := by
    obtain rfl | ⟨more, rfl | rfl⟩ := closes_cases closes <;> exact ⟨rfl, rfl⟩
  simp [unsignedNumber, wholePart_eq n closes, after.1, after.2]

theorem isInteger_of_fits {n : Int} (fits : Value.fits n = true) : isInteger n = true := by
  simp only [Value.fits, isInteger, Bool.and_eq_true, decide_eq_true_eq] at fits ⊢
  refine ⟨fits.1, Int.lt_trans fits.2 (by decide)⟩

theorem toDigits_begins (n : Nat) : ∃ d ds, Nat.toDigits 10 n = d :: ds ∧ d.isDigit = true := by
  obtain ⟨d, ds, written⟩ := List.exists_cons_of_ne_nil (Nat.toDigits_ne_nil (b := 10) (n := n))
  exact ⟨d, ds, written, isDigit_toDigits (n := n) (by simp [written])⟩

theorem toString_cases (n : Int) :
    (∃ m : Nat, n = m ∧ (toString n).toList = Nat.toDigits 10 m) ∨
      ∃ m : Nat, n = -(m + 1 : Nat) ∧ (toString n).toList = '-' :: Nat.toDigits 10 (m + 1) := by
  rw [Int.toString_eq_repr]
  cases n with
  | ofNat m => exact .inl ⟨m, rfl, Nat.toList_repr⟩
  | negSucc m => exact .inr ⟨m, Int.negSucc_eq m, by simp [Int.repr, Nat.toList_repr]⟩

theorem number_toString {n : Int} (fits : Value.fits n = true) (closes : Closes rest) :
    number ((toString n).toList ++ rest) = some (.int n, rest) := by
  have integer := isInteger_of_fits fits
  obtain ⟨m, rfl, written⟩ | ⟨m, rfl, written⟩ := toString_cases n
  · have unsigned : number (Nat.toDigits 10 m ++ rest) =
        unsignedNumber false (Nat.toDigits 10 m ++ rest) := by
      obtain ⟨d, ds, digits, digit⟩ := toDigits_begins m
      rw [digits, List.cons_append, number]
      rintro _ ⟨⟩
      cases digit
    rw [written, unsigned, unsignedNumber_eq false m closes]
    simp [numberOf, integer]
  · have signed : number ('-' :: (Nat.toDigits 10 (m + 1) ++ rest)) =
        unsignedNumber true (Nat.toDigits 10 (m + 1) ++ rest) := rfl
    rw [written, List.cons_append, signed, unsignedNumber_eq true (m + 1) closes]
    simp only [numberOf, if_true, List.isEmpty_nil, ofDigits_toDigits, integer]
    simp
    omega

def Numeric (c : Char) : Prop := c = '-' ∨ c.isDigit = true

theorem toString_begins (n : Int) : ∃ c cs, (toString n).toList = c :: cs ∧ Numeric c := by
  obtain ⟨m, -, written⟩ | ⟨m, -, written⟩ := toString_cases n
  · obtain ⟨d, ds, digits, digit⟩ := toDigits_begins m
    exact ⟨d, ds, written.trans digits, .inr digit⟩
  · exact ⟨'-', _, written, .inl rfl⟩

theorem skipBlanks_solid (solid : isBlank c = false) (cs : List Char) :
    skipBlanks (c :: cs) = c :: cs := by
  simp [skipBlanks, solid]

theorem numeric_solid (numeric : Numeric c) : isBlank c = false := by
  by_contra blank
  simp only [isBlank, Bool.or_eq_true, decide_eq_true_eq, Bool.not_eq_false] at blank
  rcases blank with ((rfl | rfl) | rfl) | rfl <;> obtain ⟨⟨⟩⟩ | ⟨⟨⟩⟩ := numeric

theorem value_numeric (numeric : Numeric c) (cs : List Char) :
    value (fuel + 1) (c :: cs) = number (c :: cs) := by
  rw [value, skipBlanks_solid (numeric_solid numeric)]
  split <;> rename_i same
  case h_8 => rfl
  -- No other document begins like a number.
  all_goals
    cases same
    try obtain ⟨⟨⟩⟩ | ⟨⟨⟩⟩ := numeric

theorem value_quote (cs : List Char) :
    value (fuel + 1) ('"' :: cs) = (string cs).map fun (s, rest) => (.str s, rest) := by
  rw [value, skipBlanks_solid rfl]
  rfl

theorem value_ofValue (fits : ∀ n, v = .int n → Value.fits n = true) (closes : Closes rest) :
    value (fuel + 1) ((ofValue v).render ++ rest) = some (ofValue v, rest) := by
  cases v with
  | text s =>
    have literal : (ofValue (.text s)).render ++ rest =
        '"' :: (s.toList.flatMap escapeChar ++ '"' :: rest) := by
      simp [ofValue, render, stringLiteral]
    rw [literal, value_quote, string_literal]
    rfl
  | int n =>
    obtain ⟨c, cs, written, numeric⟩ := toString_begins n
    rw [ofValue, render, written, List.cons_append, value_numeric numeric, ← List.cons_append,
      ← written, number_toString (fits n rfl) closes]

theorem value_begins (v : Value) : ∃ c cs, (ofValue v).render = c :: cs ∧ isBlank c = false ∧
    c ≠ ']' := by
  cases v with
  | text s => exact ⟨'"', _, rfl, rfl, by decide⟩
  | int n =>
    obtain ⟨c, cs, written, numeric⟩ := toString_begins n
    refine ⟨c, cs, written, numeric_solid numeric, ?_⟩
    rintro rfl
    obtain ⟨⟨⟩⟩ | ⟨⟨⟩⟩ := numeric

theorem renderItems_cons (item next : Json) (items : List Json) :
    renderItems (item :: next :: items) = item.render ++ ',' :: renderItems (next :: items) := by
  rw [renderItems]
  simp

theorem elements_last {item : Json} (read : value fuel cs = some (item, ']' :: rest)) :
    elements (fuel + 1) cs = some ([item], rest) := by
  have closed : skipBlanks (']' :: rest) = ']' :: rest := skipBlanks_solid rfl rest
  simp [elements, read, closed]

theorem elements_next {item : Json} {items : List Json} {more : List Char}
    (read : value fuel cs = some (item, ',' :: more))
    (others : elements fuel more = some (items, rest)) :
    elements (fuel + 1) cs = some (item :: items, rest) := by
  have begun : skipBlanks (',' :: more) = ',' :: more := skipBlanks_solid rfl more
  simp [elements, read, begun, others]

theorem elements_values (fuel : Nat) (fits : ∀ n, .int n ∈ v :: vs → Value.fits n = true)
    (rest : List Char) :
    elements (fuel + vs.length + 2) (renderItems ((v :: vs).map ofValue) ++ ']' :: rest) =
      some ((v :: vs).map ofValue, rest) := by
  induction vs generalizing v with
  | nil =>
    refine elements_last (value_ofValue (fun n same => fits n (by simp [same])) ?_)
    rintro _ ⟨⟩
    exact .inr rfl
  | cons next vs ih =>
    have others := ih fun n member => fits n (List.mem_cons_of_mem _ member)
    have written : renderItems ((v :: next :: vs).map ofValue) ++ ']' :: rest =
        (ofValue v).render ++ ',' :: (renderItems ((next :: vs).map ofValue) ++ ']' :: rest) := by
      simp [renderItems_cons]
    rw [written]
    refine elements_next (value_ofValue (fun n same => fits n (by simp [same])) ?_) others
    rintro _ ⟨⟩
    exact .inl rfl

theorem length_renderItems (vs : List Value) :
    vs.length ≤ (renderItems (vs.map ofValue)).length + 1 := by
  induction vs with
  | nil => simp
  | cons v vs ih =>
    cases vs with
    | nil => simp
    | cons next vs =>
      simp only [List.map_cons, renderItems_cons, List.length_append, List.length_cons] at ih ⊢
      omega

theorem value_array (solid : isBlank c = false) (more : c ≠ ']') (cs : List Char) :
    value (fuel + 1) ('[' :: c :: cs) =
      (elements fuel (c :: cs)).map fun (items, rest) => (.arr items, rest) := by
  have begun : skipBlanks ('[' :: c :: cs) = '[' :: c :: cs := skipBlanks_solid rfl _
  rw [value, begun]
  simp only [skipBlanks_solid solid]
  split
  · rename_i closed
    exact absurd (List.head_eq_of_cons_eq closed) more
  · rfl

/-- What was written of an array of values is read as that array, up to its end. -/
theorem front?_values (fits : ∀ n, .int n ∈ vs → Value.fits n = true) :
    front? (arr (vs.map ofValue)).text = some (arr (vs.map ofValue), []) := by
  have written : (arr (vs.map ofValue)).text.toList =
      '[' :: (renderItems (vs.map ofValue) ++ [']']) := by
    simp [text, render]
  have room := length_renderItems vs
  unfold front?
  simp only
  rw [written]
  cases vs with
  | nil => rfl
  | cons v vs =>
    obtain ⟨c, cs, begins, solid, more⟩ := value_begins v
    obtain ⟨rest, items⟩ : ∃ rest, renderItems ((v :: vs).map ofValue) ++ [']'] = c :: rest := by
      cases vs with
      | nil => exact ⟨cs ++ [']'], by simp [renderItems, begins]⟩
      | cons next vs =>
        exact ⟨_, by rw [List.map_cons, List.map_cons, renderItems_cons, begins]; rfl⟩
    obtain ⟨fuel, enough⟩ :
        ∃ fuel, 2 * ('[' :: c :: rest).length + 2 = fuel + vs.length + 2 + 1 := by
      have lengths := congrArg List.length items
      simp only [List.length_append, List.length_cons, List.length_nil] at room lengths ⊢
      exact ⟨2 * rest.length + 3 - vs.length, by omega⟩
    have read := elements_values fuel fits []
    rw [items] at read ⊢
    rw [enough, value_array solid more, read]
    rfl

theorem toValues?_values (fits : ∀ n, .int n ∈ vs → Value.fits n = true) :
    (arr (vs.map ofValue)).toValues? = some vs := by
  rw [toValues?]
  induction vs with
  | nil => rfl
  | cons v vs ih =>
    have others := ih fun n member => fits n (List.mem_cons_of_mem _ member)
    have same : (ofValue v).toValue? = some v := by
      cases v with
      | text s => rfl
      | int n => simp [ofValue, toValue?, fits n List.mem_cons_self]
    rw [List.map_cons, List.mapM_cons, same, others]
    rfl

end UndoableLists.Json
