import LineScript.Proofs.Number.Forms
import LineScript.Proofs.Text.Pieces

/-! # Reading numbers

What can be read is a decimal or a name, and the characters tell the two apart. A text stands for a
number exactly if it has one of the forms of numbers, and a literal of a script is read like any
other text.
-/

namespace LineScript.Number

open Grammar (IsDigits ExponentPart Numeral)

/-! ## Decimals -/

section Decimals

variable {s whole fraction rest : List Char}

theorem readSign_split (s : List Char) :
    ∃ sign ∈ [[], ['+'], ['-']], s = sign ++ (Decimal.readSign s).2 := by
  fun_cases Decimal.readSign s with
  | case1 s => exact ⟨['-'], by simp, rfl⟩
  | case2 s => exact ⟨['+'], by simp, rfl⟩
  | case3 s => exact ⟨[], by simp, rfl⟩

theorem exponentPart_of_readExponent? {n : Int} (read : Decimal.readExponent? s = some n) :
    ExponentPart s := by
  cases s with
  | nil => exact .none
  | cons mark s =>
      obtain ⟨sign, signs, split_⟩ := readSign_split s
      cases signed : Decimal.readSign s with
      | mk negative d =>
          rw [signed] at split_
          simp only [Decimal.readExponent?, signed] at read
          split at read
          · next marked =>
              split at read
              · cases read
              · next isDigits =>
                  simp only [Bool.or_eq_true, Bool.not_eq_true', not_or, List.isEmpty_iff,
                    Bool.not_eq_false, List.all_eq_true] at isDigits
                  rw [split_]
                  exact .some (by simpa using marked) signs isDigits
          · cases read

/-- The digits of a decimal and what comes behind them. -/
theorem readDigits_split (read : Decimal.readDigits s = (whole, fraction, rest)) :
    (∀ c ∈ whole, c.isDigit = true) ∧ (∀ c ∈ fraction, c.isDigit = true) ∧
      (fraction = [] ∧ s = whole ++ rest ∨ s = whole ++ '.' :: (fraction ++ rest)) := by
  have parts := List.takeWhile_append_dropWhile (p := Char.isDigit) (l := s)
  rw [Decimal.readDigits] at read
  split at read
  · next behind point =>
      cases read
      have parts' := List.takeWhile_append_dropWhile (p := Char.isDigit) (l := behind)
      refine ⟨fun c => List.mem_takeWhile_imp, fun c => List.mem_takeWhile_imp, .inr ?_⟩
      rw [parts', ← point, parts]
  · cases read
    exact ⟨fun c => List.mem_takeWhile_imp, by simp, .inl ⟨rfl, parts.symm⟩⟩

/-- What is taken apart as a decimal without a sign has the form of one. -/
theorem numeral_of_readDigits (read : Decimal.readDigits s = (whole, fraction, rest))
    (some_ : whole ≠ [] ∨ fraction ≠ []) (isExponent : ExponentPart rest) : Numeral s := by
  obtain ⟨all, all', ⟨rfl, rfl⟩ | rfl⟩ := readDigits_split read
  · exact .whole ⟨some_.resolve_right (absurd rfl), all⟩ isExponent
  · by_cases empty : whole = []
    · subst empty
      exact .fraction ⟨some_.resolve_left (absurd rfl), all'⟩ isExponent
    · exact .pointed ⟨empty, all⟩ all' isExponent

theorem decimal_of_read? {d : Decimal} (read : Decimal.read? s = some d) :
    s ∈ Form.decimal.matches' := by
  obtain ⟨sign, signs, split_⟩ := readSign_split s
  cases signed : Decimal.readSign s with
  | mk negative t =>
      cases digits : Decimal.readDigits t with
      | mk whole behind =>
          obtain ⟨fraction, rest⟩ := behind
          rw [signed] at split_
          simp only [Decimal.read?, signed, digits] at read
          split at read
          · cases read
          · next some_ =>
              obtain ⟨n, isExponent, -⟩ := Option.map_eq_some_iff.mp read
              have isNumeral : Numeral t :=
                numeral_of_readDigits digits (by simpa [or_iff_not_imp_left] using some_)
                  (exponentPart_of_readExponent? isExponent)
              exact mem_mul.mpr
                ⟨sign, mem_sign.mpr signs, t, mem_unsigned.mpr isNumeral, split_.symm⟩

theorem numeral_head {u : List Char} (isNumeral : Numeral u) :
    ∀ c ∈ u.head?, c ≠ '-' ∧ c ≠ '+' := by
  cases isNumeral with
  | whole isDigits _ | pointed isDigits _ _ =>
      exact Grammar.unsigned_digits isDigits.2 _ isDigits.1
  | fraction _ _ => simp

theorem readSign_append {sign u : List Char} (signs : sign ∈ [[], ['+'], ['-']])
    (unsigned : ∀ c ∈ u.head?, c ≠ '-' ∧ c ≠ '+') :
    Decimal.readSign (sign ++ u) = (decide (sign = ['-']), u) := by
  simp only [List.mem_cons, List.not_mem_nil, or_false] at signs
  rcases signs with rfl | rfl | rfl
  · exact Grammar.readSign_eq unsigned
  · rfl
  · rfl

/-- A sign in front of a decimal changes the sign of its value only. -/
theorem read?_sign {sign u : List Char} {d : Decimal} (signs : sign ∈ [[], ['+'], ['-']])
    (isNumeral : Numeral u) (read : Decimal.read? u = some d) :
    Decimal.read? (sign ++ u) = some { d with negative := sign = ['-'] } := by
  have unsigned : Decimal.readSign u = (false, u) := Grammar.readSign_eq (numeral_head isNumeral)
  simp only [Decimal.read?, unsigned] at read
  simp only [Decimal.read?, readSign_append signs (numeral_head isNumeral)]
  split at read
  · cases read
  · next some_ =>
      obtain ⟨n, isExponent, rfl⟩ := Option.map_eq_some_iff.mp read
      rw [if_neg some_, isExponent]
      rfl

theorem exists_read? (matched : s ∈ Form.decimal.matches') : ∃ d, Decimal.read? s = some d := by
  obtain ⟨sign, signs, u, isNumeral, rfl⟩ := mem_mul.mp matched
  rw [mem_unsigned] at isNumeral
  obtain ⟨d, read⟩ := isNumeral.exists_value
  exact ⟨_, read?_sign (mem_sign.mp signs) isNumeral read⟩

theorem not_decimal_of_read? (unread : Decimal.read? s = none) :
    s ∉ Form.decimal.matches' := by
  intro isDecimal
  obtain ⟨d, read⟩ := exists_read? isDecimal
  rw [unread] at read
  cases read

end Decimals

/-! ## Names -/

section Names

variable {s u : List Char}

theorem IsName.unsigned (isName : IsName u) : ∀ c ∈ u.head?, c ≠ '-' ∧ c ≠ '+' := by
  cases u with
  | nil => simp
  | cons c u =>
      rintro d first
      obtain rfl : c = d := by simpa using first
      constructor
      · rintro rfl
        simp [IsName] at isName
      · rintro rfl
        simp [IsName] at isName

/-- Every name has an `n` in it, which no decimal has. -/
theorem IsName.exists_not_isNumeric (isName : IsName u) : ∃ c ∈ u, isNumeric c = false := by
  have lower : 'n' ∈ u.map Char.toLower := by
    simp only [IsName, List.mem_cons, List.not_mem_nil, or_false] at isName
    rcases isName with same | same | same
    · simp [same]
    · simp [same]
    · simp [same]
  obtain ⟨c, member, isN⟩ := List.mem_map.mp lower
  rcases (Text.toLower_eq_iff (d := 'n') (by simp) c).mp isN with rfl | rfl
  · exact ⟨_, member, by decide⟩
  · exact ⟨_, member, by decide⟩

theorem mem_named_iff_readSign : s ∈ Form.named.matches' ↔ IsName (Decimal.readSign s).2 := by
  rw [mem_named]
  constructor
  · rintro ⟨sign, signs, u, isName, rfl⟩
    rwa [readSign_append signs isName.unsigned]
  · intro isName
    obtain ⟨sign, signs, split_⟩ := readSign_split s
    exact ⟨sign, signs, _, isName, split_.symm⟩

/-- What can be read is a decimal or a name. -/
theorem isSome_read?_iff : (read? s).isSome = true ↔
    s ∈ Form.decimal.matches' ∨ s ∈ Form.named.matches' := by
  rw [mem_named_iff_readSign]
  cases read : Decimal.read? s with
  | some d =>
      rw [read?_of_decimal read]
      exact iff_of_true rfl (.inl (decimal_of_read? read))
  | none =>
      rw [or_iff_right (not_decimal_of_read? read), read?, read]
      simp only [IsName, List.mem_cons, List.not_mem_nil, or_false, Bool.or_eq_true,
        decide_eq_true_eq]
      split
      · next isInfinity => exact iff_of_true rfl (or_assoc.mp (.inl isInfinity))
      · next noInfinity =>
          rw [← or_assoc, or_iff_right noInfinity]
          split
          · next isNan => exact iff_of_true rfl isNan
          · next noNan => exact iff_of_false (by simp) noNan

end Names

/-! ## Characters -/

section Characters

variable {s u : List Char}

theorem isNumeric_iff_mem {c : Char} : isNumeric c = true ↔ c ∈ "0123456789+-.eE".toList := by
  have split_ : "0123456789+-.eE".toList = "0123456789".toList ++ "+-.eE".toList := rfl
  rw [isNumeric, split_, Bool.or_eq_true, isDigit_iff_mem, List.contains_iff_mem, List.mem_append]

theorem isNumeric_of_isDigit {c : Char} (digit : c.isDigit = true) : isNumeric c = true := by
  rw [isNumeric, digit, Bool.true_or]

theorem isBlank_of_isNumeric {c : Char} (numeric : isNumeric c = true) :
    Text.isBlank c = false := by
  have all : ∀ c ∈ "0123456789+-.eE".toList, (!Text.isBlank c) = true := List.all_eq_true.mp rfl
  simpa using all c (isNumeric_iff_mem.mp numeric)

theorem isBlank_of_isDigit {c : Char} (digit : c.isDigit = true) : Text.isBlank c = false :=
  isBlank_of_isNumeric (isNumeric_of_isDigit digit)

theorem sign_numeric {sign : List Char} (signs : sign ∈ [[], ['+'], ['-']]) :
    ∀ c ∈ sign, isNumeric c = true := by
  simp only [List.mem_cons, List.not_mem_nil, or_false] at signs
  rcases signs with rfl | rfl | rfl
  · simp
  · exact List.forall_mem_singleton.mpr rfl
  · exact List.forall_mem_singleton.mpr rfl

theorem exponentPart_numeric (isExponent : ExponentPart u) : ∀ c ∈ u, isNumeric c = true := by
  cases isExponent with
  | none => simp
  | @some e sign d mark signs isDigits =>
      rw [List.forall_mem_cons, List.forall_mem_append]
      refine ⟨?_, sign_numeric signs, fun c member => isNumeric_of_isDigit (isDigits.2 c member)⟩
      simp only [Bool.or_eq_true, beq_iff_eq] at mark
      rcases mark with rfl | rfl <;> rfl

theorem numeral_numeric (isNumeral : Numeral u) : ∀ c ∈ u, isNumeric c = true := by
  cases isNumeral with
  | whole isDigits isExponent =>
      exact List.forall_mem_append.mpr ⟨fun c member => isNumeric_of_isDigit (isDigits.2 c member),
        exponentPart_numeric isExponent⟩
  | pointed isDigits all isExponent =>
      rw [List.forall_mem_append, List.forall_mem_cons, List.forall_mem_append]
      exact ⟨fun c member => isNumeric_of_isDigit (isDigits.2 c member), rfl,
        fun c member => isNumeric_of_isDigit (all c member), exponentPart_numeric isExponent⟩
  | fraction isDigits isExponent =>
      rw [List.forall_mem_cons, List.forall_mem_append]
      exact ⟨rfl, fun c member => isNumeric_of_isDigit (isDigits.2 c member),
        exponentPart_numeric isExponent⟩

/-- Every decimal is let through. -/
theorem all_isNumeric_of_decimal (matched : s ∈ Form.decimal.matches') :
    s.all isNumeric = true := by
  obtain ⟨sign, signs, u, isNumeral, rfl⟩ := mem_mul.mp matched
  rw [mem_unsigned] at isNumeral
  exact List.all_eq_true.mpr (List.forall_mem_append.mpr
    ⟨sign_numeric (mem_sign.mp signs), numeral_numeric isNumeral⟩)

/-- Every name is kept out. -/
theorem all_isNumeric_of_named (matched : s ∈ Form.named.matches') : s.all isNumeric = false := by
  obtain ⟨sign, signs, u, isName, rfl⟩ := mem_named.mp matched
  obtain ⟨c, member, other⟩ := isName.exists_not_isNumeric
  exact List.all_eq_false.mpr ⟨c, List.mem_append_right sign member, by simp [other]⟩

/-- Of what can be read, the characters let the decimals through and nothing else. -/
theorem mem_decimal_iff : s ∈ Form.decimal.matches' ↔
    (read? s).isSome = true ∧ s.all isNumeric = true := by
  rw [isSome_read?_iff]
  constructor
  · exact fun isDecimal => ⟨.inl isDecimal, all_isNumeric_of_decimal isDecimal⟩
  · rintro ⟨isDecimal | isNamed, numeric⟩
    · exact isDecimal
    · rw [all_isNumeric_of_named isNamed] at numeric
      cases numeric

/-- Of what can be read, the characters keep the names out and nothing else. -/
theorem mem_named_iff : s ∈ Form.named.matches' ↔
    (read? s).isSome = true ∧ s.all isNumeric = false := by
  rw [isSome_read?_iff]
  constructor
  · exact fun isNamed => ⟨.inr isNamed, all_isNumeric_of_named isNamed⟩
  · rintro ⟨isDecimal | isNamed, other⟩
    · rw [all_isNumeric_of_decimal isDecimal] at other
      cases other
    · exact isNamed

end Characters

/-! ## Numbers -/

theorem isNaN_infinity : ∀ negative, (infinity negative).isNaN = false := by
  decide

theorem isNaN_toFloat (d : Decimal) : d.toFloat.isNaN = false := by
  rw [Decimal.toFloat]
  split
  · exact isNaN_nearest _ _ _
  · dsimp only
    split
    · exact isNaN_infinity _
    · split
      · exact isNaN_nearest _ _ _
      · split <;> exact isNaN_nearest _ _ _

/-- A decimal is read as that. -/
theorem ofText_of_read? {text : String} {d : Decimal}
    (read : Decimal.read? text.toList = some d) : ofText text = d.toFloat := by
  have other : ∀ w, Decimal.read? w = none → text.toList ≠ w := by
    rintro w none_ rfl
    rw [read] at none_
    cases none_
  have numeric := all_isNumeric_of_decimal (decimal_of_read? read)
  have solid : ∀ c ∈ text.toList, Text.isBlank c = false := fun c member =>
    isBlank_of_isNumeric (List.all_eq_true.mp numeric c member)
  rw [ofText, Text.trim_of_solid solid, if_neg, if_neg, if_neg, if_pos numeric,
    read?_of_decimal read]
  · rfl
  · exact other _ (by decide)
  · simp only [Bool.or_eq_true, decide_eq_true_eq, not_or]
    exact ⟨other _ (by decide), other _ (by decide)⟩
  · rw [List.isEmpty_iff]
    exact other [] (by decide)

theorem mem_infinity {w : List Char} : w ∈ Form.infinity.matches' ↔
    (w = "Infinity".toList ∨ w = "+Infinity".toList) ∨ w = "-Infinity".toList := by
  simp only [Form.infinity, mem_mul, mem_sign, mem_word, exists_eq_left]
  constructor
  · rintro ⟨sign, signs, rfl⟩
    simp only [List.mem_cons, List.not_mem_nil, or_false] at signs
    rcases signs with rfl | rfl | rfl
    · exact .inl (.inl rfl)
    · exact .inl (.inr rfl)
    · exact .inr rfl
  · rintro ((rfl | rfl) | rfl)
    · exact ⟨[], by decide, rfl⟩
    · exact ⟨['+'], by decide, rfl⟩
    · exact ⟨['-'], by decide, rfl⟩

/-- What is let through and read as a number is a decimal. -/
theorem isNaN_filtered_iff (s : List Char) :
    (if s.all isNumeric then (read? s).getD nan else nan).isNaN = false ↔
      s ∈ Form.decimal.matches' := by
  split
  · next numeric =>
      cases read : Decimal.read? s with
      | some d =>
          rw [read?_of_decimal read]
          exact iff_of_true (isNaN_toFloat d) (decimal_of_read? read)
      | none =>
          have noDecimal := not_decimal_of_read? read
          have unread : read? s = none := by
            rw [← Option.not_isSome_iff_eq_none]
            exact fun found => noDecimal (mem_decimal_iff.mpr ⟨found, numeric⟩)
          rw [unread]
          exact iff_of_false (by decide) noDecimal
  · next other =>
      exact iff_of_false (by decide) fun isDecimal => other (all_isNumeric_of_decimal isDecimal)

/-- A text stands for a number exactly if it has the form of one. -/
theorem isNaN_ofText_iff (text : String) : (ofText text).isNaN = false ↔
    Text.trim text.toList = [] ∨ Text.trim text.toList ∈ Form.infinity.matches' ∨
      Text.trim text.toList ∈ Form.decimal.matches' := by
  rw [ofText, mem_infinity]
  generalize Text.trim text.toList = s
  simp only [Bool.or_eq_true, decide_eq_true_eq, List.isEmpty_iff]
  split
  · next empty => exact iff_of_true (isNaN_nearest _ _ _) (.inl empty)
  · next some_ =>
      split
      · next plain => exact iff_of_true (isNaN_infinity _) (.inr (.inl (.inl plain)))
      · next notPlain =>
          split
          · next minus => exact iff_of_true (isNaN_infinity _) (.inr (.inl (.inr minus)))
          · next notMinus =>
              rw [isNaN_filtered_iff, or_iff_right some_, or_iff_right (not_or.mpr
                ⟨notPlain, notMinus⟩)]

/-! ## Literals -/

/-- The literals of scripts are the decimals without a sign, and stand for what their texts do. -/
theorem outcome_number_iff (text : String) (x : Float) :
    Grammar.number.outcome text.toList = some (x, []) ↔
      text.toList ∈ Form.unsigned.matches' ∧ x = ofText text := by
  rw [mem_unsigned]
  constructor
  · intro accepted
    obtain ⟨u, d, isNumeral, read, rfl, whole⟩ := Grammar.number_of_outcome accepted
    rw [List.append_nil] at whole
    subst whole
    exact ⟨isNumeral, (ofText_of_read? read).symm⟩
  · rintro ⟨isNumeral, rfl⟩
    obtain ⟨d, read⟩ := isNumeral.exists_value
    have accepted := Grammar.outcome_number isNumeral read Grammar.apart_nil
    rw [List.append_nil] at accepted
    rw [accepted, ofText_of_read? read]

/-- A text stands for a number exactly if it is blank, an infinity or a decimal. Of the texts that
    can be read, the characters let exactly the decimals through and keep exactly the names of an
    infinity and of no number out. The literals of scripts are the decimals without a sign, each
    with the value that its text has. -/
theorem texts_of_numbers :
    (∀ text : String, (ofText text).isNaN = false ↔
      Text.trim text.toList = [] ∨ Text.trim text.toList ∈ Form.infinity.matches' ∨
        Text.trim text.toList ∈ Form.decimal.matches') ∧
    (∀ s : List Char, s ∈ Form.decimal.matches' ↔
      (read? s).isSome = true ∧ s.all isNumeric = true) ∧
    (∀ s : List Char, s ∈ Form.named.matches' ↔
      (read? s).isSome = true ∧ s.all isNumeric = false) ∧
    ∀ (text : String) (x : Float), Grammar.number.outcome text.toList = some (x, []) ↔
      text.toList ∈ Form.unsigned.matches' ∧ x = ofText text :=
  ⟨isNaN_ofText_iff, fun _ => mem_decimal_iff, fun _ => mem_named_iff, outcome_number_iff⟩

end LineScript.Number
