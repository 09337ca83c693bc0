import LineScript.Proofs.Grammar.Word

/-! # Literals

The texts of numbers and of quoted texts, and that they are read the same
wherever they stand: a literal is read in front of any text that does not go on
with it, and all that is ever read is a literal.
-/

namespace LineScript.Grammar

open Parse Parser

/-- A text that cannot go on with the literal in front of it. -/
def Apart (k : List Char) : Prop :=
  ∀ c ∈ k.head?, Name.isPart c = false ∧ c ≠ '.'

theorem apart_nil : Apart [] := by
  simp [Apart]

theorem apart_cons {c : Char} {k : List Char} : Apart (c :: k) ↔ Name.isPart c = false ∧ c ≠ '.' := by
  simp [Apart]

/-! ## Numbers -/

/-- One digit or more. -/
def IsDigits (d : List Char) : Prop :=
  d ≠ [] ∧ ∀ c ∈ d, c.isDigit = true

/-- An exponent or nothing. -/
inductive ExponentPart : List Char → Prop where
  | none : ExponentPart []
  | some {e sign d} : (e == 'e' || e == 'E') = true → sign ∈ [[], ['+'], ['-']] → IsDigits d →
      ExponentPart (e :: (sign ++ d))

/-- The texts of numbers: digits with a point among or after them, or a point and digits. -/
inductive Numeral : List Char → Prop where
  | whole {d x} : IsDigits d → ExponentPart x → Numeral (d ++ x)
  | pointed {d f x} : IsDigits d → (∀ c ∈ f, c.isDigit = true) → ExponentPart x →
      Numeral (d ++ '.' :: (f ++ x))
  | fraction {f x} : IsDigits f → ExponentPart x → Numeral ('.' :: (f ++ x))

instance : Advances digits := inferInstanceAs (Advances (char _ >>= _))

instance : Advances exponent := inferInstanceAs (Advances (char _ >>= _))

instance : Advances numeral :=
  have : Advances (word ".".toList) := advances_word (by decide)
  inferInstanceAs (Advances ((digits >>= _) <|> (word _ >>= _)))

theorem isDigit_of_isPart_false {c : Char} (part : Name.isPart c = false) : c.isDigit = false := by
  simp only [Name.isPart, Bool.or_eq_false_iff] at part
  exact part.2

private theorem split_digits {d k : List Char} (all : ∀ c ∈ d, c.isDigit = true)
    (stop : ∀ c ∈ k.head?, c.isDigit = false) :
    (d ++ k).takeWhile Char.isDigit = d ∧ (d ++ k).dropWhile Char.isDigit = k := by
  rw [List.takeWhile_append_of_pos all, List.dropWhile_append_of_pos all]
  cases k with
  | nil => simp
  | cons c k => simp [stop c (by simp)]

theorem outcome_digits {d k : List Char} (isDigits : IsDigits d)
    (stop : ∀ c ∈ k.head?, c.isDigit = false) : digits.outcome (d ++ k) = some ((), k) := by
  obtain ⟨nonempty, all⟩ := isDigits
  cases d with
  | nil => exact absurd rfl nonempty
  | cons c d =>
      have tail : ∀ c ∈ d, c.isDigit = true := fun c member => all c (by simp [member])
      simp [digits, all c (by simp), (split_digits tail stop).2]

theorem digits_of_outcome {s rest : List Char} (read : digits.outcome s = some ((), rest)) :
    ∃ d, IsDigits d ∧ s = d ++ rest := by
  obtain ⟨c, mid, first, more⟩ := bind_success read
  obtain ⟨isDigit, rfl⟩ := char_success first
  rw [outcome_skipWhile] at more
  cases more
  refine ⟨c :: mid.takeWhile Char.isDigit, ⟨by simp, ?_⟩, ?_⟩
  · intro d member
    rcases List.mem_cons.mp member with rfl | member
    · exact isDigit
    · exact List.mem_takeWhile_imp member
  · rw [List.cons_append, List.takeWhile_append_dropWhile]

theorem digits_eq_none {c : Char} {s : List Char} (other : c.isDigit = false) :
    digits.outcome (c :: s) = none := by
  simp [digits, other]

private theorem apart_stop {k : List Char} (apart : Apart k) : ∀ c ∈ k.head?, c.isDigit = false :=
  fun c member => isDigit_of_isPart_false (apart c member).1

theorem outcome_exponent {e : Char} {sign d k : List Char} (mark : (e == 'e' || e == 'E') = true)
    (signs : sign ∈ [[], ['+'], ['-']]) (isDigits : IsDigits d)
    (stop : ∀ c ∈ k.head?, c.isDigit = false) :
    exponent.outcome (e :: (sign ++ d ++ k)) = some ((), k) := by
  have read := outcome_digits isDigits stop
  simp only [exponent, outcome_bind, outcome_char_cons, mark, if_true, Option.bind_some,
    outcome_optional]
  simp only [List.mem_cons, List.not_mem_nil, or_false] at signs
  rcases signs with rfl | rfl | rfl
  · -- Without a sign the first digit stands there.
    obtain ⟨nonempty, all⟩ := isDigits
    cases d with
    | nil => exact absurd rfl nonempty
    | cons c d =>
        have digit := all c (by simp)
        have noSign : (c == '+' || c == '-') = false := by
          rw [Bool.or_eq_false_iff, beq_eq_false_iff_ne, beq_eq_false_iff_ne]
          constructor <;> rintro rfl <;> simp at digit
        simp only [List.nil_append, List.cons_append, outcome_char_cons, noSign]
        exact read
  · simpa using read
  · simpa using read

theorem outcome_optional_exponent {x k : List Char} (isExponent : ExponentPart x) (apart : Apart k) :
    ∃ found, (optional exponent).outcome (x ++ k) = some (found, k) := by
  cases isExponent with
  | none =>
      refine ⟨none, ?_⟩
      have missed : exponent.outcome k = none := by
        cases k with
        | nil => rfl
        | cons c k =>
            have other : (c == 'e' || c == 'E') = false := by
              rw [Bool.or_eq_false_iff, beq_eq_false_iff_ne, beq_eq_false_iff_ne]
              constructor <;> rintro rfl <;> simp [apart_cons] at apart <;> revert apart <;> decide
            simp [exponent, other]
      simp [missed]
  | some mark signs isDigits =>
      refine ⟨some (), ?_⟩
      have read := outcome_exponent mark signs isDigits (apart_stop apart)
      rw [outcome_optional, List.cons_append, read]
      rfl

theorem exponent_of_outcome {s rest : List Char} (read : exponent.outcome s = some ((), rest)) :
    ∃ x, ExponentPart x ∧ s = x ++ rest := by
  obtain ⟨e, s₁, first, read₁⟩ := bind_success read
  obtain ⟨sign, s₂, second, read₂⟩ := bind_success read₁
  obtain ⟨mark, rfl⟩ := char_success first
  obtain ⟨d, isDigits, rfl⟩ := digits_of_outcome read₂
  rcases optional_success second with ⟨c, -, signed⟩ | ⟨-, rfl, -⟩
  · obtain ⟨isSign, rfl⟩ := char_success signed
    exact ⟨e :: ([c] ++ d), .some mark (by simpa using isSign) isDigits, by simp⟩
  · exact ⟨e :: ([] ++ d), .some mark (by simp) isDigits, by simp⟩

private theorem exponent_optional {s rest : List Char} {found : Option Unit}
    (read : (optional exponent).outcome s = some (found, rest)) :
    ∃ x, ExponentPart x ∧ s = x ++ rest := by
  rcases optional_success read with ⟨⟨⟩, -, one⟩ | ⟨-, rfl, -⟩
  · exact exponent_of_outcome one
  · exact ⟨[], .none, rfl⟩

private theorem fraction_optional {s rest : List Char} {found : Option Unit}
    (read : (optional digits).outcome s = some (found, rest)) :
    ∃ f, (∀ c ∈ f, c.isDigit = true) ∧ s = f ++ rest := by
  rcases optional_success read with ⟨⟨⟩, -, one⟩ | ⟨-, rfl, -⟩
  · obtain ⟨d, isDigits, rfl⟩ := digits_of_outcome one
    exact ⟨d, isDigits.2, rfl⟩
  · exact ⟨[], by simp, rfl⟩

/-- All that is read as the text of a number is one. -/
theorem numeral_of_outcome {s rest : List Char} (read : numeral.outcome s = some ((), rest)) :
    ∃ u, Numeral u ∧ s = u ++ rest := by
  rcases choice_success read with read₀ | ⟨-, read₀⟩
  · obtain ⟨⟨⟩, s₁, whole, read₁⟩ := bind_success read₀
    obtain ⟨point, s₂, pointed, read₂⟩ := bind_success read₁
    obtain ⟨found, s₃, last, same⟩ := bind_success read₂
    cases same
    obtain ⟨d, isDigits, rfl⟩ := digits_of_outcome whole
    obtain ⟨x, isExponent, rfl⟩ := exponent_optional last
    rcases optional_success pointed with ⟨a, -, pointed⟩ | ⟨-, rfl, -⟩
    · obtain ⟨⟨⟩, s₄, dot, fraction⟩ := bind_success pointed
      obtain ⟨f, digits, rfl⟩ := fraction_optional fraction
      refine ⟨d ++ '.' :: (f ++ x), .pointed isDigits digits isExponent, ?_⟩
      rw [word_success dot]
      simp
    · exact ⟨d ++ x, .whole isDigits isExponent, by simp⟩
  · obtain ⟨⟨⟩, s₁, dot, read₁⟩ := bind_success read₀
    obtain ⟨⟨⟩, s₂, fraction, read₂⟩ := bind_success read₁
    obtain ⟨found, s₃, last, same⟩ := bind_success read₂
    cases same
    obtain ⟨f, isDigits, rfl⟩ := digits_of_outcome fraction
    obtain ⟨x, isExponent, rfl⟩ := exponent_optional last
    refine ⟨'.' :: (f ++ x), .fraction isDigits isExponent, ?_⟩
    rw [word_success dot]
    simp

private theorem exponentPart_stop {x k : List Char} (isExponent : ExponentPart x)
    (apart : Apart k) : ∀ c ∈ (x ++ k).head?, c.isDigit = false ∧ c ≠ '.' := by
  cases isExponent with
  | none => exact fun c member => ⟨apart_stop apart c member, (apart c member).2⟩
  | @some e sign d mark signs isDigits =>
      intro c member
      simp only [List.cons_append, List.head?_cons, Option.mem_some_iff] at member
      subst member
      simp only [Bool.or_eq_true, beq_iff_eq] at mark
      rcases mark with rfl | rfl <;> decide

private theorem outcome_point (s : List Char) :
    (word ".".toList).outcome ('.' :: s) = some ((), s) := by
  simp [Text.after?]

private theorem outcome_fraction {f s : List Char} (all : ∀ c ∈ f, c.isDigit = true)
    (stop : ∀ c ∈ s.head?, c.isDigit = false) :
    ∃ found, (optional digits).outcome (f ++ s) = some (found, s) := by
  cases f with
  | nil =>
      refine ⟨none, pass_optional ?_⟩
      cases s with
      | nil => rfl
      | cons c s => exact digits_eq_none (stop c (by simp))
  | cons c f => exact ⟨some (), run_optional (outcome_digits ⟨by simp, all⟩ stop)⟩

/-- The text of a number is read in front of any text apart from it. -/
theorem outcome_numeral {u k : List Char} (isNumeral : Numeral u) (apart : Apart k) :
    numeral.outcome (u ++ k) = some ((), k) := by
  cases isNumeral with
  | @whole d x isDigits isExponent =>
      obtain ⟨found, last⟩ := outcome_optional_exponent isExponent apart
      have stop := exponentPart_stop isExponent apart
      have noPoint : (word ".".toList).outcome (x ++ k) = none := by
        cases xk : x ++ k with
        | nil => rfl
        | cons c s =>
            have other := (stop c (by simp [xk])).2
            simp [Text.after?, Ne.symm other]
      rw [List.append_assoc]
      apply run_choice
      rw [run_bind (outcome_digits isDigits fun c member => (stop c member).1),
        run_bind (pass_optional (stop_bind noPoint)), run_bind last]
      rfl
  | @pointed d f x isDigits all isExponent =>
      obtain ⟨found, last⟩ := outcome_optional_exponent isExponent apart
      have stop := exponentPart_stop isExponent apart
      obtain ⟨found', fraction⟩ := outcome_fraction all fun c member => (stop c member).1
      have pointed : (do word ".".toList; optional digits).outcome ('.' :: (f ++ (x ++ k))) =
          some (found', x ++ k) := by
        rw [run_bind (outcome_point _), fraction]
      rw [List.append_assoc, List.cons_append, List.append_assoc]
      apply run_choice
      rw [run_bind (outcome_digits isDigits (by simp)), run_bind (run_optional pointed),
        run_bind last]
      rfl
  | @fraction f x isDigits isExponent =>
      obtain ⟨found, last⟩ := outcome_optional_exponent isExponent apart
      have stop := exponentPart_stop isExponent apart
      rw [List.cons_append, List.append_assoc, numeral,
        next_choice (stop_bind (digits_eq_none (by decide))), run_bind (outcome_point _),
        run_bind (outcome_digits isDigits fun c member => (stop c member).1), run_bind last]
      rfl

section Value

open Number

theorem readSign_eq {u : List Char} (unsigned : ∀ c ∈ u.head?, c ≠ '-' ∧ c ≠ '+') :
    Decimal.readSign u = (false, u) := by
  cases u with
  | nil => rfl
  | cons c u =>
      have other := unsigned c (by simp)
      unfold Decimal.readSign
      split <;> simp_all

theorem unsigned_digits {d : List Char} (all : ∀ c ∈ d, c.isDigit = true) (k : List Char)
    (nonempty : d ≠ []) : ∀ c ∈ (d ++ k).head?, c ≠ '-' ∧ c ≠ '+' := by
  cases d with
  | nil => exact absurd rfl nonempty
  | cons e d =>
      rintro _ ⟨⟩
      have digit := all e (by simp)
      constructor <;> rintro rfl <;> revert digit <;> decide

private theorem readExponent?_part {x : List Char} (isExponent : ExponentPart x) :
    ∃ n, Decimal.readExponent? x = some n := by
  cases isExponent with
  | none => exact ⟨0, rfl⟩
  | @some e sign d mark signs isDigits =>
      obtain ⟨nonempty, all⟩ := isDigits
      have marked : e = 'e' ∨ e = 'E' := by simpa using mark
      have digits : (d.isEmpty || !d.all Char.isDigit) = false := by
        rw [List.all_eq_true.mpr all]
        simp [nonempty]
      have sized : ∃ negative, Decimal.readSign (sign ++ d) = (negative, d) := by
        simp only [List.mem_cons, List.not_mem_nil, or_false] at signs
        rcases signs with rfl | rfl | rfl
        · refine ⟨false, readSign_eq ?_⟩
          simpa using unsigned_digits all [] nonempty
        · exact ⟨false, rfl⟩
        · exact ⟨true, rfl⟩
      obtain ⟨negative, sized⟩ := sized
      rw [Decimal.readExponent?, if_pos marked, sized]
      cases negative <;> simp [digits]

theorem readDigits_whole {d x : List Char} (all : ∀ c ∈ d, c.isDigit = true)
    (stop : ∀ c ∈ x.head?, c.isDigit = false ∧ c ≠ '.') :
    Decimal.readDigits (d ++ x) = (d, [], x) := by
  obtain ⟨whole, rest⟩ := split_digits all fun c member => (stop c member).1
  rw [Decimal.readDigits, whole, rest]
  split
  · next s _ => exact absurd rfl (stop '.' rfl).2
  · rfl

private theorem readDigits_pointed {d f x : List Char} (all : ∀ c ∈ d, c.isDigit = true)
    (all' : ∀ c ∈ f, c.isDigit = true) (stop : ∀ c ∈ x.head?, c.isDigit = false ∧ c ≠ '.') :
    Decimal.readDigits (d ++ '.' :: (f ++ x)) = (d, f, x) := by
  obtain ⟨whole, rest⟩ := split_digits (k := '.' :: (f ++ x)) all (by simp)
  obtain ⟨fraction, rest'⟩ := split_digits all' fun c member => (stop c member).1
  simp only [Decimal.readDigits, whole, rest, fraction, rest']

private theorem read?_of_parts {u whole fraction rest : List Char}
    (unsigned : ∀ c ∈ u.head?, c ≠ '-' ∧ c ≠ '+')
    (parts : Decimal.readDigits u = (whole, fraction, rest))
    (nonempty : whole ≠ [] ∨ fraction ≠ []) (isExponent : ExponentPart rest) :
    ∃ d, Decimal.read? u = some d := by
  obtain ⟨n, exponent⟩ := readExponent?_part isExponent
  have some_ : (whole.isEmpty && fraction.isEmpty) = false := by
    rcases nonempty with whole | fraction
    · simp [whole]
    · simp [fraction]
  simp [Decimal.read?, readSign_eq unsigned, parts, some_, exponent]

/-- Every text of a number has a value. -/
theorem Numeral.exists_value {u : List Char} (isNumeral : Numeral u) :
    ∃ d, Decimal.read? u = some d := by
  have stop : ∀ {x}, ExponentPart x → ∀ c ∈ x.head?, c.isDigit = false ∧ c ≠ '.' := by
    intro x isExponent
    simpa using exponentPart_stop isExponent apart_nil
  cases isNumeral with
  | whole isDigits isExponent =>
      exact read?_of_parts (unsigned_digits isDigits.2 _ isDigits.1)
        (readDigits_whole isDigits.2 (stop isExponent)) (.inl isDigits.1) isExponent
  | pointed isDigits all isExponent =>
      exact read?_of_parts (unsigned_digits isDigits.2 _ isDigits.1)
        (readDigits_pointed isDigits.2 all (stop isExponent)) (.inl isDigits.1) isExponent
  | fraction isDigits isExponent =>
      exact read?_of_parts (by simp) (readDigits_pointed (d := []) nofun isDigits.2 (stop isExponent))
        (.inr isDigits.1) isExponent

end Value

theorem outcome_number {u k : List Char} {d : Number.Decimal} (isNumeral : Numeral u)
    (value : Number.Decimal.read? u = some d) (apart : Apart k) :
    number.outcome (u ++ k) = some (d.toFloat, k) := by
  have noName : (char Name.isStart).outcome k = none := by
    cases k with
    | nil => rfl
    | cons c k =>
        have part := (apart_cons.mp apart).1
        simp only [Name.isPart, Bool.or_eq_false_iff] at part
        simp [part.1]
  rw [number, outcome_expecting, run_bind (outcome_slice_append (outcome_numeral isNumeral apart)),
    run_bind (run_absent noName), Number.read?_of_decimal value]
  rfl

theorem number_of_outcome {s rest : List Char} {x : Float}
    (read : number.outcome s = some (x, rest)) :
    ∃ u d, Numeral u ∧ Number.Decimal.read? u = some d ∧ x = d.toFloat ∧ s = u ++ rest := by
  rw [number, outcome_expecting] at read
  obtain ⟨text, s₁, sliced, read₁⟩ := bind_success read
  obtain ⟨⟨⟩, s₂, last, read₂⟩ := bind_success read₁
  obtain ⟨rfl, -⟩ := absent_success last
  obtain ⟨⟨⟩, one, rfl⟩ := slice_success sliced
  obtain ⟨u, isNumeral, rfl⟩ := numeral_of_outcome one
  rw [List.length_append, Nat.add_sub_cancel, List.take_left] at read₂
  obtain ⟨d, value⟩ := isNumeral.exists_value
  rw [Number.read?_of_decimal value] at read₂
  cases read₂
  exact ⟨u, d, isNumeral, value, rfl, rfl⟩

theorem Numeral.ne_nil {u : List Char} (isNumeral : Numeral u) : u ≠ [] := by
  cases isNumeral with
  | whole isDigits _ => simp [isDigits.1]
  | pointed isDigits _ _ => simp
  | fraction isDigits _ => simp

instance : Advances number where
  suffix read := by
    obtain ⟨u, d, -, -, -, rfl⟩ := number_of_outcome read
    exact List.suffix_append u _
  shorter read := by
    obtain ⟨u, d, isNumeral, -, -, rfl⟩ := number_of_outcome read
    have := List.length_pos_iff.mpr isNumeral.ne_nil
    rw [List.length_append]
    omega

/-- A number starts with a digit or a point. -/
theorem number_eq_none {c : Char} {s : List Char} (digit : c.isDigit = false) (point : c ≠ '.') :
    number.outcome (c :: s) = none := by
  have none_ : numeral.outcome (c :: s) = none := by
    rw [numeral, next_choice (stop_bind (digits_eq_none digit))]
    apply stop_bind
    simp [Text.after?, Ne.symm point]
  rw [number, outcome_expecting]
  apply stop_bind
  rw [outcome_slice, none_]
  rfl

/-! ## Texts -/

/-- The character that four digits of base sixteen at the front stand for. -/
def unicodeOf? (s : List Char) : Option (Char × List Char) :=
  if 4 ≤ s.length ∧ (s.take 4).all isHex then (hexChar? (s.take 4)).map fun c => (c, s.drop 4)
  else none

/-- What stands behind a backslash for the character `c`, the text `follow` coming next. A `u`
    stands for itself where no digits make an escape of it. -/
inductive Escaped : List Char → Char → List Char → Prop where
  | control {x c follow} : (x, c) ∈ [('n', '\n'), ('t', '\t'), ('r', '\r'), ('0', '\x00')] →
      Escaped [x] c follow
  | unicode {h c follow} : h.length = 4 → h.all isHex = true → hexChar? h = some c →
      Escaped ('u' :: h) c follow
  | self {c follow} : c ∉ ['n', 't', 'r', '0', '\n'] → (c = 'u' → unicodeOf? follow = none) →
      Escaped [c] c follow

/-- What stands between two quotes `q` for the given characters. -/
inductive Quoted (q : Char) : List Char → List Char → Prop where
  | nil : Quoted q [] []
  | plain {c s cs} : (c != q && c != '\\' && c != '\n') = true → Quoted q s cs →
      Quoted q (c :: s) (c :: cs)
  | escaped {e c s cs} : Escaped e c (s ++ [q]) → Quoted q s cs → Quoted q ('\\' :: (e ++ s)) (c :: cs)

private theorem outcome_exactly (t : Terminal) (p : Char → Bool) (n : Nat) (s : List Char) :
    (exactly n (oneOf t p)).outcome s =
      if n ≤ s.length ∧ (s.take n).all p then some (s.take n, s.drop n) else none := by
  induction n generalizing s with
  | zero => simp [exactly]
  | succ n ih =>
      cases s with
      | nil => simp [exactly]
      | cons c s =>
          by_cases inside : p c = true
          · have first : (oneOf t p).outcome (c :: s) = some (c, s) := by simp [inside]
            rw [exactly, run_bind first, outcome_bind, ih]
            by_cases rest : n ≤ s.length ∧ (s.take n).all p = true
            · rw [if_pos rest, if_pos]
              · rfl
              · simpa [inside] using rest
            · rw [if_neg rest, if_neg]
              · rfl
              · simpa [inside] using rest
          · simp [exactly, inside]

theorem outcome_unicodeEscape (s : List Char) : unicodeEscape.outcome ('u' :: s) = unicodeOf? s := by
  have mark : (token .escapeU).outcome ('u' :: s) = some ((), s) := run_token .escapeU s
  rw [unicodeEscape, run_bind mark, outcome_bind, outcome_exactly, unicodeOf?]
  by_cases digits : 4 ≤ s.length ∧ (s.take 4).all isHex = true
  · rw [if_pos digits, if_pos digits, Option.bind_some]
    cases hexChar? (s.take 4) <;> simp
  · rw [if_neg digits, if_neg digits]
    rfl

/-- The digits of an escape cannot lie behind a character that is none. -/
theorem unicodeOf?_append {q : Char} (noHex : isHex q = false) (s k : List Char) :
    unicodeOf? (s ++ q :: k) = (unicodeOf? s).map fun x => (x.1, x.2 ++ q :: k) := by
  by_cases long : 4 ≤ s.length
  · have take : (s ++ q :: k).take 4 = s.take 4 := List.take_append_of_le_length long
    have drop : (s ++ q :: k).drop 4 = s.drop 4 ++ q :: k := List.drop_append_of_le_length long
    have long' : 4 ≤ (s ++ q :: k).length := by rw [List.length_append]; omega
    simp only [unicodeOf?, take, drop, long, long', true_and]
    split
    · cases hexChar? (s.take 4) <;> rfl
    · rfl
  · have inside : q ∈ (s ++ q :: k).take 4 := by
      rw [List.take_append]
      obtain ⟨n, eq⟩ : ∃ n, 4 - s.length = n + 1 := ⟨3 - s.length, by omega⟩
      simp [eq]
    have notAll : ¬ ((s ++ q :: k).take 4).all isHex = true := by
      intro all
      have := List.all_eq_true.mp all q inside
      simp [noHex] at this
    simp [unicodeOf?, long, notAll]

theorem Escaped.change_follow {e : List Char} {c q : Char} {s k k' : List Char}
    (noHex : isHex q = false) (escaped : Escaped e c (s ++ q :: k)) :
    Escaped e c (s ++ q :: k') := by
  cases escaped with
  | control member => exact .control member
  | unicode length all value => exact .unicode length all value
  | self other bare =>
      refine .self other fun isU => ?_
      have none_ := bare isU
      rw [unicodeOf?_append noHex, Option.map_eq_none_iff] at none_ ⊢
      exact none_

/-- An escape is read in front of the text it was written before. -/
theorem outcome_escape {e : List Char} {c : Char} {follow : List Char}
    (escaped : Escaped e c follow) : escape.outcome (e ++ follow) = some (c, follow) := by
  cases escaped with
  | control member =>
      simp only [List.mem_cons, Prod.mk.injEq, List.not_mem_nil, or_false] at member
      rcases member with ⟨rfl, rfl⟩ | ⟨rfl, rfl⟩ | ⟨rfl, rfl⟩ | ⟨rfl, rfl⟩ <;> rfl
  | @unicode h c follow length all value =>
      have read : unicodeOf? (h ++ follow) = some (c, follow) := by
        have long : 4 ≤ (h ++ follow).length := by rw [List.length_append]; omega
        rw [unicodeOf?, List.take_left' length, List.drop_left' length, if_pos ⟨long, all⟩, value]
        rfl
      rw [escape, List.cons_append, next_choice (stop_bind (miss_token rfl (by decide))),
        next_choice (stop_bind (miss_token rfl (by decide))),
        next_choice (stop_bind (miss_token rfl (by decide))),
        next_choice (stop_bind (miss_token rfl (by decide)))]
      apply run_choice
      rw [outcome_unicodeEscape, read]
  | self other bare =>
      simp only [List.mem_cons, List.not_mem_nil, or_false, not_or] at other
      obtain ⟨n, t, r, zero, line⟩ := other
      have noUnicode : unicodeEscape.outcome (c :: follow) = none := by
        by_cases isU : c = 'u'
        · subst isU
          rw [outcome_unicodeEscape, bare rfl]
        · exact stop_bind (miss_token rfl isU)
      rw [escape, List.singleton_append, next_choice (stop_bind (miss_token rfl n)),
        next_choice (stop_bind (miss_token rfl t)), next_choice (stop_bind (miss_token rfl r)),
        next_choice (stop_bind (miss_token rfl zero)), next_choice noUnicode]
      simp [line]

/-- All that is read behind a backslash is an escape. -/
theorem escape_of_outcome {s rest : List Char} {c : Char}
    (read : escape.outcome s = some (c, rest)) : ∃ e, e ≠ [] ∧ Escaped e c rest ∧ s = e ++ rest := by
  rw [escape] at read
  have control : ∀ {t : Token} (x : Char) {d : Char},
      t.spelling = [x] → (x, d) ∈ [('n', '\n'), ('t', '\t'), ('r', '\r'), ('0', '\x00')] →
      (do token t; return d : Parser Char).outcome s = some (c, rest) →
      ∃ e, e ≠ [] ∧ Escaped e c rest ∧ s = e ++ rest := by
    intro t x d spelled member first
    obtain ⟨⟨⟩, s₁, mark, same⟩ := bind_success first
    cases same
    exact ⟨[x], by simp, .control member, spelled ▸ token_success mark⟩
  rcases choice_success read with first | ⟨n, read⟩
  · exact control 'n' rfl (by simp) first
  rcases choice_success read with first | ⟨t, read⟩
  · exact control 't' rfl (by simp) first
  rcases choice_success read with first | ⟨r, read⟩
  · exact control 'r' rfl (by simp) first
  rcases choice_success read with first | ⟨zero, read⟩
  · exact control '0' rfl (by simp) first
  rcases choice_success read with first | ⟨noUnicode, last⟩
  · obtain ⟨⟨⟩, s₁, mark, -⟩ := bind_success first
    obtain rfl := token_success mark
    have value : unicodeOf? s₁ = some (c, rest) := (outcome_unicodeEscape s₁).symm.trans first
    rw [unicodeOf?] at value
    split at value
    · next digits =>
        obtain ⟨d, hex, same⟩ := Option.map_eq_some_iff.mp value
        cases same
        refine ⟨'u' :: s₁.take 4, by simp, .unicode ?_ digits.2 hex, ?_⟩
        · rw [List.length_take]
          omega
        · rw [List.cons_append, List.take_append_drop]
          rfl
    · cases value
  · -- The escape is a plain character, since the readings before this one have failed.
    rw [oneOf, outcome_expecting] at last
    obtain ⟨plain, rfl⟩ := char_success last
    have other : ∀ {t : Token} {x d : Char}, t.spelling = [x] →
        (do token t; return d : Parser Char).outcome (c :: rest) = none → c ≠ x := by
      rintro t x d spelled missed rfl
      have mark : (token t).outcome (c :: rest) = some ((), rest) := by
        simpa [spelled] using run_token t rest
      rw [run_bind mark] at missed
      cases missed
    refine ⟨[c], by simp, .self ?_ ?_, rfl⟩
    · simp only [List.mem_cons, List.not_mem_nil, or_false, not_or]
      exact ⟨other rfl n, other rfl t, other rfl r, other rfl zero, by simpa using plain⟩
    · rintro rfl
      rw [← outcome_unicodeEscape, noUnicode]

section TextChar

variable {t : Terminal} {q : Char}

/-- One character between quotes `q`. -/
abbrev quotedChar (t : Terminal) (q : Char) : Parser Char :=
  textChar t fun c => c != q && c != '\\' && c != '\n'

/-- All that is read between quotes is a plain character or an escape. -/
theorem quotedChar_cases {s rest : List Char} {c : Char}
    (read : (quotedChar t q).outcome s = some (c, rest)) :
    ((c != q && c != '\\' && c != '\n') = true ∧ s = c :: rest) ∨
      ∃ e, Escaped e c rest ∧ s = '\\' :: (e ++ rest) := by
  rw [quotedChar, textChar] at read
  rcases choice_success read with escaped | ⟨-, plain⟩
  · obtain ⟨⟨⟩, s₁, mark, read₁⟩ := bind_success escaped
    obtain ⟨e, -, isEscape, rfl⟩ := escape_of_outcome read₁
    exact .inr ⟨e, isEscape, token_success mark⟩
  · rw [oneOf, outcome_expecting] at plain
    exact .inl (char_success plain)

instance : Advances (quotedChar t q) where
  suffix read := by
    rcases quotedChar_cases read with ⟨-, rfl⟩ | ⟨e, -, rfl⟩
    · exact List.suffix_cons _ _
    · rw [← List.cons_append]
      exact List.suffix_append _ _
  shorter read := by
    rcases quotedChar_cases read with ⟨-, rfl⟩ | ⟨e, -, rfl⟩
    · exact Nat.lt_succ_self _
    · simp only [List.length_cons, List.length_append]
      omega

theorem outcome_quotedChar_quote (slash : q ≠ '\\') (k : List Char) :
    (quotedChar t q).outcome (q :: k) = none := by
  rw [quotedChar, textChar, next_choice (stop_bind (miss_token rfl slash))]
  simp

/-- Quoted characters are read up to the quote behind them. -/
theorem outcome_quoted {body cs : List Char} (noHex : isHex q = false) (slash : q ≠ '\\')
    (quoted : Quoted q body cs) (k : List Char) :
    (many (quotedChar t q)).outcome (body ++ q :: k) = some (cs, q :: k) := by
  induction quoted with
  | nil => exact outcome_many_of_none (outcome_quotedChar_quote slash k)
  | @plain c s cs plain _ ih =>
      have noSlash : c ≠ '\\' := by
        rintro rfl
        simp at plain
      have read : (quotedChar t q).outcome (c :: (s ++ q :: k)) = some (c, s ++ q :: k) := by
        rw [quotedChar, textChar, next_choice (stop_bind (miss_token rfl noSlash)),
          outcome_oneOf_cons, if_pos plain]
      rw [List.cons_append, outcome_many_of_some read, ih]
      rfl
  | @escaped e c s cs escaped _ ih =>
      have read : (quotedChar t q).outcome ('\\' :: (e ++ (s ++ q :: k))) =
          some (c, s ++ q :: k) := by
        have mark : (token .backslash).outcome ('\\' :: (e ++ (s ++ q :: k))) =
            some ((), e ++ (s ++ q :: k)) := run_token .backslash _
        apply run_choice
        rw [run_bind mark, outcome_escape (escaped.change_follow noHex)]
      rw [List.cons_append, List.append_assoc, outcome_many_of_some read, ih]
      rfl

/-- All that is read up to a quote is quoted. -/
theorem quoted_of_outcome {s rest cs : List Char} (noHex : isHex q = false)
    (read : (many (quotedChar t q)).outcome s = some (cs, q :: rest)) :
    ∃ body, Quoted q body cs ∧ s = body ++ q :: rest := by
  induction length : s.length using Nat.strong_induction_on generalizing s cs with
  | _ n ih =>
      subst length
      cases one : (quotedChar t q).outcome s with
      | none =>
          rw [outcome_many_of_none one] at read
          cases read
          exact ⟨[], .nil, rfl⟩
      | some x =>
          rw [outcome_many_of_some one] at read
          obtain ⟨⟨ds, rest'⟩, more, same⟩ := Option.map_eq_some_iff.mp read
          cases same
          obtain ⟨body, quoted, eq⟩ := ih _ (Advances.shorter one) more rfl
          rcases quotedChar_cases one with ⟨plain, rfl⟩ | ⟨e, escaped, rfl⟩
          · exact ⟨x.1 :: body, .plain plain quoted, by rw [eq, List.cons_append]⟩
          · rw [eq] at escaped
            refine ⟨'\\' :: (e ++ body), .escaped (escaped.change_follow noHex) quoted, ?_⟩
            rw [eq, List.cons_append, List.append_assoc]

end TextChar

/-- The texts between quotes, with the characters they stand for. -/
inductive TextLiteral : List Char → List Char → Prop where
  | double {body cs} : Quoted '"' body cs → TextLiteral ('"' :: (body ++ ['"'])) cs
  | single {body cs} : Quoted '\'' body cs → TextLiteral ('\'' :: (body ++ ['\''])) cs

/-- A text between quotes is read wherever it stands. -/
theorem outcome_text {u cs : List Char} (isText : TextLiteral u cs) (k : List Char) :
    text.outcome (u ++ k) = some (String.ofList cs, k) := by
  cases isText with
  | @double body cs quoted =>
      have start : (token .doubleQuote).outcome ('"' :: (body ++ '"' :: k)) =
          some ((), body ++ '"' :: k) := run_token .doubleQuote _
      have end_ : (token .doubleQuote).outcome ('"' :: k) = some ((), k) := run_token .doubleQuote _
      rw [List.cons_append, List.append_assoc]
      apply run_choice
      exact (run_bind start).trans
        ((run_bind (outcome_quoted (by decide) (by decide) quoted k)).trans (run_bind end_))
  | @single body cs quoted =>
      have start : (token .singleQuote).outcome ('\'' :: (body ++ '\'' :: k)) =
          some ((), body ++ '\'' :: k) := run_token .singleQuote _
      have end_ : (token .singleQuote).outcome ('\'' :: k) = some ((), k) :=
        run_token .singleQuote _
      rw [List.cons_append, List.append_assoc, List.singleton_append, text,
        next_choice (stop_bind (miss_token rfl (by decide)))]
      exact (run_bind start).trans
        ((run_bind (outcome_quoted (by decide) (by decide) quoted k)).trans (run_bind end_))

/-- All that is read as a text stands between quotes. -/
theorem text_of_outcome {s rest : List Char} {x : String}
    (read : text.outcome s = some (x, rest)) :
    ∃ u cs, TextLiteral u cs ∧ x = String.ofList cs ∧ s = u ++ rest := by
  rcases choice_success read with read₀ | ⟨-, read₀⟩
  all_goals
    obtain ⟨⟨⟩, s₁, start, read₁⟩ := bind_success read₀
    obtain ⟨cs, s₂, inside, read₂⟩ := bind_success read₁
    obtain ⟨⟨⟩, s₃, end_, same⟩ := bind_success read₂
    cases same
    obtain rfl := token_success start
    obtain rfl := token_success end_
    obtain ⟨body, quoted, rfl⟩ := quoted_of_outcome (by decide) inside
  · exact ⟨_, cs, .double quoted, rfl, by rw [List.cons_append, List.append_assoc]; rfl⟩
  · exact ⟨_, cs, .single quoted, rfl, by rw [List.cons_append, List.append_assoc]; rfl⟩

instance : Advances text where
  suffix read := by
    obtain ⟨u, cs, -, -, rfl⟩ := text_of_outcome read
    exact List.suffix_append u _
  shorter read := by
    obtain ⟨u, cs, isText, -, rfl⟩ := text_of_outcome read
    cases isText <;> simp only [List.cons_append, List.length_cons, List.length_append] <;> omega

/-- A text starts with a quote. -/
theorem text_eq_none {c : Char} {s : List Char} (double : c ≠ '"') (single : c ≠ '\'') :
    text.outcome (c :: s) = none := by
  rw [text, next_choice (stop_bind (miss_token rfl double))]
  exact stop_bind (miss_token rfl single)

end LineScript.Grammar
