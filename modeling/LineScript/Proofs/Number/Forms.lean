import LineScript.Proofs.Grammar.Literal
import LineScript.Proofs.Number.Nearest

/-! # The forms of decimals

The texts that stand for a number are those that match a regular expression once the blanks around
them are off: nothing, an infinity or a decimal, each of the last two with a sign if need be. The
literals of scripts are the decimals without a sign, and they have the same values. The names of an
infinity and of no number, in any letter case, can be read too, but they do not stand for a number.
-/

namespace LineScript.Text

/-- A letter that is read in any case is the small one or the capital one. -/
theorem toLower_eq_iff {d : Char} (small : d.toLower = d) (c : Char) :
    c.toLower = d ↔ c = d ∨ c = d.toUpper := by
  constructor
  · rintro rfl
    by_cases upper : c.isUpper
    · right
      rw [Char.toUpper_toLower_eq_toUpper,
        Char.toUpper_eq_of_not_isLower (Char.not_isLower_of_isUpper upper)]
    · exact .inl (Char.toLower_eq_of_not_isUpper upper).symm
  · rintro (rfl | rfl)
    · exact small
    · rw [Char.toLower_toUpper_eq_toLower, small]

end LineScript.Text

namespace LineScript.Number

namespace Form

/-- One of the given characters. -/
def anyOf (cs : List Char) : RegularExpression Char :=
  (cs.map .char).sum

/-- The given characters, one after the other. -/
def word (cs : List Char) : RegularExpression Char :=
  (cs.map .char).prod

/-- The given letters, one after the other, each of them small or capital. -/
def inAnyCase (cs : List Char) : RegularExpression Char :=
  (cs.map fun c => anyOf [c, c.toUpper]).prod

/-- Nothing or what the given form matches. -/
def optionally (form : RegularExpression Char) : RegularExpression Char :=
  1 + form

/-- `[0-9]` -/
def digit : RegularExpression Char := anyOf "0123456789".toList

/-- `[0-9]+` -/
def digits : RegularExpression Char := digit * .star digit

/-- `[+-]?` -/
def sign : RegularExpression Char := optionally (anyOf ['+', '-'])

/-- `[eE][+-]?[0-9]+` -/
def exponent : RegularExpression Char := anyOf ['e', 'E'] * (sign * digits)

/-- `([0-9]+(.[0-9]*)?|.[0-9]+)([eE][+-]?[0-9]+)?`, the point standing for itself. -/
def unsigned : RegularExpression Char :=
  (digits * optionally (.char '.' * .star digit) + .char '.' * digits) * optionally exponent

/-- A decimal with an optional sign. -/
def decimal : RegularExpression Char := sign * unsigned

/-- `[+-]?Infinity` -/
def infinity : RegularExpression Char := sign * word "Infinity".toList

/-- `[+-]?(inf|infinity|nan)` in any letter case. -/
def named : RegularExpression Char :=
  sign * (inAnyCase "inf".toList + inAnyCase "infinity".toList + inAnyCase "nan".toList)

end Form

open Grammar (IsDigits ExponentPart Numeral)

/-! ## What the forms match -/

section Forms

open Form

variable {w : List Char}

theorem mem_char {c : Char} : w ∈ (RegularExpression.char c).matches' ↔ w = [c] :=
  Iff.rfl

theorem mem_mul {form form' : RegularExpression Char} : w ∈ (form * form').matches' ↔
    ∃ u ∈ form.matches', ∃ v ∈ form'.matches', u ++ v = w :=
  Language.mem_mul

theorem mem_add {form form' : RegularExpression Char} :
    w ∈ (form + form').matches' ↔ w ∈ form.matches' ∨ w ∈ form'.matches' :=
  Iff.rfl

theorem mem_optionally {form : RegularExpression Char} :
    w ∈ (optionally form).matches' ↔ w = [] ∨ w ∈ form.matches' :=
  Iff.rfl

theorem mem_anyOf {cs : List Char} : w ∈ (anyOf cs).matches' ↔ ∃ c ∈ cs, w = [c] := by
  induction cs with
  | nil =>
      have none_ : (anyOf []).matches' = 0 := rfl
      simp [none_]
  | cons c cs ih =>
      have step : anyOf (c :: cs) = .char c + anyOf cs := rfl
      rw [step, mem_add, mem_char, ih, List.exists_mem_cons_iff]

theorem mem_word {cs : List Char} : w ∈ (word cs).matches' ↔ w = cs := by
  induction cs generalizing w with
  | nil => exact Language.mem_one w
  | cons c cs ih =>
      have step : word (c :: cs) = .char c * word cs := rfl
      simp only [step, mem_mul, mem_char, ih, exists_eq_left, List.singleton_append]
      exact eq_comm

theorem mem_inAnyCase (cs : List Char)
    (small : ∀ c ∈ cs, c.toLower = c) (w : List Char) :
    w ∈ (inAnyCase cs).matches' ↔ w.map Char.toLower = cs := by
  induction cs generalizing w with
  | nil => exact (Language.mem_one w).trans List.map_eq_nil_iff.symm
  | cons c cs ih =>
      obtain ⟨here, later⟩ := List.forall_mem_cons.mp small
      have step : inAnyCase (c :: cs) = anyOf [c, c.toUpper] * inAnyCase cs := rfl
      have letter : ∀ d : Char, d.toLower = c ↔ d ∈ [c, c.toUpper] := fun d => by
        simpa using Text.toLower_eq_iff here d
      simp only [step, mem_mul, mem_anyOf, ih later, List.map_eq_cons_iff, letter]
      constructor
      · rintro ⟨_, ⟨d, isLetter, rfl⟩, v, rest, rfl⟩
        exact ⟨d, v, rfl, isLetter, rest⟩
      · rintro ⟨d, v, rfl, isLetter, rest⟩
        exact ⟨[d], ⟨d, isLetter, rfl⟩, v, rest, rfl⟩

theorem isDigit_iff_mem {c : Char} : c.isDigit = true ↔ c ∈ "0123456789".toList := by
  constructor
  · intro digit
    obtain ⟨low, high⟩ : 48 ≤ c.toNat ∧ c.toNat ≤ 57 := by
      simpa [Char.isDigit, UInt32.le_iff_toNat_le] using digit
    have : c = Char.ofNat c.toNat := (Char.ofNat_toNat c).symm
    rw [this]
    generalize c.toNat = n at low high ⊢
    interval_cases n <;> decide
  · have all : ∀ c ∈ "0123456789".toList, c.isDigit = true := List.all_eq_true.mp rfl
    exact all c

theorem mem_digit : w ∈ digit.matches' ↔ ∃ c, c.isDigit = true ∧ w = [c] := by
  simp only [digit, mem_anyOf, isDigit_iff_mem]

theorem mem_star_digit :
    w ∈ (RegularExpression.star digit).matches' ↔ ∀ c ∈ w, c.isDigit = true := by
  rw [RegularExpression.matches'_star, Language.mem_kstar]
  constructor
  · rintro ⟨pieces, rfl, all⟩ c member
    obtain ⟨piece, isPiece, member⟩ := List.mem_flatten.mp member
    obtain ⟨d, isDigit, rfl⟩ := mem_digit.mp (all piece isPiece)
    rwa [List.mem_singleton.mp member]
  · intro all
    refine ⟨w.map fun c => [c], ?_, ?_⟩
    · rw [← List.flatMap_def, List.flatMap_singleton']
    · simpa using fun c member => mem_digit.mpr ⟨c, all c member, rfl⟩

theorem mem_digits : w ∈ digits.matches' ↔ IsDigits w := by
  simp only [digits, mem_mul, mem_digit, mem_star_digit]
  constructor
  · rintro ⟨_, ⟨c, isDigit, rfl⟩, t, all, rfl⟩
    exact ⟨List.cons_ne_nil c t, List.forall_mem_cons.mpr ⟨isDigit, all⟩⟩
  · rintro ⟨nonempty, all⟩
    cases w with
    | nil => exact absurd rfl nonempty
    | cons c t =>
        obtain ⟨here, later⟩ := List.forall_mem_cons.mp all
        exact ⟨[c], ⟨c, here, rfl⟩, t, later, rfl⟩

theorem mem_sign : w ∈ sign.matches' ↔ w ∈ [[], ['+'], ['-']] := by
  simp [sign, mem_optionally, mem_anyOf]

theorem mem_optionally_exponent : w ∈ (optionally exponent).matches' ↔ ExponentPart w := by
  simp only [mem_optionally, exponent, mem_mul, mem_anyOf, mem_sign, mem_digits]
  constructor
  · rintro (rfl | ⟨_, ⟨e, mark, rfl⟩, _, ⟨sign, signs, d, isDigits, rfl⟩, rfl⟩)
    · exact .none
    · have marked : (e == 'e' || e == 'E') = true := by simpa using mark
      show ExponentPart (e :: (sign ++ d))
      exact .some marked signs isDigits
  · intro part
    cases part with
    | none => exact .inl rfl
    | @some e sign d mark signs isDigits =>
        have marked : e ∈ ['e', 'E'] := by simpa using mark
        exact .inr ⟨[e], ⟨e, marked, rfl⟩, _, ⟨sign, signs, d, isDigits, rfl⟩, rfl⟩

/-- The decimals without a sign are the texts of numbers in scripts. -/
theorem mem_unsigned : w ∈ unsigned.matches' ↔ Numeral w := by
  constructor
  · intro matched
    obtain ⟨u, here, x, isExponent, rfl⟩ := mem_mul.mp matched
    rw [mem_optionally_exponent] at isExponent
    rcases mem_add.mp here with whole | fraction
    · obtain ⟨d, isDigits, v, point, rfl⟩ := mem_mul.mp whole
      rw [mem_digits] at isDigits
      rcases mem_optionally.mp point with rfl | pointed
      · rw [List.append_nil]
        exact .whole isDigits isExponent
      · obtain ⟨_, rfl, f, all, rfl⟩ := mem_mul.mp pointed
        rw [mem_star_digit] at all
        rw [List.append_assoc]
        exact .pointed isDigits all isExponent
    · obtain ⟨_, rfl, f, isDigits, rfl⟩ := mem_mul.mp fraction
      rw [mem_digits] at isDigits
      exact .fraction isDigits isExponent
  · intro isNumeral
    cases isNumeral with
    | @whole d x isDigits isExponent =>
        refine mem_mul.mpr ⟨d, .inl ?_, x, mem_optionally_exponent.mpr isExponent, rfl⟩
        exact mem_mul.mpr ⟨d, mem_digits.mpr isDigits, [], .inl rfl, List.append_nil d⟩
    | @pointed d f x isDigits all isExponent =>
        refine mem_mul.mpr ⟨d ++ '.' :: f, .inl ?_, x, mem_optionally_exponent.mpr isExponent,
          List.append_assoc d ('.' :: f) x⟩
        refine mem_mul.mpr ⟨d, mem_digits.mpr isDigits, '.' :: f, .inr ?_, rfl⟩
        exact mem_mul.mpr ⟨['.'], rfl, f, mem_star_digit.mpr all, rfl⟩
    | @fraction f x isDigits isExponent =>
        refine mem_mul.mpr ⟨'.' :: f, .inr ?_, x, mem_optionally_exponent.mpr isExponent, rfl⟩
        exact mem_mul.mpr ⟨['.'], rfl, f, mem_digits.mpr isDigits, rfl⟩

/-- A name that can be read, in small letters or capital ones. -/
def IsName (u : List Char) : Prop :=
  u.map Char.toLower ∈ ["inf".toList, "infinity".toList, "nan".toList]

theorem mem_named : w ∈ named.matches' ↔
    ∃ sign ∈ [[], ['+'], ['-']], ∃ u, IsName u ∧ sign ++ u = w := by
  have inf := mem_inAnyCase "inf".toList (by simp)
  have infinity := mem_inAnyCase "infinity".toList (by simp)
  have nan := mem_inAnyCase "nan".toList (by simp)
  simp only [named, mem_mul, mem_add, mem_sign, inf, infinity, nan, IsName, List.mem_cons,
    List.not_mem_nil, or_false, or_assoc]

end Forms

end LineScript.Number
