import LineScript.Number.Text
import LineScript.Proofs.Number.Reading
import LineScript.Proofs.Value.Equality

/-! # Whole numbers as texts

A float that stands for a whole number below `10 ^ 21` is written with all the digits of that
number, even where fewer of them would tell it from the floats beside it. Reading the text gives
the same number again, so that a whole number is loosely equal to its own text.
-/

namespace LineScript.Number

/-! ## Parts of whole numbers -/

section Parts

variable {x : Float} {m n : Nat} {e k : Int}

/-- The parts of a float that stands for a whole number. -/
theorem exists_parts_whole (found : quantity? x = some (.finite k)) :
    ∃ negative m e, parts x = .finite negative m e ∧ (m : ℚ) * 2 ^ e = k.natAbs ∧
      (m ≠ 0 → negative = decide (k < 0)) := by
  obtain ⟨negative, m, e, isFinite⟩ := exists_parts found
  have above : (0 : ℚ) ≤ m * 2 ^ e := by positivity
  have value : (if negative then -(m * 2 ^ e) else m * 2 ^ e : ℚ) = k := by
    rw [quantity?_of_parts isFinite] at found
    simpa using found
  refine ⟨negative, m, e, isFinite, ?_, fun nonzero => ?_⟩
  · rw [Nat.cast_natAbs, Int.cast_abs, ← value]
    cases negative
    · exact (abs_of_nonneg above).symm
    · rw [if_pos rfl, abs_neg, abs_of_nonneg above]
  · have pos : (0 : ℚ) < m * 2 ^ e := by positivity
    have sign : k < 0 ↔ (k : ℚ) < 0 := Int.cast_lt_zero.symm
    rw [← value] at sign
    cases negative
    · exact (decide_eq_false (sign.not.mpr (not_lt.mpr above))).symm
    · exact (decide_eq_true (sign.mpr (neg_neg_of_pos pos))).symm

theorem whole?_eq_some (value : (m : ℚ) * 2 ^ e = n) : whole? m e = some n := by
  cases e with
  | ofNat k =>
      rw [mul_zpow_ofNat_iff] at value
      rw [whole?, value]
      rfl
  | negSucc k =>
      rw [mul_zpow_negSucc_iff] at value
      rw [whole?, value]
      show (if n * 2 ^ (k + 1) % 2 ^ (k + 1) = 0 then some (n * 2 ^ (k + 1) / 2 ^ (k + 1))
        else none) = some n
      rw [Nat.mul_mod_left, if_pos rfl, Nat.mul_div_cancel n (Nat.two_pow_pos _)]

/-- A whole number is rounded to the float that stands for it, but for the sign of zero. -/
theorem sameNumber_nearest (found : quantity? x = some (.finite k)) :
    SameNumber (nearest (k < 0) k.natAbs 1) x := by
  obtain ⟨negative, m, e, isFinite, value, -⟩ := exists_parts_whole found
  refine ⟨.finite k, ?_, found⟩
  have rounded := parts_nearest_whole (fits_of_parts isFinite) value (k < 0)
  rw [quantity?_of_parts rounded, value, Nat.cast_natAbs]
  by_cases below : k < 0
  · simp [below, abs_of_neg below]
  · simp [below, abs_of_nonneg (not_lt.mp below)]

end Parts

/-! ## Digits -/

section Digits

theorem toList_toString (k : Int) : (toString k).toList =
    (if k < 0 then ['-'] else []) ++ Nat.toDigits 10 k.natAbs := by
  rw [Int.toString_eq_repr, Int.repr_eq_if]
  by_cases below : k < 0
  · have size : (-k).toNat = k.natAbs := by omega
    rw [if_neg (not_le.mpr below), if_pos below, size, String.toList_append, Nat.toList_repr]
    rfl
  · have size : k.toNat = k.natAbs := by omega
    rw [if_pos (not_lt.mp below), if_neg below, size, Nat.toList_repr]
    rfl

variable {n : Nat}

theorem isDigits_toDigits (n : Nat) : Grammar.IsDigits (Nat.toDigits 10 n) :=
  ⟨Nat.toDigits_ne_nil, fun _ => Nat.isDigit_of_mem_toDigits (by decide) (by decide)⟩

theorem numeral_toDigits (n : Nat) : Grammar.Numeral (Nat.toDigits 10 n) := by
  have whole := Grammar.Numeral.whole (isDigits_toDigits n) .none
  rwa [List.append_nil] at whole

theorem digitsValue_toDigits (n : Nat) : digitsValue (Nat.toDigits 10 n) = n := by
  rw [digitsValue_eq_foldl]
  exact Nat.ofDigitChars_eq_foldl.symm.trans Nat.ofDigitChars_ten_toDigits

theorem head?_toDigits_ne_zero (pos : 0 < n) : (Nat.toDigits 10 n).head? ≠ some '0' := by
  induction n using Nat.strongRecOn with
  | ind n ih =>
      rcases lt_or_ge n 10 with short | long
      · rw [Nat.toDigits_of_lt_base short]
        simpa using pos.ne'
      · rw [Nat.toDigits_of_base_le (by decide) long,
          List.head?_append_of_ne_nil _ Nat.toDigits_ne_nil]
        exact ih (n / 10) (Nat.div_lt_self pos (by decide)) (Nat.div_pos long (by decide))

end Digits

/-! ## Texts -/

/-- `0|-?[1-9][0-9]*` -/
def Form.whole : RegularExpression Char :=
  .char '0' + optionally (.char '-') * (anyOf "123456789".toList * .star digit)

theorem toString_mem_whole (k : Int) : (toString k).toList ∈ Form.whole.matches' := by
  rw [toList_toString]
  rcases eq_or_ne k 0 with rfl | nonzero
  · exact .inl rfl
  · have pos : 0 < k.natAbs := Int.natAbs_pos.mpr nonzero
    obtain ⟨nonempty, all⟩ := isDigits_toDigits k.natAbs
    have first := head?_toDigits_ne_zero pos
    generalize Nat.toDigits 10 k.natAbs = d at nonempty all first
    cases d with
    | nil => exact absurd rfl nonempty
    | cons c d =>
        obtain ⟨here, later⟩ := List.forall_mem_cons.mp all
        have leading : c ∈ "123456789".toList :=
          (List.mem_cons.mp (isDigit_iff_mem.mp here)).resolve_left fun zero =>
            first (congrArg some zero)
        refine .inr (mem_mul.mpr ⟨_, ?_, c :: d, ?_, rfl⟩)
        · rw [mem_optionally, mem_char]
          split
          · exact .inr rfl
          · exact .inl rfl
        · exact mem_mul.mpr ⟨[c], mem_anyOf.mpr ⟨c, leading, rfl⟩, d, mem_star_digit.mpr later, rfl⟩

/-- Whole numbers that are written out fit into 128 bits. -/
theorem saturate_of_small {k : Int} (small : k.natAbs < wholeLimit) : saturate k = k := by
  have fits : wholeLimit < Nat.pow 2 127 := by decide
  rw [saturate, if_neg (by omega), if_neg (by omega)]

theorem text_eq_toString {x : Float} {k : Int} (found : quantity? x = some (.finite k))
    (small : k.natAbs < wholeLimit) : text x = toString k := by
  obtain ⟨negative, m, e, isFinite, value, sign⟩ := exists_parts_whole found
  rw [text, isFinite]
  dsimp only
  split
  · next zero =>
      have none_ : k = 0 := by simpa [zero] using value.symm
      rw [none_]
      rfl
  · next nonzero =>
      have signed : (if decide (k < 0) then -(k.natAbs : Int) else k.natAbs) = k := by
        simp only [decide_eq_true_eq]
        omega
      rw [finiteText, whole?_eq_some value, Option.filter_some, if_pos (decide_eq_true small)]
      dsimp only
      rw [sign nonzero, signed, saturate_of_small small, String.ofList_toList]

theorem toFloat_whole (negative : Bool) (n : Nat) :
    Decimal.toFloat ⟨negative, n, 0⟩ = nearest negative n 1 := by
  rw [Decimal.toFloat]
  dsimp only
  split
  · next zero => rw [zero]
  · rw [if_neg (by decide), if_neg (by omega)]
    exact congrArg (nearest negative · 1) (Nat.mul_one n)

theorem read?_toDigits (n : Nat) : Decimal.read? (Nat.toDigits 10 n) = some ⟨false, n, 0⟩ := by
  have isDigits := isDigits_toDigits n
  have unsigned := Grammar.readSign_eq (numeral_head (numeral_toDigits n))
  have whole : Decimal.readDigits (Nat.toDigits 10 n) = (Nat.toDigits 10 n, [], []) := by
    have split_ := Grammar.readDigits_whole (x := []) isDigits.2 (by simp)
    rwa [List.append_nil] at split_
  simp [Decimal.read?, unsigned, whole, isDigits.1, Decimal.readExponent?, digitsValue_toDigits]

/-- The decimal form of a whole number is read as the float nearest to it. -/
theorem ofText_toString (k : Int) : ofText (toString k) = nearest (k < 0) k.natAbs 1 := by
  have isNumeral := numeral_toDigits k.natAbs
  have signs : (if k < 0 then ['-'] else []) ∈ [[], ['+'], ['-']] := by
    split <;> decide
  have read := read?_sign signs isNumeral (read?_toDigits k.natAbs)
  rw [← toList_toString] at read
  rw [ofText_of_read? read, toFloat_whole]
  by_cases below : k < 0
  · simp [below]
  · simp [below]

/-- A whole number below `10 ^ 21` is written in its decimal form, without an exponent, a point or
    zeros in front, whatever the sign of a zero. The text is read as the same number, and is loosely
    equal to it. -/
theorem text_of_whole (x : Float) (k : Int) (found : quantity? x = some (.finite k))
    (small : |k| < 10 ^ 21) :
    text x = toString k ∧ (text x).toList ∈ Form.whole.matches' ∧
      SameNumber (ofText (text x)) x ∧ Value.looseEquals (.number x) (.text (text x)) = true := by
  have written : text x = toString k := text_eq_toString found (by zify; exact small)
  have same : SameNumber (ofText (text x)) x := by
    rw [written, ofText_toString]
    exact sameNumber_nearest found
  refine ⟨written, ?_, same, ?_⟩
  · rw [written]
    exact toString_mem_whole k
  · generalize text x = written at same ⊢
    have kinds : (Value.number x).kind ≠ (Value.text written).kind := by simp [Value.kind]
    rw [Value.looseEquals_of_kind_ne kinds rfl rfl]
    exact same.symm

/-- The text of `-2 ^ 69` has all its digits, and that of the negative zero has no sign. -/
theorem text_of_whole_large :
    text (.ofBits 0xC440000000000000) = "-590295810358705651712" ∧
      text (.ofBits 0x8000000000000000) = "0" := by
  have large : quantity? (.ofBits 0xC440000000000000) =
      some (.finite (-590295810358705651712 : Int)) := by
    decide +kernel
  have zero : quantity? (.ofBits 0x8000000000000000) = some (.finite (0 : Int)) := by
    decide +kernel
  exact ⟨(text_of_whole _ _ large (by decide)).1, (text_of_whole _ _ zero (by decide)).1⟩

end LineScript.Number
