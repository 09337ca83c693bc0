import LineScript.Proofs.Number.Quantity

/-! # The float nearest to a fraction

Rounding always gives a number. A whole number that some float stands for is not changed by it.
-/

namespace LineScript.Number

/-! ## Bits with a sign -/

/-- Bits with the given sign in front of them. -/
def signed : Bool → Nat → Nat
  | false, magnitude => magnitude
  | true, magnitude => 2 ^ 63 + magnitude

section Signed

variable {magnitude : Nat}

theorem ofBits_signed (small : magnitude < 2 ^ 63) (negative : Bool) :
    Parts.ofBits (signed negative magnitude) =
      if magnitude / 2 ^ 52 = 2047 then
        if magnitude % 2 ^ 52 = 0 then .infinite negative else .nan
      else if magnitude / 2 ^ 52 = 0 then .finite negative (magnitude % 2 ^ 52) leastExponent
      else .finite negative (magnitude % 2 ^ 52 + 2 ^ 52)
        ((magnitude / 2 ^ 52 : Nat) - 1 + leastExponent) := by
  have sign : signed negative magnitude / 2 ^ 63 % 2 = negative.toNat := by
    cases negative <;> simp only [signed, Bool.toNat_false, Bool.toNat_true] <;> omega
  have biased : signed negative magnitude / 2 ^ 52 % 2048 = magnitude / 2 ^ 52 := by
    cases negative <;> simp only [signed] <;> omega
  have fraction : signed negative magnitude % 2 ^ 52 = magnitude % 2 ^ 52 := by
    cases negative with
    | false => rfl
    | true => rw [signed]; omega
  have negative_ : (negative.toNat == 1) = negative := by cases negative <;> rfl
  simp only [Parts.ofBits, sign, biased, fraction, negative_]

theorem ofBits_signed_ne_nan (bounded : magnitude ≤ infinityBits) (negative : Bool) :
    Parts.ofBits (signed negative magnitude) ≠ .nan := by
  have bounded' : magnitude ≤ 2047 * 2 ^ 52 := bounded
  rw [ofBits_signed (by omega)]
  split
  · next full =>
      rw [if_pos (by omega)]
      simp
  · split <;> simp

/-- The bits that hold the given parts. -/
def bitsOf (mantissa : Nat) (exponent : Int) : Nat :=
  (exponent - leastExponent).toNat * 2 ^ 52 + mantissa

/-- Parts come back from the bits that hold them. -/
theorem Fits.ofBits_bitsOf {m : Nat} {e : Int} (fits : Fits m e) (negative : Bool) :
    bitsOf m e < infinityBits ∧
      Parts.ofBits (signed negative (bitsOf m e)) = .finite negative m e := by
  obtain ⟨k, rfl⟩ : ∃ k : Nat, e = k + leastExponent :=
    ⟨(e - leastExponent).toNat, by have := fits.least; omega⟩
  have short := fits.lt
  have most : k ≤ 2045 := by
    have most := fits.most
    simp only [leastExponent] at most
    omega
  have bits : bitsOf m (k + leastExponent) = k * 2 ^ 52 + m := by
    rw [bitsOf, add_sub_cancel_right, Int.toNat_natCast]
  have small : k * 2 ^ 52 + m < 2047 * 2 ^ 52 := by omega
  rw [bits]
  refine ⟨small, ?_⟩
  rw [ofBits_signed (by omega)]
  by_cases filled : 2 ^ 52 ≤ m
  · have above : (k * 2 ^ 52 + m) / 2 ^ 52 = k + 1 := by omega
    have rest : (k * 2 ^ 52 + m) % 2 ^ 52 + 2 ^ 52 = m := by omega
    rw [above, rest, if_neg (by omega), if_neg (by omega), Nat.cast_add_one,
      add_sub_cancel_right]
  · have none_ : k = 0 := by
      have least := fits.filled.resolve_left filled
      omega
    subst none_
    have above : (0 * 2 ^ 52 + m) / 2 ^ 52 = 0 := by omega
    have rest : (0 * 2 ^ 52 + m) % 2 ^ 52 = m := by omega
    rw [above, rest, if_neg (by decide), if_pos rfl, Nat.cast_zero, zero_add]

end Signed

/-! ## Rounding -/

theorem nearestBits_le (n d : Nat) : nearestBits n d ≤ infinityBits :=
  min_le_right _ _

theorem parts_nearest (negative : Bool) (n d : Nat) :
    parts (nearest negative n d) =
      .ofBits (signed negative (if n = 0 then 0 else nearestBits n d)) := by
  have bounded : (if n = 0 then 0 else nearestBits n d) ≤ 2047 * 2 ^ 52 := by
    split
    · exact Nat.zero_le _
    · exact nearestBits_le n d
  have sign : (if negative then Nat.pow 2 63 else 0) + (if n = 0 then 0 else nearestBits n d) =
      signed negative (if n = 0 then 0 else nearestBits n d) := by
    cases negative
    · exact Nat.zero_add _
    · rfl
  have fits : signed negative (if n = 0 then 0 else nearestBits n d) < 2 ^ 64 := by
    cases negative <;> simp only [signed] <;> omega
  rw [nearest, parts_ofBits, UInt64.toNat_ofNat', sign, Nat.mod_eq_of_lt fits]

/-- A fraction is never rounded to no number. -/
theorem isNaN_nearest (negative : Bool) (n d : Nat) : (nearest negative n d).isNaN = false := by
  rw [← Bool.not_eq_true, isNaN_iff, parts_nearest]
  apply ofBits_signed_ne_nan
  split
  · exact Nat.zero_le _
  · exact nearestBits_le n d

theorem roundEven_mul (q : Nat) {d : Nat} (pos : 0 < d) : roundEven (q * d) d = q := by
  simp [roundEven, pos]

section Whole

variable {m n k : Nat} {e : Int}

theorem mul_zpow_ofNat_iff : (m : ℚ) * 2 ^ Int.ofNat k = n ↔ n = m * 2 ^ k := by
  rw [Int.ofNat_eq_natCast, zpow_natCast, eq_comm]
  exact_mod_cast Iff.rfl

theorem mul_zpow_negSucc_iff : (m : ℚ) * 2 ^ Int.negSucc k = n ↔ m = n * 2 ^ (k + 1) := by
  rw [zpow_negSucc, mul_inv_eq_iff_eq_mul₀ (pow_ne_zero _ two_ne_zero)]
  exact_mod_cast Iff.rfl

theorem log2_mul_two_pow (pos : 0 < n) (k : Nat) : (n * 2 ^ k).log2 = n.log2 + k := by
  induction k with
  | zero => simp
  | succ k ih =>
      have nonzero : n * 2 ^ k ≠ 0 := (Nat.mul_pos pos (Nat.two_pow_pos k)).ne'
      rw [Nat.pow_succ', Nat.mul_left_comm, Nat.log2_two_mul nonzero, ih, Nat.add_assoc]

/-- The first bit of a whole number tells the exponent of its float. -/
theorem Fits.log2_eq (fits : Fits m e) (pos : 0 < n) (value : (m : ℚ) * 2 ^ e = n) :
    (n.log2 : Int) = 52 + e := by
  have full : 2 ^ 52 ≤ m → m.log2 = 52 := fun filled =>
    (Nat.log2_eq_iff (by omega)).mpr ⟨filled, fits.lt⟩
  cases e with
  | ofNat k =>
      rw [mul_zpow_ofNat_iff] at value
      have filled : 2 ^ 52 ≤ m := fits.filled.resolve_right (by simp [leastExponent])
      rw [value, log2_mul_two_pow (by omega), full filled]
      rfl
  | negSucc k =>
      rw [mul_zpow_negSucc_iff] at value
      have long : m.log2 = n.log2 + (k + 1) := by rw [value, log2_mul_two_pow pos]
      have short : m.log2 < 53 := by
        have nonzero : m ≠ 0 := value ▸ (Nat.mul_pos pos (Nat.two_pow_pos (k + 1))).ne'
        exact (Nat.log2_lt nonzero).mpr fits.lt
      have filled : 2 ^ 52 ≤ m := fits.filled.resolve_right (by simp only [leastExponent]; omega)
      have := full filled
      omega

theorem nearestBits_whole (fits : Fits m e) (pos : 0 < n) (value : (m : ℚ) * 2 ^ e = n) :
    nearestBits n 1 = bitsOf m e := by
  have exponent : exponentFor n 1 = e := by
    have log := fits.log2_eq pos value
    have below : powerLe (n.log2 : Int) n 1 = true := by
      simpa [powerLe] using Nat.log2_self_le pos.ne'
    have least := fits.least
    rw [exponentFor, show Nat.log2 1 = 0 by decide, Nat.cast_zero, sub_zero, if_pos below]
    omega
  have mantissa : scaled n 1 e = m := by
    cases e with
    | ofNat k =>
        rw [mul_zpow_ofNat_iff] at value
        rw [scaled, value, Nat.one_mul]
        exact roundEven_mul m (Nat.two_pow_pos k)
    | negSucc k =>
        rw [mul_zpow_negSucc_iff] at value
        have exact_ := roundEven_mul (n * 2 ^ (k + 1)) Nat.one_pos
        rw [Nat.mul_one] at exact_
        rw [value]
        exact exact_
  rw [nearestBits, exponent, mantissa]
  exact min_eq_left (fits.ofBits_bitsOf false).1.le

/-- A whole number that a float stands for is rounded to that float. -/
theorem parts_nearest_whole (fits : Fits m e) (value : (m : ℚ) * 2 ^ e = n) (negative : Bool) :
    parts (nearest negative n 1) = .finite negative m e := by
  have bits : (if n = 0 then 0 else nearestBits n 1) = bitsOf m e := by
    rcases Nat.eq_zero_or_pos n with rfl | pos
    · obtain rfl : m = 0 := by
        simpa [zpow_ne_zero] using value
      obtain rfl : e = leastExponent := fits.filled.resolve_left (by decide)
      rfl
    · rw [if_neg pos.ne', nearestBits_whole fits pos value]
  rw [parts_nearest, bits]
  exact (fits.ofBits_bitsOf negative).2

end Whole

end LineScript.Number
