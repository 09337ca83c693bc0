import LineScript.Number.Binary
import Mathlib

/-! # The bits of a float

A float is a sign bit, eleven bits of a biased exponent and fifty-two bits of a fraction. Here its
parts, which are found by whole-number arithmetic on the bits, are shown to be those of the logical
model of floats, and to come back when a float is built from its bits.
-/

namespace LineScript.Number

open Float.Model Float.Model.UnpackedFloat

/-- The parts that bits stand for. -/
def Parts.ofBits (bits : Nat) : Parts :=
  let negative := bits / 2 ^ 63 % 2 == 1
  let biased : Nat := bits / 2 ^ 52 % 2048
  let fraction := bits % 2 ^ 52
  if biased = 2047 then
    if fraction = 0 then .infinite negative else .nan
  else if biased = 0 then .finite negative fraction leastExponent
  else .finite negative (fraction + 2 ^ 52) ((biased : Int) - 1 + leastExponent)

/-- The parts of a float of the logical model. -/
def Parts.ofUnpacked : UnpackedFloat → Parts
  | .notANumber => .nan
  | .infinity s => .infinite (s == .negative)
  | .zero s => .finite (s == .negative) 0 leastExponent
  | .finite s m e _ => .finite (s == .negative) m e

theorem parts_eq_ofBits (x : Float) : parts x = .ofBits x.toBits.toNat := rfl

/-! ## Fields -/

section Fields

variable (b : BitVec Format.binary64.numBits)

theorem toNat_unpackMantissa : (unpackMantissa b).toNat = b.toNat % 2 ^ 52 := by
  simp [unpackMantissa]

theorem toNat_unpackExponent : (unpackExponent b).toNat = b.toNat / 2 ^ 52 % 2048 := by
  simp [unpackExponent, Nat.shiftRight_eq_div_pow]

theorem toNat_unpackSign : (unpackSign b).toNat = b.toNat / 2 ^ 63 % 2 := by
  simp [unpackSign, Nat.shiftRight_eq_div_pow]

theorem ofBitVec_unpackSign :
    (Sign.ofBitVec (unpackSign b) == .negative) = (b.toNat / 2 ^ 63 % 2 == 1) := by
  rw [← toNat_unpackSign]
  generalize unpackSign b = s
  revert s
  decide

/-- A mantissa with the bit that is not written in front of it. -/
theorem toNat_leadingBit (m : BitVec 52) : (1#1 ++ m).toNat = m.toNat + 2 ^ 52 := by
  rw [BitVec.toNat_append, ← Nat.shiftLeft_add_eq_or_of_lt m.isLt, Nat.add_comm]
  simp [Nat.shiftLeft_eq]

end Fields

/-! ## Parts -/

/-- The parts of bits are those of the logical model. -/
theorem ofUnpacked_unpack (b : BitVec Format.binary64.numBits) :
    Parts.ofUnpacked (unpack Format.binary64 b) = .ofBits b.toNat := by
  simp only [Parts.ofBits, ← toNat_unpackMantissa, ← toNat_unpackExponent, ← ofBitVec_unpackSign]
  fun_cases unpack Format.binary64 b with
  | case1 mantissa exponent _ _ top zero =>
      have same : (unpackExponent b).toNat = 2047 := congrArg BitVec.toNat top
      have none_ : (unpackMantissa b).toNat = 0 := congrArg BitVec.toNat zero
      rw [if_pos same, if_pos none_]
      rfl
  | case2 mantissa exponent top other =>
      have same : (unpackExponent b).toNat = 2047 := congrArg BitVec.toNat top
      have some_ : (unpackMantissa b).toNat ≠ 0 := fun zero => other (BitVec.eq_of_toNat_eq zero)
      rw [if_pos same, if_neg some_]
      rfl
  | case3 mantissa exponent _ _ _ bottom zero =>
      have same : (unpackExponent b).toNat = 0 := congrArg BitVec.toNat bottom
      have none_ : (unpackMantissa b).toNat = 0 := congrArg BitVec.toNat zero
      rw [if_neg (by omega), if_pos same, none_]
      rfl
  | case4 mantissa exponent power _ _ _ bottom _ =>
      have same : (unpackExponent b).toNat = 0 := congrArg BitVec.toNat bottom
      have least : power + 1 = leastExponent := by
        simp only [power, bottom]
        rfl
      rw [if_neg (by omega), if_pos same, ← least]
      rfl
  | case5 mantissa exponent power _ _ top bottom =>
      have low : (unpackExponent b).toNat ≠ 0 := fun zero => bottom (BitVec.eq_of_toNat_eq zero)
      have high : (unpackExponent b).toNat ≠ 2047 := fun full => top (BitVec.eq_of_toNat_eq full)
      have here : power = (exponent.toNat : Int) - 1 + leastExponent := by
        show (exponent.toNat : Int) - 1075 = (exponent.toNat : Int) - 1 + -1074
        omega
      rw [if_neg high, if_neg low, Parts.ofUnpacked, here, toNat_leadingBit]

theorem parts_eq_ofUnpacked (x : Float) : parts x = .ofUnpacked x.toModel.unpack :=
  (ofUnpacked_unpack _).symm

/-- Packing gives the bits back, or other ones that stand for no number either. -/
theorem unpack_pack_unpack (b : BitVec Format.binary64.numBits) :
    unpack Format.binary64 (UnpackedFloat.pack Format.binary64 (unpack Format.binary64 b)) =
      unpack Format.binary64 b := by
  rw [pack_unpack]
  split
  · next nan =>
      obtain ⟨top, some_⟩ : unpackExponent b = -1#_ ∧ unpackMantissa b ≠ 0#_ := by
        simpa [isNaNBits] using nan
      rw [unpack_packedNaN]
      simp [UnpackedFloat.unpack, top, some_]
  · rfl

/-- A float that is built from bits has their parts. -/
theorem parts_ofBits (b : UInt64) : parts (Float.ofBits b) = .ofBits b.toNat := by
  rw [parts_eq_ofUnpacked, ← UInt64.toNat_toBitVec, ← ofUnpacked_unpack]
  exact congrArg Parts.ofUnpacked (unpack_pack_unpack b.toBitVec)

/-- Finite parts as a float has them: the mantissa fills its bits, or the exponent is the least. -/
structure Fits (mantissa : Nat) (exponent : Int) : Prop where
  lt : mantissa < 2 ^ 53
  least : leastExponent ≤ exponent
  most : exponent ≤ 971
  filled : 2 ^ 52 ≤ mantissa ∨ exponent = leastExponent

theorem fits_of_parts {x : Float} {negative : Bool} {m : Nat} {e : Int}
    (found : parts x = .finite negative m e) : Fits m e := by
  rw [parts_eq_ofBits, Parts.ofBits] at found
  have low : x.toBits.toNat % 2 ^ 52 < 2 ^ 52 := Nat.mod_lt _ (by decide)
  split at found
  · split at found <;> cases found
  · split at found
    · cases found
      exact ⟨by omega, le_rfl, by decide, .inr rfl⟩
    · cases found
      exact ⟨by omega, by omega, by simp only [leastExponent]; omega, .inl (Nat.le_add_left _ _)⟩

theorem isNaN_iff (x : Float) : x.isNaN = true ↔ parts x = .nan := by
  rw [parts_eq_ofUnpacked]
  show x.toModel.unpack.isNaN = true ↔ _
  cases x.toModel.unpack <;> simp [UnpackedFloat.isNaN, Parts.ofUnpacked]

end LineScript.Number
