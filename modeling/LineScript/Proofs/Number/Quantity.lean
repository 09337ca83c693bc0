import LineScript.Proofs.Number.Bits

/-! # What a float stands for

A float stands for an infinity or for a rational number, unless it is no number. Two floats are
equal as the operator `==` has it exactly if both are numbers and stand for the same one, since no
rational number but zero has two floats.
-/

namespace LineScript.Number

open Float.Model Float.Model.UnpackedFloat

/-- The numbers that floats stand for. -/
inductive Quantity where
  | infinite (negative : Bool)
  | finite (q : ℚ)
  deriving DecidableEq

/-- The number that a float of the logical model stands for. -/
def Quantity.ofUnpacked? : UnpackedFloat → Option Quantity
  | .notANumber => none
  | .infinity s => some (.infinite (s == .negative))
  | .zero _ => some (.finite 0)
  | .finite s m e _ => some (.finite ((s.apply m : ℚ) * 2 ^ e))

/-- The number that a float stands for. -/
def quantity? (x : Float) : Option Quantity :=
  Quantity.ofUnpacked? x.toModel.unpack

/-- Both floats are numbers, and they stand for the same one. -/
def SameNumber (x y : Float) : Prop :=
  ∃ q, quantity? x = some q ∧ quantity? y = some q

theorem SameNumber.symm {x y : Float} (same : SameNumber x y) : SameNumber y x :=
  same.imp fun _ found => found.symm

theorem sameNumber_comm {x y : Float} : SameNumber x y ↔ SameNumber y x :=
  ⟨.symm, .symm⟩

/-! ## One float for each number -/

section Fits

variable {m m' : Nat} {e e' : Int}

private theorem Fits.eq_of_le (here : Fits m e) (there : Fits m' e') (le : e ≤ e')
    (same : (m : ℚ) * 2 ^ e = m' * 2 ^ e') : m = m' ∧ e = e' := by
  obtain ⟨k, rfl⟩ : ∃ k : Nat, e' = e + k := ⟨(e' - e).toNat, by omega⟩
  have scaled : m = m' * 2 ^ k := by
    have nonzero : (2 : ℚ) ^ e ≠ 0 := zpow_ne_zero e two_ne_zero
    rw [zpow_add₀ two_ne_zero, zpow_natCast, mul_left_comm, mul_comm] at same
    exact_mod_cast mul_left_cancel₀ nonzero same
  cases k with
  | zero => simpa using scaled
  | succ k =>
      -- The mantissa of the greater exponent is filled, so the other one would be too long.
      have filled : 2 ^ 52 ≤ m' := there.filled.resolve_right (by have := here.least; omega)
      have long : m' * 2 ≤ m := by
        rw [scaled, Nat.pow_succ', ← Nat.mul_assoc]
        exact Nat.le_mul_of_pos_right _ (Nat.two_pow_pos k)
      have := here.lt
      omega

/-- Parts that a float has are told by the number that they stand for. -/
theorem Fits.unique (here : Fits m e) (there : Fits m' e')
    (same : (m : ℚ) * 2 ^ e = m' * 2 ^ e') : m = m' ∧ e = e' := by
  rcases le_total e e' with le | le
  · exact here.eq_of_le there le same
  · have swapped := there.eq_of_le here le same.symm
    exact ⟨swapped.1.symm, swapped.2.symm⟩

end Fits

/-! ## Parts and what they stand for -/

section Parts

variable {x : Float} {negative : Bool} {m : Nat} {e : Int}

theorem quantity?_of_parts (found : parts x = .finite negative m e) :
    quantity? x = some (.finite (if negative then -(m * 2 ^ e) else m * 2 ^ e)) := by
  rw [parts_eq_ofUnpacked] at found
  rw [quantity?]
  cases unpacked : x.toModel.unpack with
  | notANumber | infinity =>
      rw [unpacked] at found
      cases found
  | zero s =>
      rw [unpacked] at found
      cases found
      simp [Quantity.ofUnpacked?]
  | finite s m e pos =>
      rw [unpacked] at found
      cases found
      cases s <;> simp [Quantity.ofUnpacked?, Sign.apply]

theorem exists_parts {q : ℚ} (found : quantity? x = some (.finite q)) :
    ∃ negative m e, parts x = .finite negative m e := by
  rw [parts_eq_ofUnpacked]
  rw [quantity?] at found
  cases unpacked : x.toModel.unpack with
  | notANumber | infinity =>
      rw [unpacked] at found
      cases found
  | zero | finite => exact ⟨_, _, _, rfl⟩

end Parts

/-! ## Equality -/

/-- The finite floats of the logical model have parts as floats have them. -/
theorem fits_of_unpack {x : Float} {s : Sign} {m : Nat} {e : Int} {pos : 0 < m}
    (found : x.toModel.unpack = .finite s m e pos) : Fits m e :=
  fits_of_parts (x := x) (by rw [parts_eq_ofUnpacked, found]; rfl)

theorem apply_ne_zero (s : Sign) {m : Nat} (pos : 0 < m) : s.apply m ≠ 0 := by
  cases s <;> simp [Sign.apply, pos.ne']

theorem compare_sign_eq_eq_iff {s s' : Sign} :
    compare s s' = .eq ↔ (s' == .negative) = (s == .negative) := by
  cases s <;> cases s' <;> decide

theorem apply_mul_inj {s s' : Sign} {m m' : Nat} {e e' : Int} (pos : 0 < m) (pos' : 0 < m')
    (here : Fits m e) (there : Fits m' e') :
    (s.apply m : ℚ) * 2 ^ e = s'.apply m' * 2 ^ e' ↔ s = s' ∧ m = m' ∧ e = e' := by
  have above : (0 : ℚ) < m * 2 ^ e := by positivity
  have above' : (0 : ℚ) < m' * 2 ^ e' := by positivity
  constructor
  · intro same
    cases s <;> cases s' <;> simp only [Sign.apply, Int.cast_neg, Int.cast_natCast, neg_mul] at same
    · exact ⟨rfl, here.unique there (neg_inj.mp same)⟩
    · linarith
    · linarith
    · exact ⟨rfl, here.unique there same⟩
  · rintro ⟨rfl, rfl, rfl⟩
    rfl

theorem compare_eq_eq_iff {u v : UnpackedFloat}
    (fits : ∀ {s m e pos}, u = .finite s m e pos → Fits m e)
    (fits' : ∀ {s m e pos}, v = .finite s m e pos → Fits m e) :
    u.compare v = some .eq ↔
      ∃ q, Quantity.ofUnpacked? u = some q ∧ Quantity.ofUnpacked? v = some q := by
  cases u with
  | notANumber => simp [UnpackedFloat.compare, Quantity.ofUnpacked?]
  | infinity s =>
      cases v with
      | infinity s' =>
          simp [UnpackedFloat.compare, Quantity.ofUnpacked?, compare_sign_eq_eq_iff]
      | _ => cases s <;> simp [UnpackedFloat.compare, Quantity.ofUnpacked?]
  | zero s =>
      cases v with
      | infinity s' => cases s' <;> simp [UnpackedFloat.compare, Quantity.ofUnpacked?]
      | finite s' m e pos =>
          cases s' <;> simp [UnpackedFloat.compare, Quantity.ofUnpacked?, apply_ne_zero _ pos,
            zpow_ne_zero]
      | _ => simp [UnpackedFloat.compare, Quantity.ofUnpacked?]
  | finite s m e pos =>
      cases v with
      | infinity s' => cases s' <;> simp [UnpackedFloat.compare, Quantity.ofUnpacked?]
      | zero s' =>
          cases s <;> simp [UnpackedFloat.compare, Quantity.ofUnpacked?, apply_ne_zero _ pos,
            zpow_ne_zero]
      | notANumber => simp [UnpackedFloat.compare, Quantity.ofUnpacked?]
      | finite s' m' e' pos' =>
          simp only [Quantity.ofUnpacked?, Option.some.injEq, exists_eq_left',
            Quantity.finite.injEq, apply_mul_inj pos' pos (fits' rfl) (fits rfl),
            eq_comm (a := m'), eq_comm (a := e')]
          cases s <;> cases s' <;> simp [UnpackedFloat.compare, Ordering.then_eq_eq, and_comm]

/-- The operator `==` tells whether two floats stand for the same number. -/
theorem beq_iff_sameNumber (x y : Float) : (x == y) = true ↔ SameNumber x y := by
  show (x.toModel.unpack.compare y.toModel.unpack == some .eq) = true ↔ _
  rw [beq_iff_eq, compare_eq_eq_iff fits_of_unpack fits_of_unpack]
  rfl

end LineScript.Number
