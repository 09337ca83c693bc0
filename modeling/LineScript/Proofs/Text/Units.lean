import LineScript.Value
import Mathlib.Data.Char
import Mathlib.Data.List.Basic
import Mathlib.Logic.ExistsUnique

/-! # The order of texts

Texts are put in order by the code units of UTF-16, but they are equal by their characters. The two
agree since a text can be read off its code units: a unit that is half of a surrogate pair is never
a character, and the two halves tell which character they stand for. So the order of texts is a
strict total one, although it is not the order of their characters.
-/

namespace LineScript.Text

/-- The code units that stand for one character. -/
inductive StandFor : List Nat → Char → Prop where
  | single {c} : c.toNat < 0x10000 → StandFor [c.toNat] c
  | pair {c high low} : 0xD800 ≤ high → high < 0xDC00 → 0xDC00 ≤ low → low < 0xE000 →
      c.toNat = 0x10000 + (high - 0xD800) * 0x400 + (low - 0xDC00) → StandFor [high, low] c

/-- A text and its code units in UTF-16. -/
inductive Utf16 : List Char → List Nat → Prop where
  | nil : Utf16 [] []
  | cons {c us s vs} : StandFor us c → Utf16 s vs → Utf16 (c :: s) (us ++ vs)

/-! ## Code units of characters -/

section StandFor

variable {us us' vs vs' : List Nat} {c c' : Char}

/-- No character is half of a surrogate pair. -/
theorem toNat_not_surrogate (c : Char) : c.toNat < 0xD800 ∨ 0xDFFF < c.toNat ∧ c.toNat < 0x110000 :=
  c.valid

theorem standFor_unitsOf (c : Char) : StandFor (unitsOf c) c := by
  have valid := toNat_not_surrogate c
  unfold unitsOf
  dsimp only
  split
  · next small => exact .single small
  · exact .pair (by omega) (by omega) (by omega) (by omega) (by omega)

/-- A character and what comes behind it can be read off the code units. -/
theorem StandFor.unique (here : StandFor us c) (here' : StandFor us' c')
    (same : us ++ vs = us' ++ vs') : c = c' ∧ vs = vs' := by
  have valid := toNat_not_surrogate c
  have valid' := toNat_not_surrogate c'
  cases here with
  | single small =>
      cases here' with
      | single small' =>
          obtain ⟨unit, rest⟩ := List.cons.inj same
          exact ⟨Char.toNat_inj.mp unit, rest⟩
      | pair =>
          have unit := (List.cons.inj same).1
          omega
  | pair =>
      cases here' with
      | single =>
          have unit := (List.cons.inj same).1
          omega
      | pair =>
          obtain ⟨high, behind⟩ := List.cons.inj same
          obtain ⟨low, rest⟩ := List.cons.inj behind
          exact ⟨Char.toNat_inj.mp (by omega), rest⟩

theorem StandFor.eq_unitsOf (here : StandFor us c) : us = unitsOf c := by
  have valid := toNat_not_surrogate c
  cases here with
  | single small => rw [unitsOf, if_pos small]
  | pair =>
      rw [unitsOf, if_neg (by omega), List.cons.injEq, List.cons.injEq]
      refine ⟨?_, ?_, rfl⟩ <;> omega

end StandFor

/-! ## Code units of texts -/

theorem utf16_iff {s : List Char} {us : List Nat} : Utf16 s us ↔ us = s.flatMap unitsOf := by
  constructor
  · intro coded
    induction coded with
    | nil => rfl
    | cons here _ ih => rw [here.eq_unitsOf, ih, List.flatMap_cons]
  · rintro rfl
    induction s with
    | nil => exact .nil
    | cons c s ih => exact .cons (standFor_unitsOf c) ih

theorem unitsOf_ne_nil (c : Char) : unitsOf c ≠ [] := by
  unfold unitsOf
  dsimp only
  split <;> simp

/-- A text can be read off its code units. -/
theorem flatMap_unitsOf_injective {s t : List Char}
    (same : s.flatMap unitsOf = t.flatMap unitsOf) : s = t := by
  induction s generalizing t with
  | nil =>
      cases t with
      | nil => rfl
      | cons d t => simp [unitsOf_ne_nil] at same
  | cons c s ih =>
      cases t with
      | nil => simp [unitsOf_ne_nil] at same
      | cons d t =>
          obtain ⟨rfl, rest⟩ := (standFor_unitsOf c).unique (standFor_unitsOf d) same
          rw [ih rest]

theorem units_injective {a b : String} (same : units a = units b) : a = b :=
  String.toList_injective (flatMap_unitsOf_injective same)

/-! ## The order of code units -/

theorem compareLex_eq_lt_iff {us vs : List Nat} : us.compareLex compare vs = .lt ↔ us < vs := by
  induction us generalizing vs with
  | nil => cases vs <;> simp [List.compareLex_nil_nil, List.compareLex_nil_cons]
  | cons u us ih =>
      cases vs with
      | nil => simp [List.compareLex_cons_nil]
      | cons v vs =>
          rw [List.compareLex_cons_cons, Ordering.then_eq_lt, Nat.compare_eq_lt, Nat.compare_eq_eq,
            ih, List.cons_lt_cons_iff]

theorem compareUnits_eq_eq_iff {a b : String} : compareUnits a b = .eq ↔ a = b := by
  rw [compareUnits, Std.LawfulEqCmp.compare_eq_iff_eq]
  exact ⟨units_injective, fun same => by rw [same]⟩

end LineScript.Text

namespace LineScript

open Text

section TextOrder

variable {a b : String}

theorem apply_lt_texts :
    BinaryOp.lt.apply (.text a) (.text b) = .bool true ↔ compareUnits a b = .lt := by
  simp [BinaryOp.apply, Value.compare?]

theorem apply_gt_texts :
    BinaryOp.gt.apply (.text a) (.text b) = .bool true ↔ compareUnits a b = .gt := by
  simp [BinaryOp.apply, Value.compare?]

theorem apply_strictEq_texts :
    BinaryOp.strictEq.apply (.text a) (.text b) = .bool true ↔ compareUnits a b = .eq := by
  simp [BinaryOp.apply, Value.strictEquals, compareUnits_eq_eq_iff]

/-- One of the three operators holds of two texts, and only one. -/
theorem existsUnique_order_texts (a b : String) :
    ∃! op, op ∈ [BinaryOp.lt, .strictEq, .gt] ∧ op.apply (.text a) (.text b) = .bool true := by
  have only : ∀ op, (op ∈ [BinaryOp.lt, .strictEq, .gt] ∧
      op.apply (.text a) (.text b) = .bool true) ↔
        op = match compareUnits a b with | .lt => .lt | .eq => .strictEq | .gt => .gt := by
    intro op
    cases order : compareUnits a b <;> cases op <;>
      simp [apply_lt_texts, apply_strictEq_texts, apply_gt_texts, order]
  exact ⟨_, (only _).mpr rfl, fun op => (only op).mp⟩

end TextOrder

/-- Texts are in a strict total order that goes with their equality, and it is the order of their
    code units in UTF-16. -/
theorem texts_in_order_of_units (a b c : String) :
    (∃! op, op ∈ [BinaryOp.lt, .strictEq, .gt] ∧ op.apply (.text a) (.text b) = .bool true) ∧
    (BinaryOp.strictEq.apply (.text a) (.text b) = .bool true ↔ a = b) ∧
    (BinaryOp.lt.apply (.text a) (.text b) = .bool true →
      BinaryOp.lt.apply (.text b) (.text c) = .bool true →
        BinaryOp.lt.apply (.text a) (.text c) = .bool true) ∧
    BinaryOp.le.apply (.text a) (.text b) =
      UnaryOp.not.apply (BinaryOp.gt.apply (.text a) (.text b)) ∧
    BinaryOp.ge.apply (.text a) (.text b) =
      UnaryOp.not.apply (BinaryOp.lt.apply (.text a) (.text b)) ∧
    (BinaryOp.lt.apply (.text a) (.text b) = .bool true ↔
      ∃ us vs, Utf16 a.toList us ∧ Utf16 b.toList vs ∧ us < vs) := by
  refine ⟨existsUnique_order_texts a b, ?_, ?_, ?_, ?_, ?_⟩
  · rw [apply_strictEq_texts, compareUnits_eq_eq_iff]
  · simp only [apply_lt_texts, compareUnits]
    exact Std.TransCmp.lt_trans
  · simp only [BinaryOp.apply, UnaryOp.apply, Value.isTruthy, Value.compare?]
    cases compareUnits a b <;> rfl
  · simp only [BinaryOp.apply, UnaryOp.apply, Value.isTruthy, Value.compare?]
    cases compareUnits a b <;> rfl
  · rw [apply_lt_texts, compareUnits, compareLex_eq_lt_iff]
    simp only [utf16_iff, units]
    exact ⟨fun less => ⟨_, _, rfl, rfl, less⟩, by rintro ⟨_, _, rfl, rfl, less⟩; exact less⟩

-- The units of a pair come before some single ones, though its character comes behind theirs.
example : BinaryOp.lt.apply (.text "😀") (.text "｡") = .bool true ∧ '｡' < '😀' :=
  ⟨rfl, by decide⟩

end LineScript
