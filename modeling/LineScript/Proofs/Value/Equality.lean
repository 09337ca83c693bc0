import LineScript.Proofs.Number.Quantity
import LineScript.Value

/-! # Equality of values

Loose equality brings both its operands to one kind before it compares them. What it comes to is
told by the kinds of the operands alone: values of one kind are compared strictly, the two kinds of
nothing equal each other and no other value, and all other values of different kinds are compared
as numbers.
-/

namespace LineScript

open Number

namespace Value

/-- The kinds of values. -/
inductive Kind where
  | undefined | null | bool | number | text
  deriving DecidableEq

/-- The kind of a value. -/
def kind : Value → Kind
  | .undefined => .undefined
  | .null => .null
  | .bool _ => .bool
  | .number _ => .number
  | .text _ => .text

theorem isNothing_iff {a : Value} : a.isNothing = true ↔ a ∈ [.undefined, .null] := by
  cases a <;> simp [isNothing]

/-! ## Strict equality -/

/-- Values are strictly equal if they are numbers that are the same, or the same value of another
    kind. -/
theorem strictEquals_iff {a b : Value} : a.strictEquals b = true ↔
    a.kind = b.kind ∧ if a.kind = .number then SameNumber a.toNumber b.toNumber else a = b := by
  cases a <;> cases b <;> simp [strictEquals, kind, toNumber, beq_iff_sameNumber]

theorem strictEquals_comm (a b : Value) : a.strictEquals b = b.strictEquals a := by
  rw [Bool.eq_iff_iff, strictEquals_iff, strictEquals_iff, eq_comm (a := a.kind),
    and_congr_right_iff]
  intro same
  rw [same, sameNumber_comm, eq_comm (a := a)]

/-! ## Loose equality by kinds -/

theorem bool_toNumber_inj (a b : Bool) :
    (toNumber (.bool a) == toNumber (.bool b)) = (a == b) := by
  cases a <;> cases b <;> decide +kernel

section Kinds

variable {a b : Value}

/-- Values of one kind are compared strictly. -/
theorem looseEquals_of_kind_eq (same : a.kind = b.kind) : a.looseEquals b = a.strictEquals b := by
  cases a <;> cases b <;> cases same
  case bool.bool a b => exact bool_toNumber_inj a b
  all_goals rfl

/-- The two kinds of nothing equal each other and no other value. -/
theorem looseEquals_of_isNothing (nothing : a.isNothing = true) :
    a.looseEquals b = b.isNothing := by
  cases a with
  | undefined | null => rfl
  | bool | number | text => cases nothing

theorem looseEquals_of_isNothing_right (nothing : b.isNothing = true) :
    a.looseEquals b = a.isNothing := by
  cases b with
  | undefined | null => cases a <;> rfl
  | bool | number | text => cases nothing

theorem equalsNumber_iff (some_ : a.isNothing = false) (x : Float) :
    equalsNumber x a = true ↔ SameNumber x a.toNumber := by
  rw [← beq_iff_sameNumber]
  cases a with
  | undefined | null => cases some_
  | bool | number | text => rfl

/-- Other values of different kinds are compared as numbers, the right one being brought to a number
    first if it is a truth value, or if the left one is a text. -/
theorem looseEquals_of_kind_ne (other : a.kind ≠ b.kind) (some_ : a.isNothing = false)
    (some' : b.isNothing = false) :
    a.looseEquals b = true ↔ SameNumber a.toNumber b.toNumber := by
  have left := equalsNumber_iff some' a.toNumber
  have right := (equalsNumber_iff some_ b.toNumber).trans sameNumber_comm
  cases a with
  | undefined | null => cases some_
  | bool =>
      cases b with
      | undefined | null => cases some'
      | bool => exact absurd rfl other
      | number | text => exact left
  | number =>
      cases b with
      | undefined | null => cases some'
      | bool => exact right
      | number => exact absurd rfl other
      | text => exact left
  | text =>
      cases b with
      | undefined | null => cases some'
      | bool | number => exact right
      | text => exact absurd rfl other

theorem looseEquals_comm (a b : Value) : a.looseEquals b = b.looseEquals a := by
  cases nothing : a.isNothing with
  | true => rw [looseEquals_of_isNothing nothing, looseEquals_of_isNothing_right nothing]
  | false =>
      cases nothing' : b.isNothing with
      | true => rw [looseEquals_of_isNothing nothing', looseEquals_of_isNothing_right nothing']
      | false =>
          by_cases same : a.kind = b.kind
          · rw [looseEquals_of_kind_eq same, looseEquals_of_kind_eq same.symm, strictEquals_comm]
          · rw [Bool.eq_iff_iff, looseEquals_of_kind_ne same nothing nothing',
              looseEquals_of_kind_ne (Ne.symm same) nothing' nothing, sameNumber_comm]

end Kinds

/-- Loose equality does not depend on the order of its operands and holds wherever strict equality
    does. On values of one kind the two agree, nothing equals nothing only, and all other values
    are compared as numbers. -/
theorem looseEquals_by_kinds (a b : Value) :
    a.looseEquals b = b.looseEquals a ∧
    (a.strictEquals b = true → a.looseEquals b = true) ∧
    (a.kind = b.kind → a.looseEquals b = a.strictEquals b) ∧
    (a ∈ [.undefined, .null] → (a.looseEquals b = true ↔ b ∈ [.undefined, .null])) ∧
    (a.kind ≠ b.kind → a ∉ [.undefined, .null] → b ∉ [.undefined, .null] →
      (a.looseEquals b = true ↔ SameNumber a.toNumber b.toNumber)) := by
  simp only [← isNothing_iff, Bool.not_eq_true]
  refine ⟨looseEquals_comm a b, ?_, looseEquals_of_kind_eq, ?_, looseEquals_of_kind_ne⟩
  · intro equal
    rw [looseEquals_of_kind_eq (strictEquals_iff.mp equal).1, equal]
  · intro nothing
    rw [looseEquals_of_isNothing nothing]

end Value

end LineScript
