/-! # Runs of digits

The whole number that a run of digits spells. Digits are gathered into runs whose lengths are powers
of two, and two runs of one length are joined as soon as they stand next to each other, so that even
very long texts are read with few large multiplications. `digitsValue_eq_foldl` says that this is
the same as reading one digit after the other.
-/

namespace LineScript.Number

/-- The value of a digit. -/
def digitValue (c : Char) : Nat :=
  c.toNat - '0'.toNat

/-- What is known of some digits in a row. -/
structure DigitRun where
  /-- The whole number that they spell. -/
  value : Nat
  /-- Ten to the power of their count. -/
  power : Nat
  deriving Repr, DecidableEq

namespace DigitRun

/-- No digit at all. -/
def empty : DigitRun := ⟨0, 1⟩

/-- One digit. -/
def single (c : Char) : DigitRun := ⟨digitValue c, 10⟩

/-- The digits of one run and then those of another. -/
def append (a b : DigitRun) : DigitRun :=
  ⟨a.value * b.power + b.value, a.power * b.power⟩

/-- Put a run of `2 ^ level` digits behind the runs of a stack, whose last one comes first. The
    level of each run is kept beside it. -/
def push (level : Nat) (run : DigitRun) : List (Nat × DigitRun) → List (Nat × DigitRun)
  | [] => [(level, run)]
  | (other, before) :: rest =>
      if other = level then push (level + 1) (before.append run) rest
      else (level, run) :: (other, before) :: rest

/-- All the runs of a stack in one. -/
def total : List (Nat × DigitRun) → DigitRun
  | [] => empty
  | (_, run) :: rest => (total rest).append run

theorem append_assoc (a b c : DigitRun) : (a.append b).append c = a.append (b.append c) := by
  simp [append, Nat.add_mul, Nat.mul_assoc, Nat.add_assoc]

theorem total_push (level : Nat) (run : DigitRun) (stack : List (Nat × DigitRun)) :
    total (push level run stack) = (total stack).append run := by
  induction stack generalizing level run with
  | nil => rfl
  | cons top rest ih =>
      rcases top with ⟨other, before⟩
      simp only [push]
      split
      · rw [ih, total, append_assoc]
      · rfl

/-- All the digits of a text in one run. -/
def ofDigits (digits : List Char) : DigitRun :=
  total (digits.foldl (fun stack c => push 0 (single c) stack) [])

end DigitRun

/-- The whole number that a run of digits spells. -/
def digitsValue (digits : List Char) : Nat :=
  (DigitRun.ofDigits digits).value

/-- The value of a run of digits is found by reading one digit after the other. -/
theorem digitsValue_eq_foldl (digits : List Char) :
    digitsValue digits = digits.foldl (fun n c => 10 * n + digitValue c) 0 := by
  suffices h : ∀ (stack : List (Nat × DigitRun)),
      (DigitRun.total
        (digits.foldl (fun stack c => DigitRun.push 0 (DigitRun.single c) stack) stack)).value =
      digits.foldl (fun n c => 10 * n + digitValue c) (DigitRun.total stack).value from h []
  induction digits with
  | nil => intro stack; rfl
  | cons c digits ih =>
      intro stack
      rw [List.foldl_cons, List.foldl_cons, ih, DigitRun.total_push]
      simp [DigitRun.append, DigitRun.single, Nat.mul_comm]

end LineScript.Number
