import LineScript.Proofs.Parse.Progress

/-! # What parsers yield

A property of all the values that a parser can succeed with, whatever the text.
It is told by the properties of the parts, and for rules that call each other it
may be assumed of the rules that are called.
-/

namespace LineScript.Parse.Parser

variable {α β ι : Type}

/-- Whatever the text, a value that is read has the property `P`. -/
def Yields (p : Parser α) (P : α → Prop) : Prop :=
  ∀ ⦃s a rest⦄, p.outcome s = some (a, rest) → P a

namespace Yields

variable {p q : Parser α} {f : α → Parser β} {P : α → Prop} {Q : β → Prop}

theorem pure {a : α} (holds : P a) : Yields (pure a) P := by
  intro s b rest read
  obtain ⟨rfl, -⟩ := pure_success read
  exact holds

theorem bind (first : Yields p P) (next : ∀ a, P a → Yields (f a) Q) : Yields (p >>= f) Q := by
  intro s b rest read
  obtain ⟨a, mid, readFirst, readNext⟩ := bind_success read
  exact next a (first readFirst) readNext

/-- Nothing is asked of what is read first. -/
theorem skip (next : ∀ a, Yields (f a) Q) : Yields (p >>= f) Q :=
  bind (P := fun _ => True) (fun _ _ _ _ => trivial) fun a _ => next a

theorem choice (first : Yields p P) (second : Yields q P) : Yields (p <|> q) P := by
  intro s a rest read
  rcases choice_success read with read | ⟨-, read⟩
  · exact first read
  · exact second read

theorem optional (each : Yields p P) : Yields (optional p) fun found => ∀ a ∈ found, P a := by
  intro s found rest read
  rcases optional_success read with ⟨a, rfl, readInner⟩ | ⟨rfl, -⟩
  · simpa using each readInner
  · simp

theorem extend {step : α → Parser α} (keeps : ∀ a, P a → Yields (step a) P) {a : α} (start : P a) :
    Yields (extend step a) P := by
  have steps : ∀ rounds a s, P a → P (stepsWithin step rounds a s).1 := by
    intro rounds
    induction rounds with
    | zero => exact fun _ _ holds => holds
    | succ rounds ih =>
        intro a s holds
        rw [stepsWithin]
        split
        · next read => exact ih _ _ (keeps a holds read)
        · exact holds
  intro s b rest read
  rw [outcome_extend_eq_steps] at read
  have last := steps (s.length + 1) a s start
  rw [Option.some.inj read] at last
  exact last

theorem many (each : Yields p P) : Yields (many p) fun found => ∀ a ∈ found, P a := by
  refine bind (P := fun found => ∀ a ∈ found, P a) (extend ?_ nofun) ?_
  · intro found holds
    refine bind each fun a here => pure ?_
    simpa using ⟨here, holds⟩
  · intro found holds
    refine pure ?_
    simpa using holds

theorem recursive {rules : (ι → Parser α) → ι → Parser α} {P : ι → α → Prop}
    (step : ∀ self : ι → Parser α, (∀ i, Yields (self i) (P i)) →
      ∀ i, Yields (rules self i) (P i)) (i : ι) : Yields (recursive rules i) (P i) := by
  have within : ∀ (depth : Nat) (i : ι), Yields (recursiveWithin rules depth i) (P i) := by
    intro depth
    induction depth with
    | zero =>
        intro i s a rest read
        cases read
    | succ depth ih => exact step (recursiveWithin rules depth) ih
  intro s a rest read
  exact within (s.length + 1) i read

end Yields

end LineScript.Parse.Parser
