import LineScript.Run.Machine

/-! # Parts of a run

A run is put together from parts that go on unless one before them has halted.
-/

namespace LineScript

namespace Outcome

variable {o : Outcome} {f : Machine → Outcome} {m : Machine}

theorem andThen_done (o : Outcome) : o.andThen (⟨none, ·⟩) = o := by
  obtain ⟨halt, m⟩ := o
  cases halt <;> rfl

theorem andThen_eq_none (completes : o.andThen f = ⟨none, m⟩) :
    ∃ m₁, o = ⟨none, m₁⟩ ∧ f m₁ = ⟨none, m⟩ := by
  obtain ⟨halt, m₁⟩ := o
  cases halt with
  | none => exact ⟨m₁, rfl, completes⟩
  | some halt => cases completes

theorem map_eq_none {g : Machine → Machine} (completes : o.map g = ⟨none, m⟩) :
    ∃ m₁, o = ⟨none, m₁⟩ ∧ g m₁ = m := by
  obtain ⟨halt, m₁⟩ := o
  cases completes
  exact ⟨m₁, rfl, rfl⟩

theorem andThen_machine {P : Machine → Prop} (first : P o.machine)
    (next : ∀ m, o = ⟨none, m⟩ → P m → P (f m).machine) : P (o.andThen f).machine := by
  obtain ⟨halt, m⟩ := o
  cases halt with
  | none => exact next m rfl first
  | some => exact first

end Outcome

namespace Machine

/-- A step is taken, or it is one too many, or it is too late. -/
theorem tick_cases (limits : Limits) (clock : Clock) (m : Machine) :
    ((∀ l ∈ limits.maxSteps, m.steps < l) ∧
        m.tick limits clock = ⟨none, { m with steps := m.steps + 1 }⟩) ∨
      (∃ l ∈ limits.maxSteps, l ≤ m.steps ∧ m.tick limits clock =
        ⟨some (.fault (.stepLimit l)), { m with steps := m.steps + 1 }⟩) ∨
      ∃ ms ∈ limits.timeout, m.tick limits clock =
        ⟨some (.fault (.timeLimit ms)), { m with steps := m.steps + 1 }⟩ := by
  have timed : ∀ m, tick.timed limits clock m = ⟨none, m⟩ ∨
      ∃ ms ∈ limits.timeout, tick.timed limits clock m = ⟨some (.fault (.timeLimit ms)), m⟩ := by
    intro m
    unfold tick.timed
    split
    · next ms timeout =>
        split
        · exact .inr ⟨ms, timeout, rfl⟩
        · exact .inl rfl
    · exact .inl rfl
  have onTime := timed { m with steps := m.steps + 1 }
  rw [tick]
  cases limits.maxSteps with
  | none => exact onTime.imp (⟨nofun, ·⟩) .inr
  | some l =>
      by_cases beyond : l < m.steps + 1
      · exact .inr (.inl ⟨l, rfl, Nat.le_of_lt_succ beyond, if_pos beyond⟩)
      · dsimp only
        rw [if_neg beyond]
        refine onTime.imp (⟨?_, ·⟩) .inr
        rintro l' ⟨⟩
        omega

theorem tick_scopes (limits : Limits) (clock : Clock) (m : Machine) :
    (m.tick limits clock).machine.scopes = m.scopes := by
  rcases m.tick_cases limits clock with ⟨_, taken⟩ | ⟨_, _, _, taken⟩ | ⟨_, _, taken⟩ <;> rw [taken]

theorem loop_succ (condition : Expr) (round : Machine → Outcome) (n : Nat) (m : Machine) :
    loop condition round (n + 1) m =
      m.test condition (fun m => (round m).andThen (loop condition round n)) (⟨none, ·⟩) := by
  rw [loop, test]
  cases condition.eval m.scopes with
  | error => rfl
  | ok value =>
      dsimp only
      split
      · obtain ⟨halt, m'⟩ := round m
        cases halt <;> rfl
      · rfl

/-- What every round keeps a loop keeps. -/
theorem loop_machine {P : Machine → Prop} {round : Machine → Outcome}
    (step : ∀ m, P m → P (round m).machine) (condition : Expr) (rounds : Nat) {m : Machine}
    (start : P m) : P (loop condition round rounds m).machine := by
  induction rounds generalizing m with
  | zero => exact start
  | succ rounds ih =>
      rw [loop_succ, test]
      split
      · exact start
      · split
        · exact Outcome.andThen_machine (step m start) fun _ _ => ih
        · exact start

end Machine

end LineScript
