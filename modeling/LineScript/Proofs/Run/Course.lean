import LineScript.Proofs.Run.Parts

/-! # The course of a run

Running a script gives an outcome and nothing of the way there. Here is what a
run comes by: the statements it visits, each with the machine it finds, and the
machines at which a loop tests its condition.
-/

namespace LineScript

namespace Machine

/-- A loop that tests its condition at `m` first tests it at `m'` after `k` rounds. -/
inductive TestsAfter (condition : Expr) (round : Machine → Outcome) :
    Nat → Machine → Machine → Prop where
  | first {m} : TestsAfter condition round 0 m m
  | again {k m m₁ value m₂} : TestsAfter condition round k m m₁ →
      condition.eval m₁.scopes = .ok value → value.isTruthy = true → round m₁ = ⟨none, m₂⟩ →
      TestsAfter condition round (k + 1) m m₂

namespace TestsAfter

variable {condition : Expr} {round : Machine → Outcome} {k n : Nat} {m m' : Machine}

/-- The condition held at every test but the last. -/
theorem holds_before (tests : TestsAfter condition round n m m') (before : k < n) :
    ∃ m₁ value, TestsAfter condition round k m m₁ ∧ condition.eval m₁.scopes = .ok value ∧
      value.isTruthy = true := by
  induction tests with
  | first => exact absurd before (Nat.not_lt_zero k)
  | again earlier holds truthy _ ih =>
      rcases Nat.lt_succ_iff_lt_or_eq.mp before with before | rfl
      · exact ih before
      · exact ⟨_, _, earlier, holds, truthy⟩

theorem trans {m₁ : Machine} (tests : TestsAfter condition round k m m₁)
    (more : TestsAfter condition round n m₁ m') : TestsAfter condition round (k + n) m m' := by
  induction more with
  | first => exact tests
  | again _ holds truthy run ih => exact .again (ih tests) holds truthy run

end TestsAfter

/-- A loop that completes does so at a test that fails. -/
theorem exists_last_test {condition : Expr} {round : Machine → Outcome} {rounds : Nat}
    {m m' : Machine} (completes : loop condition round rounds m = ⟨none, m'⟩) :
    ∃ n value, TestsAfter condition round n m m' ∧ condition.eval m'.scopes = .ok value ∧
      value.isTruthy = false := by
  induction rounds generalizing m with
  | zero => cases completes
  | succ rounds ih =>
      rw [loop_succ, test] at completes
      split at completes
      · cases completes
      · next value holds =>
          split at completes
          · next truthy =>
              obtain ⟨m₁, run, completes⟩ := Outcome.andThen_eq_none completes
              obtain ⟨n, value, tests, fails⟩ := ih completes
              exact ⟨1 + n, value, (TestsAfter.first.again holds truthy run).trans tests, fails⟩
          · next falsy =>
              cases completes
              exact ⟨0, value, .first, holds, Bool.eq_false_iff.mpr falsy⟩

end Machine

section

variable (limits : Limits) (clock : Clock) (rounds : Nat)

/-- A round of a loop with a header: the block, and what the header says to do behind it. -/
def loopRound (update : Option Simple) (body : List Stmt) (m : Machine) : Outcome :=
  (runBlock limits clock rounds body m).andThen (runUpdate limits clock update)

/-- A loop with a header that is run at `m` tests its condition at `m'` after `k` rounds. -/
def LoopTests (init : Option Simple) (condition : Expr) (update : Option Simple) (body : List Stmt)
    (m : Machine) (k : Nat) (m' : Machine) : Prop :=
  ∃ m₁ m₂, m.tick limits clock = ⟨none, m₁⟩ ∧
    runInit limits clock init (m₁.enter (Scope.ofHeader init)) = ⟨none, m₂⟩ ∧
    Machine.TestsAfter condition (loopRound limits clock rounds update body) k m₂ m'

/-- A run of statements at a machine runs a statement of them, or one inside, at another machine. -/
inductive Visits : List Stmt → Machine → Stmt → Machine → Prop where
  | here {s rest m} : Visits (s :: rest) m s m
  | later {s rest m m₁ t m'} : s.run limits clock rounds m = ⟨none, m₁⟩ → Visits rest m₁ t m' →
      Visits (s :: rest) m t m'
  | yes {condition yes no rest m m₁ value t m'} : m.tick limits clock = ⟨none, m₁⟩ →
      condition.eval m₁.scopes = .ok value → value.isTruthy = true →
      Visits yes (m₁.enter (Scope.ofBlock yes)) t m' →
      Visits (.branch condition yes no :: rest) m t m'
  | no {condition yes no rest m m₁ value t m'} : m.tick limits clock = ⟨none, m₁⟩ →
      condition.eval m₁.scopes = .ok value → value.isTruthy = false →
      Visits no (m₁.enter (Scope.ofBlock no)) t m' →
      Visits (.branch condition yes (some no) :: rest) m t m'
  | forLoop {init condition update body rest m k m₁ value t m'} :
      LoopTests limits clock rounds init (condition.getD (.bool true)) update body m k m₁ →
      (condition.getD (.bool true)).eval m₁.scopes = .ok value → value.isTruthy = true →
      Visits body (m₁.enter (Scope.ofBlock body)) t m' →
      Visits (.forLoop init condition update body :: rest) m t m'
  | whileLoop {condition body rest m m₁ k m₂ value t m'} : m.tick limits clock = ⟨none, m₁⟩ →
      Machine.TestsAfter condition
        (fun m => (runBlock limits clock rounds body m).andThen (Machine.tick limits clock))
        k m₁ m₂ →
      condition.eval m₂.scopes = .ok value → value.isTruthy = true →
      Visits body (m₂.enter (Scope.ofBlock body)) t m' →
      Visits (.whileLoop condition body :: rest) m t m'
  | block {body rest m m₁ t m'} : m.tick limits clock = ⟨none, m₁⟩ →
      Visits body (m₁.enter (Scope.ofBlock body)) t m' →
      Visits (.block body :: rest) m t m'

end

/-- The condition held at every test but the last. -/
theorem LoopTests.holds_before {limits : Limits} {clock : Clock} {rounds : Nat}
    {init update : Option Simple} {condition : Expr} {body : List Stmt} {m m' : Machine} {k n : Nat}
    (tests : LoopTests limits clock rounds init condition update body m n m') (before : k < n) :
    ∃ m₁ value, LoopTests limits clock rounds init condition update body m k m₁ ∧
      condition.eval m₁.scopes = .ok value ∧ value.isTruthy = true := by
  obtain ⟨m₁, m₂, ticked, started, tests⟩ := tests
  obtain ⟨m₃, value, earlier, holds⟩ := tests.holds_before before
  exact ⟨m₃, value, ⟨m₁, m₂, ticked, started, earlier⟩, holds⟩

/-- A loop with a header that completes does so at a test that fails, and leaves the header. -/
theorem exists_last_loopTest_leave {limits : Limits} {clock : Clock} {rounds : Nat}
    {init update : Option Simple} {condition : Expr} {body : List Stmt} {m m' : Machine}
    (completes : (Stmt.forLoop init (some condition) update body).run limits clock rounds m =
      ⟨none, m'⟩) :
    ∃ n m₁ value, LoopTests limits clock rounds init condition update body m n m₁ ∧
      condition.eval m₁.scopes = .ok value ∧ value.isTruthy = false ∧ m₁.leave = m' := by
  rw [Stmt.run] at completes
  obtain ⟨m₁, ticked, completes⟩ := Outcome.andThen_eq_none completes
  obtain ⟨m₃, inside, left⟩ := Outcome.map_eq_none completes
  obtain ⟨m₂, started, looped⟩ := Outcome.andThen_eq_none inside
  obtain ⟨n, value, tests, holds, falsy⟩ := Machine.exists_last_test looped
  exact ⟨n, m₃, value, ⟨m₁, m₂, ticked, started, tests⟩, holds, falsy, left⟩

/-- A loop with a header that completes does so at a test that fails. -/
theorem exists_last_loopTest {limits : Limits} {clock : Clock} {rounds : Nat}
    {init update : Option Simple} {condition : Expr} {body : List Stmt} {m m' : Machine}
    (completes : (Stmt.forLoop init (some condition) update body).run limits clock rounds m =
      ⟨none, m'⟩) :
    ∃ n m₁ value, LoopTests limits clock rounds init condition update body m n m₁ ∧
      condition.eval m₁.scopes = .ok value ∧ value.isTruthy = false := by
  obtain ⟨n, m₁, value, tests, holds, falsy, -⟩ := exists_last_loopTest_leave completes
  exact ⟨n, m₁, value, tests, holds, falsy⟩

end LineScript
