import Mathlib.Logic.Basic
import LineScript.Proofs.Run.Parts
import LineScript.Run.Report

/-! # Compound assignments

An assignment such as `x += e` does what `x = x + e` does, but for one thing. Where both `x` and `e`
have no value, the two statements fail for different reasons: the first one has evaluated `e` before
it looks at `x`, the second one has looked at `x` first.
-/

namespace LineScript

/-- The assignment with an operator: the value of the variable is combined with that of `e`. -/
def Stmt.compound (name : String) (op : CompoundOp) (e : Expr) : Stmt :=
  .simple (.assign name (some op) e)

/-- The plain assignment that spells the operator out. -/
def Stmt.spelledOut (name : String) (op : CompoundOp) (e : Expr) : Stmt :=
  .simple (.assign name none (.binary op.binary (.name name) e))

/-- Neither the variable nor the expression has a value, and not for the same reason. -/
structure FailsApart (scopes : Scopes) (name : String) (e : Expr) (f g : Fault) : Prop where
  target : scopes.value name = .error f
  operand : e.eval scopes = .error g
  apart : f ≠ g

namespace Simple

variable {scopes : Scopes} {name : String} {op : CompoundOp} {e : Expr} {f g : Fault}

theorem exec_spelledOut (scopes : Scopes) (name : String) (op : CompoundOp) (e : Expr) :
    (assign name none (.binary op.binary (.name name) e)).exec scopes =
      scopes.value name >>= fun current =>
        e.eval scopes >>= fun value => scopes.assign name (op.binary.apply current value) := by
  rw [exec, Expr.eval, Expr.eval]
  cases scopes.value name with
  | error f => rfl
  | ok current =>
      cases e.eval scopes with
      | error g => rfl
      | ok value => rfl

theorem exec_compound_eq (agree : ∀ f g, ¬FailsApart scopes name e f g) :
    (assign name (some op) e).exec scopes =
      (assign name none (.binary op.binary (.name name) e)).exec scopes := by
  rw [exec_spelledOut, exec]
  cases operand : e.eval scopes with
  | ok value => rfl
  | error g =>
      cases target : scopes.value name with
      | ok current => rfl
      | error f =>
          by_cases same : f = g
          · subst same
            rfl
          · exact absurd ⟨target, operand, same⟩ (agree f g)

theorem exec_of_failsApart (op : CompoundOp) (fails : FailsApart scopes name e f g) :
    (assign name (some op) e).exec scopes = .error g ∧
      (assign name none (.binary op.binary (.name name) e)).exec scopes = .error f := by
  rw [exec_spelledOut, exec, fails.operand, fails.target]
  exact ⟨rfl, rfl⟩

variable {limits : Limits} {clock : Clock} {m : Machine}

/-- Of two statements that do the same to the scopes, if they get as far, the runs are the same. -/
theorem run_congr {s s' : Simple}
    (same : (m.tick limits clock).halt = none → s.exec m.scopes = s'.exec m.scopes) :
    s.run limits clock m = s'.run limits clock m := by
  have scopes := m.tick_scopes limits clock
  rw [run, run]
  generalize m.tick limits clock = o at same scopes
  obtain ⟨halt, m'⟩ := o
  cases halt with
  | some halt => rfl
  | none =>
      rw [← scopes] at same
      simp only [Outcome.andThen, Machine.simple, same rfl]

theorem run_of_error {s : Simple} (taken : (m.tick limits clock).halt = none)
    (fails : s.exec m.scopes = .error f) :
    s.run limits clock m = (m.tick limits clock).machine.failWith f := by
  have scopes := m.tick_scopes limits clock
  rw [run]
  generalize m.tick limits clock = o at taken scopes
  obtain ⟨halt, m'⟩ := o
  cases taken
  rw [← scopes] at fails
  simp only [Outcome.andThen, Machine.simple, fails]

end Simple

namespace Stmt

variable {limits : Limits} {clock : Clock} {m : Machine} {name : String} {e : Expr}

theorem run_compound_eq (rounds : Nat) (op : CompoundOp)
    (agree : ∀ f g, (m.tick limits clock).halt = none → ¬FailsApart m.scopes name e f g) :
    (compound name op e).run limits clock rounds m =
      (spelledOut name op e).run limits clock rounds m := by
  apply Simple.run_congr
  intro taken
  exact Simple.exec_compound_eq fun f g => agree f g taken

theorem run_of_failsApart (rounds : Nat) (op : CompoundOp) {f g : Fault}
    (taken : (m.tick limits clock).halt = none) (fails : FailsApart m.scopes name e f g) :
    (compound name op e).run limits clock rounds m = (m.tick limits clock).machine.failWith g ∧
      (spelledOut name op e).run limits clock rounds m =
        (m.tick limits clock).machine.failWith f := by
  obtain ⟨execCompound, execSpelledOut⟩ := Simple.exec_of_failsApart op fails
  exact ⟨Simple.run_of_error taken execCompound, Simple.run_of_error taken execSpelledOut⟩

end Stmt

/-- An assignment with an operator and the one that spells it out always leave the same scopes,
    lines and steps. They are the same in all unless a step is left for them and both the variable
    and the expression fail, for different reasons: then the first one names the fault of the
    expression and the second one that of the variable. -/
theorem run_compound (limits : Limits) (clock : Clock) (rounds : Nat) (m : Machine) (name : String)
    (op : CompoundOp) (e : Expr) :
    ((Stmt.compound name op e).run limits clock rounds m).machine =
        ((Stmt.spelledOut name op e).run limits clock rounds m).machine ∧
      ((∀ f g, (m.tick limits clock).halt = none → ¬FailsApart m.scopes name e f g) →
        (Stmt.compound name op e).run limits clock rounds m =
          (Stmt.spelledOut name op e).run limits clock rounds m) ∧
      ∀ f g, (m.tick limits clock).halt = none → FailsApart m.scopes name e f g →
        ((Stmt.compound name op e).run limits clock rounds m).halt = some (.fault g) ∧
          ((Stmt.spelledOut name op e).run limits clock rounds m).halt = some (.fault f) := by
  refine ⟨?_, Stmt.run_compound_eq rounds op, ?_⟩
  · by_cases agree : ∀ f g, (m.tick limits clock).halt = none → ¬FailsApart m.scopes name e f g
    · rw [Stmt.run_compound_eq rounds op agree]
    · simp only [not_forall, not_not] at agree
      obtain ⟨f, g, taken, fails⟩ := agree
      obtain ⟨compound, spelledOut⟩ := Stmt.run_of_failsApart rounds op taken fails
      rw [compound, spelledOut]
      rfl
  · intro f g taken fails
    obtain ⟨compound, spelledOut⟩ := Stmt.run_of_failsApart rounds op taken fails
    rw [compound, spelledOut]
    exact ⟨rfl, rfl⟩

/-- A variable whose declaration has not run, with an operand that fails for another reason and with
    one that fails for the same. -/
theorem run_compound_uninitialized :
    (Machine.tick ⟨some 1, none⟩ (fun _ => 0) ⟨[[("t", ⟨none, false⟩)]], #[], 0⟩).halt = none ∧
      FailsApart [[("t", ⟨none, false⟩)]] "t" (.name "y") (.uninitialized "t") (.notDefined "y") ∧
      ((Stmt.compound "t" .mul (.name "y")).run ⟨some 1, none⟩ (fun _ => 0) 0
        ⟨[[("t", ⟨none, false⟩)]], #[], 0⟩).halt = some (.fault (.notDefined "y")) ∧
      ((Stmt.spelledOut "t" .mul (.name "y")).run ⟨some 1, none⟩ (fun _ => 0) 0
        ⟨[[("t", ⟨none, false⟩)]], #[], 0⟩).halt = some (.fault (.uninitialized "t")) ∧
      (Stmt.compound "t" .mul (.name "t")).run ⟨some 1, none⟩ (fun _ => 0) 0
          ⟨[[("t", ⟨none, false⟩)]], #[], 0⟩ =
        (Stmt.spelledOut "t" .mul (.name "t")).run ⟨some 1, none⟩ (fun _ => 0) 0
          ⟨[[("t", ⟨none, false⟩)]], #[], 0⟩ := by
  have fails : FailsApart [[("t", ⟨none, false⟩)]] "t" (.name "y") (.uninitialized "t")
      (.notDefined "y") := ⟨rfl, rfl, by simp⟩
  have agree : ∀ f g, ¬FailsApart [[("t", ⟨none, false⟩)]] "t" (.name "t") f g := by
    rintro f g ⟨target, operand, apart⟩
    rw [Expr.eval, target] at operand
    cases operand
    exact apart rfl
  obtain ⟨-, -, apart⟩ := run_compound ⟨some 1, none⟩ (fun _ => 0) 0
    ⟨[[("t", ⟨none, false⟩)]], #[], 0⟩ "t" .mul (.name "y")
  obtain ⟨-, alike, -⟩ := run_compound ⟨some 1, none⟩ (fun _ => 0) 0
    ⟨[[("t", ⟨none, false⟩)]], #[], 0⟩ "t" .mul (.name "t")
  exact ⟨rfl, fails, (apart _ _ rfl fails).1, (apart _ _ rfl fails).2, alike fun f g _ => agree f g⟩

/-- Where neither name is declared, the two assignments are told apart by what they report. -/
theorem execute_undeclaredOperands :
    Sandbox.execute "x += y;" = ["Runtime Error: y is not defined"] ∧
      Sandbox.execute "x = x + y;" = ["Runtime Error: x is not defined"] :=
  ⟨by decide +kernel, by decide +kernel⟩

end LineScript
