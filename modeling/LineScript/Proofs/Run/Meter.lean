import LineScript.Proofs.Run.Budget

/-! # Steps and lines of a run under a limit

Every statement takes a step before it does anything, and so does every round of
a loop. Under a step limit a run therefore comes to an end. It takes at most one
step more than the limit, and this one is taken exactly if the limit stops the
run. No more lines are captured than steps are taken within the limit.
-/

namespace LineScript

/-- What is done without a step: at most one line is captured, and only the script is at fault. -/
structure Momentary (m : Machine) (o : Outcome) : Prop where
  steps : o.machine.steps = m.steps
  log : o.machine.log.size ≤ m.log.size + 1
  own : ∀ f, o.halt = some (.fault f) → f.isOwn = true

namespace Momentary

theorem done {m : Machine} {scopes : Scopes} : Momentary m ⟨none, { m with scopes }⟩ :=
  ⟨rfl, Nat.le_succ _, nofun⟩

theorem fault {m : Machine} {f : Fault} (own : f.isOwn = true) : Momentary m (m.failWith f) := by
  refine ⟨rfl, Nat.le_succ _, ?_⟩
  rintro _ ⟨⟩
  exact own

theorem simple (m : Machine) (s : Simple) : Momentary m (m.simple s) := by
  rw [Machine.simple]
  cases exec : s.exec m.scopes with
  | error f => exact fault (OwnFaults.exec _ _ f exec)
  | ok scopes => exact done

theorem console (m : Machine) (method : String) (args : List Expr) :
    Momentary m (m.console method args) := by
  rw [Machine.console]
  cases texts : evalTexts m.scopes args with
  | error f => exact fault (OwnFaults.evalTexts _ _ f texts)
  | ok texts =>
      dsimp only
      split
      · exact ⟨rfl, by simp, by simp⟩
      · exact fault rfl

theorem eval (m : Machine) (e : Expr) : Momentary m
    (match e.eval m.scopes with
      | .error f => m.failWith f
      | .ok _ => ⟨none, m⟩) := by
  cases value : e.eval m.scopes with
  | error f => exact fault (OwnFaults.eval _ _ f value)
  | ok _ => exact done

end Momentary

/-- Under a limit a step is one too many, or it stays within the limit even if it is too late. -/
theorem Machine.tick_limited {limits : Limits} {l : Nat} (limited : limits.maxSteps = some l)
    (clock : Clock) (m : Machine) :
    (l ≤ m.steps ∧ m.tick limits clock =
        ⟨some (.fault (.stepLimit l)), { m with steps := m.steps + 1 }⟩) ∨
      (m.steps < l ∧ ∃ halt, halt ≠ some (.fault (.stepLimit l)) ∧
        m.tick limits clock = ⟨halt, { m with steps := m.steps + 1 }⟩) := by
  by_cases beyond : l < m.steps + 1
  · exact .inl ⟨by omega, by simp [tick, limited, beyond, failWith]⟩
  · refine .inr ⟨by omega, ?_⟩
    simp only [tick, limited, beyond, if_false, tick.timed]
    cases limits.timeout with
    | none => exact ⟨none, by simp, rfl⟩
    | some ms =>
        simp only
        split
        · exact ⟨_, by simp, rfl⟩
        · exact ⟨none, by simp, rfl⟩

/-- A part of a run under the limit `l` that starts at `m`. -/
structure Metered (l : Nat) (m : Machine) (o : Outcome) : Prop where
  within : o.halt ≠ some (.fault (.stepLimit l)) → o.machine.steps ≤ l
  stopped : o.halt = some (.fault (.stepLimit l)) → o.machine.steps = l + 1
  log : o.machine.log.size + m.steps ≤ m.log.size + min o.machine.steps l

namespace Metered

variable {limits : Limits} {clock : Clock} {l : Nat} {m : Machine} {o : Outcome}
  {f g : Machine → Outcome}

/-- A part that takes no step and captures nothing. -/
theorem still {halt : Option Halt} (within : m.steps ≤ l)
    (other : halt ≠ some (.fault (.stepLimit l))) : Metered l m ⟨halt, m⟩ := by
  refine ⟨fun _ => within, fun stopped => absurd stopped other, ?_⟩
  simp only
  omega

theorem tick (limited : limits.maxSteps = some l) (within : m.steps ≤ l) :
    Metered l m (m.tick limits clock) := by
  rcases m.tick_limited limited clock with ⟨beyond, taken⟩ | ⟨under, halt, other, taken⟩
  · rw [taken]
    refine ⟨fun other => absurd rfl other, fun _ => ?_, ?_⟩
    · simp only
      omega
    · simp only
      omega
  · rw [taken]
    refine ⟨fun _ => under, fun stopped => absurd stopped other, ?_⟩
    simp only
    omega

/-- The step that a statement takes pays for the line that it captures. -/
theorem tick_andThen (limited : limits.maxSteps = some l) (within : m.steps ≤ l)
    (next : ∀ m, Momentary m (f m)) : Metered l m ((m.tick limits clock).andThen f) := by
  have first : Metered l m (m.tick limits clock) := tick limited within
  rcases m.tick_limited limited clock with ⟨_, taken⟩ | ⟨under, halt, _, taken⟩
  · rw [taken] at first ⊢
    exact first
  · rw [taken] at first ⊢
    cases halt with
    | some => exact first
    | none =>
        obtain ⟨steps, log, own⟩ := next { m with steps := m.steps + 1 }
        simp only at steps log
        refine ⟨fun _ => ?_, fun stopped => ?_, ?_⟩
        · simp only [Outcome.andThen]
          omega
        · cases own _ stopped
        · simp only [Outcome.andThen]
          omega

theorem andThen (first : Metered l m o) (next : ∀ m, m.steps ≤ l → Metered l m (f m)) :
    Metered l m (o.andThen f) := by
  obtain ⟨halt, m₁⟩ := o
  cases halt with
  | some => exact first
  | none =>
      have within := first.within nofun
      have log := first.log
      have second := next m₁ within
      refine ⟨second.within, second.stopped, ?_⟩
      have log' := second.log
      simp only [Outcome.andThen] at log log' ⊢
      omega

theorem enter {scope : Scope} (inner : Metered l (m.enter scope) (f (m.enter scope))) :
    Metered l m (m.within scope f) :=
  ⟨inner.within, inner.stopped, inner.log⟩

theorem test {condition : Expr} (within : m.steps ≤ l) (yes : Metered l m (f m))
    (no : Metered l m (g m)) : Metered l m (m.test condition f g) := by
  rw [Machine.test]
  cases value : condition.eval m.scopes with
  | error fault =>
      refine still within ?_
      rintro ⟨⟩
      cases OwnFaults.eval _ _ _ value
  | ok value =>
      simp only
      split
      · exact yes
      · exact no

theorem loop (condition : Expr) (round : ∀ m, m.steps ≤ l → Metered l m (f m)) (rounds : Nat)
    (within : m.steps ≤ l) : Metered l m (Machine.loop condition f rounds m) := by
  induction rounds generalizing m with
  | zero => exact still within nofun
  | succ rounds ih =>
      rw [Machine.loop_succ]
      exact test within ((round m within).andThen fun _ => ih) (still within nofun)

end Metered

section

variable {limits : Limits} {clock : Clock} {l rounds : Nat}

theorem Simple.metered_run (limited : limits.maxSteps = some l) (s : Simple) {m : Machine}
    (within : m.steps ≤ l) : Metered l m (s.run limits clock m) :=
  .tick_andThen limited within fun m => .simple m s

theorem metered_init (limited : limits.maxSteps = some l) (init : Option Simple) {m : Machine}
    (within : m.steps ≤ l) : Metered l m (runInit limits clock init m) := by
  cases init with
  | some s => exact s.metered_run limited within
  | none => exact .still within nofun

theorem metered_update (limited : limits.maxSteps = some l) (update : Option Simple) {m : Machine}
    (within : m.steps ≤ l) : Metered l m (runUpdate limits clock update m) := by
  cases update with
  | some s => exact s.metered_run limited within
  | none => exact .tick limited within

mutual

theorem Stmt.metered_run (limited : limits.maxSteps = some l) : (s : Stmt) → {m : Machine} →
    m.steps ≤ l → Metered l m (s.run limits clock rounds m)
  | .simple s, _, within => s.metered_run limited within
  | .console method args, _, within => .tick_andThen limited within fun m => .console m method args
  | .branch condition yes none, _, within =>
      (Metered.tick limited within).andThen fun _ within =>
        .test within (.enter (metered_runAll limited yes within)) (.still within nofun)
  | .branch condition yes (some no), _, within =>
      (Metered.tick limited within).andThen fun _ within =>
        .test within (.enter (metered_runAll limited yes within))
          (.enter (metered_runAll limited no within))
  | .forLoop init condition update body, _, within => by
      refine (Metered.tick limited within).andThen fun m within => .enter ?_
      have within : (m.enter (Scope.ofHeader init)).steps ≤ l := within
      refine (metered_init limited init within).andThen fun m within => ?_
      refine .loop _ (fun m within => ?_) rounds within
      refine Metered.andThen (.enter (metered_runAll limited body within)) fun m within => ?_
      exact metered_update limited update within
  | .whileLoop condition body, _, within => by
      refine (Metered.tick limited within).andThen fun m within => ?_
      refine .loop condition (fun m within => ?_) rounds within
      exact Metered.andThen (.enter (metered_runAll limited body within)) fun m => .tick limited
  | .block body, _, within =>
      (Metered.tick limited within).andThen fun _ within =>
        .enter (metered_runAll limited body within)
  | .expr e, _, within => .tick_andThen limited within fun m => .eval m e
  | .empty, _, within => .tick limited within

theorem metered_runAll (limited : limits.maxSteps = some l) : (stmts : List Stmt) → {m : Machine} →
    m.steps ≤ l → Metered l m (runAll limits clock rounds stmts m)
  | [], _, within => .still within nofun
  | s :: rest, _, within =>
      (Stmt.metered_run limited s within).andThen fun _ within => metered_runAll limited rest within

end

end

/-- A fresh run under a step limit `l`, with or without a timeout, ends, and no loop in it could go
    on if it were allowed more rounds. It takes at most `l + 1` steps, and so many exactly if it is
    stopped by the limit. It captures at most as many lines as it takes steps, and at most `l`. -/
theorem run_under_limit (script : Script) (l : Nat) (timeout : Option Nat) (clock : Clock) :
    let limits : Limits := ⟨some l, timeout⟩
    let o := script.run limits clock limits.rounds .fresh
    o.halt ≠ some .unfinished ∧ (∀ rounds > l, script.run limits clock rounds .fresh = o) ∧
      o.machine.steps ≤ l + 1 ∧
      (o.machine.steps = l + 1 ↔ o.halt = some (.fault (.stepLimit l))) ∧
      o.machine.log.size ≤ min o.machine.steps l := by
  intro limits o
  have finished : o.halt ≠ some .unfinished :=
    finished_run clock script rfl (Nat.lt_succ_self l) (Nat.zero_le l)
  have metered : Metered l { Machine.fresh with scopes := [script.scope] } o :=
    metered_runAll rfl script.body (Nat.zero_le l)
  obtain ⟨within, stopped, log⟩ := metered
  refine ⟨finished, fun rounds more => run_of_le more finished, ?_, ?_, ?_⟩
  · by_cases halted : o.halt = some (.fault (.stepLimit l))
    · exact Nat.le_of_eq (stopped halted)
    · exact Nat.le_succ_of_le (within halted)
  · refine ⟨fun steps => Decidable.byContradiction fun other => ?_, stopped⟩
    have := within other
    omega
  · simpa [Machine.fresh] using log

end LineScript
