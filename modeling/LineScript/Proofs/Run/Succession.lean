import LineScript.Proofs.Run.Budget

/-! # Runs one after another

Of what earlier runs have done, a run can tell nothing but the number of steps
that the limit has left. So a run on a used machine is the run on a fresh one
under what is left of the limit, with its steps and lines added to those that
are there.
-/

namespace LineScript

/-- The same reason to halt, a step limit being reported as `limit`. -/
def Halt.reporting (limit : Option Nat) : Halt → Halt
  | .fault (.stepLimit l) => .fault (.stepLimit (limit.getD l))
  | halt => halt

theorem Halt.reporting_own (limit : Option Nat) {f : Fault} (own : f.isOwn = true) :
    Halt.reporting limit (.fault f) = .fault f := by
  cases f with
  | stepLimit | timeLimit => cases own
  | notDefined | uninitialized | constAssignment | notAFunction => rfl

/-- The machine of a run that starts with the steps and lines of `earlier`. -/
def Machine.after (earlier m : Machine) : Machine :=
  ⟨m.scopes, earlier.log ++ m.log, earlier.steps + m.steps⟩

@[simp]
theorem Machine.after_scopes (earlier m : Machine) : (earlier.after m).scopes = m.scopes := rfl

@[simp]
theorem Machine.after_enter (earlier m : Machine) (scope : Scope) :
    (earlier.after m).enter scope = earlier.after (m.enter scope) := rfl

/-- The outcome of a run that starts with the steps and lines of `earlier`, under `limit`. -/
def Outcome.after (limit : Option Nat) (earlier : Machine) (o : Outcome) : Outcome :=
  ⟨o.halt.map (Halt.reporting limit), earlier.after o.machine⟩

/-- What is left of a limit behind `earlier`. -/
def Limits.behind (limit : Option Nat) (earlier : Machine) : Limits :=
  .ofSteps (limit.map (· - earlier.steps))

section Parts

variable {limit : Option Nat} {earlier : Machine} {f f' g g' : Machine → Outcome}

/-- A part of a run does the same on a used machine as on a fresh one. -/
def Resumes (limit : Option Nat) (earlier : Machine) (f f' : Machine → Outcome) : Prop :=
  ∀ m, f (earlier.after m) = (f' m).after limit earlier

namespace Resumes

theorem done : Resumes limit earlier (⟨none, ·⟩) (⟨none, ·⟩) :=
  fun _ => rfl

theorem failWith (m : Machine) {fault : Fault} (own : fault.isOwn = true) :
    (earlier.after m).failWith fault = (m.failWith fault).after limit earlier := by
  simp only [Machine.failWith, Outcome.after, Option.map_some, Halt.reporting_own limit own]

theorem tick (clock clock' : Clock) :
    Resumes limit earlier (Machine.tick (.ofSteps limit) clock)
      (Machine.tick (.behind limit earlier) clock') := by
  intro m
  cases limit with
  | none => rfl
  | some l =>
      by_cases beyond : l < earlier.steps + m.steps + 1
      · have beyond' : l - earlier.steps < m.steps + 1 := by omega
        simp only [Machine.tick, Limits.ofSteps, Limits.behind, Machine.after, beyond,
          Option.map_some, beyond', if_true]
        rfl
      · have under : ¬ l - earlier.steps < m.steps + 1 := by omega
        simp only [Machine.tick, Limits.ofSteps, Limits.behind, Machine.after, beyond,
          Option.map_some, under, if_false]
        rfl

theorem andThen {o o' : Outcome} (first : o = o'.after limit earlier)
    (next : Resumes limit earlier f f') :
    o.andThen f = (o'.andThen f').after limit earlier := by
  subst first
  obtain ⟨halt, m⟩ := o'
  cases halt with
  | none => exact next m
  | some => rfl

theorem within (scope : Scope) (inner : Resumes limit earlier f f') :
    Resumes limit earlier (·.within scope f) (·.within scope f') := by
  intro m
  simp only [Machine.within, Machine.after_enter, inner (m.enter scope)]
  rfl

theorem test (condition : Expr) (yes : Resumes limit earlier f f')
    (no : Resumes limit earlier g g') :
    Resumes limit earlier (·.test condition f g) (·.test condition f' g') := by
  intro m
  simp only [Machine.test, Machine.after_scopes]
  cases value : condition.eval m.scopes with
  | error fault => exact failWith m (OwnFaults.eval _ _ _ value)
  | ok value =>
      simp only
      split
      · exact yes m
      · exact no m

theorem loop (condition : Expr) (round : Resumes limit earlier f f') (rounds : Nat) :
    Resumes limit earlier (Machine.loop condition f rounds) (Machine.loop condition f' rounds) := by
  induction rounds with
  | zero => exact fun _ => rfl
  | succ rounds ih =>
      intro m
      rw [Machine.loop_succ, Machine.loop_succ]
      exact test condition (fun m => andThen (round m) ih) done m

theorem simple (s : Simple) : Resumes limit earlier (·.simple s) (·.simple s) := by
  intro m
  simp only [Machine.simple, Machine.after_scopes]
  cases exec : s.exec m.scopes with
  | error fault => exact failWith m (OwnFaults.exec _ _ _ exec)
  | ok scopes => rfl

theorem console (method : String) (args : List Expr) :
    Resumes limit earlier (·.console method args) (·.console method args) := by
  intro m
  simp only [Machine.console, Machine.after_scopes]
  cases texts : evalTexts m.scopes args with
  | error fault => exact failWith m (OwnFaults.evalTexts _ _ _ texts)
  | ok texts =>
      simp only
      split
      · simp [Outcome.after, Machine.after]
      · exact failWith m rfl

theorem eval (e : Expr) : Resumes limit earlier
    (fun m => match e.eval m.scopes with
      | .error f => m.failWith f
      | .ok _ => ⟨none, m⟩)
    (fun m => match e.eval m.scopes with
      | .error f => m.failWith f
      | .ok _ => ⟨none, m⟩) := by
  intro m
  simp only [Machine.after_scopes]
  cases value : e.eval m.scopes with
  | error fault => exact failWith m (OwnFaults.eval _ _ _ value)
  | ok _ => rfl

end Resumes

end Parts

section Runs

open Resumes

variable {limit : Option Nat} {earlier : Machine} {clock clock' : Clock} {rounds : Nat}

theorem Simple.resumes_run (s : Simple) : Resumes limit earlier (s.run (.ofSteps limit) clock)
    (s.run (.behind limit earlier) clock') :=
  fun m => andThen (tick clock clock' m) (simple s)

theorem resumes_init (init : Option Simple) :
    Resumes limit earlier (runInit (.ofSteps limit) clock init)
      (runInit (.behind limit earlier) clock' init) := by
  cases init with
  | some s => exact s.resumes_run
  | none => exact done

theorem resumes_update (update : Option Simple) :
    Resumes limit earlier (runUpdate (.ofSteps limit) clock update)
      (runUpdate (.behind limit earlier) clock' update) := by
  cases update with
  | some s => exact s.resumes_run
  | none => exact tick clock clock'

mutual

theorem Stmt.resumes_run : (s : Stmt) → Resumes limit earlier
    (s.run (.ofSteps limit) clock rounds) (s.run (.behind limit earlier) clock' rounds)
  | .simple s => s.resumes_run
  | .console method args => fun m => andThen (tick clock clock' m) (console method args)
  | .branch condition yes none => fun m =>
      andThen (tick clock clock' m) (test condition (within _ (resumes_runAll yes)) done)
  | .branch condition yes (some no) => fun m =>
      andThen (tick clock clock' m)
        (test condition (within _ (resumes_runAll yes)) (within _ (resumes_runAll no)))
  | .forLoop init condition update body => fun m => by
      refine andThen (tick clock clock' m) (within _ fun m => ?_)
      refine andThen (resumes_init init m) (loop _ (fun m => ?_) rounds)
      exact andThen (within _ (resumes_runAll body) m) (resumes_update update)
  | .whileLoop condition body => fun m => by
      refine andThen (tick clock clock' m) (loop condition (fun m => ?_) rounds)
      exact andThen (within _ (resumes_runAll body) m) (tick clock clock')
  | .block body => fun m => andThen (tick clock clock' m) (within _ (resumes_runAll body))
  | .expr e => fun m => andThen (tick clock clock' m) (eval e)
  | .empty => tick clock clock'

theorem resumes_runAll : (stmts : List Stmt) → Resumes limit earlier
    (runAll (.ofSteps limit) clock rounds stmts)
    (runAll (.behind limit earlier) clock' rounds stmts)
  | [] => done
  | s :: rest => fun m => andThen (s.resumes_run m) (resumes_runAll rest)

end

/-- A script sees none of the scopes that earlier runs have left. -/
theorem Script.run_after (script : Script) (limit : Option Nat) (clock clock' : Clock)
    (rounds : Nat) (earlier : Machine) :
    script.run (.ofSteps limit) clock rounds earlier =
      (script.run (.behind limit earlier) clock' rounds .fresh).after limit earlier := by
  have start : { earlier with scopes := [script.scope] } =
      earlier.after { Machine.fresh with scopes := [script.scope] } := by
    simp [Machine.after, Machine.fresh]
  rw [Script.run, start]
  exact resumes_runAll script.body _

end Runs

/-- The rounds that are allowed under the whole limit are enough under what is left of it. -/
theorem Script.run_rounds_behind (script : Script) (limit : Option Nat) (clock : Clock)
    (earlier : Machine) :
    script.run (.behind limit earlier) clock (Limits.ofSteps limit).rounds .fresh =
      script.run (.behind limit earlier) clock (Limits.behind limit earlier).rounds .fresh := by
  cases limit with
  | none => rfl
  | some l =>
      have more : (l - earlier.steps) + 1 ≤ l + 1 := by omega
      exact run_of_le more (script.finished_limited clock (l - earlier.steps))

/-- The machine that scripts leave when they are run on it one after another, to their ends or to
    whatever stops them. -/
def Machine.runInTurn (limits : Limits) (clock : Clock) : Machine → List Script → Machine :=
  List.foldl fun m script => (script.run limits clock limits.rounds m).machine

/-- Where scripts have been run on one machine without a timeout, whatever lines were captured
    before them, the next script captures the lines and has the result that it has on a fresh
    machine under what is left of the step limit, but that the whole limit is reported if it is
    exceeded. Its steps are added to those of the scripts before it. -/
theorem run_after_others (limit : Option Nat) (clock clock' : Clock) (sink : Array String)
    (others : List Script) (script : Script) :
    let limits := Limits.ofSteps limit
    let m := Machine.runInTurn limits clock { Machine.fresh with log := sink } others
    let o := script.run limits clock limits.rounds m
    let left := Limits.ofSteps (limit.map (· - m.steps))
    let alone := script.run left clock' left.rounds .fresh
    o.machine.log.toList = m.log.toList ++ alone.machine.log.toList ∧
      o.halt = alone.halt.map (Halt.reporting limit) ∧
      o.machine.steps = m.steps + alone.machine.steps := by
  intro limits m o left alone
  have whole : o = alone.after limit m :=
    (script.run_after limit clock clock' limits.rounds m).trans
      (congrArg (Outcome.after limit m) (script.run_rounds_behind limit clock' m))
  rw [whole]
  simp [Outcome.after, Machine.after]

end LineScript
