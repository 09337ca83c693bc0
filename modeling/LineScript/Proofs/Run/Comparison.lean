import LineScript.Proofs.Run.Parts

/-! # Comparing runs

Two runs of the same statements under different budgets differ in nothing but
the steps they take and the rounds their loops are allowed. So a relation
between their outcomes that a single step has, and that sequences, blocks and
loops keep, holds whatever the statements are.
-/

namespace LineScript

/-- Whether a fault is the script's own, and no matter of the budget. -/
def Fault.isOwn : Fault → Bool
  | .stepLimit _ | .timeLimit _ => false
  | .notDefined _ | .uninitialized _ | .constAssignment _ | .notAFunction _ => true

/-- A computation that fails with a script's own faults only. -/
def OwnFaults {α : Type} (x : Except Fault α) : Prop :=
  ∀ f, x = .error f → f.isOwn = true

namespace OwnFaults

theorem ok {α : Type} (a : α) : OwnFaults (.ok a) := nofun

theorem error {α : Type} {f : Fault} (own : f.isOwn = true) : OwnFaults (α := α) (.error f) := by
  rintro _ ⟨⟩
  exact own

theorem bind {α β : Type} {x : Except Fault α} {f : α → Except Fault β} (first : OwnFaults x)
    (next : ∀ a, OwnFaults (f a)) : OwnFaults (x >>= f) := by
  cases x with
  | error fault => exact .error (first fault rfl)
  | ok a => exact next a

theorem value (scopes : Scopes) (name : String) : OwnFaults (scopes.value name) := by
  unfold Scopes.value
  split
  · exact .error rfl
  · exact .error rfl
  · exact .ok _

theorem assign (scopes : Scopes) (name : String) (value : Value) :
    OwnFaults (scopes.assign name value) := by
  unfold Scopes.assign
  split
  · exact .error rfl
  · exact .error rfl
  · exact .error rfl
  · exact .ok _

theorem eval (scopes : Scopes) (e : Expr) : OwnFaults (e.eval scopes) := by
  induction e with
  | number | text | bool | null | undefined => exact .ok _
  | name n => exact .value scopes n
  | unary op operand ih => exact ih.bind fun _ => .ok _
  | binary op left right ihLeft ihRight => exact ihLeft.bind fun _ => ihRight.bind fun _ => .ok _
  | logical op left right ihLeft ihRight =>
      refine ihLeft.bind fun a => ?_
      split
      · exact .ok _
      · exact ihRight

theorem exec (scopes : Scopes) (s : Simple) : OwnFaults (s.exec scopes) := by
  cases s with
  | declare kind name value =>
      cases value with
      | none => exact .ok _
      | some e => exact (eval scopes e).bind fun _ => .ok _
  | assign name op e =>
      cases op with
      | none => exact (eval scopes e).bind fun _ => .assign scopes name _
      | some op =>
          exact (eval scopes e).bind fun _ => (value scopes name).bind fun _ =>
            .assign scopes name _
  | update name delta => exact (value scopes name).bind fun _ => .assign scopes name _

theorem evalTexts (scopes : Scopes) (args : List Expr) : OwnFaults (evalTexts scopes args) := by
  induction args with
  | nil => exact .ok _
  | cons e args ih => exact (eval scopes e).bind fun _ => ih.bind fun _ => .ok _

end OwnFaults

/-- A relation between the outcomes of parts of two runs that start at the same machine: each step
    has it, and so has all that takes no step; sequences and blocks keep it. -/
structure Comparison (clock : Clock) (l₁ l₂ : Limits)
    (R : Machine → Outcome → Outcome → Prop) : Prop where
  tick : ∀ m, R m (m.tick l₁ clock) (m.tick l₂ clock)
  go : ∀ {m m'}, m'.steps = m.steps → m.log.toList <+: m'.log.toList → R m ⟨none, m'⟩ ⟨none, m'⟩
  fault : ∀ {m f}, f.isOwn = true → R m (m.failWith f) (m.failWith f)
  andThen : ∀ {m o₁ o₂ f₁ f₂}, R m o₁ o₂ → (∀ m, R m (f₁ m) (f₂ m)) →
    R m (o₁.andThen f₁) (o₂.andThen f₂)
  within : ∀ {m scope f₁ f₂}, (∀ m, R m (f₁ m) (f₂ m)) →
    R m (m.within scope f₁) (m.within scope f₂)

/-- A round of a loop: a block, a step, and what else comes before the next test. -/
def steppedRound (limits : Limits) (clock : Clock) (block behind : Machine → Outcome)
    (m : Machine) : Outcome :=
  (block m).andThen fun m => (m.tick limits clock).andThen behind

/-- What the last part of a header does once its step is taken. -/
def Simple.behindStep (update : Option Simple) (m : Machine) : Outcome :=
  match update with
  | some s => m.simple s
  | none => ⟨none, m⟩

theorem Stmt.run_forLoop (limits : Limits) (clock : Clock) (rounds : Nat)
    (init : Option Simple) (condition : Option Expr) (update : Option Simple) (body : List Stmt)
    (m : Machine) :
    (Stmt.forLoop init condition update body).run limits clock rounds m =
      (m.tick limits clock).andThen fun m => m.within (Scope.ofHeader init) fun m =>
        (runInit limits clock init m).andThen (Machine.loop (condition.getD (.bool true))
          (steppedRound limits clock (runBlock limits clock rounds body)
            (Simple.behindStep update)) rounds) := by
  have last : runUpdate limits clock update =
      fun m => (m.tick limits clock).andThen (Simple.behindStep update) := by
    funext m
    cases update with
    | some s => rfl
    | none => exact (Outcome.andThen_done _).symm
  rw [Stmt.run, last]
  rfl

theorem Stmt.run_whileLoop (limits : Limits) (clock : Clock) (rounds : Nat) (condition : Expr)
    (body : List Stmt) (m : Machine) :
    (Stmt.whileLoop condition body).run limits clock rounds m =
      (m.tick limits clock).andThen (Machine.loop condition
        (steppedRound limits clock (runBlock limits clock rounds body) (⟨none, ·⟩)) rounds) := by
  have round : steppedRound limits clock (runBlock limits clock rounds body) (⟨none, ·⟩) =
      fun m => (runBlock limits clock rounds body m).andThen (Machine.tick limits clock) := by
    funext m
    simp only [steppedRound, Outcome.andThen_done]
  rw [Stmt.run, round]
  rfl

namespace Comparison

variable {clock : Clock} {l₁ l₂ : Limits} {n₁ n₂ : Nat} {R : Machine → Outcome → Outcome → Prop}
  (comparison : Comparison clock l₁ l₂ R)

include comparison

theorem simple (s : Simple) (m : Machine) : R m (m.simple s) (m.simple s) := by
  rw [Machine.simple]
  cases exec : s.exec m.scopes with
  | error f => exact comparison.fault (OwnFaults.exec _ _ f exec)
  | ok scopes => exact comparison.go rfl (List.prefix_refl _)

theorem console (method : String) (args : List Expr) (m : Machine) :
    R m (m.console method args) (m.console method args) := by
  rw [Machine.console]
  cases texts : evalTexts m.scopes args with
  | error f => exact comparison.fault (OwnFaults.evalTexts _ _ f texts)
  | ok texts =>
      dsimp only
      split
      · exact comparison.go rfl (by simp)
      · exact comparison.fault rfl

theorem done (m : Machine) : R m ⟨none, m⟩ ⟨none, m⟩ :=
  comparison.go rfl (List.prefix_refl _)

theorem test {yes₁ yes₂ no₁ no₂ : Machine → Outcome} (condition : Expr) {m : Machine}
    (yes : R m (yes₁ m) (yes₂ m)) (no : R m (no₁ m) (no₂ m)) :
    R m (m.test condition yes₁ no₁) (m.test condition yes₂ no₂) := by
  rw [Machine.test, Machine.test]
  cases value : condition.eval m.scopes with
  | error f => exact comparison.fault (OwnFaults.eval _ _ f value)
  | ok value =>
      dsimp only
      split
      · exact yes
      · exact no

theorem behindStep (update : Option Simple) (m : Machine) :
    R m (Simple.behindStep update m) (Simple.behindStep update m) := by
  cases update with
  | some s => exact comparison.simple s m
  | none => exact comparison.done m

theorem runSimple (s : Simple) (m : Machine) : R m (s.run l₁ clock m) (s.run l₂ clock m) :=
  comparison.andThen (comparison.tick m) (comparison.simple s)

theorem runInit (init : Option Simple) (m : Machine) :
    R m (runInit l₁ clock init m) (runInit l₂ clock init m) := by
  cases init with
  | some s => exact comparison.runSimple s m
  | none => exact comparison.done m

end Comparison

/-- Loops whose rounds have the relation have it themselves. -/
def LoopsKeep (clock : Clock) (l₁ l₂ : Limits) (n₁ n₂ : Nat)
    (R : Machine → Outcome → Outcome → Prop) : Prop :=
  ∀ ⦃condition : Expr⦄ ⦃block₁ block₂ behind : Machine → Outcome⦄,
    (∀ m, R m (block₁ m) (block₂ m)) → (∀ m, R m (behind m) (behind m)) →
    ∀ m, R m (Machine.loop condition (steppedRound l₁ clock block₁ behind) n₁ m)
      (Machine.loop condition (steppedRound l₂ clock block₂ behind) n₂ m)

namespace Comparison

variable {clock : Clock} {l₁ l₂ : Limits} {n₁ n₂ : Nat} {R : Machine → Outcome → Outcome → Prop}

theorem steppedRound (comparison : Comparison clock l₁ l₂ R)
    {block₁ block₂ behind : Machine → Outcome} (block : ∀ m, R m (block₁ m) (block₂ m))
    (last : ∀ m, R m (behind m) (behind m)) (m : Machine) :
    R m (LineScript.steppedRound l₁ clock block₁ behind m)
      (LineScript.steppedRound l₂ clock block₂ behind m) :=
  comparison.andThen (block m) fun m => comparison.andThen (comparison.tick m) last

/-- Loops keep the relation, the second one being allowed more rounds, if an unfinished loop has it
    to whatever the additional rounds lead to. -/
theorem loopsKeep (comparison : Comparison clock l₁ l₂ R) (n more : Nat)
    (cutOff : ∀ condition round m,
      R m ⟨some .unfinished, m⟩ (Machine.loop condition round more m)) :
    LoopsKeep clock l₁ l₂ n (n + more) R := by
  intro condition block₁ block₂ behind block last m
  induction n generalizing m with
  | zero =>
      rw [Nat.zero_add]
      exact cutOff condition _ m
  | succ n ih =>
      rw [Nat.succ_add, Machine.loop_succ, Machine.loop_succ]
      exact comparison.test condition
        (comparison.andThen (comparison.steppedRound block last m) ih) (comparison.done m)

mutual

/-- Two runs of a statement have the relation. -/
theorem run (comparison : Comparison clock l₁ l₂ R) (loops : LoopsKeep clock l₁ l₂ n₁ n₂ R) :
    (s : Stmt) → (m : Machine) → R m (s.run l₁ clock n₁ m) (s.run l₂ clock n₂ m)
  | .simple s, m => comparison.runSimple s m
  | .console method args, m =>
      comparison.andThen (comparison.tick m) (comparison.console method args)
  | .branch condition yes none, m =>
      comparison.andThen (comparison.tick m) fun m =>
        comparison.test condition (comparison.within (comparison.runAll loops yes))
          (comparison.done m)
  | .branch condition yes (some no), m =>
      comparison.andThen (comparison.tick m) fun _ =>
        comparison.test condition (comparison.within (comparison.runAll loops yes))
          (comparison.within (comparison.runAll loops no))
  | .forLoop init condition update body, m => by
      rw [Stmt.run_forLoop, Stmt.run_forLoop]
      refine comparison.andThen (comparison.tick m) fun m => comparison.within fun m => ?_
      refine comparison.andThen (comparison.runInit init m) ?_
      exact loops (fun m => comparison.within (comparison.runAll loops body))
        (comparison.behindStep update)
  | .whileLoop condition body, m => by
      rw [Stmt.run_whileLoop, Stmt.run_whileLoop]
      refine comparison.andThen (comparison.tick m) ?_
      exact loops (fun m => comparison.within (comparison.runAll loops body)) comparison.done
  | .block body, m =>
      comparison.andThen (comparison.tick m) fun _ =>
        comparison.within (comparison.runAll loops body)
  | .expr e, m => by
      refine comparison.andThen (comparison.tick m) fun m => ?_
      cases value : e.eval m.scopes with
      | error f => exact comparison.fault (OwnFaults.eval _ _ f value)
      | ok _ => exact comparison.done m
  | .empty, m => comparison.tick m

/-- Two runs of statements have the relation. -/
theorem runAll (comparison : Comparison clock l₁ l₂ R) (loops : LoopsKeep clock l₁ l₂ n₁ n₂ R) :
    (stmts : List Stmt) → (m : Machine) →
      R m (runAll l₁ clock n₁ stmts m) (runAll l₂ clock n₂ stmts m)
  | [], m => comparison.done m
  | s :: rest, m => comparison.andThen (comparison.run loops s m) (comparison.runAll loops rest)

end

end Comparison

end LineScript
