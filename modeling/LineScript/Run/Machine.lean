import LineScript.Run.Fault
import LineScript.Run.Scope
import LineScript.Script.Compile

/-! # Running scripts

A machine walks the tree of a script. It has the scopes in reach, the lines captured so far and the
number of steps taken; capturing lines is all that a script can do to the outside. Every statement
and every round of a loop costs one step of the budget.

Loops are cut off after a given number of rounds, and a run that reaches that number is unfinished.
Each round costs a step, so under a step limit a run with more rounds than the limit is never
unfinished.
-/

namespace LineScript

/-- The budget of a run. A limit that is missing does not hold. -/
structure Limits where
  /-- How many steps may be taken. -/
  maxSteps : Option Nat
  /-- How many milliseconds may pass. -/
  timeout : Option Nat
  deriving Repr, DecidableEq

/-- The steps that a run may take if nothing else is asked for. -/
def defaultMaxSteps : Nat := 1000000

instance : Inhabited Limits := ⟨⟨some defaultMaxSteps, none⟩⟩

/-- The nanoseconds that have passed when a step, given by its number, is taken. -/
abbrev Clock := Nat → Nat

/-- The clock is looked at on steps whose number is a multiple of this. -/
def clockInterval : Nat := 256

/-- The state of a run. -/
structure Machine where
  /-- The scopes in reach, innermost first. -/
  scopes : Scopes
  /-- The captured lines in order. -/
  log : Array String
  /-- The number of steps taken. -/
  steps : Nat

/-- Why a run ends early. -/
inductive Halt where
  /-- The script or the budget is at fault. -/
  | fault (f : Fault)
  /-- A loop was cut off. -/
  | unfinished
  deriving Repr, DecidableEq

/-- The end of a run, or of a part of it: why it halted, if it did, and the state. -/
structure Outcome where
  /-- Why the run halted. -/
  halt : Option Halt
  /-- The state in the end. -/
  machine : Machine

namespace Outcome

/-- Go on with `f` unless the run has halted. -/
@[inline]
def andThen (o : Outcome) (f : Machine → Outcome) : Outcome :=
  match o with
  | ⟨none, m⟩ => f m
  | ⟨some halt, m⟩ => ⟨some halt, m⟩

/-- Change the state in the end, however the run ended. -/
@[inline]
def map (f : Machine → Machine) (o : Outcome) : Outcome :=
  ⟨o.halt, f o.machine⟩

end Outcome

/-- The value of a variable. -/
def Scopes.value (scopes : Scopes) (name : String) : Except Fault Value :=
  match scopes.find? name with
  | none => .error (.notDefined name)
  | some ⟨none, _⟩ => .error (.uninitialized name)
  | some ⟨some value, _⟩ => .ok value

/-- Give a variable a new value. -/
def Scopes.assign (scopes : Scopes) (name : String) (value : Value) : Except Fault Scopes :=
  match scopes.find? name with
  | none => .error (.notDefined name)
  | some ⟨none, _⟩ => .error (.uninitialized name)
  | some ⟨some _, true⟩ => .error (.constAssignment name)
  | some ⟨some _, false⟩ => .ok (scopes.replace name ⟨some value, false⟩)

/-- Declare a variable. A `var` is in the outermost scope already, so that without a first value it
    keeps the one it has. -/
def Scopes.declare (scopes : Scopes) (kind : DeclKind) (name : String) (value : Option Value) :
    Scopes :=
  match kind, value with
  | .varDecl, none => scopes
  | .varDecl, some value => scopes.setOuter name ⟨some value, false⟩
  | .letDecl, value => scopes.setInner name ⟨some (value.getD .undefined), false⟩
  | .constDecl, value => scopes.setInner name ⟨some (value.getD .undefined), true⟩

/-- Whether a logical operator leaves its right operand alone. -/
def LogicalOp.isSettledBy (op : LogicalOp) (left : Value) : Bool :=
  match op with
  | .and => !left.isTruthy
  | .or => left.isTruthy

/-- The value of an expression. -/
def Expr.eval (scopes : Scopes) : Expr → Except Fault Value
  | .number x => .ok (.number x)
  | .text s => .ok (.text s)
  | .bool b => .ok (.bool b)
  | .null => .ok .null
  | .undefined => .ok .undefined
  | .name n => scopes.value n
  | .unary op operand => do
      let value ← operand.eval scopes
      return op.apply value
  | .binary op left right => do
      let a ← left.eval scopes
      let b ← right.eval scopes
      return op.apply a b
  | .logical op left right => do
      let a ← left.eval scopes
      if op.isSettledBy a then return a else right.eval scopes

/-- What a simple statement does to the scopes. -/
def Simple.exec (scopes : Scopes) : Simple → Except Fault Scopes
  | .declare kind name none => .ok (scopes.declare kind name none)
  | .declare kind name (some e) => do
      let value ← e.eval scopes
      return scopes.declare kind name (some value)
  | .assign name none e => do
      let value ← e.eval scopes
      scopes.assign name value
  | .assign name (some op) e => do
      let value ← e.eval scopes
      let current ← scopes.value name
      scopes.assign name (op.binary.apply current value)
  | .update name delta => do
      let current ← scopes.value name
      scopes.assign name (.number (current.toNumber + delta.amount))

/-- The texts of the values of expressions. -/
def evalTexts (scopes : Scopes) : List Expr → Except Fault (List String)
  | [] => .ok []
  | e :: rest => do
      let value ← e.eval scopes
      let texts ← evalTexts scopes rest
      return value.toText :: texts

namespace Machine

/-- Halt with a fault. -/
def failWith (m : Machine) (f : Fault) : Outcome :=
  ⟨some (.fault f), m⟩

/-- Take one step of the budget. The step limit is looked at before the time limit. -/
def tick (limits : Limits) (clock : Clock) (m : Machine) : Outcome :=
  let m := { m with steps := m.steps + 1 }
  match limits.maxSteps with
  | some limit => if limit < m.steps then m.failWith (.stepLimit limit) else timed m
  | none => timed m
where
  /-- Look at the clock. -/
  timed (m : Machine) : Outcome :=
    match limits.timeout with
    | some ms =>
        if m.steps % clockInterval = 0 ∧ ms * 1000000 < clock m.steps then
          m.failWith (.timeLimit ms)
        else ⟨none, m⟩
    | none => ⟨none, m⟩

/-- Evaluate a condition and go on as it says. -/
@[inline]
def test (m : Machine) (condition : Expr) (yes no : Machine → Outcome) : Outcome :=
  match condition.eval m.scopes with
  | .error f => m.failWith f
  | .ok value => if value.isTruthy then yes m else no m

/-- Run a simple statement. -/
def simple (m : Machine) (s : Simple) : Outcome :=
  match s.exec m.scopes with
  | .error f => m.failWith f
  | .ok scopes => ⟨none, { m with scopes }⟩

/-- Call a method of the console. Only `log` can be called. -/
def console (m : Machine) (method : String) (args : List Expr) : Outcome :=
  match evalTexts m.scopes args with
  | .error f => m.failWith f
  | .ok texts =>
      if method = "log" then ⟨none, { m with log := m.log.push (String.intercalate " " texts) }⟩
      else m.failWith (.notAFunction ("console." ++ method))

/-- Enter a block with the given scope. -/
def enter (m : Machine) (scope : Scope) : Machine :=
  { m with scopes := scope :: m.scopes }

/-- Leave the innermost block. -/
def leave (m : Machine) : Machine :=
  { m with scopes := m.scopes.tail }

/-- Run `inner` in a scope of its own. -/
@[inline]
def within (m : Machine) (scope : Scope) (inner : Machine → Outcome) : Outcome :=
  (inner (m.enter scope)).map leave

/-- Run `round` as long as `condition` holds, at most `rounds` times. -/
def loop (condition : Expr) (round : Machine → Outcome) : (rounds : Nat) → Machine → Outcome
  | 0, m => ⟨some .unfinished, m⟩
  | rounds + 1, m =>
      match condition.eval m.scopes with
      | .error f => m.failWith f
      | .ok value =>
          if value.isTruthy then
            match round m with
            | ⟨none, m⟩ => loop condition round rounds m
            | halted => halted
          else ⟨none, m⟩

end Machine

section Exec

variable (limits : Limits) (clock : Clock) (rounds : Nat)

/-- Take a step and run a simple statement. -/
def Simple.run (s : Simple) (m : Machine) : Outcome :=
  (m.tick limits clock).andThen fun m => m.simple s

/-- Run the first part of the header of a loop. -/
def runInit (init : Option Simple) (m : Machine) : Outcome :=
  match init with
  | some s => s.run limits clock m
  | none => ⟨none, m⟩

/-- Run the last part of the header of a loop. Even if there is none a step is taken. -/
def runUpdate (update : Option Simple) (m : Machine) : Outcome :=
  match update with
  | some s => s.run limits clock m
  | none => m.tick limits clock

mutual
/-- Take a step and run a statement. -/
def Stmt.run : Stmt → Machine → Outcome
  | .simple s, m => s.run limits clock m
  | .console method args, m => (m.tick limits clock).andThen fun m => m.console method args
  | .branch condition yes none, m =>
      (m.tick limits clock).andThen fun m =>
        m.test condition (·.within (Scope.ofBlock yes) (runAll yes)) fun m => ⟨none, m⟩
  | .branch condition yes (some no), m =>
      (m.tick limits clock).andThen fun m =>
        m.test condition (·.within (Scope.ofBlock yes) (runAll yes))
          (·.within (Scope.ofBlock no) (runAll no))
  | .forLoop init condition update body, m =>
      (m.tick limits clock).andThen fun m =>
        m.within (Scope.ofHeader init) fun m =>
          (runInit limits clock init m).andThen
            (Machine.loop (condition.getD (.bool true))
              (fun m =>
                (m.within (Scope.ofBlock body) (runAll body)).andThen
                  (runUpdate limits clock update))
              rounds)
  | .whileLoop condition body, m =>
      (m.tick limits clock).andThen
        (Machine.loop condition
          (fun m =>
            (m.within (Scope.ofBlock body) (runAll body)).andThen (Machine.tick limits clock))
          rounds)
  | .block body, m =>
      (m.tick limits clock).andThen (·.within (Scope.ofBlock body) (runAll body))
  | .expr e, m =>
      (m.tick limits clock).andThen fun m =>
        match e.eval m.scopes with
        | .error f => m.failWith f
        | .ok _ => ⟨none, m⟩
  | .empty, m => m.tick limits clock

/-- Run statements in order. -/
def runAll : List Stmt → Machine → Outcome
  | [], m => ⟨none, m⟩
  | s :: rest, m => (s.run m).andThen (runAll rest)
end

/-- Run statements in a scope of their own. -/
def runBlock (stmts : List Stmt) (m : Machine) : Outcome :=
  m.within (Scope.ofBlock stmts) (runAll limits clock rounds stmts)

end Exec

/-- The rounds after which a loop is cut off if there is no step limit. No run gets there. -/
def endlessRounds : Nat := Nat.pow 2 62

/-- More rounds than the step limit lets a loop take. -/
def Limits.rounds (limits : Limits) : Nat :=
  match limits.maxSteps with
  | some limit => limit + 1
  | none => endlessRounds

namespace Script

/-- The scope that a script starts in. -/
def scope (script : Script) : Scope :=
  (Scope.ofBlock script.body).addVars script.varNames

/-- Run a script on a machine. It sees nothing of the scopes that earlier runs have left, but its
    steps and lines are added to theirs. -/
def run (limits : Limits) (clock : Clock) (rounds : Nat) (script : Script) (m : Machine) :
    Outcome :=
  runAll limits clock rounds script.body { m with scopes := [script.scope] }

end Script

/-- A machine that has done nothing. -/
def Machine.fresh : Machine :=
  ⟨[], #[], 0⟩

end LineScript
