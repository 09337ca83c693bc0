/-! # Faults of a run -/

namespace LineScript

/-- Why a run stops before the end of its script. -/
inductive Fault where
  /-- A variable that no scope in reach has. -/
  | notDefined (name : String)
  /-- A variable whose declaration has not run yet. -/
  | uninitialized (name : String)
  /-- An assignment to a constant. -/
  | constAssignment (name : String)
  /-- A call of something that cannot be called. -/
  | notAFunction (callee : String)
  /-- More steps than the budget allows. -/
  | stepLimit (limit : Nat)
  /-- More time than the budget allows. -/
  | timeLimit (milliseconds : Nat)
  deriving Repr, DecidableEq

/-- The wording of a fault. -/
def Fault.message : Fault → String
  | .notDefined name => name ++ " is not defined"
  | .uninitialized name => s!"Cannot access '{name}' before initialization"
  | .constAssignment _ => "Assignment to constant variable."
  | .notAFunction callee => callee ++ " is not a function"
  | .stepLimit limit => s!"step limit of {limit} exceeded"
  | .timeLimit milliseconds => s!"time limit of {milliseconds} ms exceeded"

end LineScript
