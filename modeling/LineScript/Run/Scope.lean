import LineScript.Script.Tree

/-! # Scopes

A scope holds the variables of one block. A variable has no value until its declaration has run. The
scopes of a running script form a stack, the innermost first; the last one belongs to the script as
a whole.
-/

namespace LineScript

/-- What a scope knows of a variable. -/
structure Binding where
  /-- The value, once the declaration has run. -/
  value : Option Value
  /-- Whether the variable is never assigned again. -/
  constant : Bool
  deriving Inhabited

/-- The variables of a block. -/
abbrev Scope := List (String × Binding)

namespace Scope

/-- Give a variable a new binding, in its place if the scope has it already. -/
def set (name : String) (binding : Binding) : Scope → Scope
  | [] => [(name, binding)]
  | (other, old) :: rest =>
      if other = name then (other, binding) :: rest else (other, old) :: set name binding rest

/-- The binding of a variable that a simple statement declares by `let` or `const`. -/
def ofSimple : Simple → Scope
  | .declare .letDecl name _ | .declare .constDecl name _ => [(name, ⟨none, false⟩)]
  | _ => []

/-- The scope of the header of a loop that is about to run. -/
def ofHeader (init : Option Simple) : Scope :=
  match init with
  | some s => ofSimple s
  | none => []

/-- The scope of a block that is about to run: what it declares by `let` or `const`, without
    values. -/
def ofBlock (stmts : List Stmt) : Scope :=
  stmts.flatMap fun
    | .simple s => ofSimple s
    | _ => []

/-- Add the names that the scope does not have yet, with the value undefined. -/
def addVars (scope : Scope) : List String → Scope
  | [] => scope
  | name :: names =>
      match scope.lookup name with
      | some _ => addVars scope names
      | none => addVars (scope ++ [(name, ⟨some .undefined, false⟩)]) names

end Scope

/-- The scopes in reach, innermost first. -/
abbrev Scopes := List Scope

namespace Scopes

/-- The nearest binding of a variable. -/
def find? (name : String) : Scopes → Option Binding
  | [] => none
  | scope :: outer =>
      match scope.lookup name with
      | some binding => some binding
      | none => find? name outer

/-- Replace the nearest binding of a variable, if there is one. -/
def replace (name : String) (binding : Binding) : Scopes → Scopes
  | [] => []
  | scope :: outer =>
      match scope.lookup name with
      | some _ => scope.set name binding :: outer
      | none => scope :: replace name binding outer

/-- Set a variable in the innermost scope. -/
def setInner (name : String) (binding : Binding) : Scopes → Scopes
  | [] => []
  | scope :: outer => scope.set name binding :: outer

/-- Set a variable in the scope of the script as a whole. -/
def setOuter (name : String) (binding : Binding) : Scopes → Scopes
  | [] => []
  | [scope] => [scope.set name binding]
  | scope :: outer => scope :: setOuter name binding outer

end Scopes

end LineScript
