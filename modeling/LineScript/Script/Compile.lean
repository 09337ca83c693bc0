import LineScript.Parse.Mistake
import LineScript.Script.Declarations
import LineScript.Script.Grammar.Statement
import LineScript.Script.Nesting

/-! # Scripts

A script is a list of statements that has passed every check that is made before a run.
-/

namespace LineScript

/-- Why a text is not a script. -/
inductive CompileFault where
  /-- The text cannot be read. -/
  | parse (mistake : Parse.Mistake)
  /-- The declarations are at fault. -/
  | declaration (fault : DeclFault)
  /-- The brackets nest too deeply. -/
  | tooDeep
  deriving Repr, DecidableEq

/-- The wording of a fault. -/
def CompileFault.message : CompileFault → String
  | .parse mistake => Grammar.mistakeMessage mistake
  | .declaration (.redeclared name) => s!"Identifier '{name}' has already been declared"
  | .declaration (.missingInitializer _) => "Missing initializer in const declaration"
  | .tooDeep => "nesting deeper than " ++ toString Nesting.limit ++ " levels is not supported"

/-- A script that is ready to run. -/
structure Script where
  /-- The statements. -/
  body : List Stmt
  deriving Repr, Inhabited

namespace Script

/-- The names declared by `var` at any depth, in the order of the text. -/
def varNames (script : Script) : List String :=
  Declarations.varNames script.body

/-- Read and check a script. -/
def compile (code : String) : Except CompileFault Script :=
  if !Nesting.isWithin code.toList then .error .tooDeep
  else match Grammar.read Grammar.program code.toList with
    | .error mistake => .error (.parse mistake)
    | .ok body =>
        match Declarations.checkBlock body with
        | .error fault => .error (.declaration fault)
        | .ok () => .ok ⟨body⟩

end Script

end LineScript
