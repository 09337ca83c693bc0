import LineScript.Script.Tree

/-! # Declarations

Before a script runs its declarations are checked, block by block: a `const` has a first value, no
name is declared twice in one block unless by `var` each time, and no `var` inside a block has a
name that the block declares by `let` or `const`. The first fault in the order of the text is
reported.
-/

namespace LineScript

/-- A fault in the declarations of a script. -/
inductive DeclFault where
  /-- A name declared twice. -/
  | redeclared (name : String)
  /-- A `const` without a first value. -/
  | missingInitializer (name : String)
  deriving Repr, DecidableEq

namespace Declarations

/-- The name that a simple statement declares by `var`. -/
def varOf : Simple → List String
  | .declare .varDecl name _ => [name]
  | _ => []

mutual
/-- The names that a statement declares by `var`, at any depth and in the order of the text. -/
def varNamesOf : Stmt → List String
  | .simple s => varOf s
  | .branch _ yes none => varNames yes
  | .branch _ yes (some no) => varNames yes ++ varNames no
  | .forLoop init _ _ body => init.toList.flatMap varOf ++ varNames body
  | .whileLoop _ body | .block body => varNames body
  | .console _ _ | .expr _ | .empty => []

/-- The names that statements declare by `var`, at any depth and in the order of the text. -/
def varNames : List Stmt → List String
  | [] => []
  | s :: rest => varNamesOf s ++ varNames rest
end

/-- What a block has declared so far, the last declaration first. -/
abbrev Declared := List (String × DeclKind)

/-- Take the declaration of a simple statement into account. -/
def declare (declared : Declared) : Simple → Except DeclFault Declared
  | .declare kind name init =>
      if kind = .constDecl ∧ init.isNone then .error (.missingInitializer name)
      else match declared.lookup name with
        | none => .ok ((name, kind) :: declared)
        | some .varDecl =>
            if kind = .varDecl then .ok ((name, kind) :: declared) else .error (.redeclared name)
        | some _ => .error (.redeclared name)
  | _ => .ok declared

/-- The first of the `var` names that the block declares by `let` or `const`. -/
def checkVars (declared : Declared) : List String → Except DeclFault Unit
  | [] => .ok ()
  | name :: rest =>
      match declared.lookup name with
      | some .letDecl | some .constDecl => .error (.redeclared name)
      | _ => checkVars declared rest

/-- Take the declaration of a statement into account, if it is one. -/
def declareStmt (declared : Declared) : Stmt → Except DeclFault Declared
  | .simple s => declare declared s
  | _ => .ok declared

/-- End the check of a block, behind that of its statements. -/
def closeBlock (stmts : List Stmt) (checked : Except DeclFault Declared) : Except DeclFault Unit :=
  checked.bind fun declared => checkVars declared (varNames stmts)

/-- Check a block of one simple statement. -/
def checkSimple (s : Simple) : Except DeclFault Unit :=
  (declare [] s).bind fun declared => checkVars declared (varOf s)

mutual
/-- Check the blocks inside a statement. -/
def checkNested : Stmt → Except DeclFault Unit
  | .branch _ yes none => closeBlock yes (checkStmts [] yes)
  | .branch _ yes (some no) => do
      closeBlock yes (checkStmts [] yes)
      closeBlock no (checkStmts [] no)
  | .forLoop none _ _ body => closeBlock body (checkStmts [] body)
  | .forLoop (some init) _ _ body => do
      checkSimple init
      closeBlock body (checkStmts [] body)
  | .whileLoop _ body | .block body => closeBlock body (checkStmts [] body)
  | .simple _ | .console _ _ | .expr _ | .empty => .ok ()

/-- Check the statements of a block in order, `declared` being what those before them declared. -/
def checkStmts (declared : Declared) : List Stmt → Except DeclFault Declared
  | [] => .ok declared
  | s :: rest => do
      let declared ← declareStmt declared s
      checkNested s
      checkStmts declared rest
end

/-- Check a block and the blocks inside it. -/
def checkBlock (stmts : List Stmt) : Except DeclFault Unit :=
  closeBlock stmts (checkStmts [] stmts)

end Declarations

end LineScript
