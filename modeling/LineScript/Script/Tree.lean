import LineScript.Value

/-! # Script trees

A script is a list of statements over expressions. Expressions have no effects; statements declare
and change variables, print, branch and loop.
-/

namespace LineScript

/-- The operators that may leave their second operand alone. -/
inductive LogicalOp where
  | and | or
  deriving Repr, DecidableEq

/-- An expression. -/
inductive Expr where
  | number (x : Float)
  | text (s : String)
  | bool (b : Bool)
  | null
  | undefined
  /-- The value of a variable. -/
  | name (n : String)
  | unary (op : UnaryOp) (operand : Expr)
  | binary (op : BinaryOp) (left right : Expr)
  | logical (op : LogicalOp) (left right : Expr)
  deriving Repr, DecidableEq, Inhabited

/-- How a variable is declared. -/
inductive DeclKind where
  /-- `let`: local to its block. -/
  | letDecl
  /-- `const`: local to its block and never assigned again. -/
  | constDecl
  /-- `var`: shared by the whole script. -/
  | varDecl
  deriving Repr, DecidableEq

/-- The operators that an assignment may be compounded with. -/
inductive CompoundOp where
  | add | sub | mul | div | rem
  deriving Repr, DecidableEq

/-- The operator that a compound assignment applies. -/
def CompoundOp.binary : CompoundOp → BinaryOp
  | .add => .add
  | .sub => .sub
  | .mul => .mul
  | .div => .div
  | .rem => .rem

/-- What an update adds to its variable. -/
inductive Delta where
  /-- `++`. -/
  | up
  /-- `--`. -/
  | down
  deriving Repr, DecidableEq

/-- The number that an update adds. -/
def Delta.amount : Delta → Float
  | .up => 1
  | .down => -1

/-- The statements that hold no other statement and may stand in the header of a `for`. -/
inductive Simple where
  /-- A declaration, with its first value if it gives one. -/
  | declare (kind : DeclKind) (name : String) (init : Option Expr)
  /-- An assignment, compounded with an operator or plain. -/
  | assign (name : String) (op : Option CompoundOp) (value : Expr)
  /-- An increment or decrement. -/
  | update (name : String) (delta : Delta)
  deriving Repr, DecidableEq

/-- A statement. -/
inductive Stmt where
  | simple (s : Simple)
  /-- A call of a method of the console. -/
  | console (method : String) (args : List Expr)
  | branch (condition : Expr) (yes : List Stmt) (no : Option (List Stmt))
  | forLoop (init : Option Simple) (condition : Option Expr) (update : Option Simple)
      (body : List Stmt)
  | whileLoop (condition : Expr) (body : List Stmt)
  | block (body : List Stmt)
  /-- An expression evaluated for its errors only. -/
  | expr (e : Expr)
  | empty
  deriving Repr, Inhabited

end LineScript
