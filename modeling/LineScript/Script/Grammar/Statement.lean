import LineScript.Script.Grammar.Expression

/-! # Statements of scripts

The kinds of statement are tried in a fixed order. A statement that holds no other one ends with a
semicolon, which may be left out at the end of a line, before a closing brace and at the end of the
text.
-/

namespace LineScript.Grammar

open Parse Parser

/-- The end of a statement. -/
def semicolon : Parser Unit :=
  (do
    blank
    token .semicolon) <|>
  (do
    inlineBlank
    ahead ((do let _ ← char fun c => c == '\n' || c == '\r' || c == '\x7d') <|> atEnd))

/-- The word that starts a declaration. -/
def declKind : Parser DeclKind :=
  (do keyword .letWord; return .letDecl) <|>
  (do keyword .constWord; return .constDecl) <|>
  (do keyword .varWord; return .varDecl)

/-- An equals sign that is not the start of a comparison. -/
def equalsSign : Parser Unit := do
  token .assign
  absent (char (· == '='))

/-- A declaration of one variable. -/
def declaration : Parser Simple := do
  let kind ← declKind
  blank
  let name ← identifier
  let init ← optional do
    blank
    equalsSign
    blank
    expression
  return .declare kind name init

/-- The operator of an assignment. -/
def assignmentOp : Parser (Option CompoundOp) :=
  (do token .addAssign; return some .add) <|>
  (do token .subAssign; return some .sub) <|>
  (do token .mulAssign; return some .mul) <|>
  (do token .divAssign; return some .div) <|>
  (do token .remAssign; return some .rem) <|>
  (do equalsSign; return none)

/-- An assignment. -/
def assignment : Parser Simple := do
  let name ← identifier
  blank
  let op ← assignmentOp
  blank
  let value ← expression
  return .assign name op value

/-- The operator of an update. -/
def delta : Parser Delta :=
  (do token .increment; return .up) <|>
  (do token .decrement; return .down)

/-- An update, its operator before or behind the name. -/
def update : Parser Simple :=
  (do
    let name ← identifier
    blank
    return .update name (← delta)) <|>
  (do
    let by_ ← delta
    blank
    return .update (← identifier) by_)

/-- Expressions with commas between them, or none at all. -/
def arguments : Parser (List Expr) := do
  match ← optional expression with
  | none => return []
  | some first =>
      let rest ← many do
        blank
        token .comma
        blank
        expression
      return first :: rest

/-- A call of a method of the console. A comma may follow the last argument. -/
def console : Parser Stmt := do
  token .consoleWord
  blank
  token .point
  blank
  let method ← methodName
  blank
  token .openParen
  blank
  let args ← arguments
  blank
  let _ ← optional do
    token .comma
    blank
  token .closeParen
  return .console method args

/-- The rules for statements that call each other. -/
inductive Rule where
  /-- Any statement. -/
  | statement
  /-- A statement that starts with `if`. -/
  | ifStatement
  deriving Repr, DecidableEq

/-- Statements between braces. -/
def block (self : Rule → Parser Stmt) : Parser (List Stmt) := do
  token .openBrace
  blank
  let body ← many do
    let s ← self .statement
    blank
    return s
  token .closeBrace
  return body

/-- Statements between braces, or one statement without. -/
def body (self : Rule → Parser Stmt) : Parser (List Stmt) :=
  block self <|> (do return [← self .statement])

/-- An expression between parentheses, with blanks behind it. -/
def condition : Parser Expr := do
  token .openParen
  blank
  let e ← expression
  blank
  token .closeParen
  blank
  return e

/-- A branch. An `else` belongs to the nearest `if`. -/
def branch (self : Rule → Parser Stmt) : Parser Stmt := do
  keyword .ifWord
  blank
  let e ← condition
  let yes ← body self
  let no ← optional do
    blank
    keyword .elseWord
    blank
    (do return [← self .ifStatement]) <|> body self
  return .branch e yes no

/-- A loop with a header of three parts, each of which may be left out. -/
def forLoop (self : Rule → Parser Stmt) : Parser Stmt := do
  keyword .forWord
  blank
  token .openParen
  blank
  let init ← optional (declaration <|> assignment)
  blank
  token .semicolon
  blank
  let e ← optional expression
  blank
  token .semicolon
  blank
  let step ← optional (update <|> assignment)
  blank
  token .closeParen
  blank
  return .forLoop init e step (← body self)

/-- A loop with a condition only. -/
def whileLoop (self : Rule → Parser Stmt) : Parser Stmt := do
  keyword .whileWord
  blank
  let e ← condition
  return .whileLoop e (← body self)

/-- A statement that ends with a semicolon. -/
@[inline]
def ended (p : Parser Stmt) : Parser Stmt := do
  let s ← p
  semicolon
  return s

/-- Any statement. -/
def anyStatement (self : Rule → Parser Stmt) : Parser Stmt :=
  ended (do return .simple (← declaration)) <|>
  branch self <|>
  forLoop self <|>
  whileLoop self <|>
  (do return .block (← block self)) <|>
  ended console <|>
  ended (do return .simple (← update)) <|>
  ended (do return .simple (← assignment)) <|>
  (do token .semicolon; return .empty) <|>
  ended (do return .expr (← expression))

/-- The rules for statements. -/
def statementRules (self : Rule → Parser Stmt) : Rule → Parser Stmt
  | .statement => anyStatement self
  | .ifStatement => branch self

/-- A statement. -/
def statement : Parser Stmt :=
  recursive statementRules .statement

/-- A whole script. -/
def program : Parser (List Stmt) := do
  blank
  many do
    let s ← statement
    blank
    return s

end LineScript.Grammar
