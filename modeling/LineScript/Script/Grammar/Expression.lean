import LineScript.Script.Grammar.Lexeme
import LineScript.Script.Tree

/-! # Expressions of scripts

Connectives have six levels; a higher level binds tighter, and connectives of one level group to the
left. Signs in front of an operand bind tighter than all of them.
-/

namespace LineScript

/-- The operators between two operands. -/
inductive Connective where
  | logical (op : LogicalOp)
  | binary (op : BinaryOp)
  deriving Repr, DecidableEq

namespace Connective

/-- How tightly a connective binds. -/
def level : Connective → Nat
  | .logical .or => 0
  | .logical .and => 1
  | .binary .strictEq | .binary .strictNe | .binary .looseEq | .binary .looseNe => 2
  | .binary .le | .binary .ge | .binary .lt | .binary .gt => 3
  | .binary .add | .binary .sub => 4
  | .binary .mul | .binary .div | .binary .rem => 5

/-- The token of a connective. -/
def token : Connective → Grammar.Token
  | .logical .or => .or
  | .logical .and => .and
  | .binary .strictEq => .strictEq
  | .binary .strictNe => .strictNe
  | .binary .looseEq => .looseEq
  | .binary .looseNe => .looseNe
  | .binary .le => .le
  | .binary .ge => .ge
  | .binary .lt => .lt
  | .binary .gt => .gt
  | .binary .add => .plus
  | .binary .sub => .minus
  | .binary .mul => .star
  | .binary .div => .slash
  | .binary .rem => .percent

/-- Whether the connective, followed at once by `c`, is really a statement's operator. -/
def isCutBy (c : Char) : Connective → Bool
  | .binary .add => c == '+' || c == '='
  | .binary .sub => c == '-' || c == '='
  | .binary .mul | .binary .div | .binary .rem => c == '='
  | _ => false

/-- The expression that a connective makes of its operands. -/
def join : Connective → Expr → Expr → Expr
  | .logical op, left, right => .logical op left right
  | .binary op, left, right => .binary op left right

/-- The connectives in the order they are tried: loose ones first, and in a level a longer spelling
    before one that it starts with. -/
def all : List Connective :=
  [.logical .or, .logical .and,
    .binary .strictEq, .binary .strictNe, .binary .looseEq, .binary .looseNe,
    .binary .le, .binary .ge, .binary .lt, .binary .gt,
    .binary .add, .binary .sub,
    .binary .mul, .binary .div, .binary .rem]

end Connective

namespace Grammar

open Parse Parser

/-- The level of operands that no connective may split. -/
def operandLevel : Nat := 7

/-- A literal, a variable, or an expression in parentheses. -/
def atom (expression : Parser Expr) : Parser Expr :=
  (do return .number (← number)) <|>
  (do return .text (← text)) <|>
  (do keyword .trueWord; return .bool true) <|>
  (do keyword .falseWord; return .bool false) <|>
  (do keyword .nullWord; return .null) <|>
  (do keyword .undefinedWord; return .undefined) <|>
  (do keyword .nanWord; return .number Number.nan) <|>
  (do keyword .infinityWord; return .number (Number.infinity false)) <|>
  (do return .name (← identifier)) <|>
  (do
    token .openParen
    blank
    let e ← expression
    blank
    token .closeParen
    return e)

/-- A sign and its operand. -/
@[inline]
def signed (sign : Token) (op : UnaryOp) (operand : Parser Expr) : Parser Expr := do
  token sign
  blank
  return .unary op (← operand)

/-- What may stand on either side of a connective, `self` reading expressions of a least level. -/
def operand (self : Nat → Parser Expr) : Parser Expr :=
  signed .bang .not (self operandLevel) <|>
  signed .minus .negate (self operandLevel) <|>
  signed .plus .plus (self operandLevel) <|>
  atom (self 0)

/-- A connective and its right operand, behind the operand `left`. -/
def continued (self : Nat → Parser Expr) (left : Expr) (c : Connective) : Parser Expr := do
  blank
  token c.token
  absent (char c.isCutBy)
  blank
  return c.join left (← self (c.level + 1))

/-- The first connective of at least level `least` that can be read behind `left`. -/
def longer (self : Nat → Parser Expr) (least : Nat) (left : Expr) : Parser Expr :=
  firstOf ((Connective.all.filter (least ≤ ·.level)).map (continued self left))

/-- The rules for expressions whose connectives have at least a given level. -/
def expressionRules (self : Nat → Parser Expr) (least : Nat) : Parser Expr := do
  let left ← operand self
  extend (longer self least) left

/-- An expression. -/
def expression : Parser Expr :=
  recursive expressionRules 0

end Grammar

end LineScript
