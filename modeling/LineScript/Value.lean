import LineScript.Number.Decimal
import LineScript.Number.Text
import LineScript.Text.Units

/-! # Values

A value is undefined, null, a truth value, a number or a text. Operators bring their operands to the
kind they need: a condition asks for a truth value, arithmetic for numbers, and joining for texts.
-/

namespace LineScript

/-- What an expression evaluates to. -/
inductive Value where
  | undefined
  | null
  | bool (b : Bool)
  | number (x : Float)
  | text (s : String)
  deriving Inhabited

namespace Value

/-- The value as a truth value. Zero, no number, the empty text and both kinds of nothing are
    false. -/
def isTruthy : Value → Bool
  | .undefined | .null => false
  | .bool b => b
  | .number x => !(x.isNaN || x == 0)
  | .text s => !s.isEmpty

/-- The value as a number. -/
def toNumber : Value → Float
  | .undefined => Number.nan
  | .null => 0
  | .bool true => 1
  | .bool false => 0
  | .number x => x
  | .text s => Number.ofText s

/-- The value as a text. -/
def toText : Value → String
  | .undefined => "undefined"
  | .null => "null"
  | .bool true => "true"
  | .bool false => "false"
  | .number x => Number.text x
  | .text s => s

/-- Equality of kind and value, numbers being compared as numbers. -/
def strictEquals : Value → Value → Bool
  | .undefined, .undefined | .null, .null => true
  | .bool a, .bool b => a == b
  | .number x, .number y => x == y
  | .text s, .text t => s == t
  | _, _ => false

/-- Whether the value is one of the two kinds of nothing. -/
def isNothing : Value → Bool
  | .undefined | .null => true
  | _ => false

/-- Equality of a number with a value brought to a number. Neither kind of nothing is brought to
    one. -/
def equalsNumber (x : Float) : Value → Bool
  | .undefined | .null => false
  | b => x == b.toNumber

/-- Equality after bringing both sides to one kind: a truth value becomes a number first, and then
    a text that meets a number. The two kinds of nothing equal each other and no other value. -/
def looseEquals : Value → Value → Bool
  | .undefined, b | .null, b => b.isNothing
  | a, .undefined | a, .null => a.isNothing
  | .bool a, b => equalsNumber (toNumber (.bool a)) b
  | a, .bool b => equalsNumber (toNumber (.bool b)) a
  | .number x, b => equalsNumber x b
  | a, .number y => equalsNumber y a
  | .text s, .text t => s == t

/-- The order of two numbers, unless one of them is no number. -/
def compareNumbers? (x y : Float) : Option Ordering :=
  if x < y then some .lt
  else if y < x then some .gt
  else if x == y then some .eq
  else none

/-- The order of two values: of texts by their UTF-16 code units, of all others as numbers. -/
def compare? : Value → Value → Option Ordering
  | .text s, .text t => some (Text.compareUnits s t)
  | a, b => compareNumbers? a.toNumber b.toNumber

end Value

/-- The operators that evaluate both their operands. -/
inductive BinaryOp where
  | add | sub | mul | div | rem
  | lt | le | gt | ge
  | looseEq | looseNe | strictEq | strictNe
  deriving Repr, DecidableEq

/-- The operators in front of their one operand. -/
inductive UnaryOp where
  | not | negate | plus
  deriving Repr, DecidableEq

/-- The value of an operator at two operands. Addition joins texts if either operand is one. -/
def BinaryOp.apply (op : BinaryOp) (a b : Value) : Value :=
  match op with
  | .add =>
      match a, b with
      | .text s, _ => .text (s ++ b.toText)
      | _, .text t => .text (a.toText ++ t)
      | _, _ => .number (a.toNumber + b.toNumber)
  | .sub => .number (a.toNumber - b.toNumber)
  | .mul => .number (a.toNumber * b.toNumber)
  | .div => .number (a.toNumber / b.toNumber)
  | .rem => .number (Number.remainder a.toNumber b.toNumber)
  | .lt => .bool (a.compare? b == some .lt)
  | .le => .bool (a.compare? b == some .lt || a.compare? b == some .eq)
  | .gt => .bool (a.compare? b == some .gt)
  | .ge => .bool (a.compare? b == some .gt || a.compare? b == some .eq)
  | .looseEq => .bool (a.looseEquals b)
  | .looseNe => .bool (!a.looseEquals b)
  | .strictEq => .bool (a.strictEquals b)
  | .strictNe => .bool (!a.strictEquals b)

/-- The value of an operator at its operand. -/
def UnaryOp.apply (op : UnaryOp) (a : Value) : Value :=
  match op with
  | .not => .bool (!a.isTruthy)
  | .negate => .number (-a.toNumber)
  | .plus => .number a.toNumber

end LineScript
