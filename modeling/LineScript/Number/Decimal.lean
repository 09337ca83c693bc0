import LineScript.Number.Binary
import LineScript.Number.DigitRun
import LineScript.Text.Blank

/-! # Reading numbers

A decimal is an optional sign, digits with an optional point among or before them, and an optional
exponent. It stands for the float nearest to its exact value. The digits of an exponent count only
until it has reached `2 ^ 16`; that is far beyond every exponent of a float, so it matters only to
texts with tens of thousands of digits. Infinities and what is no number have names.
-/

namespace LineScript.Number

/-- A whole number times a power of ten, with a sign. -/
structure Decimal where
  /-- Whether a minus sign stands in front. -/
  negative : Bool
  /-- The digits, read as one whole number. -/
  digits : Nat
  /-- The power of ten that the digits are multiplied by. -/
  exponent : Int
  deriving Repr, DecidableEq

namespace Decimal

/-- Take an optional sign off; `true` is minus. -/
def readSign : List Char → Bool × List Char
  | '-' :: s => (true, s)
  | '+' :: s => (false, s)
  | s => (false, s)

/-- Exponents are read no further once they have reached this. -/
def exponentLimit : Nat := Nat.pow 2 16

/-- The size of an exponent with the given digits. Those behind the limit are passed over. -/
def exponentSize (digits : List Char) : Nat :=
  digits.foldl (fun n c => if n < exponentLimit then 10 * n + digitValue c else n) 0

/-- An exponent part that takes up all of the text; no text is exponent 0. -/
def readExponent? : List Char → Option Int
  | [] => some 0
  | mark :: s =>
      if mark = 'e' ∨ mark = 'E' then
        let (negative, digits) := readSign s
        if digits.isEmpty || !digits.all Char.isDigit then none
        else if negative then some (-(exponentSize digits : Int))
        else some (exponentSize digits : Int)
      else none

/-- The digits before the point, those after it, and the rest of the text. -/
def readDigits (s : List Char) : List Char × List Char × List Char :=
  let whole := s.takeWhile Char.isDigit
  match s.dropWhile Char.isDigit with
  | '.' :: rest => (whole, rest.takeWhile Char.isDigit, rest.dropWhile Char.isDigit)
  | rest => (whole, [], rest)

/-- Read a decimal that takes up all of the text. -/
def read? (s : List Char) : Option Decimal :=
  let (negative, s) := readSign s
  let (whole, fraction, rest) := readDigits s
  if whole.isEmpty && fraction.isEmpty then none
  else
    (readExponent? rest).map fun exponent =>
      { negative
        digits := digitsValue (whole ++ fraction)
        exponent := exponent - fraction.length }

/-- The float nearest to a decimal. A magnitude above `10 ^ 310` is infinite and one below
    `2 ^ (-1099)` is zero, so the exact fraction is only built where it is of moderate size. -/
def toFloat (d : Decimal) : Float :=
  if d.digits = 0 then nearest d.negative 0 1
  else
    -- The digits are below `2 ^ (bits + 1)`, and a negative power of ten is below that of eight.
    let bits : Int := d.digits.log2
    if 310 < d.exponent then infinity d.negative
    else if bits + 3 * d.exponent < -1100 then nearest d.negative 0 1
    else match d.exponent with
      | .ofNat k => nearest d.negative (d.digits * Nat.pow 10 k) 1
      | .negSucc k => nearest d.negative d.digits (Nat.pow 10 (k + 1))

end Decimal

/-- Read a number that takes up all of the text: a decimal, or the name of an infinity or of no
    number, behind an optional sign and in any letter case. -/
def read? (s : List Char) : Option Float :=
  match Decimal.read? s with
  | some d => some d.toFloat
  | none =>
      let (negative, rest) := Decimal.readSign s
      let name := rest.map Char.toLower
      if name = "inf".toList || name = "infinity".toList then some (infinity negative)
      else if name = "nan".toList then some nan
      else none

theorem read?_of_decimal {s : List Char} {d : Decimal} (read : Decimal.read? s = some d) :
    read? s = some d.toFloat := by
  rw [Number.read?, read]

/-- Whether a character may stand in a decimal. -/
def isNumeric (c : Char) : Bool :=
  c.isDigit || "+-.eE".toList.contains c

/-- The number that a text stands for. Blanks around it do not count, the empty text is 0, and an
    infinity has one name only. Of the other texts that can be read as numbers, those with a letter
    other than the mark of an exponent are no numbers here. -/
def ofText (text : String) : Float :=
  let s := Text.trim text.toList
  if s.isEmpty then nearest false 0 1
  else if s = "Infinity".toList || s = "+Infinity".toList then infinity false
  else if s = "-Infinity".toList then infinity true
  else if s.all isNumeric then (read? s).getD nan
  else nan

end LineScript.Number
