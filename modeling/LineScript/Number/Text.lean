import LineScript.Number.Shortest

/-! # The text of a number

Whole numbers below `10 ^ 21` are written out in full. Other numbers have their shortest digits,
with a point where it falls if the number is at least `10 ^ (-6)` and below `10 ^ 21`, and with an
exponent otherwise. Both zeros are written `0`.
-/

namespace LineScript.Number

/-- Whole numbers from here on are written with an exponent. -/
def wholeLimit : Nat := Nat.pow 10 21

/-- Numbers whose first digit stands at a lower power of ten are written with an exponent. -/
def leastPlace : Int := -6

/-- The digits of a number without the zeros at its end. -/
def significantDigits (n : Nat) : List Char :=
  ((Nat.toDigits 10 n).reverse.dropWhile (· = '0')).reverse

/-- Digits with a point, the first digit standing at the power of ten `place`. -/
def positional (digits : List Char) (place : Int) : List Char :=
  match place with
  | .ofNat k =>
      let whole := digits.take (k + 1) ++ List.replicate (k + 1 - digits.length) '0'
      match digits.drop (k + 1) with
      | [] => whole
      | fraction => whole ++ '.' :: fraction
  | .negSucc k => '0' :: '.' :: (List.replicate k '0' ++ digits)

/-- Digits with an exponent, whose sign is always written. -/
def exponential (digits : List Char) (place : Int) : List Char :=
  let mantissa :=
    match digits with
    | first :: second :: rest => first :: '.' :: second :: rest
    | digits => digits
  let power :=
    match place with
    | .ofNat k => '+' :: Nat.toDigits 10 k
    | .negSucc k => '-' :: Nat.toDigits 10 (k + 1)
  mantissa ++ 'e' :: power

/-- The whole number `mantissa * 2 ^ exponent`, if it is one. -/
def whole? (mantissa : Nat) (exponent : Int) : Option Nat :=
  match exponent with
  | .ofNat k => some (mantissa * Nat.pow 2 k)
  | .negSucc k =>
      if mantissa % Nat.pow 2 (k + 1) = 0 then some (mantissa / Nat.pow 2 (k + 1)) else none

/-- The text of the shortest digits of a positive number. -/
def shortestText (mantissa : Nat) (exponent : Int) : List Char :=
  let found := shortest mantissa exponent
  let place := found.exponent + ((Nat.toDigits 10 found.digits).length : Int) - 1
  let digits := significantDigits found.digits
  if leastPlace ≤ place && place < 21 then positional digits place else exponential digits place

/-- A whole number cut down to 128 bits: below or above their range it is the end of the range. -/
def saturate (k : Int) : Int :=
  let top : Int := Nat.pow 2 127
  if k < -top then -top else if top ≤ k then top - 1 else k

/-- The text of a number other than zero. Whole ones are written as numbers of 128 bits. -/
def finiteText (negative : Bool) (mantissa : Nat) (exponent : Int) : List Char :=
  match (whole? mantissa exponent).filter (· < wholeLimit) with
  | some n => (toString (saturate (if negative then -(n : Int) else n))).toList
  | none =>
      let magnitude := shortestText mantissa exponent
      if negative then '-' :: magnitude else magnitude

/-- The text of a number. -/
def text (x : Float) : String :=
  match parts x with
  | .nan => "NaN"
  | .infinite false => "Infinity"
  | .infinite true => "-Infinity"
  | .finite negative mantissa exponent =>
      if mantissa = 0 then "0" else String.ofList (finiteText negative mantissa exponent)

end LineScript.Number
