/-! # Numbers as binary fractions

A number is a 64-bit float. This module takes one apart into a sign, a whole mantissa and a power of
two, and puts the float nearest to an exact fraction together, so that all else about numbers can
be said in whole-number arithmetic.
-/

namespace LineScript.Number

/-- What a float stands for. -/
inductive Parts where
  /-- No number at all. -/
  | nan
  /-- An infinity. -/
  | infinite (negative : Bool)
  /-- `mantissa * 2 ^ exponent`, negated if `negative`. -/
  | finite (negative : Bool) (mantissa : Nat) (exponent : Int)
  deriving Repr, DecidableEq

/-- The least exponent of a mantissa. -/
def leastExponent : Int := -1074

/-- The bits of positive infinity. -/
def infinityBits : Nat := 2047 * Nat.pow 2 52

/-- Take a float apart. Mantissas are below `2 ^ 53`. -/
def parts (x : Float) : Parts :=
  let bits : Nat := x.toBits.toNat
  let negative := bits / Nat.pow 2 63 % 2 == 1
  let biased : Nat := bits / Nat.pow 2 52 % 2048
  let fraction := bits % Nat.pow 2 52
  if biased = 2047 then
    if fraction = 0 then .infinite negative else .nan
  else if biased = 0 then .finite negative fraction leastExponent
  else .finite negative (fraction + Nat.pow 2 52) ((biased : Int) - 1 + leastExponent)

/-- The whole number nearest to `n / d`; a half goes to the even neighbour. -/
def roundEven (n d : Nat) : Nat :=
  let q := n / d
  let r := n % d
  if 2 * r < d then q
  else if d < 2 * r then q + 1
  else q + q % 2

/-- The fraction `n / d` as a multiple of `2 ^ e`, rounded to a whole number. -/
def scaled (n d : Nat) (e : Int) : Nat :=
  match e with
  | .ofNat k => roundEven n (d * Nat.pow 2 k)
  | .negSucc k => roundEven (n * Nat.pow 2 (k + 1)) d

/-- Whether `2 ^ e` is at most `n / d`. -/
def powerLe (e : Int) (n d : Nat) : Bool :=
  match e with
  | .ofNat k => Nat.pow 2 k * d ≤ n
  | .negSucc k => d ≤ n * Nat.pow 2 (k + 1)

/-- The exponent that gives `n / d` a mantissa of 53 bits, or the least exponent. -/
def exponentFor (n d : Nat) : Int :=
  let k : Int := (n.log2 : Int) - d.log2
  let top := if powerLe k n d then k else k - 1
  max (top - 52) leastExponent

/-- The bits of the float nearest to the positive fraction `n / d`. Counting the mantissa on top of
    the shifted exponent lets a mantissa that rounds up carry into the exponent. -/
def nearestBits (n d : Nat) : Nat :=
  let e := exponentFor n d
  let bits := (e - leastExponent).toNat * Nat.pow 2 52 + scaled n d e
  min bits infinityBits

/-- The float with the given sign and the magnitude nearest to `n / d`. -/
def nearest (negative : Bool) (n d : Nat) : Float :=
  let magnitude := if n = 0 then 0 else nearestBits n d
  let sign := if negative then Nat.pow 2 63 else 0
  Float.ofBits (UInt64.ofNat (sign + magnitude))

/-- The float `mantissa * 2 ^ exponent`, rounded if it must be. -/
def ofParts (negative : Bool) (mantissa : Nat) (exponent : Int) : Float :=
  match exponent with
  | .ofNat k => nearest negative (mantissa * Nat.pow 2 k) 1
  | .negSucc k => nearest negative mantissa (Nat.pow 2 (k + 1))

/-- The float that stands for no number. -/
def nan : Float := Float.ofBits 0x7FF8000000000000

/-- An infinity. -/
def infinity (negative : Bool) : Float :=
  Float.ofBits (if negative then 0xFFF0000000000000 else 0x7FF0000000000000)

/-- What is left of `x` when a whole multiple of `y` is taken off it towards zero. The result is
    exact and has the sign of `x`. -/
def remainder (x y : Float) : Float :=
  match parts x, parts y with
  | .finite negative m e, .finite _ n f =>
      if n = 0 then nan
      else if m = 0 then x
      else
        let low := min e f
        let left := m * Nat.pow 2 (e - low).toNat % (n * Nat.pow 2 (f - low).toNat)
        ofParts negative left low
  | .finite _ _ _, .infinite _ => x
  | _, _ => nan

end LineScript.Number
