import LineScript.Number.Binary

/-! # Shortest digits

The shortest digits of a positive number are the fewest decimal digits that read back as it. For
each count of digits only the two neighbours of the number on the grid of decimals of that count
can be the nearest, so those are tried, from one digit up.
-/

namespace LineScript.Number

/-- `digits * 10 ^ exponent`. -/
structure Digits where
  /-- The digits, read as one whole number. -/
  digits : Nat
  /-- The power of ten that the digits are multiplied by. -/
  exponent : Int
  deriving Repr, DecidableEq

/-- A positive number and the interval of reals that round to it, all over one denominator. -/
structure Rounding where
  /-- The number. -/
  value : Nat
  /-- How far the interval reaches down. -/
  down : Nat
  /-- How far the interval reaches up. -/
  up : Nat
  /-- The denominator. -/
  scale : Nat
  /-- Whether the ends of the interval round to the number too. -/
  closed : Bool
  deriving Repr

/-- The interval of `mantissa * 2 ^ exponent`. It reaches half way to either neighbour, and the
    neighbour below a power of two is only half as far away as the one above. -/
def Rounding.of (mantissa : Nat) (exponent : Int) : Rounding :=
  let e := exponent - 2
  let unit := Nat.pow 2 e.toNat
  { value := 4 * mantissa * unit
    down := if mantissa = Nat.pow 2 52 then unit else 2 * unit
    up := 2 * unit
    scale := Nat.pow 2 (-e).toNat
    closed := mantissa % 2 = 0 }

namespace Rounding

/-- The neighbour of the number on the grid of `10 ^ exponent` that rounds to it. Of two the nearer
    is taken, and of two equally near the greater. -/
def onGrid? (r : Rounding) (exponent : Int) : Option Nat :=
  let unit := Nat.pow 10 (-exponent).toNat
  let step := r.scale * Nat.pow 10 exponent.toNat
  let below := r.value * unit / step
  let behind := r.value * unit % step
  let isIn (distance reach : Nat) : Bool :=
    if r.closed then distance ≤ reach * unit else distance < reach * unit
  match isIn behind r.down, isIn (step - behind) r.up with
  | true, true => some (if step ≤ 2 * behind then below + 1 else below)
  | true, false => some below
  | false, true => some (below + 1)
  | false, false => none

/-- The decimal exponent of the first digit of a number below 1, `tried` being the number of places
    after the point that are known to be zero. -/
def leadingPlace (r : Rounding) : (fuel tried : Nat) → Int
  | 0, tried => -(tried : Int)
  | fuel + 1, tried =>
      if r.scale ≤ r.value * Nat.pow 10 (tried + 1) then -(tried + 1 : Int)
      else r.leadingPlace fuel (tried + 1)

/-- The decimal exponent of the first digit of the number. -/
def leading (r : Rounding) : Int :=
  let whole := r.value / r.scale
  if whole = 0 then r.leadingPlace 330 0
  else ((Nat.toDigits 10 whole).length : Int) - 1

/-- Try the grids from `10 ^ exponent` down. -/
def search (r : Rounding) : (fuel : Nat) → (exponent : Int) → Digits
  | 0, exponent => ⟨0, exponent⟩
  | fuel + 1, exponent =>
      match r.onGrid? exponent with
      | some d => ⟨d, exponent⟩
      | none => r.search fuel (exponent - 1)

end Rounding

/-- The shortest digits of the positive number `mantissa * 2 ^ exponent`. Seventeen digits always
    suffice. -/
def shortest (mantissa : Nat) (exponent : Int) : Digits :=
  let r := Rounding.of mantissa exponent
  r.search 17 r.leading

end LineScript.Number
