/-! # Misses

A miss records what a text was expected to go on with, and where. Of all misses only those furthest
into the text are kept. A place is given by the number of characters left, so the least number is
the furthest place.
-/

namespace LineScript.Parse

/-- A set of things that can be expected. They are numbered from 0 to 63, and each has a bit. -/
abbrev Wanted := UInt64

/-- The thing of a given number alone. -/
@[inline]
def Wanted.only (number : UInt64) : Wanted :=
  1 <<< number

/-- Whether the thing of a given number is in the set. -/
def Wanted.has (wanted : Wanted) (number : UInt64) : Bool :=
  wanted &&& only number != 0

/-- The furthest place at which something was missed, and what was expected there. -/
structure Miss where
  /-- How many characters were left. -/
  left : Nat
  /-- What was expected. -/
  wanted : Wanted
  deriving Repr, DecidableEq

/-- The further of two misses; two at the same place are put together. -/
def Miss.join (a b : Miss) : Miss :=
  if a.left < b.left then a
  else if b.left < a.left then b
  else ⟨a.left, a.wanted ||| b.wanted⟩

/-- The furthest of two records of misses, either of which may be empty. -/
def furthest : Option Miss → Option Miss → Option Miss
  | none, b => b
  | a, none => a
  | some a, some b => some (a.join b)

end LineScript.Parse
