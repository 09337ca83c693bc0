/-! # UTF-16 code units

Texts are put in order by their UTF-16 code units: a character above U+FFFF counts as the two
halves of its surrogate pair, and so comes before U+E000 to U+FFFF.
-/

namespace LineScript.Text

/-- The code units of one character. -/
def unitsOf (c : Char) : List Nat :=
  let n := c.toNat
  if n < 0x10000 then [n]
  else [0xD800 + (n - 0x10000) / 0x400, 0xDC00 + (n - 0x10000) % 0x400]

/-- The code units of a text. -/
def units (s : String) : List Nat :=
  s.toList.flatMap unitsOf

/-- The order of two texts by their code units. -/
def compareUnits (a b : String) : Ordering :=
  (units a).compareLex compare (units b)

end LineScript.Text
