import LineScript.Parse.Parser

/-! # Mistakes in a text

A text that a parser does not read to its end has a mistake: the furthest place at which the parser
missed something, and what it would have accepted there.
-/

namespace LineScript.Parse

/-- Where a text is wrong and what was expected there. -/
structure Mistake where
  /-- The line, counted from 1. -/
  line : Nat
  /-- The character in the line, counted from 1. -/
  column : Nat
  /-- What was expected. -/
  wanted : Wanted
  deriving Repr, DecidableEq

/-- The line and column behind the text `s`, having started at the given ones. -/
def locate (line column : Nat) : List Char → Nat × Nat
  | [] => (line, column)
  | c :: s => if c = '\n' then locate (line + 1) 1 s else locate line (column + 1) s

/-- The mistake in `text` that the misses amount to. -/
def Mistake.ofMisses (text : List Char) : Option Miss → Mistake
  | none => ⟨1, 1, 0⟩
  | some miss =>
      let (line, column) := locate 1 1 (text.take (text.length - miss.left))
      ⟨line, column, miss.wanted⟩

/-- Read all of a text, `ending` being what is missed where more of it follows. -/
def Parser.readAll {α : Type} (ending : Wanted) (p : Parser α) (text : List Char) :
    Except Mistake α :=
  let finished := do
    let a ← p
    expecting ending atEnd
    return a
  let reply := finished (Cursor.ofList text)
  match reply.result with
  | some (a, _) => .ok a
  | none => .error (Mistake.ofMisses text reply.misses)

end LineScript.Parse
