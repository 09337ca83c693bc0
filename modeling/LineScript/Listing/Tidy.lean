import LineScript.Listing.Generated

/-! # Tidy layout

A tidy text has every statement in its canonical spelling, indented by two spaces for each open
block. Runs of blank lines shrink to one, and none are left at the start or the end.
-/

namespace LineScript.Tidy

/-- The tidy lines for the rest of a text. `depth` blocks are open, `started` says whether a
    statement has been laid out already and `gap` whether blank lines have followed it. -/
def layout (depth : Nat) (started gap : Bool) : List (List Char) → List String
  | [] => []
  | raw :: rest =>
      match Line.classify? raw with
      | none => layout depth started started rest
      | some line =>
          let depth := if line.closes then depth - 1 else depth
          let following := if line.opens then depth + 1 else depth
          let text := indentation depth ++ line.spelling
          if gap then "" :: text :: layout following true false rest
          else text :: layout following true false rest

/-- Lay out a source text. A text without statements becomes the empty text. -/
def tidy (source : String) : String :=
  let formatted := Text.joinLines (layout 0 false false (Text.splitLines source.toList))
  if formatted.isEmpty then formatted else formatted ++ "\n"

end LineScript.Tidy
