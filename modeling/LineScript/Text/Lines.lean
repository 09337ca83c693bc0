/-! # Cutting a text into pieces

Only the line feed ends a line. A text always has at least one line, and joining the lines of a
text gives the text back.
-/

namespace LineScript.Text

/-- The pieces of a text between the places where `mark` stands. -/
def split (mark : Char) (s : List Char) : List (List Char) :=
  s.foldr
    (fun c pieces =>
      if c = mark then [] :: pieces
      else match pieces with
        | [] => [[c]]
        | piece :: rest => (c :: piece) :: rest)
    [[]]

/-- The lines of a text: what stands between line feeds. -/
def splitLines (s : List Char) : List (List Char) :=
  split '\n' s

/-- The lines with one line feed between each two. -/
def joinLines (lines : List String) : String :=
  String.intercalate "\n" lines

/-- The lines, each with a line feed behind it. -/
def endLines (lines : List String) : String :=
  String.join (lines.map (· ++ "\n"))

/-- What follows `word` in a text that begins with it. -/
def after? : List Char → List Char → Option (List Char)
  | [], s => some s
  | _ :: _, [] => none
  | w :: word, c :: s => if w = c then after? word s else none

/-- The parts of a text before and after the first `mark`. -/
def cut? (mark : Char) : List Char → Option (List Char × List Char)
  | [] => none
  | c :: s =>
      if c = mark then some ([], s)
      else (cut? mark s).map fun (before, behind) => (c :: before, behind)

@[simp]
theorem split_nil (mark : Char) : split mark [] = [[]] := rfl

/-- Every text has a first piece. -/
theorem split_ne_nil (mark : Char) (s : List Char) : split mark s ≠ [] := by
  cases s with
  | nil => simp
  | cons c s =>
      simp only [split, List.foldr_cons]
      split
      · simp
      · split <;> simp

/-- Exactly the texts that begin with `word` have something after it. -/
theorem after?_eq_some_iff {word s rest : List Char} :
    after? word s = some rest ↔ s = word ++ rest := by
  induction word generalizing s with
  | nil => simp [after?]
  | cons w word ih =>
      cases s with
      | nil => simp [after?]
      | cons c s =>
          by_cases h : w = c
          · simp [after?, h, ih]
          · simp [after?, h, Ne.symm h]

end LineScript.Text
