import LineScript.Line

/-! # Outline

The outline of a listing nests each statement under the openers that are open where it stands. The
closer of a block is the last statement under its opener; a closer with nothing to close stays at
the top, and an opener that is never closed keeps what follows it.
-/

namespace LineScript

/-- A statement with the statements nested under it. -/
inductive Outline where
  | node (entry : Numbered) (children : List Outline)
  deriving Repr

namespace Outline

/-- An outline under construction. -/
structure Building where
  /-- The finished statements at the top, last first. -/
  top : List Outline
  /-- The open blocks, innermost first, each with its children, last first. -/
  opened : List (Numbered × List Outline)

/-- Put a finished statement into the innermost open block. -/
def Building.place (b : Building) (tree : Outline) : Building :=
  match b.opened with
  | [] => { b with top := tree :: b.top }
  | (opener, children) :: outer => { b with opened := (opener, tree :: children) :: outer }

/-- Finish the innermost open block. -/
def Building.shut (b : Building) : Building :=
  match b.opened with
  | [] => b
  | (opener, children) :: outer =>
      Building.place { b with opened := outer } (.node opener children.reverse)

/-- Take in the next statement. -/
def Building.add (b : Building) (entry : Numbered) : Building :=
  if entry.line.opens then { b with opened := (entry, []) :: b.opened }
  else if entry.line.closes then (b.place (.node entry [])).shut
  else b.place (.node entry [])

/-- Finish every open block, innermost first. -/
def Building.finish (b : Building) : List Outline :=
  (b.opened.foldl (fun b _ => b.shut) b).top.reverse

/-- The statements at the top of the outline of a listing. -/
def ofListing (listing : Listing) : List Outline :=
  (listing.foldl Building.add ⟨[], []⟩).finish

/-- The line number in three columns or more, and the statement. -/
def label (entry : Numbered) : String :=
  let number := toString entry.number
  let pad := String.ofList (List.replicate (3 - number.length) ' ')
  pad ++ number ++ ": " ++ entry.line.spelling

mutual
/-- The lines that show a statement and what is under it, `lead` being what stands left of it and
    `final` telling whether it is the last of its siblings. -/
def draw (lead : String) (final : Bool) : Outline → List String
  | .node entry children =>
      let branch := if final then "└── " else "├── "
      let below := if final then "    " else "│   "
      (lead ++ branch ++ label entry) :: drawAll (lead ++ below) children

/-- The lines that show siblings in order. -/
def drawAll (lead : String) : List Outline → List String
  | [] => []
  | tree :: rest => draw lead rest.isEmpty tree ++ drawAll lead rest
end

end Outline

/-- The lines that show the outline of a listing. -/
def Listing.drawing (listing : Listing) : List String :=
  "Program" :: Outline.drawAll "" (Outline.ofListing listing)

end LineScript
