import LineScript.Line

/-! # Generated code

Each statement but a dangling `set` becomes one line of script text, indented by two spaces for
every block that is open around it. Blocks need not match: a closer with nothing to close and an
opener that is never closed are generated all the same, and noted.
-/

namespace LineScript

/-- What a listing is generated into. -/
structure Generated where
  /-- The generated text, its lines joined by line feeds. -/
  code : String
  /-- The source line of each generated line. -/
  sourceMap : List Nat
  /-- Source lines of the openers that are never closed, outermost first. -/
  unclosed : List Nat
  /-- Source lines of the closers that have nothing to close. -/
  stray : List Nat
  deriving Repr, DecidableEq

namespace Generated

/-- The generated lines, each as the source line that it comes from. -/
abbrev lines (g : Generated) : List Nat :=
  g.sourceMap

/-- Whether every opener has its closer and the other way round. -/
def isBalanced (g : Generated) : Bool :=
  g.unclosed.isEmpty && g.stray.isEmpty

end Generated

/-- The name of the counter of a loop that stands inside `depth` blocks. -/
def loopCounter (depth : Nat) : String :=
  "i_" ++ toString depth

/-- The white space in front of a line inside `depth` blocks. -/
def indentation (depth : Nat) : String :=
  String.ofList (List.replicate (2 * depth) ' ')

/-- The script text of a statement inside `depth` blocks, without its indentation. -/
def Line.script? (depth : Nat) : Line → Option String
  | .note text => some ("// " ++ text)
  | .say expr => some ("console.log(" ++ expr ++ ");")
  | .assign name expr => some ("let " ++ name ++ " = " ++ expr ++ ";")
  | .loop count =>
      let i := loopCounter depth
      some ("for (let " ++ i ++ " = 0; " ++ i ++ " < " ++ count ++ "; " ++ i ++ "++) \x7b")
  | .test condition => some ("if (" ++ condition ++ ") \x7b")
  | .close => some "\x7d"
  | .danglingSet _ => none
  | .unknown raw => some ("// Unknown syntax: " ++ raw)

/-- A script that is being generated, statement by statement. -/
structure Emitter where
  /-- The number of open blocks. -/
  depth : Nat := 0
  /-- The text so far, without a line feed at its end. -/
  out : String := ""
  /-- The source line of each line of the text. -/
  sourceMap : Array Nat := #[]
  /-- Source lines of the openers of the open blocks, outermost first. -/
  openBlocks : Array Nat := #[]
  /-- Source lines of the closers that had nothing to close. -/
  strayEnds : Array Nat := #[]
  deriving Repr, DecidableEq

namespace Emitter

/-- Add a line, behind a line feed if there is a line already. -/
def emit (e : Emitter) (number : Nat) (text : String) : Emitter :=
  let out := if e.sourceMap.isEmpty then e.out else e.out ++ "\n"
  { e with
    out := out ++ indentation e.depth ++ text
    sourceMap := e.sourceMap.push number }

def openBlock (e : Emitter) (number : Nat) : Emitter :=
  { e with depth := e.depth + 1, openBlocks := e.openBlocks.push number }

/-- Close the innermost block, or note a closer that has nothing to close. -/
def closeBlock (e : Emitter) (number : Nat) : Emitter :=
  match e.depth with
  | 0 => { e with strayEnds := e.strayEnds.push number }
  | outer + 1 => { e with depth := outer, openBlocks := e.openBlocks.pop }

/-- Add the line of a statement, if it has one. -/
def emitLine (e : Emitter) (entry : Numbered) : Emitter :=
  match entry.line.script? e.depth with
  | some text => e.emit entry.number text
  | none => e

/-- Add a statement. The line of a closer stands outside its block, and so does that of an
    opener. -/
def statement (e : Emitter) (entry : Numbered) : Emitter :=
  let e := if entry.line.closes then e.closeBlock entry.number else e
  let e := e.emitLine entry
  if entry.line.opens then e.openBlock entry.number else e

def finish (e : Emitter) : Generated where
  code := e.out
  sourceMap := e.sourceMap.toList
  unclosed := e.openBlocks.toList
  stray := e.strayEnds.toList

end Emitter

/-- The script a listing is generated into. -/
def Listing.generate (listing : Listing) : Generated :=
  (listing.foldl Emitter.statement {}).finish

/-- The script text that a source text is generated into. -/
def scriptOf (source : String) : String :=
  (Listing.ofSource source).generate.code

end LineScript
