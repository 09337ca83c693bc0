import LineScript.Text.Blank
import LineScript.Text.Lines

/-! # Lines of the beginners' language

One line holds one statement, told by the word it starts with. Every line that is not blank is
some statement: a line that starts with no known word is kept as `unknown`, and a `set` without an
equals sign as `danglingSet`. Indentation and blanks at the end of a line carry no meaning.
-/

namespace LineScript

/-- One statement. Expressions are carried as text and never looked into. -/
inductive Line where
  /-- `note text`: a remark. -/
  | note (text : String)
  /-- `say expr`: print a value. -/
  | say (expr : String)
  /-- `set name = expr`: give a name a value. -/
  | assign (name expr : String)
  /-- `repeat count`: open a block that runs `count` times. -/
  | loop (count : String)
  /-- `check condition`: open a block that runs if `condition` holds. -/
  | test (condition : String)
  /-- `end`: close the innermost open block. -/
  | close
  /-- A `set` without an equals sign. -/
  | danglingSet (raw : String)
  /-- A line that starts with no known word. -/
  | unknown (raw : String)
  deriving Repr, DecidableEq, Inhabited

namespace Line

/-- What follows `set ` in the trimmed line `trimmed`. All that stands after the first equals sign
    is the value, so `set ok = a == b` keeps its comparison. -/
def ofSet (trimmed rest : List Char) : Line :=
  match Text.cut? '=' rest with
  | some (name, expr) => .assign (String.ofList (Text.trim name)) (String.ofList (Text.trim expr))
  | none => .danglingSet (String.ofList trimmed)

/-- The statement on a line that has been trimmed and is not empty. The words are tried in a fixed
    order. -/
def ofTrimmed (trimmed : List Char) : Line :=
  if let some text := Text.after? "note ".toList trimmed then .note (String.ofList text)
  else if let some expr := Text.after? "say ".toList trimmed then .say (String.ofList expr)
  else if let some rest := Text.after? "set ".toList trimmed then ofSet trimmed rest
  else if let some count := Text.after? "repeat ".toList trimmed then
    .loop (String.ofList (Text.trim count))
  else if let some condition := Text.after? "check ".toList trimmed then
    .test (String.ofList (Text.trim condition))
  else if trimmed = "end".toList then .close
  else .unknown (String.ofList trimmed)

/-- The statement on a line, or `none` when the line is blank. -/
def classify? (raw : List Char) : Option Line :=
  match Text.trim raw with
  | [] => none
  | c :: s => some (ofTrimmed (c :: s))

/-- The word that introduces the statement, if it has one. -/
def keyword? : Line → Option String
  | .note _ => some "note"
  | .say _ => some "say"
  | .assign _ _ | .danglingSet _ => some "set"
  | .loop _ => some "repeat"
  | .test _ => some "check"
  | .close => some "end"
  | .unknown _ => none

/-- Whether the statement opens a block. -/
def opens : Line → Bool
  | .loop _ | .test _ => true
  | _ => false

/-- Whether the statement closes a block. -/
def closes : Line → Bool
  | .close => true
  | _ => false

/-- The canonical spelling of the statement. -/
def spelling : Line → String
  | .note text => "note " ++ text
  | .say expr => "say " ++ expr
  | .assign name expr => "set " ++ name ++ " = " ++ expr
  | .loop count => "repeat " ++ count
  | .test condition => "check " ++ condition
  | .close => "end"
  | .danglingSet raw | .unknown raw => raw

/-- A line is blank exactly when trimming leaves nothing of it. -/
theorem classify?_eq_none_iff {raw : List Char} : classify? raw = none ↔ Text.trim raw = [] := by
  unfold classify?
  split <;> simp_all

end Line

/-- A statement with the number, counted from 1, of the line it stands on. -/
structure Numbered where
  /-- The number of the line. -/
  number : Nat
  /-- The statement on it. -/
  line : Line
  deriving Repr, DecidableEq, Inhabited

/-- A program: its statements in the order they are written, without the blank lines. -/
abbrev Listing := List Numbered

namespace Listing

/-- Number the lines from `first` on and drop the blank ones. -/
def ofLines (first : Nat) : List (List Char) → Listing
  | [] => []
  | raw :: rest =>
      match Line.classify? raw with
      | some line => ⟨first, line⟩ :: ofLines (first + 1) rest
      | none => ofLines (first + 1) rest

/-- Read a source text. -/
def ofSource (source : String) : Listing :=
  ofLines 1 (Text.splitLines source.toList)

/-- How many statements satisfy `p`. -/
def countLines (p : Line → Bool) (listing : Listing) : Nat :=
  listing.countP fun entry => p entry.line

end Listing

end LineScript
