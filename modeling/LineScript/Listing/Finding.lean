import LineScript.Line
import LineScript.Name

/-! # Findings

A finding names a line that code generation recovers from without a word: it drops the line, keeps
it as a remark only, binds a name that scripts refuse, or leaves a block unbalanced.
-/

namespace LineScript

/-- What a line is reported for. -/
inductive Finding where
  /-- A `set` without an equals sign. -/
  | missingAssignment (line : Nat)
  /-- A `set` whose target is not a name. -/
  | invalidName (line : Nat) (name : String)
  /-- A `set` whose target is a reserved word. -/
  | reservedName (line : Nat) (name : String)
  /-- A line that starts with no known word. -/
  | unknownStatement (line : Nat) (text : String)
  /-- An `end` with nothing to close. -/
  | strayEnd (line : Nat)
  /-- An opener that is never closed, with its word. -/
  | unclosedBlock (line : Nat) (keyword : String)
  deriving Repr, DecidableEq

namespace Finding

/-- The number of the line that is reported. -/
def line : Finding → Nat
  | .missingAssignment line | .invalidName line _ | .reservedName line _
  | .unknownStatement line _ | .strayEnd line | .unclosedBlock line _ => line

/-- The wording of a finding. -/
def message : Finding → String
  | .missingAssignment line => s!"line {line}: `set` has no `=`, the statement is dropped"
  | .invalidName line name => s!"line {line}: '{name}' is not a valid variable name"
  | .reservedName line name =>
      s!"line {line}: '{name}' is a reserved word and cannot be a variable name"
  | .unknownStatement line text =>
      s!"line {line}: unknown statement '{text}' is kept only as a comment"
  | .strayEnd line => s!"line {line}: `end` has no matching `repeat` or `check`"
  | .unclosedBlock line keyword => s!"line {line}: `{keyword}` block is never closed with `end`"

end Finding

/-- What the target of a `set` is reported for, if it is. -/
def Name.finding? (number : Nat) (name : String) : Option Finding :=
  if !Name.isValid name then some (.invalidName number name)
  else if Name.isReserved name then some (.reservedName number name)
  else none

namespace Listing

/-- The findings in the rest of a listing, `opened` being the openers still open, innermost first,
    each with its word. Blocks that stay open are reported last. -/
def findingsFrom (opened : List (Nat × String)) : Listing → List Finding
  | [] => opened.reverse.map fun (number, keyword) => .unclosedBlock number keyword
  | ⟨number, line⟩ :: rest =>
      match line with
      | .assign name _ => (Name.finding? number name).toList ++ findingsFrom opened rest
      | .danglingSet _ => .missingAssignment number :: findingsFrom opened rest
      | .unknown raw => .unknownStatement number raw :: findingsFrom opened rest
      | .loop _ => findingsFrom ((number, "repeat") :: opened) rest
      | .test _ => findingsFrom ((number, "check") :: opened) rest
      | .close =>
          match opened with
          | [] => .strayEnd number :: findingsFrom [] rest
          | _ :: opened => findingsFrom opened rest
      | .note _ | .say _ => findingsFrom opened rest

/-- The findings of a listing in the order of its lines, those on open blocks last. -/
def findings (listing : Listing) : List Finding :=
  findingsFrom [] listing

end Listing

end LineScript
