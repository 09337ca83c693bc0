/-! # Names

A name starts with a letter, `_` or `$` and goes on with these or digits, all of them ASCII.
Reserved words have the form of a name and are refused as variables.
-/

namespace LineScript.Name

/-- Whether a character may start a name. -/
def isStart (c : Char) : Bool :=
  c.isAlpha || c == '_' || c == '$'

/-- Whether a character may stand inside a name. -/
def isPart (c : Char) : Bool :=
  isStart c || c.isDigit

/-- Whether a text is a name: a letter, `_` or `$`, and then any of these or digits. -/
def isValid (name : String) : Bool :=
  match name.toList with
  | [] => false
  | c :: s => isStart c && s.all isPart

/-- The words that cannot be bound by `let` in the wider language that scripts are a part of. -/
def reservedWords : List String :=
  ["break", "case", "catch", "class", "const", "continue", "debugger", "default", "delete",
    "do", "else", "enum", "export", "extends", "false", "finally", "for", "function", "if",
    "import", "in", "instanceof", "let", "new", "null", "return", "super", "switch", "this",
    "throw", "true", "try", "typeof", "var", "void", "while", "with", "yield", "undefined",
    "NaN", "Infinity"]

/-- Whether a text is one of the reserved words. -/
def isReserved (name : String) : Bool :=
  reservedWords.contains name

end LineScript.Name
