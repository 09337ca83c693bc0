/-! # Nesting of brackets

Before a script is read its brackets are counted, so that a text nested too deeply is refused
without being read. Brackets in texts and comments do not count.
-/

namespace LineScript.Nesting

/-- The deepest nesting that a script may have. -/
def limit : Nat := 256

/-- What the scan is in the midst of. -/
inductive Mode where
  /-- Plain script text. -/
  | code
  /-- Plain script text, a slash being the last character. -/
  | slash
  /-- A text literal that ends with the given quote or with its line. -/
  | quoted (quote : Char)
  /-- The character behind a backslash in such a literal. -/
  | escaped (quote : Char)
  /-- A comment that ends with its line. -/
  | lineComment
  /-- A comment that ends with `*/`, `starred` telling whether the last character was a star. -/
  | blockComment (starred : Bool)
  deriving Repr, DecidableEq

namespace Mode

/-- The mode behind a character of plain script text. -/
def behind (c : Char) : Mode :=
  if c = '"' ∨ c = '\'' then .quoted c
  else if c = '/' then .slash
  else .code

/-- The mode behind a character. -/
def next : Mode → Char → Mode
  | .code, c => behind c
  | .slash, c =>
      if c = '/' then .lineComment
      else if c = '*' then .blockComment false
      else behind c
  | .quoted quote, c =>
      if c = '\\' then .escaped quote
      else if c = '\n' ∨ c = quote then .code
      else .quoted quote
  | .escaped quote, _ => .quoted quote
  | .lineComment, c => if c = '\n' then .code else .lineComment
  | .blockComment starred, c => if starred ∧ c = '/' then .code else .blockComment (c = '*')

/-- Whether a character is plain script text. A slash or star that makes a comment of the slash
    before it is not. -/
def isPlain : Mode → Char → Bool
  | .code, _ => true
  | .slash, c => c != '/' && c != '*'
  | _, _ => false

end Mode

/-- Whether a character opens a bracket. -/
def isOpening (c : Char) : Bool :=
  c == '(' || c == '[' || c == '\x7b'

/-- Whether a character closes a bracket. -/
def isClosing (c : Char) : Bool :=
  c == ')' || c == ']' || c == '\x7d'

/-- Whether the brackets in the rest of a text, with `depth` brackets open, stay within the
    limit. A closing bracket with nothing to close is passed over. -/
def withinFrom (mode : Mode) (depth : Nat) : List Char → Bool
  | [] => true
  | c :: s =>
      if mode.isPlain c && isOpening c then
        depth < limit && withinFrom (mode.next c) (depth + 1) s
      else if mode.isPlain c && isClosing c then withinFrom (mode.next c) (depth - 1) s
      else withinFrom (mode.next c) depth s

/-- Whether the brackets of a text nest no deeper than the limit. -/
def isWithin (code : List Char) : Bool :=
  withinFrom .code 0 code

end LineScript.Nesting
