import LineScript.Parse.Mistake

/-! # Terminals of scripts

The least things that a script is made of: tokens with a fixed spelling, and characters of a few
classes. Messages about mistakes name them.
-/

namespace LineScript.Grammar

/-- The texts with a fixed spelling. -/
inductive Token where
  | letWord | constWord | varWord | ifWord | elseWord | forWord | whileWord | consoleWord
  | trueWord | falseWord | nullWord | undefinedWord | nanWord | infinityWord
  | openParen | closeParen | openBrace | closeBrace | comma | point | semicolon
  | doubleQuote | singleQuote | backslash
  | escapeN | escapeT | escapeR | escapeZero | escapeU
  | or | and | strictEq | strictNe | looseEq | looseNe | le | ge | lt | gt
  | plus | minus | star | slash | percent | bang
  | assign | addAssign | subAssign | mulAssign | divAssign | remAssign
  | increment | decrement
  deriving Repr, DecidableEq

/-- How a token is written. -/
def Token.spelling : Token → List Char
  | .letWord => "let".toList
  | .constWord => "const".toList
  | .varWord => "var".toList
  | .ifWord => "if".toList
  | .elseWord => "else".toList
  | .forWord => "for".toList
  | .whileWord => "while".toList
  | .consoleWord => "console".toList
  | .trueWord => "true".toList
  | .falseWord => "false".toList
  | .nullWord => "null".toList
  | .undefinedWord => "undefined".toList
  | .nanWord => "NaN".toList
  | .infinityWord => "Infinity".toList
  | .openParen => "(".toList
  | .closeParen => ")".toList
  | .openBrace => "\x7b".toList
  | .closeBrace => "\x7d".toList
  | .comma => ",".toList
  | .point => ".".toList
  | .semicolon => ";".toList
  | .doubleQuote => "\"".toList
  | .singleQuote => "'".toList
  | .backslash => "\\".toList
  | .escapeN => "n".toList
  | .escapeT => "t".toList
  | .escapeR => "r".toList
  | .escapeZero => "0".toList
  | .escapeU => "u".toList
  | .or => "||".toList
  | .and => "&&".toList
  | .strictEq => "===".toList
  | .strictNe => "!==".toList
  | .looseEq => "==".toList
  | .looseNe => "!=".toList
  | .le => "<=".toList
  | .ge => ">=".toList
  | .lt => "<".toList
  | .gt => ">".toList
  | .plus => "+".toList
  | .minus => "-".toList
  | .star => "*".toList
  | .slash => "/".toList
  | .percent => "%".toList
  | .bang => "!".toList
  | .assign => "=".toList
  | .addAssign => "+=".toList
  | .subAssign => "-=".toList
  | .mulAssign => "*=".toList
  | .divAssign => "/=".toList
  | .remAssign => "%=".toList
  | .increment => "++".toList
  | .decrement => "--".toList

/-- The number of tokens. -/
def Token.count : Nat := 53

/-- All tokens. -/
def Token.all : List Token :=
  (List.range Token.count).map Token.ofNat

/-- What a script can be expected to go on with. -/
inductive Terminal where
  | token (t : Token)
  /-- The first character of a name. -/
  | nameStart
  /-- A character inside a name. -/
  | namePart
  /-- A digit of base sixteen. -/
  | hexDigit
  /-- A character behind a backslash. -/
  | escapable
  /-- A character that stands for itself between double quotes. -/
  | inDoubleQuotes
  /-- A character that stands for itself between single quotes. -/
  | inSingleQuotes
  /-- The four digits of a character that exists. -/
  | unicodeEscape
  | identifier
  | number
  /-- The end of the script. -/
  | ending
  deriving Repr, DecidableEq

namespace Terminal

/-- A number below 64 for each terminal. -/
def index : Terminal → Nat
  | .token t => t.ctorIdx
  | .nameStart => Token.count
  | .namePart => Token.count + 1
  | .hexDigit => Token.count + 2
  | .escapable => Token.count + 3
  | .inDoubleQuotes => Token.count + 4
  | .inSingleQuotes => Token.count + 5
  | .unicodeEscape => Token.count + 6
  | .identifier => Token.count + 7
  | .number => Token.count + 8
  | .ending => Token.count + 9

/-- All terminals. -/
def all : List Terminal :=
  Token.all.map .token ++
    [.nameStart, .namePart, .hexDigit, .escapable, .inDoubleQuotes, .inSingleQuotes,
      .unicodeEscape, .identifier, .number, .ending]

/-- The set of this terminal alone. -/
@[inline]
def alone (t : Terminal) : Parse.Wanted :=
  Parse.Wanted.only (UInt64.ofNat t.index)

/-- A character of a quoted text: quotes and backslashes are escaped. -/
def escaped (c : Char) : List Char :=
  if c = '"' ∨ c = '\\' then ['\\', c] else [c]

/-- How a terminal is named in messages. -/
def shown : Terminal → String
  | .token t => String.ofList ('"' :: (t.spelling.flatMap escaped ++ ['"']))
  | .nameStart => "['a'..='z' | 'A'..='Z' | '_' | '$']"
  | .namePart => "['a'..='z' | 'A'..='Z' | '0'..='9' | '_' | '$']"
  | .hexDigit => "['0'..='9' | 'a'..='f' | 'A'..='F']"
  | .escapable => "[^'\\n']"
  | .inDoubleQuotes => "[^'\"' | '\\\\' | '\\n']"
  | .inSingleQuotes => "[^'\\'' | '\\\\' | '\\n']"
  | .unicodeEscape => "unicode escape"
  | .identifier => "identifier"
  | .number => "number"
  | .ending => "EOF"

end Terminal

/-- The names of the terminals in a set, in order. -/
def wantedNames (wanted : Parse.Wanted) : List String :=
  ((Terminal.all.filter fun t => wanted.has (UInt64.ofNat t.index)).map Terminal.shown).mergeSort
    fun a b => a ≤ b

/-- The wording of a mistake in a script. -/
def mistakeMessage (m : Parse.Mistake) : String :=
  let wanted :=
    match wantedNames m.wanted with
    | [] => "<unreported>"
    | [one] => one
    | several => "one of " ++ String.intercalate ", " several
  "error at " ++ toString m.line ++ ":" ++ toString m.column ++ ": expected " ++ wanted

/-- Read all of a text. -/
def read {α : Type} (p : Parse.Parser α) (text : List Char) : Except Parse.Mistake α :=
  p.readAll Terminal.ending.alone text

end LineScript.Grammar
