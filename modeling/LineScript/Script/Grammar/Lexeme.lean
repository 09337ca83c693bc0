import LineScript.Name
import LineScript.Number.Decimal
import LineScript.Script.Grammar.Terminal

/-! # Lexemes of scripts

Blanks and comments, names and keywords, and the literals for numbers and texts.
-/

namespace LineScript.Grammar

open Parse Parser

/-- Read a token. -/
@[inline]
def token (t : Token) : Parser Unit :=
  expecting (Terminal.token t).alone (word t.spelling)

/-- Read a character of a class, `t` being its name. -/
@[inline]
def oneOf (t : Terminal) (p : Char → Bool) : Parser Char :=
  expecting t.alone (char p)

/-- The characters that may stand between tokens. -/
def isSpace (c : Char) : Bool :=
  c == ' ' || c == '\t' || c == '\n' || c == '\r' || c == '\ufeff' || c == '\u00a0'

/-- A comment up to the end of the line. -/
def lineComment : Parser Unit := do
  word "//".toList
  skipWhile (· != '\n')

/-- A comment that is closed; they do not nest. -/
def blockComment : Parser Unit := do
  word "/*".toList
  skipPast "*/".toList

/-- Any number of spaces, as `space` has it, and comments. -/
def gap (space : Char → Bool) : Parser Unit :=
  quiet (extend (fun _ => (do let _ ← char space) <|> lineComment <|> blockComment) ())

/-- What may stand between any two tokens. -/
def blank : Parser Unit :=
  gap isSpace

/-- What may stand between the end of a statement and the end of its line. -/
def inlineBlank : Parser Unit :=
  gap fun c => c == ' ' || c == '\t'

/-- No character that would make the text before it part of a longer name. -/
def endOfName : Parser Unit :=
  absent (char Name.isPart)

/-- A word that is not just the start of a longer name. -/
@[inline]
def keyword (t : Token) : Parser Unit := do
  token t
  endOfName

/-- The words that have the form of a name and cannot be the name of a variable. -/
def reservedWords : List (List Char) :=
  [Token.letWord, .constWord, .varWord, .ifWord, .elseWord, .forWord, .whileWord, .trueWord,
    .falseWord, .nullWord, .undefinedWord, .nanWord, .infinityWord].map Token.spelling

/-- The name of a variable. -/
def identifier : Parser String :=
  expecting Terminal.identifier.alone do
    let name ← slice (do let _ ← char Name.isStart; skipWhile Name.isPart)
    if reservedWords.contains name then fail else return String.ofList name

/-- The name of a method, which may be any name. -/
def methodName : Parser String := do
  let name ← slice do
    let _ ← oneOf .nameStart Name.isStart
    many (oneOf .namePart Name.isPart)
  return String.ofList name

/-- One digit or more. -/
def digits : Parser Unit := do
  let _ ← char Char.isDigit
  skipWhile Char.isDigit

/-- The exponent of a number. -/
def exponent : Parser Unit := do
  let _ ← char fun c => c == 'e' || c == 'E'
  let _ ← optional (char fun c => c == '+' || c == '-')
  digits

/-- The text of a number: digits with a point among or after them, or a point and digits. -/
def numeral : Parser Unit :=
  (do
    digits
    let _ ← optional (do word ".".toList; optional digits)
    let _ ← optional exponent) <|>
  (do
    word ".".toList
    digits
    let _ ← optional exponent)

/-- A number that does not run into a name. -/
def number : Parser Float :=
  expecting Terminal.number.alone do
    let text ← slice numeral
    absent (char Name.isStart)
    match Number.read? text with
    | some x => return x
    | none => fail

/-- Whether a character is a digit of base sixteen. -/
def isHex (c : Char) : Bool :=
  c.isDigit || ('a' ≤ c && c ≤ 'f') || ('A' ≤ c && c ≤ 'F')

/-- The value of a digit of base sixteen. -/
def hexValue (c : Char) : Nat :=
  if c.isDigit then c.toNat - '0'.toNat
  else if 'a' ≤ c then c.toNat - 'a'.toNat + 10
  else c.toNat - 'A'.toNat + 10

/-- The character with the number that digits of base sixteen spell, if there is one. -/
def hexChar? (digits : List Char) : Option Char :=
  let n := digits.foldl (fun n c => 16 * n + hexValue c) 0
  if h : n.isValidChar then some (Char.ofNatAux n h) else none

/-- `u` and the four digits of a character. -/
def unicodeEscape : Parser Char := do
  token .escapeU
  let digits ← exactly 4 (oneOf .hexDigit isHex)
  match hexChar? digits with
  | some c => return c
  | none => expecting Terminal.unicodeEscape.alone fail

/-- What stands behind a backslash. Anything that is no other escape stands for itself, so a `u`
    without its four digits is just a `u`. -/
def escape : Parser Char :=
  (do token .escapeN; return '\n') <|>
  (do token .escapeT; return '\t') <|>
  (do token .escapeR; return '\r') <|>
  (do token .escapeZero; return '\x00') <|>
  unicodeEscape <|>
  oneOf .escapable (· != '\n')

/-- One character of a text literal, `plain` being the class of those that stand for themselves
    and `t` its name. -/
@[inline]
def textChar (t : Terminal) (plain : Char → Bool) : Parser Char :=
  (do token .backslash; escape) <|> oneOf t plain

/-- A text between double or single quotes. -/
def text : Parser String :=
  (do
    token .doubleQuote
    let s ← many (textChar .inDoubleQuotes fun c => c != '"' && c != '\\' && c != '\n')
    token .doubleQuote
    return String.ofList s) <|>
  (do
    token .singleQuote
    let s ← many (textChar .inSingleQuotes fun c => c != '\'' && c != '\\' && c != '\n')
    token .singleQuote
    return String.ofList s)

end LineScript.Grammar
