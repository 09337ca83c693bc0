import LineScript.Parse.Mistake
import LineScript.Script.Grammar.Lexeme
import LineScript.Settings

/-! # Settings files

A settings file is a JSON record whose members give settings by name, or a JSON list that gives them
in order. Settings that are left out keep their defaults. Members with other names may have any
value; their texts need not even be texts, since halves of surrogate pairs pass unnoticed there.
-/

namespace LineScript.Settings

open Parse Parser

/-- The settings that a file gives. -/
structure Given where
  maxSteps : Option (Option Nat) := none
  timeout : Option (Option Nat) := none
  noOutput : Option String := none
  deriving Repr

/-- The defaults with what a file gives. -/
def Given.settings (g : Given) : Settings where
  maxSteps := g.maxSteps.getD Settings.default.maxSteps
  timeout := g.timeout.getD Settings.default.timeout
  noOutput := g.noOutput.getD Settings.default.noOutput

namespace File

/-- The characters between the tokens of a file. -/
def space : Parser Unit :=
  skipWhile fun c => c == ' ' || c == '\t' || c == '\n' || c == '\r'

/-- A token of one character. -/
def mark (c : Char) : Parser Unit := do
  let _ ← char (· == c)

/-- The number that an escape in a quoted text stands for. -/
def escapeCode : Parser Nat :=
  (do
    let c ← char fun c => c == '"' || c == '\\' || c == '/'
    return c.toNat) <|>
  (do mark 'b'; return 0x08) <|>
  (do mark 'f'; return 0x0C) <|>
  (do mark 'n'; return 0x0A) <|>
  (do mark 'r'; return 0x0D) <|>
  (do mark 't'; return 0x09) <|>
  (do
    mark 'u'
    let digits ← exactly 4 (char Grammar.isHex)
    return digits.foldl (fun n c => 16 * n + Grammar.hexValue c) 0)

/-- The numbers of the characters in a quoted text, which may be halves of surrogate pairs. -/
def codes : Parser (List Nat) := do
  mark '"'
  let found ← many <|
    (do mark '\\'; escapeCode) <|>
    (do
      let c ← char fun c => c != '"' && c != '\\' && 0x20 ≤ c.toNat
      return c.toNat)
  mark '"'
  return found

/-- Whether a number is the first half of a surrogate pair. -/
def isHigh (n : Nat) : Bool :=
  0xD800 ≤ n && n ≤ 0xDBFF

/-- Whether a number is the second half of a surrogate pair. -/
def isLow (n : Nat) : Bool :=
  0xDC00 ≤ n && n ≤ 0xDFFF

/-- The characters with the given numbers, if surrogates come in pairs only. -/
def characters? : List Nat → Option (List Char)
  | [] => some []
  | high :: low :: rest =>
      if isHigh high then
        if isLow low then
          let n := 0x10000 + (high - 0xD800) * 0x400 + (low - 0xDC00)
          (characters? rest).map (Char.ofNat n :: ·)
        else none
      else if isLow high then none
      else (characters? (low :: rest)).map (Char.ofNat high :: ·)
  | [n] => if isHigh n || isLow n then none else some [Char.ofNat n]

/-- A quoted text. -/
def quoted : Parser String := do
  match characters? (← codes) with
  | some s => return String.ofList s
  | none => fail

/-- A whole number without a sign and without zeros in front. -/
def whole : Parser (List Char) :=
  slice ((do mark '0') <|>
    (do
      let _ ← char fun c => c.isDigit && c != '0'
      skipWhile Char.isDigit))

/-- Any number. -/
def anyNumber : Parser Unit := do
  let _ ← optional (mark '-')
  let _ ← whole
  let _ ← optional (do mark '.'; Grammar.digits)
  let _ ← optional Grammar.exponent

/-- Items with commas between them and brackets around them, or no item. -/
@[inline]
def bracketed (opening closing : Char) (item : Parser Unit) : Parser Unit := do
  mark opening
  space
  let _ ← optional do
    item
    let _ ← many do
      space
      mark ','
      space
      item
    space
  mark closing

/-- Any value, `self` reading the values inside it. -/
def anyValueRules (self : Unit → Parser Unit) (_ : Unit) : Parser Unit :=
  (do let _ ← codes) <|>
  anyNumber <|>
  word "true".toList <|>
  word "false".toList <|>
  word "null".toList <|>
  bracketed '[' ']' (self ()) <|>
  bracketed '\x7b' '\x7d' (do
    let _ ← codes
    space
    mark ':'
    space
    self ())

/-- Any value. -/
def anyValue : Parser Unit :=
  recursive anyValueRules ()

/-- A limit: a count, or null for no limit. -/
def limit : Parser (Option Nat) :=
  (do word "null".toList; return none) <|>
  (do
    let n := Number.digitsValue (← whole)
    if n < countBound then return some n else fail)

/-- A member of the record, added to those before it. A setting may not be given twice. -/
def member (g : Given) : Parser Given := do
  let key ← quoted
  space
  mark ':'
  space
  if key = "max_steps" then
    if g.maxSteps.isSome then fail else return { g with maxSteps := some (← limit) }
  else if key = "timeout_ms" then
    if g.timeout.isSome then fail else return { g with timeout := some (← limit) }
  else if key = "no_output_placeholder" then
    if g.noOutput.isSome then fail else return { g with noOutput := some (← quoted) }
  else
    anyValue
    return g

/-- Settings by name. -/
def record : Parser Given := do
  mark '\x7b'
  space
  let g ← (do
      let first ← member {}
      extend (fun g => do space; mark ','; space; member g) first) <|>
    return {}
  space
  mark '\x7d'
  return g

/-- A comma and what stands behind it. -/
@[inline]
def next {α : Type} (p : Parser α) : Parser α := do
  space
  mark ','
  space
  p

/-- Settings in order, from the first one on. -/
def list : Parser Given := do
  mark '['
  space
  let g ← (do
      let maxSteps ← limit
      let rest ← optional do
        let timeout ← next limit
        let noOutput ← optional (next quoted)
        return (timeout, noOutput)
      return ({ maxSteps := some maxSteps
                timeout := rest.map Prod.fst
                noOutput := rest.bind Prod.snd } : Given)) <|>
    return {}
  space
  mark ']'
  return g

/-- A settings file. -/
def file : Parser Given := do
  space
  let g ← record <|> list
  space
  return g

/-- What the text of a file gives, if it is a settings file. -/
def read? (text : String) : Option Given :=
  match file.readAll 0 text.toList with
  | .ok g => some g
  | .error _ => none

end File

/-- The settings that the text of a file stands for. -/
def ofFile? (text : String) : Option Settings :=
  (File.read? text).map Given.settings

end LineScript.Settings
