/-! # JSON text

The part of JSON that reports are written in, laid out with one member to a line and two spaces for
each level.
-/

namespace LineScript

/-- What is written as JSON. -/
inductive Json where
  | text (s : String)
  | count (n : Nat)
  | list (items : List Json)
  /-- Named members, in the order they are written. -/
  | record (members : List (String × Json))
  deriving Repr

namespace Json

/-- A character of a quoted text. Quotes, backslashes and control characters are escaped. -/
def escaped (c : Char) : List Char :=
  if c = '"' then ['\\', '"']
  else if c = '\\' then ['\\', '\\']
  else if c = '\n' then ['\\', 'n']
  else if c = '\t' then ['\\', 't']
  else if c = '\r' then ['\\', 'r']
  else if c = '\x08' then ['\\', 'b']
  else if c = '\x0c' then ['\\', 'f']
  else if c.toNat < 0x20 then
    '\\' :: 'u' :: '0' :: '0' :: [Nat.digitChar (c.toNat / 16), Nat.digitChar (c.toNat % 16)]
  else [c]

/-- A text between quotes. -/
def quoted (s : String) : String :=
  String.ofList ('"' :: (s.toList.flatMap escaped ++ ['"']))

/-- The start of a line inside `depth` levels. -/
def newline (depth : Nat) : String :=
  String.ofList ('\n' :: List.replicate (2 * depth) ' ')

mutual
/-- The text of a value inside `depth` levels. -/
def render (depth : Nat) : Json → String
  | .text s => quoted s
  | .count n => toString n
  | .list [] => "[]"
  | .list (item :: items) =>
      "[" ++ newline (depth + 1) ++ render (depth + 1) item ++ renderItems (depth + 1) items ++
        newline depth ++ "]"
  | .record [] => "\x7b\x7d"
  | .record ((key, value) :: members) =>
      "\x7b" ++ newline (depth + 1) ++ quoted key ++ ": " ++ render (depth + 1) value ++
        renderMembers (depth + 1) members ++ newline depth ++ "\x7d"

/-- The items behind the first one of a list. -/
def renderItems (depth : Nat) : List Json → String
  | [] => ""
  | item :: items => "," ++ newline depth ++ render depth item ++ renderItems depth items

/-- The members behind the first one of a record. -/
def renderMembers (depth : Nat) : List (String × Json) → String
  | [] => ""
  | (key, value) :: members =>
      "," ++ newline depth ++ quoted key ++ ": " ++ render depth value ++
        renderMembers depth members
end

/-- The text of a value. -/
def pretty (json : Json) : String :=
  render 0 json

end Json

end LineScript
