import LineScript.Text.LetterCase

/-! # Templates

The programs that a new program can start from.
-/

namespace LineScript

/-- A bundled program. -/
structure Template where
  /-- The word it is asked for by. -/
  slug : String
  /-- What it is about. -/
  title : String
  /-- Its source text. -/
  source : String
  deriving Repr, DecidableEq

namespace Template

/-- All templates. -/
def all : List Template :=
  [{ slug := "hello"
     title := "Hello World"
     source := "note Welcome to NanoLang!\nsay \"Hello World!\"\nsay \"Coding is fun.\"\n" },
   { slug := "variables"
     title := "Variables & Math"
     source :=
       "set x = 10\nset y = 5\nsay \"X is \" + x\nsay \"Y is \" + y\nset result = x * y\n" ++
         "say \"Multiplication result: \" + result\n" },
   { slug := "loops"
     title := "Loops"
     source :=
       "say \"Counting down...\"\nrepeat 5\n  say \"Loop iteration\"\nend\nsay \"Done!\"\n" },
   { slug := "logic"
     title := "Logic"
     source := "set power = 9001\ncheck power > 9000\n  say \"It is over 9000!\"\nend\n" }]

/-- The words that templates are asked for by. -/
def slugs : List String :=
  all.map slug

/-- The template with the given word. -/
def find? (slug : String) : Option Template :=
  all.find? fun t => t.slug == slug

/-- The text of a new program: the template behind a remark that names the program. -/
def instantiate (t : Template) (name : String) : String :=
  "note " ++ name ++ " (" ++ t.title ++ ")\n" ++ t.source

end Template

/-- The file of a new program if none is asked for. -/
def defaultFileName (name : String) : String :=
  Text.lowercase name ++ ".nano"

end LineScript
