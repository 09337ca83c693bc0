import LineScript.Text.Lines

/-! # Files

A `Store` holds a whole tree of files in memory. Names lead from a directory, or from the root if
they start with a slash, one step for each part between slashes.
-/

namespace LineScript

/-- Why a file cannot be read or written. -/
inductive FileError where
  /-- The system refuses, with its wording and number for the reason. -/
  | system (reason : String) (code : Nat)
  /-- The file holds no text. -/
  | notText
  deriving Repr, DecidableEq

namespace FileError

/-- There is no such file, or no directory to hold it. -/
def notFound : FileError := .system "No such file or directory" 2

/-- A file stands where a directory should. -/
def notDirectory : FileError := .system "Not a directory" 20

/-- A directory stands where a file should. -/
def isDirectory : FileError := .system "Is a directory" 21

/-- A name is longer than names may be. -/
def nameTooLong : FileError := .system "File name too long" 36

/-- The most bytes that a name may have. -/
def longestName : Nat := 255

/-- The wording of the error. -/
def message : FileError → String
  | .system reason code => reason ++ " (os error " ++ toString code ++ ")"
  | .notText => "stream did not contain valid UTF-8"

end FileError

/-- What a directory holds under a name. -/
inductive Entry where
  | file (content : ByteArray)
  | directory

/-- The names on the way from the root down. -/
abbrev Path := List String

/-- Where a name leads from a directory: the empty name and `.` stay there, and `..` goes up. The
    root is above itself. -/
def Path.step (path : Path) (name : List Char) : Except FileError Path :=
  if name = [] ∨ name = ['.'] then .ok path
  else if name = ['.', '.'] then .ok path.dropLast
  else if FileError.longestName < (String.ofList name).utf8ByteSize then .error .nameTooLong
  else .ok (path ++ [String.ofList name])

/-- All that there is below the root, at any depth. -/
abbrev Store := List (Path × Entry)

namespace Store

/-- What stands at a path. -/
def find? (store : Store) : Path → Option Entry
  | [] => some .directory
  | path => store.lookup path

/-- Follow names from a path. There has to be a directory wherever a name is followed from. -/
def walk (store : Store) (path : Path) : List (List Char) → Except FileError Path
  | [] => .ok path
  | name :: rest =>
      match store.find? path with
      | none => .error .notFound
      | some (.file _) => .error .notDirectory
      | some .directory => do
          let path ← path.step name
          walk store path rest

/-- The path that a name with slashes leads to from a working directory, if there is a way to it. -/
def locate (store : Store) (origin : Path) (name : List Char) : Except FileError Path :=
  match name with
  | [] => .error .notFound
  | '/' :: name => store.walk [] (Text.split '/' name)
  | name => store.walk origin (Text.split '/' name)

/-- The text of a file. -/
def readFrom (store : Store) (origin : Path) (name : String) : Except FileError String := do
  let path ← store.locate origin name.toList
  match store.find? path with
  | none => .error .notFound
  | some .directory => .error .isDirectory
  | some (.file content) =>
      match String.fromUTF8? content with
      | some text => .ok text
      | none => .error .notText

/-- The text of a file, its name taken from the root. -/
def read (store : Store) (name : String) : Except FileError String :=
  store.readFrom [] name

/-- Whether the store holds something of that name. -/
def holds (store : Store) (origin : Path) (name : String) : Bool :=
  match store.locate origin name.toList with
  | .ok path => (store.find? path).isSome
  | .error _ => false

/-- Put an entry under a path, in its place if there is one. -/
def put (path : Path) (entry : Entry) : Store → Store
  | [] => [(path, entry)]
  | (other, old) :: rest =>
      if other = path then (path, entry) :: rest else (other, old) :: put path entry rest

/-- A name without the slashes at its end; a slash that it starts with stays. -/
def withoutSlashes : List Char → List Char
  | [] => []
  | c :: s => c :: (s.reverse.dropWhile (· = '/')).reverse

/-- Replace the content of a file by a text. Nothing changes if that cannot be done. A name with a
    slash at its end is taken for that of a directory, whether there is one or not. -/
def write (store : Store) (origin : Path) (name content : String) : Except FileError Store := do
  let path ← store.locate origin (withoutSlashes name.toList)
  if name.toList.getLast? = some '/' then .error .isDirectory
  else match store.find? path with
    | some .directory => .error .isDirectory
    | _ => .ok (store.put path (.file content.toUTF8))

end Store

end LineScript
