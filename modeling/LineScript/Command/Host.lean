import LineScript.Command.Files
import LineScript.Command.Request
import LineScript.Run.Report
import LineScript.Settings.File

/-! # Hosts

A command line reaches the world around it only through a `Host`: how its words and settings files
are read, its files, its standard output and the time. Two hosts are meant: the system, and a tree
of files in memory.
-/

namespace LineScript

/-- What a command line needs of the world around it. -/
structure Host (m : Type → Type) where
  /-- What the words of a command line ask for. -/
  request : List String → Except Stop Request
  /-- The settings that the text of a settings file gives, if it is one. -/
  settings : String → Option Settings.Given
  /-- The text of a file. -/
  read : String → m (Except FileError String)
  /-- Whether there is a file or directory of that name. -/
  exists? : String → m Bool
  /-- Replace the content of a file by a text. -/
  write : String → String → m (Except FileError Unit)
  /-- Print a text on the standard output. It may take none. -/
  print : String → m Bool
  /-- The clock that the run of a script goes by. -/
  clock : Limits → String → m Clock

namespace Store

/-- A tree of files as a host, on which names lead from a working directory and scripts run by the
    given clock. -/
def hostAt (origin : Path) (clock : Clock) : Host (StateM Store) where
  request := Request.ofWords
  settings := Settings.File.read?
  read name := return (← get).readFrom origin name
  exists? name := return (← get).holds origin name
  write name content := do
    match (← get).write origin name content with
    | .error e => return .error e
    | .ok store =>
        set store
        return .ok ()
  print _ := return true
  clock _ _ := return clock

/-- A tree of files as a host that works at its root. -/
def host (clock : Clock) : Host (StateM Store) :=
  hostAt [] clock

end Store

end LineScript
