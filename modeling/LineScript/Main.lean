import LineScript.Command.Perform

/-! # The command `nano` -/

namespace LineScript.Main

/-- Why the system refuses a file. -/
def fileError (e : IO.Error) : FileError :=
  match e with
  | .noFileOrDirectory _ code reason => .system reason code.toNat
  | .noSuchThing _ code reason => .system reason code.toNat
  | .inappropriateType _ code reason => .system reason code.toNat
  | .permissionDenied _ code reason => .system reason code.toNat
  | .invalidArgument _ code reason => .system reason code.toNat
  | .resourceExhausted _ code reason => .system reason code.toNat
  | e => .system e.toString 0

/-- The text of a file of the system. -/
def read (path : String) : IO (Except FileError String) := do
  try
    match String.fromUTF8? (← IO.FS.readBinFile path) with
    | some text => return .ok text
    | none => return .error .notText
  catch e => return .error (fileError e)

/-- Whether the system has something of that name. -/
def exists? (path : String) : IO Bool := do
  try
    let _ ← IO.FS.Handle.mk path .read
    return true
  catch
    | .noFileOrDirectory _ _ _ => return false
    | .inappropriateType _ _ _ => return false
    | _ => return true

/-- Replace the content of a file of the system. -/
def write (path content : String) : IO (Except FileError Unit) := do
  try
    IO.FS.writeFile path content
    return .ok ()
  catch e => return .error (fileError e)

/-- Print a text on the standard output of the system. -/
def print (text : String) : IO Bool := do
  try
    let stdout ← IO.getStdout
    stdout.putStr text
    stdout.flush
    return true
  catch _ => return false

/-- A clock that stops a script after so many steps, or after twice as many each time the real
    clock shows that there is time left. -/
partial def pace (limits : Limits) (milliseconds started steps : Nat) (code : String) :
    IO Clock := do
  let clock : Clock := fun n => if n < steps then 0 else milliseconds * 1000000 + 1
  if (Sandbox.run limits clock code).steps < steps then return clock
  else
    let now ← IO.monoNanosNow
    if milliseconds * 1000000 < now - started then return clock
    else pace limits milliseconds started (2 * steps) code

/-- The clock of a run. -/
def clock (limits : Limits) (code : String) : IO Clock := do
  match limits.timeout with
  | none => return Sandbox.stillClock
  | some milliseconds => pace limits milliseconds (← IO.monoNanosNow) 4096 code

/-- The system as a host. -/
def host : Host IO :=
  ⟨Request.ofWords, Settings.File.read?, read, exists?, write, print, clock⟩

end LineScript.Main

/-- Carry out the command line. -/
def main (args : List String) : IO UInt32 := do
  let names :=
    [LineScript.Settings.maxStepsVariable, LineScript.Settings.timeoutVariable,
      LineScript.Settings.noOutputVariable]
  let values ← names.mapM fun name => do return (name, ← IO.getEnv name)
  let env (name : String) : Option String := (values.lookup name).join
  let finished ← LineScript.commandLine LineScript.Main.host env args
  IO.eprint finished.stderr
  if finished.exit = 2 then IO.eprint LineScript.usage
  return UInt32.ofNat finished.exit
