import LineScript.Command.Host
import LineScript.Json
import LineScript.Listing.Finding
import LineScript.Listing.Outline
import LineScript.Listing.Tidy
import LineScript.Template

/-! # Carrying out commands

A command reads what it needs, prints, and as its last act may write one file. It either succeeds
or ends with one error; what was printed before the error stays printed.
-/

namespace LineScript

/-- The version of the tool. -/
def version : String := "0.1.0"

/-- Why a command fails. -/
inductive CommandError where
  /-- The input cannot be read. -/
  | readInput (path : String) (cause : FileError)
  /-- The settings file cannot be read. -/
  | readSettings (path : String) (cause : FileError)
  /-- The settings file is no settings file. -/
  | badSettings (path : String)
  /-- A program with findings was to be run strictly. -/
  | strict (path : String) (first : Finding)
  /-- A program that was checked has findings. -/
  | problems (count : Nat) (path : String)
  /-- There is no such template. -/
  | unknownTemplate (slug : String)
  /-- A new program would replace a file. -/
  | overwrite (path : String)
  /-- The output cannot be written. -/
  | write (cause : FileError)
  deriving Repr, DecidableEq

namespace CommandError

/-- The wording of an error. -/
def message : CommandError → String
  | .readInput path _ => "Failed to read input file " ++ path
  | .readSettings path _ => "Failed to read config file " ++ path
  | .badSettings path => "Invalid config file " ++ path
  | .strict path _ => path ++ " did not pass strict checks"
  | .problems count path => toString count ++ " problem(s) found in " ++ path
  | .unknownTemplate slug =>
      "Unknown template '" ++ slug ++ "', expected one of: " ++
        String.intercalate ", " Template.slugs
  | .overwrite path => "Refusing to overwrite " ++ path
  | .write cause => cause.message

/-- The wording of what lies behind an error. -/
def cause? : CommandError → Option String
  | .readInput _ cause | .readSettings _ cause => some cause.message
  | .strict _ first => some first.message
  | .badSettings _ | .problems _ _ | .unknownTemplate _ | .overwrite _ | .write _ => none

/-- How an error is shown. -/
def shown (e : CommandError) : String :=
  let cause :=
    match e.cause? with
    | some cause => "\nCaused by:\n    " ++ cause ++ "\n"
    | none => ""
  "Error: " ++ e.message ++ "\n" ++ cause

end CommandError

/-- What a command has printed, and its error if it failed. -/
structure Output where
  /-- The printed text. -/
  printed : String
  /-- The error. -/
  error : Option CommandError

namespace Output

/-- Success. -/
def done (printed : String) : Output :=
  ⟨printed, none⟩

/-- Failure behind what was printed. -/
def failed (printed : String) (e : CommandError) : Output :=
  ⟨printed, some e⟩

end Output

namespace Line

/-- The members of a statement in a report. -/
def members : Line → List (String × Json)
  | .note text => [("kind", .text "comment"), ("text", .text text)]
  | .say expr => [("kind", .text "print"), ("expr", .text expr)]
  | .assign name expr => [("kind", .text "assign"), ("name", .text name), ("expr", .text expr)]
  | .loop count => [("kind", .text "repeat_begin"), ("count", .text count)]
  | .test condition => [("kind", .text "check_begin"), ("condition", .text condition)]
  | .close => [("kind", .text "block_end")]
  | .danglingSet raw => [("kind", .text "dangling_set"), ("raw", .text raw)]
  | .unknown raw => [("kind", .text "unrecognized"), ("raw", .text raw)]

/-- Whether a statement counts as an assignment in a summary. -/
def isAssign : Line → Bool
  | .assign _ _ => true
  | _ => false

/-- Whether a statement prints. -/
def isSay : Line → Bool
  | .say _ => true
  | _ => false

/-- Whether a statement opens a loop. -/
def isLoop : Line → Bool
  | .loop _ => true
  | _ => false

/-- Whether a statement opens a block under a condition. -/
def isTest : Line → Bool
  | .test _ => true
  | _ => false

/-- Whether a statement is one that makes no sense. -/
def isOdd : Line → Bool
  | .danglingSet _ | .unknown _ => true
  | _ => false

end Line

/-- A listing as it is reported. -/
def Listing.json (listing : Listing) : Json :=
  .list (listing.map fun entry => .record (("line", .count entry.number) :: entry.line.members))

/-- A finding as it is reported. -/
def Finding.json : Finding → Json
  | .missingAssignment line =>
      .record [("kind", .text "missing_assignment"), ("line", .count line)]
  | .invalidName line name =>
      .record [("kind", .text "invalid_name"), ("line", .count line), ("name", .text name)]
  | .reservedName line name =>
      .record [("kind", .text "reserved_name"), ("line", .count line), ("name", .text name)]
  | .unknownStatement line text =>
      .record [("kind", .text "unknown_statement"), ("line", .count line), ("text", .text text)]
  | .strayEnd line => .record [("kind", .text "stray_end"), ("line", .count line)]
  | .unclosedBlock line keyword =>
      .record [("kind", .text "unclosed_block"), ("line", .count line), ("keyword", .text keyword)]

/-- The word for a status in a report. -/
def Status.word : Status → String
  | .completed => "completed"
  | .runtimeError _ => "runtime_error"
  | .systemError _ => "system_error"
  | .unfinished => "unfinished"

/-- A status as it is told to the user. -/
def Status.phrase : Status → String
  | .completed => "completed"
  | .runtimeError _ => "stopped by a runtime error"
  | .systemError _ => "rejected before execution"
  | .unfinished => "cut off"

/-- A report as it is printed. -/
def Report.json (r : Report) : Json :=
  let message :=
    match r.status.message? with
    | some message => [("message", Json.text message)]
    | none => []
  .record
    ([("log", .list (r.log.map .text)), ("status", .text r.status.word)] ++ message ++
      [("steps", .count r.steps)])

/-- A few numbers about a program. -/
def Listing.summary (listing : Listing) : List String :=
  let odd := listing.countLines Line.isOdd
  ["✅ Parsed " ++ toString listing.length ++ " statement(s)",
    "💬 Prints: " ++ toString (listing.countLines Line.isSay),
    "📦 Assignments: " ++ toString (listing.countLines Line.isAssign),
    "🔁 Loops: " ++ toString (listing.countLines Line.isLoop),
    "❓ Checks: " ++ toString (listing.countLines Line.isTest)] ++
    (if 0 < odd then ["⚠️  Unrecognized: " ++ toString odd] else [])

section

variable {m : Type → Type} [Monad m] (host : Host m)

/-- Read the input of a command and go on with its text. -/
@[inline]
def withInput (printed input : String) (next : String → m Output) : m Output := do
  match ← host.read input with
  | .error cause => return .failed printed (.readInput input cause)
  | .ok source => next source

/-- Write a file as the last act of a command. -/
@[inline]
def writing (printed path content : String) (after : List String) : m Output := do
  match ← host.write path content with
  | .error cause => return .failed printed (.write cause)
  | .ok () => return .done (printed ++ Text.endLines after)

/-- Show the statements of a program. -/
def performParse (printed input : String) (json : Bool) : m Output :=
  withInput host printed input fun source => do
    let listing := Listing.ofSource source
    if json then return .done (printed ++ Text.endLines [listing.json.pretty])
    else
      return .done
        (printed ++ Text.endLines (listing.summary ++ ["", "--- Structure ---"] ++ listing.drawing))

/-- Generate the script of a program. -/
def performTranspile (printed input : String) (output : Option String) : m Output :=
  withInput host printed input fun source => do
    let code := scriptOf source
    match output with
    | none => return .done (printed ++ Text.endLines [code])
    | some path =>
        writing host printed path (code ++ "\n") ["✅ Generated JavaScript in " ++ path]

/-- Report the findings in a program. -/
def performCheck (printed input : String) (json : Bool) : m Output :=
  withInput host printed input fun source => do
    let findings := (Listing.ofSource source).findings
    let report :=
      if json then [(Json.list (findings.map Finding.json)).pretty]
      else findings.map fun f => "⚠️  " ++ f.message
    if findings.isEmpty then
      let verdict := if json then [] else ["✅ No problems found"]
      return .done (printed ++ Text.endLines (report ++ verdict))
    else return .failed (printed ++ Text.endLines report) (.problems findings.length input)

/-- Lay out a program. -/
def performFmt (printed input : String) (inPlace : Bool) : m Output :=
  withInput host printed input fun source => do
    let tidy := Tidy.tidy source
    if inPlace then writing host printed input tidy ["✅ Formatted file in place: " ++ input]
    else return .done (printed ++ tidy)

/-- Start a program from a template. -/
def performNew (printed name : String) (output : Option String) (slug : String) : m Output := do
  let path := output.getD (defaultFileName name)
  match Template.find? slug with
  | none => return .failed printed (.unknownTemplate slug)
  | some template =>
      if ← host.exists? path then return .failed printed (.overwrite path)
      else
        writing host printed path (template.instantiate name)
          ["✅ Created new program: " ++ path, "📝 Run it with: nano run " ++ path]

/-- The settings of a run, before the environment and flags are looked at. -/
def loadSettings (path : Option String) : m (Except CommandError Settings) := do
  match path with
  | none => return .ok .default
  | some path =>
      match ← host.read path with
      | .error cause => return .error (.readSettings path cause)
      | .ok text =>
          match host.settings text with
          | some given => return .ok given.settings
          | none => return .error (.badSettings path)

/-- The settings of a run, with all their layers. -/
def runSettings (env : String → Option String) (config : Option String)
    (maxSteps timeout : Option Nat) : m (Except CommandError Settings) := do
  match ← loadSettings host config with
  | .error e => return .error e
  | .ok settings => return .ok ((settings.withEnvironment env).withFlags maxSteps timeout)

/-- Run a script and print what it captures. -/
def performScript (printed code : String) (settings : Settings) (json verbose : Bool) :
    m Output := do
  let clock ← host.clock settings.limits code
  let report := Sandbox.run settings.limits clock code
  if json then return .done (printed ++ Text.endLines [report.json.pretty])
  else
    let captured := if report.log.isEmpty then [settings.noOutput] else report.log
    let closing :=
      if verbose then
        ["⏱️ Run " ++ report.status.phrase ++ " after " ++ toString report.steps ++ " step(s)"]
      else []
    return .done (printed ++ Text.endLines (captured ++ closing))

/-- Run a program, or a script as it is. -/
def performRun (printed input : String) (script showCode json strict verbose : Bool)
    (settings : Settings) : m Output :=
  withInput host printed input fun source => do
    let first := if strict && !script then (Listing.ofSource source).findings.head? else none
    match first with
    | some finding => return .failed printed (.strict input finding)
    | none =>
        let code := if script then source else scriptOf source
        let shown :=
          if showCode then ["--- Generated JavaScript ---", code, "--- Output ---"] else []
        performScript host (printed ++ Text.endLines shown) code settings json verbose

/-- Carry out a request in an environment. -/
def Request.perform (env : String → Option String) (request : Request) : m Output := do
  let verbose := request.verbose
  let banner := if verbose then Text.endLines ["NanoLang v" ++ version] else ""
  let told (line : String) : String := if verbose then banner ++ Text.endLines [line] else banner
  match request.command with
  | .parse input json => performParse host (told ("🔍 Parsing NanoLang file: " ++ input)) input json
  | .transpile input output =>
      performTranspile host (told ("🔧 Transpiling NanoLang file: " ++ input)) input output
  | .run input script showCode json strict maxSteps timeout config =>
      match ← runSettings host env config maxSteps timeout with
      | .error e => return .failed banner e
      | .ok settings =>
          let language := if script then "JavaScript" else "NanoLang"
          performRun host (told ("🚀 Running " ++ language ++ ": " ++ input)) input script showCode
            json strict verbose settings
  | .check input json =>
      performCheck host (told ("🔍 Checking NanoLang file: " ++ input)) input json
  | .fmt input inPlace =>
      performFmt host (told ("🎨 Formatting NanoLang file: " ++ input)) input inPlace
  | .new name output template =>
      performNew host
        (told ("🏗️ Creating NanoLang program '" ++ name ++ "' from template '" ++ template ++ "'"))
        name output template

end

/-- What a command line leaves behind. -/
structure Finished where
  /-- The exit code. -/
  exit : Nat
  /-- What went to the standard output. -/
  stdout : String
  /-- What went to the standard error. -/
  stderr : String
  deriving Repr, DecidableEq

/-- A word on how the tool is used. -/
def usage : String :=
  "Usage: nano [-v] <parse|transpile|run|check|fmt|new> <FILE|PROGRAM_NAME> [OPTIONS]\n"

namespace Finished

/-- The end of a command line that asks for no command. -/
def ofStop : Stop → Finished
  | .usage => ⟨2, "", ""⟩
  | .version => ⟨0, "nano " ++ version ++ "\n", ""⟩
  | .help => ⟨0, usage, ""⟩

/-- The end of a command. -/
def ofOutput (o : Output) : Finished :=
  match o.error with
  | none => ⟨0, o.printed, ""⟩
  | some e => ⟨1, o.printed, e.shown⟩

/-- Print what there is to print. If it cannot be printed, the command line crashes. -/
def print {m : Type → Type} [Monad m] (host : Host m) (f : Finished) : m Finished := do
  if ← host.print f.stdout then return f else return { f with exit := 101 }

end Finished

/-- Carry out a command line. What it prints goes to the standard output in the end. -/
def commandLine {m : Type → Type} [Monad m] (host : Host m) (env : String → Option String)
    (args : List String) : m Finished := do
  match host.request args with
  | .error stop => (Finished.ofStop stop).print host
  | .ok request =>
      let output ← request.perform host env
      (Finished.ofOutput output).print host

end LineScript
