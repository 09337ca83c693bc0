import LineScript.Listing.Generated
import LineScript.Run.Machine

/-! # Reports of runs

A run in the sandbox never fails: a text that is no script and a fault of a run end as one more
captured line and in the status of the report.
-/

namespace LineScript

/-- How a run ended. -/
inductive Status where
  /-- The script ran to its end. -/
  | completed
  /-- The script was stopped by a fault. -/
  | runtimeError (message : String)
  /-- The text is no script, and nothing ran. -/
  | systemError (message : String)
  /-- A loop was cut off. -/
  | unfinished
  deriving Repr, DecidableEq

/-- The message of a status that has one. -/
def Status.message? : Status → Option String
  | .runtimeError message | .systemError message => some message
  | .completed | .unfinished => none

/-- All that a run produced. -/
structure Report where
  /-- The captured lines in order. -/
  log : List String
  /-- How the run ended. -/
  status : Status
  /-- The number of steps taken. -/
  steps : Nat
  deriving Repr

namespace Sandbox

/-- The report of a script's run. -/
def report (o : Outcome) : Report :=
  let log := o.machine.log.toList
  match o.halt with
  | none => ⟨log, .completed, o.machine.steps⟩
  | some .unfinished => ⟨log, .unfinished, o.machine.steps⟩
  | some (.fault f) =>
      ⟨log ++ ["Runtime Error: " ++ f.message], .runtimeError f.message, o.machine.steps⟩

/-- Run a text under limits. -/
def run (limits : Limits) (clock : Clock) (code : String) : Report :=
  match Script.compile code with
  | .error fault => ⟨["System Error: " ++ fault.message], .systemError fault.message, 0⟩
  | .ok script => report (script.run limits clock limits.rounds .fresh)

/-- A clock that stands still. -/
def stillClock : Clock := fun _ => 0

/-- The lines that a text captures under the limits that hold if nothing else is asked for. -/
def execute (code : String) : List String :=
  (run default stillClock code).log

/-- The lines that a source text captures when its script is run. -/
def executeSource (source : String) : List String :=
  execute (scriptOf source)

end Sandbox

/-- One run of several that share a sandbox and a place for their lines. -/
structure SessionEntry where
  /-- What the run produced. -/
  report : Report
  /-- The number of lines captured by this run and those before it. -/
  captured : Nat
  deriving Repr

/-- Run texts one after another, `captured` lines having been captured before. -/
def Sandbox.session (limits : Limits) (clock : Clock) (captured : Nat) :
    List String → List SessionEntry
  | [] => []
  | code :: rest =>
      let report := run limits clock code
      let total := captured + report.log.length
      ⟨report, total⟩ :: session limits clock total rest

/-- What one script of several that share a machine did. -/
structure Turn where
  /-- Why the text was not run or its run halted, if so. -/
  result : Except CompileFault (Option Halt)
  /-- The lines captured. -/
  log : List String
  /-- The number of steps taken by this script and those before it. -/
  steps : Nat

/-- Run texts one after another on a machine. A text that is no script is passed over. -/
def Machine.turns (limits : Limits) (clock : Clock) (m : Machine) : List String → List Turn
  | [] => []
  | code :: rest =>
      match Script.compile code with
      | .error fault => ⟨.error fault, [], m.steps⟩ :: turns limits clock m rest
      | .ok script =>
          let o := script.run limits clock limits.rounds { m with log := #[] }
          ⟨.ok o.halt, o.machine.log.toList, o.machine.steps⟩ ::
            turns limits clock o.machine rest

end LineScript
