import LineScript.Run.Machine

/-! # Settings

The settings of a run come in layers: the defaults, a file, the environment and flags. Each layer
changes only what it gives a valid value for.
-/

namespace LineScript

/-- The settings of a run. -/
structure Settings where
  /-- How many steps a run may take. -/
  maxSteps : Option Nat
  /-- How many milliseconds a run may take. -/
  timeout : Option Nat
  /-- What is printed for a run that captures nothing. -/
  noOutput : String
  deriving Repr, DecidableEq

namespace Settings

/-- The settings that hold if nothing else is asked for. -/
protected def default : Settings :=
  ⟨some defaultMaxSteps, none, "(no output)"⟩

instance : Inhabited Settings := ⟨Settings.default⟩

/-- The limits that the settings put on a run. -/
def limits (s : Settings) : Limits :=
  ⟨s.maxSteps, s.timeout⟩

/-- Counts are below this. -/
def countBound : Nat := Nat.pow 2 64

/-- A count in decimal digits, with an optional plus sign. -/
def readCount? (s : List Char) : Option Nat :=
  let digits :=
    match s with
    | '+' :: digits => digits
    | digits => digits
  if digits.isEmpty || !digits.all Char.isDigit then none
  else
    let n := Number.digitsValue digits
    if n < countBound then some n else none

/-- The limit that a count stands for: zero is no limit. -/
def limitOf (n : Nat) : Option Nat :=
  if n = 0 then none else some n

/-- The limit that the text of a variable stands for: a count, or the word for no limit in any
    letter case. Other texts stand for nothing. -/
def readLimit? (raw : String) : Option (Option Nat) :=
  let s := Text.trim raw.toList
  if s.map Char.toLower = "none".toList then some none
  else (readCount? s).map limitOf

/-- The variable for the step limit. -/
def maxStepsVariable : String := "NANO_MAX_STEPS"

/-- The variable for the time limit. -/
def timeoutVariable : String := "NANO_TIMEOUT_MS"

/-- The variable for what is printed for a run that captures nothing. -/
def noOutputVariable : String := "NANO_NO_OUTPUT"

/-- The settings under an environment. A variable that stands for no limit is passed over. -/
def withEnvironment (s : Settings) (env : String → Option String) : Settings where
  maxSteps := ((env maxStepsVariable).bind readLimit?).getD s.maxSteps
  timeout := ((env timeoutVariable).bind readLimit?).getD s.timeout
  noOutput := (env noOutputVariable).getD s.noOutput

/-- The settings under the limits that flags ask for. -/
def withFlags (s : Settings) (maxSteps timeout : Option Nat) : Settings where
  maxSteps := (maxSteps.map limitOf).getD s.maxSteps
  timeout := (timeout.map limitOf).getD s.timeout
  noOutput := s.noOutput

end Settings

end LineScript
