import LineScript.Settings
import LineScript.Text.Lines

/-! # Requests

The words on the command line ask for one command. Words that start with a dash are options, in any
order with the others; each option may be given once. An option takes its value from the next word
or, behind an equals sign, from its own. A word of two dashes ends the options.
-/

namespace LineScript

/-- A command and what it works on. -/
inductive Command where
  /-- Show the statements of a program. -/
  | parse (input : String) (json : Bool)
  /-- Generate the script of a program. -/
  | transpile (input : String) (output : Option String)
  /-- Run a program, or a script as it is. -/
  | run (input : String) (script showCode json strict : Bool) (maxSteps timeout : Option Nat)
      (config : Option String)
  /-- Report the findings in a program. -/
  | check (input : String) (json : Bool)
  /-- Lay out a program. -/
  | fmt (input : String) (inPlace : Bool)
  /-- Start a program from a template. -/
  | new (name : String) (output : Option String) (template : String)
  deriving Repr, DecidableEq

/-- Why no command is carried out. -/
inductive Stop where
  /-- The words make no sense. -/
  | usage
  /-- The version is asked for. -/
  | version
  /-- Help is asked for. -/
  | help
  deriving Repr, DecidableEq

/-- What values of an option are valid. -/
inductive ValueKind where
  /-- Any text. -/
  | text
  /-- Any text but the empty one. -/
  | path
  /-- A count. -/
  | count
  deriving Repr, DecidableEq

/-- What an option does. -/
inductive Action where
  /-- It is on if it is given. -/
  | flag
  /-- It takes a value. -/
  | value (kind : ValueKind)
  /-- It ends the reading of words at once. -/
  | stop (s : Stop)
  deriving Repr, DecidableEq

/-- An option. -/
structure Switch where
  /-- The word behind two dashes. -/
  long : String
  /-- The letter behind one dash. -/
  short : Option Char
  /-- What it does. -/
  action : Action
  deriving Repr, DecidableEq

/-- What the words have given so far. -/
structure Words where
  /-- The one word that is no option. -/
  input : Option String := none
  /-- Options with their values; flags have the empty value. -/
  options : List (String × String) := []
  deriving Repr

namespace Words

/-- Take in a word that is no option. There is room for one. -/
def addInput (w : Words) (input : String) : Except Stop Words :=
  if w.input.isSome then .error .usage else .ok { w with input := some input }

/-- Take in an option. -/
def add (w : Words) (switch : Switch) (value : String) : Except Stop Words :=
  if (w.options.lookup switch.long).isSome then .error .usage
  else .ok { w with options := (switch.long, value) :: w.options }

/-- Take in an option that is given without a value. -/
def addFlag (w : Words) (switch : Switch) : Except Stop Words :=
  match switch.action with
  | .flag => w.add switch ""
  | .stop s => .error s
  | .value _ => .error .usage

/-- Take in an option with its value. -/
def addValue (w : Words) (switch : Switch) (value : String) : Except Stop Words :=
  match switch.action with
  | .value .text => w.add switch value
  | .value .path => if value.isEmpty then .error .usage else w.add switch value
  | .value .count =>
      if (Settings.readCount? value.toList).isSome then w.add switch value else .error .usage
  | .flag | .stop _ => .error .usage

/-- Whether a flag is on. -/
def isOn (w : Words) (long : String) : Bool :=
  (w.options.lookup long).isSome

/-- The value of an option. -/
def value? (w : Words) (long : String) : Option String :=
  w.options.lookup long

/-- The value of an option that counts. -/
def count? (w : Words) (long : String) : Option Nat :=
  (w.value? long).bind fun v => Settings.readCount? v.toList

/-- Letters behind one dash. The last one may take what follows it as its value, or the next word:
    then it is returned with what was taken in. -/
def addLetters (switches : List Switch) (w : Words) :
    List Char → Except Stop (Words × Option Switch)
  | [] => .ok (w, none)
  | c :: rest =>
      match switches.find? (·.short = some c) with
      | none => .error .usage
      | some switch =>
          match switch.action, rest with
          | .value _, [] => .ok (w, some switch)
          | .value _, '=' :: value => do return (← w.addValue switch (String.ofList value), none)
          | .value _, value => do return (← w.addValue switch (String.ofList value), none)
          | _, rest => do
              let w ← w.addFlag switch
              addLetters switches w rest

/-- A word behind two dashes, with its value if it has one. -/
def addLong (switches : List Switch) (w : Words) (s : List Char) :
    Except Stop (Words × Option Switch) :=
  let (name, value) :=
    match Text.cut? '=' s with
    | some (name, value) => (name, some (String.ofList value))
    | none => (s, none)
  match switches.find? (·.long = String.ofList name), value with
  | none, _ => .error .usage
  | some switch, some value => do return (← w.addValue switch value, none)
  | some switch, none =>
      match switch.action with
      | .value _ => .ok (w, some switch)
      | _ => do return (← w.addFlag switch, none)

/-- Read words up to the end or, if `first` is set, up to the first one that is no option; return
    the words left. `pending` is an option that waits for its value and `ended` tells whether
    options have ended. -/
def read (switches : List Switch) (first ended : Bool) (w : Words) (pending : Option Switch) :
    List String → Except Stop (Words × List String)
  | [] => if pending.isSome then .error .usage else .ok (w, [])
  | arg :: rest =>
      match pending, arg.toList with
      | some _, '-' :: _ :: _ => .error .usage
      | some switch, _ => do
          let w ← w.addValue switch arg
          read switches first ended w none rest
      | none, s =>
          if ended then do
            let w ← w.addInput arg
            read switches first ended w none rest
          else match s with
            | ['-', '-'] =>
                if first then .error .usage else read switches first true w none rest
            | '-' :: '-' :: s => do
                let (w, pending) ← addLong switches w s
                read switches first ended w pending rest
            | '-' :: c :: s => do
                let (w, pending) ← addLetters switches w (c :: s)
                read switches first ended w pending rest
            | _ =>
                if first then .ok (w, arg :: rest)
                else do
                  let w ← w.addInput arg
                  read switches first ended w none rest

end Words

namespace Command

/-- Asks for more output. -/
def verbose : Switch := ⟨"verbose", some 'v', .flag⟩

/-- Asks for help. -/
def help : Switch := ⟨"help", some 'h', .stop .help⟩

/-- The options in front of the command. -/
def leading : List Switch :=
  [verbose, help, ⟨"version", some 'V', .stop .version⟩]

/-- A flag without a letter. -/
def flag (long : String) : Switch := ⟨long, none, .flag⟩

/-- The options of a command, if there is such a command. -/
def switches? : String → Option (List Switch)
  | "parse" | "check" => some [flag "json"]
  | "transpile" => some [⟨"output", some 'o', .value .path⟩]
  | "run" =>
      some
        [flag "js", flag "show-code", flag "json", flag "strict",
          ⟨"max-steps", none, .value .count⟩, ⟨"timeout-ms", none, .value .count⟩,
          ⟨"config", none, .value .path⟩]
  | "fmt" => some [flag "in-place"]
  | "new" =>
      some [⟨"output", some 'o', .value .path⟩, ⟨"template", some 't', .value .text⟩]
  | _ => none

/-- Whether help can be given about the command that the words name: about all of them if there is
    no word. -/
def isTopic : List String → Bool
  | [] => true
  | [name] => name = "help" || (switches? name).isSome
  | _ => false

/-- The command of a given name on one word, with its options. Only the name of a program may be
    the empty word. -/
def build (name input : String) (w : Words) : Except Stop Command :=
  if name = "new" then
    .ok (.new input (w.value? "output") ((w.value? "template").getD "hello"))
  else if input.isEmpty then .error .usage
  else match name with
    | "parse" => .ok (.parse input (w.isOn "json"))
    | "transpile" => .ok (.transpile input (w.value? "output"))
    | "run" =>
        .ok (.run input (w.isOn "js") (w.isOn "show-code") (w.isOn "json") (w.isOn "strict")
          (w.count? "max-steps") (w.count? "timeout-ms") (w.value? "config"))
    | "check" => .ok (.check input (w.isOn "json"))
    | "fmt" => .ok (.fmt input (w.isOn "in-place"))
    | _ => .error .usage

end Command

/-- A command to carry out. -/
structure Request where
  /-- Whether more output is asked for. -/
  verbose : Bool
  /-- The command. -/
  command : Command
  deriving Repr, DecidableEq

/-- Read the words of a command line as options and the rest. A host may read them otherwise. -/
def Request.ofWords (args : List String) : Except Stop Request := do
  let (before, rest) ← Words.read Command.leading true false {} none args
  match rest with
  | [] => .error .usage
  | name :: args =>
      if name = "help" then .error (if Command.isTopic args then .help else .usage)
      else match Command.switches? name with
        | none => .error .usage
        | some switches =>
            let switches := Command.verbose :: Command.help :: switches
            let (w, _) ← Words.read switches false false {} none args
            match w.input with
            | some input =>
                let command ← Command.build name input w
                return ⟨before.isOn "verbose" || w.isOn "verbose", command⟩
            | none => .error .usage

end LineScript
