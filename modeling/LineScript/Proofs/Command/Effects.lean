import LineScript.Proofs.Command.Files
import LineScript.Proofs.Command.Settings
import LineScript.Proofs.Command.Words

/-! # What commands change

A command changes nothing until its last act, which writes one file, and only if it was asked to. So
a command that fails leaves everything as it was, and over any sequence of commands a file changes
only where one of them succeeded in writing it. This holds on every host that does what is assumed
of it, and whatever its words are read as.
-/

namespace LineScript

/-! ## One command -/

namespace Command

/-- Whether a command has nothing to write. -/
def isSilent : Command → Bool
  | .parse .. | .run .. | .check .. => true
  | .transpile _ output => output.isNone
  | .fmt _ inPlace => !inPlace
  | .new .. => false

/-- A command is asked to write `text` to the file `f`. -/
inductive Targets {φ : Type} (files : Files φ) (f : φ) : Command → String → Prop where
  /-- The script of a program, to the file that the output option names. -/
  | transpile {input file source} : files.Reads input source → files.place file = some f →
      Targets files f (.transpile input (some file)) (scriptOf source ++ "\n")
  /-- The layout of a program, to the file it comes from. -/
  | fmt {input source} : files.Reads input source → files.place input = some f →
      Targets files f (.fmt input true) (Tidy.tidy source)
  /-- A new program, to a file that does not exist: the one that the output option names, or the
      one that is named after the program. -/
  | new {program output slug template} : Template.find? slug = some template →
      files.place (output.getD (defaultFileName program)) = some f → files.holds f = none →
      Targets files f (.new program output slug) (template.instantiate program)

/-- How a command may end, and what it leaves behind. -/
inductive Ends {φ : Type} (before : Files φ) (command : Command) : Output → Files φ → Prop where
  | failed (printed e) : Ends before command (.failed printed e) before
  | silent (printed) : command.isSilent = true → Ends before command (.done printed) before
  | wrote (printed) {f text after} : command.Targets before f text →
      before.Replaces after f text → Ends before command (.done printed) after

/-- All ways in which a part of a command may end are ways in which the command may. -/
def EndsBy {σ φ : Type} (files : σ → Files φ) (command : Command) (s : σ) (act : StateM σ Output) :
    Prop :=
  command.Ends (files s) (act.run s).1 (files (act.run s).2)

variable {σ φ : Type} {files : σ → Files φ} {host : Host (StateM σ)} {command : Command} {s : σ}
  {printed : String}

theorem endsBy_failed (e : CommandError) : command.EndsBy files s (pure (.failed printed e)) :=
  .failed printed e

theorem endsBy_done (silent : command.isSilent = true) :
    command.EndsBy files s (pure (.done printed)) :=
  .silent printed silent

theorem endsBy_bind {α : Type} {act : StateM σ α} {next : α → StateM σ Output}
    (kept : files (act.run s).2 = files s)
    (later : command.EndsBy files (act.run s).2 (next (act.run s).1)) :
    command.EndsBy files s (act >>= next) := by
  rw [EndsBy, kept] at later
  exact later

theorem endsBy_withInput (lawful : host.Lawful files) {input : String}
    {next : String → StateM σ Output} (later : ∀ s' source, (files s').Reads input source →
      command.EndsBy files s' (next source)) :
    command.EndsBy files s (withInput host printed input next) := by
  have kept := lawful.read_kept input s
  refine endsBy_bind kept ?_
  split
  · exact endsBy_failed _
  · next source read =>
      refine later _ source ?_
      rw [kept]
      exact lawful.read_text input s source read

theorem endsBy_writing (lawful : host.Lawful files) {name text : String} {after : List String}
    (targets : ∀ f, (files s).place name = some f → command.Targets (files s) f text) :
    command.EndsBy files s (writing host printed name text after) := by
  cases written : ((host.write name text).run s).1 with
  | error cause =>
      refine endsBy_bind (lawful.write_kept name text s cause written) ?_
      rw [written]
      exact endsBy_failed _
  | ok done_ =>
      obtain ⟨f, leads, replaces⟩ := lawful.write_replaces name text s written
      have run : (writing host printed name text after).run s =
          (.done (printed ++ Text.endLines after), ((host.write name text).run s).2) := by
        rw [writing, StateT.run_bind]
        dsimp only [bind]
        rw [written]
        rfl
      rw [EndsBy, run]
      exact .wrote _ (targets f leads) replaces

/-! ## All commands -/

theorem endsBy_performScript (lawful : host.Lawful files) {code : String} {settings : Settings}
    {json verbose : Bool} (silent : command.isSilent = true) :
    command.EndsBy files s (performScript host printed code settings json verbose) := by
  refine endsBy_bind (lawful.clock_kept _ _ s) ?_
  cases json with
  | true => exact endsBy_done silent
  | false => exact endsBy_done silent

theorem endsBy_performRun (lawful : host.Lawful files) {input : String}
    {script showCode json strict verbose : Bool} {settings : Settings}
    (silent : command.isSilent = true) :
    command.EndsBy files s (performRun host printed input script showCode json strict verbose
      settings) := by
  refine endsBy_withInput lawful fun s' source _ => ?_
  generalize (if strict && !script then (Listing.ofSource source).findings.head? else none) = first
  cases first with
  | some finding => exact endsBy_failed _
  | none => exact endsBy_performScript lawful silent

theorem endsBy_performNew (lawful : host.Lawful files) {name slug : String}
    {output : Option String} :
    (Command.new name output slug).EndsBy files s (performNew host printed name output slug) := by
  simp only [performNew]
  split
  · exact endsBy_failed _
  · next template found =>
      have kept := lawful.exists_kept (output.getD (defaultFileName name)) s
      refine endsBy_bind kept ?_
      split
      · exact endsBy_failed _
      · next absent =>
          refine endsBy_writing lawful fun f leads => ?_
          rw [kept] at leads ⊢
          exact .new found leads (lawful.absent _ s f (by simpa using absent) leads)

end Command

open Command in
/-- Every command ends in one of the ways that it may. -/
theorem Request.endsBy_perform {σ φ : Type} {files : σ → Files φ} {host : Host (StateM σ)}
    (lawful : host.Lawful files) (env : String → Option String) (request : Request) (s : σ) :
    request.command.EndsBy files s (request.perform host env) := by
  obtain ⟨verbose, command⟩ := request
  cases command with
  | parse input json =>
      refine endsBy_withInput lawful fun s' source _ => ?_
      split
      · exact endsBy_done rfl
      · exact endsBy_done rfl
  | transpile input output =>
      refine endsBy_withInput lawful fun s' source read => ?_
      cases output with
      | none => exact endsBy_done rfl
      | some path => exact endsBy_writing lawful fun f => .transpile read
  | run input script showCode json strict maxSteps timeout config =>
      refine endsBy_bind (lawful.kept_runSettings s) ?_
      split
      · exact endsBy_failed _
      · exact endsBy_performRun lawful rfl
  | check input json =>
      refine endsBy_withInput lawful fun s' source _ => ?_
      simp only
      split
      · exact endsBy_done rfl
      · exact endsBy_failed _
  | fmt input inPlace =>
      refine endsBy_withInput lawful fun s' source read => ?_
      cases inPlace with
      | false => exact endsBy_done rfl
      | true => exact endsBy_writing lawful fun f => .fmt read
  | new name output slug => exact endsBy_performNew lawful

/-! ## One command line -/

/-- What a command line that ends may have done to the files, by what its words were read as. -/
structure Leaves {φ : Type} (asked : Except Stop Request) (finished : Finished)
    (before after : Files φ) : Prop where
  /-- Nothing if it failed. -/
  failed : finished.exit ≠ 0 → after = before
  /-- Nothing if no command was carried out. -/
  stopped : ∀ stop, asked = .error stop → after = before
  /-- Nothing if the command has nothing to write. -/
  silent : ∀ request, asked = .ok request → request.command.isSilent = true → after = before
  /-- In all other cases it wrote the one file that it was asked for. -/
  wrote : ∀ request, asked = .ok request → request.command.isSilent = false →
    finished.exit = 0 → ∃ f text, request.command.Targets before f text ∧
      before.Replaces after f text
  /-- A new program never takes the place of anything. -/
  fresh : ∀ verbose program output slug, asked = .ok ⟨verbose, .new program output slug⟩ →
    ∀ f, before.holds f ≠ none → after.holds f = before.holds f

theorem Leaves.of_unchanged {φ : Type} {asked : Except Stop Request} {finished : Finished}
    {files : Files φ} (idle : ∀ request, asked = .ok request →
      request.command.isSilent = false → finished.exit ≠ 0) :
    Leaves asked finished files files where
  failed _ := rfl
  stopped _ _ := rfl
  silent _ _ _ := rfl
  wrote request asks loud ended := absurd ended (idle request asks loud)
  fresh _ _ _ _ _ _ _ := rfl

theorem Command.Targets.isSilent_eq {φ : Type} {command : Command} {files : Files φ} {f : φ}
    {text : String} (targets : command.Targets files f text) : command.isSilent = false := by
  cases targets <;> rfl

theorem Command.Ends.leaves {φ : Type} {request : Request} {output : Output}
    {before after : Files φ} (ends : request.command.Ends before output after) :
    Leaves (.ok request) (.ofOutput output) before after := by
  cases ends with
  | failed printed e => exact .of_unchanged fun _ _ _ => Nat.one_ne_zero
  | silent printed silent =>
      refine .of_unchanged fun request' same loud => ?_
      cases same
      rw [silent] at loud
      cases loud
  | @wrote printed f text _ targets replaces =>
      constructor
      case failed => exact fun failure => absurd rfl failure
      case stopped =>
        intro stop stopped
        cases stopped
      case silent =>
        intro request' same silent
        cases same
        rw [targets.isSilent_eq] at silent
        cases silent
      case wrote =>
        intro request' same _ _
        cases same
        exact ⟨f, text, targets, replaces⟩
      case fresh =>
        rintro verbose program output slug ⟨⟩ other old
        refine replaces.elsewhere other ?_
        rintro rfl
        cases targets with
        | new _ _ absent => exact old absent

theorem leaves_commandLine {σ φ : Type} {files : σ → Files φ} {host : Host (StateM σ)}
    (lawful : host.Lawful files) (env : String → Option String) (args : List String) (s : σ) :
    Leaves (host.request args) ((commandLine host env args).run s).1 (files s)
      (files ((commandLine host env args).run s).2) := by
  unfold commandLine
  cases host.request args with
  | error stop =>
      obtain ⟨same, kept⟩ := lawful.run_print (.ofStop stop) s
      dsimp only
      rw [same, kept]
      refine .of_unchanged fun request same => ?_
      cases same
  | ok request =>
      have ends := request.endsBy_perform lawful env s
      obtain ⟨same, kept⟩ := lawful.run_print (.ofOutput ((request.perform host env).run s).1)
        ((request.perform host env).run s).2
      dsimp only
      rw [StateT.run_bind]
      dsimp only [bind]
      rw [same, kept]
      exact ends.leaves

/-! ## One command line after another -/

/-- A command line with the environment and the host it meets, of which what is assumed holds. -/
structure Call {σ φ : Type} (files : σ → Files φ) where
  host : Host (StateM σ)
  lawful : host.Lawful files
  env : String → Option String
  args : List String

namespace Call

variable {σ φ : Type} {files : σ → Files φ}

/-- What the words are read as. -/
def asked (call : Call files) : Except Stop Request :=
  call.host.request call.args

def carryOut (call : Call files) : StateM σ Finished :=
  commandLine call.host call.env call.args

/-- Carry out command lines one after another, each on what those before it left. -/
def carryOutAll (calls : List (Call files)) : StateM σ (List Finished) :=
  calls.mapM carryOut

variable {call : Call files} {calls : List (Call files)} {s : σ}

theorem leaves_carryOut (call : Call files) (s : σ) :
    Leaves call.asked (call.carryOut.run s).1 (files s) (files (call.carryOut.run s).2) :=
  leaves_commandLine call.lawful call.env call.args s

theorem run_carryOutAll_cons : (carryOutAll (call :: calls)).run s =
    pure ((call.carryOut.run s).1 :: ((carryOutAll calls).run (call.carryOut.run s).2).1,
      ((carryOutAll calls).run (call.carryOut.run s).2).2) := by
  rw [carryOutAll, List.mapM_cons]
  rfl

/-- What changes is what a command that succeeds was asked to write. -/
theorem exists_targets {f : φ}
    (changed : (files (call.carryOut.run s).2).holds f ≠ (files s).holds f) :
    (call.carryOut.run s).1.exit = 0 ∧ ∃ request text, call.asked = .ok request ∧
      request.command.Targets (files s) f text := by
  have leaves := call.leaves_carryOut s
  have differ : files (call.carryOut.run s).2 ≠ files s := fun same => changed (by rw [same])
  have ended : (call.carryOut.run s).1.exit = 0 := by
    by_contra failure
    exact differ (leaves.failed failure)
  cases asked : call.asked with
  | error stop => exact absurd (leaves.stopped stop asked) differ
  | ok request =>
      cases silent : request.command.isSilent with
      | true => exact absurd (leaves.silent request asked silent) differ
      | false =>
          obtain ⟨f', text, targets, replaces⟩ := leaves.wrote request asked silent ended
          obtain rfl : f = f' := by
            by_contra other
            exact changed (replaces.elsewhere f other)
          exact ⟨ended, request, text, rfl, targets⟩

/-- Command lines that all fail leave everything as it was. -/
theorem unchanged_of_failures
    (failures : ∀ finished ∈ ((carryOutAll calls).run s).1, finished.exit ≠ 0) :
    files ((carryOutAll calls).run s).2 = files s := by
  induction calls generalizing s with
  | nil => rfl
  | cons call calls ih =>
      rw [run_carryOutAll_cons] at failures ⊢
      obtain ⟨first, later⟩ := List.forall_mem_cons.mp failures
      exact (ih later).trans ((call.leaves_carryOut s).failed first)

/-- What changes over a sequence is what one of its commands was asked to write and succeeded in
    writing. -/
theorem exists_targets_of_all {f : φ}
    (changed : (files ((carryOutAll calls).run s).2).holds f ≠ (files s).holds f) :
    ∃ before call behind request text, calls = before ++ call :: behind ∧
      (call.carryOut.run ((carryOutAll before).run s).2).1.exit = 0 ∧
      call.asked = .ok request ∧
      request.command.Targets (files ((carryOutAll before).run s).2) f text := by
  induction calls generalizing s with
  | nil => exact absurd rfl changed
  | cons call calls ih =>
      rw [run_carryOutAll_cons] at changed
      by_cases later : (files ((carryOutAll calls).run (call.carryOut.run s).2).2).holds f =
          (files (call.carryOut.run s).2).holds f
      · obtain ⟨ended, request, text, asked, targets⟩ :=
          exists_targets fun same => changed (later.trans same)
        exact ⟨[], call, calls, request, text, rfl, ended, asked, targets⟩
      · obtain ⟨before, call', behind, request, text, rfl, ended, asked, targets⟩ := ih later
        refine ⟨call :: before, call', behind, request, text, rfl, ?_⟩
        rw [run_carryOutAll_cons]
        exact ⟨ended, asked, targets⟩

end Call

/-- On any host that does what is assumed of it, and whatever it reads the words as: a command line
    that fails changes nothing, and neither does one whose command has nothing to write. One that
    succeeds in writing changes the one file that it was asked for, and a new program takes the
    place of nothing. Over any sequence of command lines, nothing changes if all of them fail, and a
    file changes only where one of them succeeds and was asked to write it. Where the words are read
    by `Request.ofWords`, they name that file.

    Assumed (`Host.Lawful`) is that a write replaces the whole content or fails without effect, that
    nothing else changes a file, and that the standard output can be written: a command that writes
    its file and then fails to say so would fail with the file changed. -/
theorem commands_change_their_targets {σ φ : Type} (files : σ → Files φ) :
    (∀ (call : Call files) (s : σ),
      Leaves call.asked (call.carryOut.run s).1 (files s) (files (call.carryOut.run s).2)) ∧
    (∀ (calls : List (Call files)) (s : σ),
      ((∀ finished ∈ ((Call.carryOutAll calls).run s).1, finished.exit ≠ 0) →
        files ((Call.carryOutAll calls).run s).2 = files s) ∧
      ∀ f, (files ((Call.carryOutAll calls).run s).2).holds f ≠ (files s).holds f →
        ∃ before call behind request text, calls = before ++ call :: behind ∧
          (call.carryOut.run ((Call.carryOutAll before).run s).2).1.exit = 0 ∧
          call.asked = .ok request ∧
          request.command.Targets (files ((Call.carryOutAll before).run s).2) f text) ∧
    ∀ args request, Request.ofWords args = .ok request →
      Request.Names args request.command := by
  refine ⟨Call.leaves_carryOut, fun calls s => ?_, fun args request => Request.names_of_ofWords⟩
  exact ⟨Call.unchanged_of_failures, fun f => Call.exists_targets_of_all⟩

/-- A tree with an empty working directory below another one. -/
def nestedStore : Store :=
  [(["home"], .directory), (["home", "work"], .directory)]

/-- A call for a new program in the directory above the working directory. -/
def callAbove : Call (Store.files ["home", "work"]) where
  host := Store.hostAt ["home", "work"] id
  lawful := Store.lawful_hostAt ["home", "work"] id
  env _ := none
  args := ["new", "Demo", "-o", "../demo.nano"]

/-- The new program is written above the working directory. -/
theorem commands_change_their_targets_above :
    ∃ text, (nestedStore.files ["home", "work"]).Replaces
      ((callAbove.carryOut.run nestedStore).2.files ["home", "work"])
      ["home", "demo.nano"] text := by
  have asked : callAbove.asked = .ok ⟨false, .new "Demo" (some "../demo.nano") "hello"⟩ := by
    decide +kernel
  have ended : (callAbove.carryOut.run nestedStore).1.exit = 0 := by decide +kernel
  have leads : (nestedStore.files ["home", "work"]).place "../demo.nano" =
      some ["home", "demo.nano"] := by decide +kernel
  obtain ⟨f, text, targets, replaces⟩ :=
    ((commands_change_their_targets _).1 callAbove nestedStore).wrote _ asked rfl ended
  cases targets with
  | new _ leads' _ =>
      obtain rfl := Option.some.inj (leads'.symm.trans leads)
      exact ⟨_, replaces⟩

end LineScript
