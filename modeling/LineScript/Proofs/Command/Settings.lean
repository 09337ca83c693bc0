import LineScript.Proofs.Command.Host

/-! # The settings of a command

The settings are read from a file in whatever way the host reads it, and the files stay as they are.
-/

namespace LineScript

variable {σ φ : Type} {host : Host (StateM σ)} {env : String → Option String}
  {config : Option String} {maxSteps timeout : Option Nat} {s s' : σ}

/-- What the settings file gives, if one is asked for, and the state that the host is in then. -/
inductive Host.Gives (host : Host (StateM σ)) (s : σ) : Option String → Settings.Given → σ → Prop
  | nothing : Gives host s none {} s
  | file {path text : String} {given : Settings.Given} {s' : σ}
      (read : (host.read path).run s = (.ok text, s')) (valid : host.settings text = some given) :
      Gives host s (some path) given s'

/-- A valid file is all that is needed for a run to have settings. -/
theorem Host.Gives.run_runSettings {given : Settings.Given} (gives : host.Gives s config given s') :
    (runSettings host env config maxSteps timeout).run s =
      (.ok ((given.settings.withEnvironment env).withFlags maxSteps timeout), s') := by
  have loaded : (loadSettings host config).run s = (.ok given.settings, s') := by
    cases gives with
    | nothing => rfl
    | file read valid =>
        rw [loadSettings, StateT.run_bind, read]
        dsimp only [bind]
        rw [valid]
        rfl
  rw [runSettings, StateT.run_bind, loaded]
  rfl

/-- Settings are found without a change to the files. -/
theorem Host.Lawful.kept_runSettings {files : σ → Files φ} (lawful : host.Lawful files) (s : σ) :
    files ((runSettings host env config maxSteps timeout).run s).2 = files s := by
  have loaded : files ((loadSettings host config).run s).2 = files s := by
    cases config with
    | none => rfl
    | some path =>
        refine kept_bind (lawful.read_kept path s) ?_
        split
        · rfl
        · split <;> rfl
  refine kept_bind loaded ?_
  split <;> rfl

end LineScript
