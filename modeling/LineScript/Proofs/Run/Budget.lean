import LineScript.Proofs.Run.Comparison

/-! # Step limits

A step limit does nothing to a run but cut it off. A run that the limit does not
stop is the run under every greater limit and under none; a run that it stops
has taken one step too many, and every longer run starts with what it captured.
As each round of a loop costs a step, a run under a limit always ends.
-/

namespace LineScript

/-- Under a step limit and no other. -/
def Limits.ofSteps (maxSteps : Option Nat) : Limits :=
  ⟨maxSteps, none⟩

/-- A step is taken or is one too many. -/
theorem Machine.tick_ofSteps (limit : Option Nat) (clock : Clock) (m : Machine) :
    ((∀ l ∈ limit, m.steps < l) ∧
        m.tick (.ofSteps limit) clock = ⟨none, { m with steps := m.steps + 1 }⟩) ∨
      ∃ l ∈ limit, l ≤ m.steps ∧ m.tick (.ofSteps limit) clock =
        ⟨some (.fault (.stepLimit l)), { m with steps := m.steps + 1 }⟩ := by
  rcases m.tick_cases (.ofSteps limit) clock with taken | stopped | ⟨_, timeout, _⟩
  · exact .inl taken
  · exact .inr stopped
  · cases timeout

/-! ## Additional rounds -/

/-- Additional rounds make no difference to a run that is not cut off. -/
def SameIfFinished (_ : Machine) (o₁ o₂ : Outcome) : Prop :=
  o₁.halt ≠ some .unfinished → o₁ = o₂

theorem comparison_sameIfFinished (clock : Clock) (limits : Limits) :
    Comparison clock limits limits SameIfFinished where
  tick _ _ := rfl
  go _ _ _ := rfl
  fault _ _ := rfl
  andThen := by
    intro m o₁ o₂ f₁ f₂ first next finished
    obtain ⟨halt, m₁⟩ := o₁
    cases halt with
    | none =>
        obtain rfl := first nofun
        exact next m₁ finished
    | some halt =>
        obtain rfl := first finished
        rfl
  within := by
    intro m scope f₁ f₂ inner finished
    rw [Machine.within, Machine.within, inner _ finished]

theorem run_of_le {limits : Limits} {clock : Clock} {script : Script} {n₁ n₂ : Nat} {m : Machine}
    (more : n₁ ≤ n₂) (finished : (script.run limits clock n₁ m).halt ≠ some .unfinished) :
    script.run limits clock n₂ m = script.run limits clock n₁ m := by
  obtain ⟨additional, rfl⟩ := Nat.exists_eq_add_of_le more
  have comparison := comparison_sameIfFinished clock limits
  have loops := comparison.loopsKeep n₁ additional fun _ _ _ finished => absurd rfl finished
  exact (comparison.runAll loops script.body _ finished).symm

/-! ## Greater limits -/

/-- How a run under the limit `l` and one under a greater limit or none go on together: they are the
    same, or the first is stopped where the second goes on. -/
inductive Prolongs (l : Nat) (o₁ o₂ : Outcome) : Prop where
  | same : o₁ = o₂ → o₁.machine.steps ≤ l → o₁.halt ≠ some (.fault (.stepLimit l)) →
      Prolongs l o₁ o₂
  | stopped : o₁.halt = some (.fault (.stepLimit l)) → o₁.machine.steps = l + 1 →
      l < o₂.machine.steps → o₁.machine.log.toList <+: o₂.machine.log.toList → Prolongs l o₁ o₂

/-- A run takes back no step and no line, and it prolongs the run under the limit `l`. -/
structure Outlasts (l : Nat) (m : Machine) (o₁ o₂ : Outcome) : Prop where
  steps : m.steps ≤ o₂.machine.steps
  log : m.log.toList <+: o₂.machine.log.toList
  prolongs : m.steps ≤ l → Prolongs l o₁ o₂

theorem outlasts_tick (clock : Clock) {l : Nat} {limit : Option Nat}
    (greater : ∀ l' ∈ limit, l ≤ l') (m : Machine) :
    Outlasts l m (m.tick (.ofSteps (some l)) clock) (m.tick (.ofSteps limit) clock) := by
  have machine : (m.tick (.ofSteps limit) clock).machine = { m with steps := m.steps + 1 } := by
    rcases m.tick_ofSteps limit clock with ⟨_, taken⟩ | ⟨_, _, _, taken⟩ <;> rw [taken]
  refine ⟨machine ▸ Nat.le_succ _, machine ▸ List.prefix_refl _, fun within => ?_⟩
  rcases m.tick_ofSteps (some l) clock with ⟨under, taken⟩ | ⟨_, ⟨⟩, beyond, taken⟩
  · -- Where the smaller limit lets the step be taken, so does the greater one.
    rcases m.tick_ofSteps limit clock with ⟨_, taken'⟩ | ⟨l', member, beyond, _⟩
    · rw [taken, taken']
      exact .same rfl (under l rfl) nofun
    · have := under l rfl
      have := greater l' member
      omega
  · have steps : m.steps + 1 = l + 1 := by omega
    rw [taken]
    exact .stopped rfl steps (machine ▸ Nat.lt_succ_of_le beyond) (machine ▸ List.prefix_refl _)

namespace Outlasts

variable {l : Nat} {m : Machine} {o₁ o₂ : Outcome} {f₁ f₂ : Machine → Outcome}

theorem andThen (first : Outlasts l m o₁ o₂) (next : ∀ m, Outlasts l m (f₁ m) (f₂ m)) :
    Outlasts l m (o₁.andThen f₁) (o₂.andThen f₂) := by
  -- Also where the first run is stopped, the second one only goes on from where it was.
  have further : o₂.machine.steps ≤ (o₂.andThen f₂).machine.steps ∧
      o₂.machine.log.toList <+: (o₂.andThen f₂).machine.log.toList := by
    obtain ⟨halt, m₂⟩ := o₂
    cases halt with
    | none => exact ⟨(next m₂).steps, (next m₂).log⟩
    | some => exact ⟨Nat.le_refl _, List.prefix_refl _⟩
  refine ⟨Nat.le_trans first.steps further.1, first.log.trans further.2, fun within => ?_⟩
  obtain ⟨halt, m₁⟩ := o₁
  cases first.prolongs within with
  | same eq le unstopped =>
      subst eq
      cases halt with
      | none => exact (next m₁).prolongs le
      | some => exact .same rfl le unstopped
  | stopped halted steps more log =>
      cases halted
      exact .stopped rfl steps (Nat.lt_of_lt_of_le more further.1) (log.trans further.2)

theorem within {scope : Scope} (inner : ∀ m, Outlasts l m (f₁ m) (f₂ m)) :
    Outlasts l m (m.within scope f₁) (m.within scope f₂) := by
  have inside := inner (m.enter scope)
  refine ⟨inside.steps, inside.log, fun within => ?_⟩
  cases inside.prolongs within with
  | same eq le unstopped => exact .same (congrArg (Outcome.map Machine.leave) eq) le unstopped
  | stopped halted steps more log => exact .stopped halted steps more log

end Outlasts

theorem comparison_outlasts (clock : Clock) {l : Nat} {limit : Option Nat}
    (greater : ∀ l' ∈ limit, l ≤ l') :
    Comparison clock (.ofSteps (some l)) (.ofSteps limit) (Outlasts l) where
  tick := outlasts_tick clock greater
  go steps log := by
    refine ⟨Nat.le_of_eq steps.symm, log, fun within => ?_⟩
    exact .same rfl (Nat.le_trans (Nat.le_of_eq steps) within) nofun
  fault own := by
    refine ⟨Nat.le_refl _, List.prefix_refl _, fun within => .same rfl within ?_⟩
    rintro ⟨⟩
    cases own
  andThen := Outlasts.andThen
  within := Outlasts.within

theorem prolongs_run (clock : Clock) (script : Script) (rounds : Nat) {l : Nat}
    {limit : Option Nat} (greater : ∀ l' ∈ limit, l ≤ l') :
    Prolongs l (script.run (.ofSteps (some l)) clock rounds .fresh)
      (script.run (.ofSteps limit) clock rounds .fresh) := by
  have comparison := comparison_outlasts clock greater
  have loops := comparison.loopsKeep rounds 0 fun _ _ m =>
    ⟨Nat.le_refl m.steps, List.prefix_refl _, fun within => .same rfl within nofun⟩
  exact (comparison.runAll loops script.body _).prolongs (Nat.zero_le l)

/-! ## Runs under a limit end -/

/-- A run under the limit `l` is not cut off, and unless it halts it stays within the limit. -/
structure StaysWithin (l : Nat) (m : Machine) (o : Outcome) : Prop where
  finished : o.halt ≠ some .unfinished
  steps : o.halt = none → m.steps ≤ o.machine.steps ∧ o.machine.steps ≤ l

theorem StaysWithin.of_le {l : Nat} {m m' : Machine} {o : Outcome} (rest : StaysWithin l m' o)
    (later : m.steps ≤ m'.steps) : StaysWithin l m o := by
  refine ⟨rest.finished, fun completed => ?_⟩
  obtain ⟨least, most⟩ := rest.steps completed
  exact ⟨Nat.le_trans later least, most⟩

/-- Begun within the limit, a run stays within it. -/
def KeepsWithin (l : Nat) (m : Machine) (o _ : Outcome) : Prop :=
  m.steps ≤ l → StaysWithin l m o

theorem comparison_keepsWithin (clock : Clock) {limits : Limits} {l : Nat}
    (limited : l ∈ limits.maxSteps) : Comparison clock limits limits (KeepsWithin l) where
  tick m within := by
    rcases m.tick_cases limits clock with ⟨under, taken⟩ | ⟨_, _, _, taken⟩ | ⟨_, _, taken⟩
    · rw [taken]
      exact ⟨nofun, fun _ => ⟨Nat.le_succ _, under l limited⟩⟩
    · rw [taken]
      exact ⟨nofun, nofun⟩
    · rw [taken]
      exact ⟨nofun, nofun⟩
  go steps _ within :=
    ⟨nofun, fun _ => ⟨Nat.le_of_eq steps.symm, Nat.le_trans (Nat.le_of_eq steps) within⟩⟩
  fault _ _ := ⟨nofun, nofun⟩
  andThen := by
    intro m o₁ o₂ f₁ f₂ first next within
    have behind := first within
    obtain ⟨halt, m₁⟩ := o₁
    cases halt with
    | none =>
        obtain ⟨least, most⟩ := behind.steps rfl
        exact (next m₁ most).of_le least
    | some => exact behind
  within := by
    intro m scope f₁ f₂ inner within
    have inside := inner (m.enter scope) within
    exact ⟨inside.finished, inside.steps⟩

/-- A round that completes has taken a step. -/
theorem steps_of_steppedRound {clock : Clock} {limits : Limits} {l : Nat}
    (limited : l ∈ limits.maxSteps) {block behind : Machine → Outcome}
    (inner : ∀ m, m.steps ≤ l → StaysWithin l m (block m))
    (last : ∀ m, m.steps ≤ l → StaysWithin l m (behind m)) {m m' : Machine} (within : m.steps ≤ l)
    (completes : steppedRound limits clock block behind m = ⟨none, m'⟩) :
    m.steps < m'.steps ∧ m'.steps ≤ l := by
  obtain ⟨m₁, blockRun, completes⟩ := Outcome.andThen_eq_none completes
  obtain ⟨m₂, ticked, behindRun⟩ := Outcome.andThen_eq_none completes
  have first := (inner m within).steps
  rw [blockRun] at first
  rcases m₁.tick_cases limits clock with ⟨under, taken⟩ | ⟨_, _, _, taken⟩ | ⟨_, _, taken⟩
  · cases ticked.symm.trans taken
    have second := (last { m₁ with steps := m₁.steps + 1 } (under l limited)).steps
    rw [behindRun] at second
    exact ⟨Nat.lt_of_le_of_lt (first rfl).1 (second rfl).1, (second rfl).2⟩
  · cases ticked.symm.trans taken
  · cases ticked.symm.trans taken

theorem loopsKeep_keepsWithin (clock : Clock) {limits : Limits} {l n : Nat}
    (limited : l ∈ limits.maxSteps) (enough : l < n) :
    LoopsKeep clock limits limits n n (KeepsWithin l) := by
  have comparison := comparison_keepsWithin clock limited
  intro condition block₁ block₂ behind block last m
  -- Each round takes a step, so there are always more rounds left than steps.
  have left : l < n + m.steps := by omega
  clear enough
  induction n generalizing m with
  | zero =>
      intro within
      omega
  | succ n ih =>
      rw [Machine.loop_succ, Machine.loop_succ]
      refine comparison.test condition (fun within => ?_) (comparison.done m)
      have round := comparison.steppedRound block last m within
      cases run : steppedRound limits clock block₁ behind m with
      | mk halt m' =>
          rw [run] at round
          cases halt with
          | some halt => exact round
          | none =>
              obtain ⟨less, within'⟩ := steps_of_steppedRound limited block last within run
              exact (ih m' (by omega) within').of_le (Nat.le_of_lt less)

/-- With more rounds than steps a run under a limit is never cut off. -/
theorem finished_run (clock : Clock) (script : Script) {limits : Limits} {l rounds : Nat}
    {m : Machine} (limited : l ∈ limits.maxSteps) (enough : l < rounds) (within : m.steps ≤ l) :
    (script.run limits clock rounds m).halt ≠ some .unfinished :=
  ((comparison_keepsWithin clock limited).runAll (loopsKeep_keepsWithin clock limited enough)
    script.body { m with scopes := [script.scope] } within).finished

/-! ## Runs that end -/

/-- A fresh run of a script under limits ends with the outcome `o`: given enough rounds, it is not
    cut off. -/
def Script.Ends (script : Script) (limits : Limits) (clock : Clock) (o : Outcome) : Prop :=
  ∃ rounds, script.run limits clock rounds .fresh = o ∧ o.halt ≠ some .unfinished

namespace Script

variable {script : Script} {clock : Clock}

theorem Ends.unique {limits : Limits} {o o' : Outcome} (ends : script.Ends limits clock o)
    (ends' : script.Ends limits clock o') : o = o' := by
  obtain ⟨n, rfl, finished⟩ := ends
  obtain ⟨n', rfl, finished'⟩ := ends'
  rcases Nat.le_total n n' with le | le
  · exact (run_of_le le finished).symm
  · exact run_of_le le finished'

/-- The run that the sandbox makes under a limit. -/
def limited (script : Script) (clock : Clock) (l : Nat) : Outcome :=
  script.run (.ofSteps (some l)) clock (Limits.rounds (.ofSteps (some l))) .fresh

theorem finished_limited (script : Script) (clock : Clock) (l : Nat) :
    (script.limited clock l).halt ≠ some .unfinished :=
  finished_run clock script rfl (Nat.lt_succ_self l) (Nat.zero_le l)

theorem ends_limited (script : Script) (clock : Clock) (l : Nat) :
    script.Ends (.ofSteps (some l)) clock (script.limited clock l) :=
  ⟨_, rfl, script.finished_limited clock l⟩

theorem Ends.prolongs {l : Nat} {limit : Option Nat} (greater : ∀ l' ∈ limit, l ≤ l')
    {o : Outcome} (ends : script.Ends (.ofSteps limit) clock o) :
    Prolongs l (script.limited clock l) o := by
  obtain ⟨n, rfl, finished⟩ := ends
  have both := prolongs_run clock script (max n (l + 1)) greater
  rw [run_of_le (Nat.le_max_left ..) finished, run_of_le (Nat.le_max_right n (l + 1))
    (script.finished_limited clock l)] at both
  exact both

theorem prolongs_limited (script : Script) (clock : Clock) (l : Nat) :
    Prolongs l (script.limited clock l) (script.limited clock l) :=
  (ends_limited script clock l).prolongs fun _ same => Nat.le_of_eq (Option.some.inj same)

/-- A run that the limit does not stop ends in the same way under every greater limit. -/
theorem ends_of_limited {l : Nat} {limit : Option Nat} (greater : ∀ l' ∈ limit, l ≤ l')
    (unstopped : (script.limited clock l).halt ≠ some (.fault (.stepLimit l))) :
    script.Ends (.ofSteps limit) clock (script.limited clock l) := by
  refine ⟨l + 1, ?_, script.finished_limited clock l⟩
  cases prolongs_run clock script (l + 1) greater with
  | same eq => exact eq.symm
  | stopped halted => exact absurd halted unstopped

/-- A run that completes has stayed within its limit. -/
theorem Ends.steps_le {limit : Option Nat} {o : Outcome}
    (ends : script.Ends (.ofSteps limit) clock o) (completed : o.halt = none) :
    ∀ l ∈ limit, o.machine.steps ≤ l := by
  rintro l ⟨⟩
  obtain rfl := ends.unique (ends_limited script clock l)
  cases prolongs_limited script clock l with
  | same _ le => exact le
  | stopped halted => cases completed.symm.trans halted

/-- A run that completes ends in the same way under every limit that leaves it its steps. -/
theorem Ends.of_steps_le {limit other : Option Nat} {o : Outcome}
    (ends : script.Ends (.ofSteps limit) clock o) (completed : o.halt = none)
    (enough : ∀ k ∈ other, o.machine.steps ≤ k) : script.Ends (.ofSteps other) clock o := by
  have own : script.limited clock o.machine.steps = o := by
    cases ends.prolongs (ends.steps_le completed) with
    | same eq => exact eq
    | stopped _ _ more => omega
  have unstopped : (script.limited clock o.machine.steps).halt ≠
      some (.fault (.stepLimit o.machine.steps)) := by
    rw [own, completed]
    nofun
  have same := ends_of_limited enough unstopped
  rwa [own] at same

/-- A run that completes is stopped by every limit that leaves it fewer steps. -/
theorem Ends.limited_halt {limit : Option Nat} {o : Outcome}
    (ends : script.Ends (.ofSteps limit) clock o) (completed : o.halt = none) {k : Nat}
    (less : k < o.machine.steps) :
    (script.limited clock k).halt = some (.fault (.stepLimit k)) := by
  have smaller : ∀ l ∈ limit, k ≤ l := by
    intro l member
    have := ends.steps_le completed l member
    omega
  cases ends.prolongs smaller with
  | same eq le =>
      rw [eq] at le
      omega
  | stopped halted => exact halted

end Script

/-- A run under the step limit `l` ends. If the limit does not stop it, then a run under a greater
    limit or none ends in the same way. If the limit does stop it, it has taken `l + 1` steps, and a
    run under a greater limit or none that ends has taken more than `l` and captured whatever the
    stopped one has. So a run that completes does the same under every limit that is not smaller
    than the number of its steps, and is stopped by every smaller one. -/
theorem ends_under_greater_limit (script : Script) (clock : Clock) (l : Nat) (limit : Option Nat)
    (greater : ∀ l' ∈ limit, l ≤ l') :
    script.Ends (.ofSteps (some l)) clock (script.limited clock l) ∧
      ((script.limited clock l).halt ≠ some (.fault (.stepLimit l)) →
        ∀ o, script.Ends (.ofSteps limit) clock o ↔ o = script.limited clock l) ∧
      ((script.limited clock l).halt = some (.fault (.stepLimit l)) →
        (script.limited clock l).machine.steps = l + 1 ∧
        ∀ o, script.Ends (.ofSteps limit) clock o → l < o.machine.steps ∧
          (script.limited clock l).machine.log.toList <+: o.machine.log.toList) ∧
      (∀ o, script.Ends (.ofSteps limit) clock o → o.halt = none →
        (∀ other : Option Nat, (∀ k ∈ other, o.machine.steps ≤ k) →
          script.Ends (.ofSteps other) clock o) ∧
        ∀ k < o.machine.steps, (script.limited clock k).halt = some (.fault (.stepLimit k))) := by
  refine ⟨script.ends_limited clock l, ?_, ?_, ?_⟩
  · intro unstopped o
    have same := Script.ends_of_limited greater unstopped
    exact ⟨fun ends => ends.unique same, fun eq => eq ▸ same⟩
  · intro halted
    refine ⟨?_, fun o ends => ?_⟩
    · cases script.prolongs_limited clock l with
      | same _ _ unstopped => exact absurd halted unstopped
      | stopped _ steps => exact steps
    · cases ends.prolongs greater with
      | same _ _ unstopped => exact absurd halted unstopped
      | stopped _ _ more log => exact ⟨more, log⟩
  · intro o ends completed
    exact ⟨fun _ => ends.of_steps_le completed, fun _ => ends.limited_halt completed⟩

/-- A loop that completes in six steps, under a limit of four and one of seven. -/
theorem ends_under_limit_twoRounds :
    let script : Script := ⟨[.forLoop (some (.declare .letDecl "i" (some (.number 0))))
      (some (.binary .lt (.name "i") (.number 2))) (some (.update "i" .up))
      [.console "log" [.name "i"]]]⟩
    let clock : Clock := fun _ => 0
    let o := script.limited clock 7
    (∀ l' ∈ some 7, 4 ≤ l') ∧ o.halt = none ∧ o.machine.steps = 6 ∧
      (script.limited clock 4).halt = some (.fault (.stepLimit 4)) ∧
      (script.limited clock 4).machine.steps = 5 ∧
      (script.limited clock 4).machine.log.toList <+: o.machine.log.toList ∧
      script.Ends (.ofSteps none) clock o ∧
      (script.limited clock 5).halt = some (.fault (.stepLimit 5)) := by
  intro script clock o
  have greater : ∀ l' ∈ some 7, 4 ≤ l' := by decide
  have completed : o.halt = none := by decide +kernel
  have steps : o.machine.steps = 6 := by decide +kernel
  have halted : (script.limited clock 4).halt = some (.fault (.stepLimit 4)) := by decide +kernel
  have ends : script.Ends (.ofSteps (some 7)) clock o := script.ends_limited clock 7
  obtain ⟨_, _, stopped, completes⟩ := ends_under_greater_limit script clock 4 (some 7) greater
  obtain ⟨steps', log⟩ := stopped halted
  obtain ⟨others, smaller⟩ := completes o ends completed
  exact ⟨greater, completed, steps, halted, steps', (log o ends).2, others none nofun,
    smaller 5 (by rw [steps]; decide)⟩

end LineScript
