import LineScript.Proofs.Grammar.Headers
import LineScript.Proofs.Run.Likeness

/-! # For loops as while loops

A `for` loop does what a block does that starts with the first part of the header and goes on with a
`while` loop, where the last part of the header stands behind the block of the body. The two differ
in the steps that they take, and in that the `while` loop has one more block around the body and the
last part. That block declares nothing, so no statement can tell.
-/

namespace LineScript

namespace Scopes

theorem length_replace (n : String) (binding : Binding) (scopes : Scopes) :
    (scopes.replace n binding).length = scopes.length := by
  induction scopes with
  | nil => rfl
  | cons scope outer ih =>
      rw [replace]
      split
      · rfl
      · rw [List.length_cons, List.length_cons, ih]

theorem length_setInner (n : String) (binding : Binding) (scopes : Scopes) :
    (scopes.setInner n binding).length = scopes.length := by
  cases scopes with
  | nil => rfl
  | cons scope outer => rfl

theorem setOuter_cons (n : String) (binding : Binding) (scope : Scope) {outer : Scopes}
    (nonempty : 0 < outer.length) :
    setOuter n binding (scope :: outer) = scope :: setOuter n binding outer := by
  cases outer with
  | nil => cases nonempty
  | cons => rfl

theorem length_setOuter (n : String) (binding : Binding) (scopes : Scopes) :
    (scopes.setOuter n binding).length = scopes.length := by
  fun_induction setOuter n binding scopes with
  | case1 => rfl
  | case2 => rfl
  | case3 scope outer _ ih => rw [List.length_cons, List.length_cons, ih]

end Scopes

/-! ## An empty scope in between -/

/-- The same scopes, more than `k` of them. -/
def SameScopes (k : Nat) (scopes₁ scopes₂ : Scopes) : Prop :=
  scopes₁ = scopes₂ ∧ k < scopes₁.length

theorem likeness_sameScopes : Likeness (fun _ => True) SameScopes where
  tracks k :=
    { find? := by
        rintro scopes _ n ⟨rfl, _⟩ -
        rfl
      replace := by
        rintro scopes _ n binding ⟨rfl, enough⟩ -
        exact ⟨rfl, by rwa [Scopes.length_replace]⟩ }
  setInner := by
    rintro k scopes _ n binding ⟨rfl, enough⟩
    exact ⟨rfl, by rwa [Scopes.length_setInner]⟩
  setOuter := by
    rintro k scopes _ n binding ⟨rfl, enough⟩
    exact ⟨rfl, by rwa [Scopes.length_setOuter]⟩
  enter := by
    rintro k scopes _ scope ⟨rfl, enough⟩
    exact ⟨rfl, Nat.succ_lt_succ enough⟩
  leave := by
    rintro k scopes _ ⟨rfl, enough⟩
    refine ⟨rfl, ?_⟩
    rw [List.length_tail]
    omega

/-- The second stack has an empty scope below the innermost `k`, and scopes below that one. -/
inductive Padded : Nat → Scopes → Scopes → Prop where
  | here {lower : Scopes} : 0 < lower.length → Padded 0 lower ([] :: lower)
  | inner {k : Nat} {scopes₁ scopes₂ : Scopes} (scope : Scope) :
      Padded k scopes₁ scopes₂ → Padded (k + 1) (scope :: scopes₁) (scope :: scopes₂)

namespace Padded

variable {k : Nat} {scopes₁ scopes₂ : Scopes}

theorem find? (padded : Padded k scopes₁ scopes₂) (n : String) :
    scopes₁.find? n = scopes₂.find? n := by
  induction padded with
  | here => rfl
  | inner scope _ ih => rw [Scopes.find?, Scopes.find?, ih]

theorem replace (padded : Padded k scopes₁ scopes₂) (n : String) (binding : Binding) :
    Padded k (scopes₁.replace n binding) (scopes₂.replace n binding) := by
  induction padded with
  | @here lower nonempty => exact .here (by rwa [Scopes.length_replace])
  | inner scope rest ih =>
      rw [Scopes.replace, Scopes.replace]
      split
      · exact .inner _ rest
      · exact .inner _ ih

theorem nonempty (padded : Padded k scopes₁ scopes₂) : 0 < scopes₁.length ∧ 0 < scopes₂.length := by
  cases padded with
  | here nonempty => exact ⟨nonempty, Nat.zero_lt_succ _⟩
  | inner => exact ⟨Nat.zero_lt_succ _, Nat.zero_lt_succ _⟩

theorem setOuter (padded : Padded k scopes₁ scopes₂) (n : String) (binding : Binding) :
    Padded k (scopes₁.setOuter n binding) (scopes₂.setOuter n binding) := by
  induction padded with
  | @here lower nonempty =>
      rw [Scopes.setOuter_cons n binding [] nonempty]
      exact .here (by rwa [Scopes.length_setOuter])
  | inner scope rest ih =>
      rw [Scopes.setOuter_cons n binding scope rest.nonempty.1,
        Scopes.setOuter_cons n binding scope rest.nonempty.2]
      exact .inner scope ih

theorem leave (padded : Padded (k + 1) scopes₁ scopes₂) : Padded k scopes₁.tail scopes₂.tail := by
  cases padded with
  | inner scope rest => exact rest

theorem tracks (k : Nat) : Tracks (fun _ => True) (Padded k) where
  find? padded _ := padded.find? _
  replace binding padded _ := padded.replace _ binding

/-- From the empty scope on, whatever is declared is declared in the same scope of both stacks. -/
theorem likeness : Likeness (fun _ => True) fun k => Padded (k + 1) where
  tracks k := tracks (k + 1)
  setInner n binding padded := by
    cases padded with
    | inner scope rest => exact .inner _ rest
  setOuter n binding padded := padded.setOuter n binding
  enter scope padded := .inner scope padded
  leave padded := padded.leave

end Padded

/-! ## The loop and its expansion -/

namespace RunsLike

variable {limits : Limits} {T T' : Scopes → Scopes → Prop} {f g : Machine → Outcome}

/-- A block that only the second run enters. -/
theorem withinRight {scope : Scope}
    (enter : ∀ {scopes₁ scopes₂}, T scopes₁ scopes₂ → T' scopes₁ (scope :: scopes₂))
    (leave : ∀ {scopes₁ scopes₂}, T' scopes₁ scopes₂ → T scopes₁ scopes₂.tail)
    (inner : RunsLike limits T' f g) : RunsLike limits T f (·.within scope g) := by
  intro log₁ log₂ m₁ m₂ alike
  have entered : Machine.Like T' log₁ log₂ m₁ (m₂.enter scope) := ⟨enter alike.scopes, alike.log⟩
  cases inner entered with
  | same halt machines => exact .same halt ⟨leave machines.scopes, machines.log⟩
  | stopped exceeded halted => exact .stopped exceeded halted

end RunsLike

namespace Stmt

/-- The `while` loop with the last part of a header behind the body. A condition that is missing
    holds. -/
def unrolled (condition : Option Expr) (update : Option Simple) (body : List Stmt) : Stmt :=
  .whileLoop (condition.getD (.bool true)) (.block body :: update.toList.map .simple)

/-- The block that a `for` loop stands for. -/
def expansion (init : Option Simple) (condition : Option Expr) (update : Option Simple)
    (body : List Stmt) : Stmt :=
  .block (init.toList.map .simple ++ [unrolled condition update body])

end Stmt

section Expansion

variable {limits : Limits} {clock : Clock} {rounds : Nat} {init update : Option Simple}
  {condition : Option Expr} {body : List Stmt}

theorem ofBlock_init :
    Scope.ofBlock (init.toList.map .simple ++ [.unrolled condition update body]) =
      Scope.ofHeader init := by
  cases init with
  | none => rfl
  | some s => simp [Scope.ofBlock, Scope.ofHeader, Stmt.unrolled]

theorem ofBlock_steps (isStep : update.all Simple.isStep = true) (body : List Stmt) :
    Scope.ofBlock (.block body :: update.toList.map .simple) = [] := by
  cases update with
  | none => rfl
  | some s =>
      cases s with
      | declare => cases isStep
      | assign | update => rfl

theorem runAll_singleton (s : Stmt) :
    runAll limits clock rounds [s] = s.run limits clock rounds :=
  funext fun _ => Outcome.andThen_done _

theorem runAll_init (s : Stmt) :
    runAll limits clock rounds (init.toList.map .simple ++ [s]) =
      fun m => (runInit limits clock init m).andThen (s.run limits clock rounds) := by
  rw [← runAll_singleton]
  cases init with
  | none => rfl
  | some s => rfl

/-- Behind the body the last part of the header is run in the empty scope of the `while` loop. -/
theorem runsLike_update (isStep : update.all Simple.isStep = true) :
    RunsLike limits (Padded 0) (runUpdate limits clock update)
      (runAll limits clock rounds (update.toList.map .simple)) := by
  cases update with
  | none => exact .tick_done
  | some s =>
      have exec : ∀ {scopes₁ scopes₂}, Padded 0 scopes₁ scopes₂ →
          SameResult (Padded 0) (s.exec scopes₁) (s.exec scopes₂) := fun padded =>
        (Padded.tracks 0).exec_step padded isStep fun _ _ => trivial
      have run : RunsLike limits (Padded 0) (s.run limits clock) (s.run limits clock) :=
        .andThen .tick (.simple exec)
      have alone : runAll limits clock rounds [.simple s] = s.run limits clock :=
        runAll_singleton (.simple s)
      exact alone ▸ run

/-- A round of the `for` loop and one of the `while` loop, in scopes that are the same. -/
theorem runsLike_round (limits : Limits) (clock : Clock) (rounds : Nat) (body : List Stmt)
    (isStep : update.all Simple.isStep = true) :
    RunsLike limits (SameScopes 0)
      (fun m => (runBlock limits clock rounds body m).andThen (runUpdate limits clock update))
      (fun m => (runBlock limits clock rounds (.block body :: update.toList.map .simple) m).andThen
        (Machine.tick limits clock)) := by
  have block : RunsLike limits (Padded 0) (runBlock limits clock rounds body)
      (fun m => (m.tick limits clock).andThen (runBlock limits clock rounds body)) := by
    apply RunsLike.andThen .done_tick
    apply RunsLike.within (.inner _) Padded.leave
    exact Padded.likeness.runAll body (fun _ _ => trivial) 0
  have enter : ∀ {scopes₁ scopes₂}, SameScopes 0 scopes₁ scopes₂ →
      Padded 0 scopes₁ ([] :: scopes₂) := by
    rintro scopes _ ⟨rfl, nonempty⟩
    exact .here nonempty
  have leave : ∀ {scopes₁ scopes₂}, Padded 0 scopes₁ scopes₂ →
      SameScopes 0 scopes₁ scopes₂.tail := by
    rintro _ _ ⟨nonempty⟩
    exact ⟨rfl, nonempty⟩
  have padded : RunsLike limits (SameScopes 0)
      (fun m => (runBlock limits clock rounds body m).andThen (runUpdate limits clock update))
      (runBlock limits clock rounds (.block body :: update.toList.map .simple)) := by
    unfold runBlock
    rw [ofBlock_steps isStep]
    exact .withinRight enter leave (block.andThen (runsLike_update isStep))
  simpa only [Outcome.andThen_done] using padded.andThen .done_tick

theorem runsLike_unrolled (limits : Limits) (clock : Clock) (rounds : Nat)
    (condition : Option Expr) (body : List Stmt) (isStep : update.all Simple.isStep = true) :
    RunsLike limits (SameScopes 0)
      (Machine.loop (condition.getD (.bool true)) (fun m =>
        (runBlock limits clock rounds body m).andThen (runUpdate limits clock update)) rounds)
      ((Stmt.unrolled condition update body).run limits clock rounds) := by
  have sameValue : ∀ {scopes₁ scopes₂}, SameScopes 0 scopes₁ scopes₂ →
      (condition.getD (.bool true)).eval scopes₁ = (condition.getD (.bool true)).eval scopes₂ := by
    rintro scopes _ ⟨rfl, _⟩
    rfl
  have round := runsLike_round limits clock rounds body isStep
  exact .andThen .done_tick (.loop sameValue round rounds)

/-- A `for` loop runs like its expansion, under the same limits. -/
theorem runsLike_expansion (limits : Limits) (clock : Clock) (rounds : Nat) (init : Option Simple)
    (condition : Option Expr) (body : List Stmt) (isStep : update.all Simple.isStep = true) :
    RunsLike limits Eq ((Stmt.forLoop init condition update body).run limits clock rounds)
      ((Stmt.expansion init condition update body).run limits clock rounds) := by
  have inner : RunsLike limits (SameScopes 0)
      (fun m => (runInit limits clock init m).andThen (Machine.loop (condition.getD (.bool true))
        (fun m => (runBlock limits clock rounds body m).andThen (runUpdate limits clock update))
        rounds))
      (runAll limits clock rounds
        (init.toList.map .simple ++ [.unrolled condition update body])) := by
    rw [runAll_init]
    apply RunsLike.andThen (likeness_sameScopes.init 0 fun _ _ => trivial)
    exact runsLike_unrolled limits clock rounds condition body isStep
  have expanded : (Stmt.expansion init condition update body).run limits clock rounds = fun m =>
      (m.tick limits clock).andThen (·.within (Scope.ofHeader init) (runAll limits clock rounds
        (init.toList.map .simple ++ [.unrolled condition update body]))) := by
    funext m
    rw [Stmt.expansion, Stmt.run, ofBlock_init]
  rw [expanded]
  apply RunsLike.andThen .tick
  apply RunsLike.within ?_ ?_ inner
  · rintro scopes _ rfl
    exact ⟨rfl, Nat.zero_lt_succ _⟩
  · rintro scopes _ ⟨rfl, _⟩
    rfl

end Expansion

/-! ## Runs that end -/

namespace Stmt

/-- The run of a statement under limits ends with the outcome `o`: given enough rounds, it is not
    cut off. -/
def Ends (s : Stmt) (limits : Limits) (clock : Clock) (m : Machine) (o : Outcome) : Prop :=
  ∃ rounds, s.run limits clock rounds m = o ∧ o.halt ≠ some .unfinished

variable {s : Stmt} {limits : Limits} {clock : Clock} {m : Machine} {o o' : Outcome}

theorem run_of_le {n₁ n₂ : Nat} (more : n₁ ≤ n₂)
    (finished : (s.run limits clock n₁ m).halt ≠ some .unfinished) :
    s.run limits clock n₂ m = s.run limits clock n₁ m := by
  obtain ⟨additional, rfl⟩ := Nat.exists_eq_add_of_le more
  have comparison := comparison_sameIfFinished clock limits
  have loops := comparison.loopsKeep n₁ additional fun _ _ _ finished => absurd rfl finished
  exact (comparison.run loops s m finished).symm

theorem Ends.unique (ends : s.Ends limits clock m o) (ends' : s.Ends limits clock m o') :
    o = o' := by
  obtain ⟨n, rfl, finished⟩ := ends
  obtain ⟨n', rfl, finished'⟩ := ends'
  rcases Nat.le_total n n' with le | le
  · exact (run_of_le le finished).symm
  · exact run_of_le le finished'

theorem Ends.iff_eq (ends : s.Ends limits clock m o) (p : Outcome) :
    s.Ends limits clock m p ↔ p = o := by
  constructor
  · intro ends'
    exact ends'.unique ends
  · rintro rfl
    exact ends

end Stmt

/-- Outcomes that differ in nothing but the steps. -/
structure Outcome.SameButSteps (o₁ o₂ : Outcome) : Prop where
  halt : o₁.halt = o₂.halt
  log : o₁.machine.log = o₂.machine.log
  scopes : o₁.machine.scopes = o₂.machine.scopes

/-- Without limits a `for` loop and its expansion, cut off after as many rounds, differ in nothing
    but the steps. -/
theorem run_expansion (clock : Clock) (rounds : Nat) (m : Machine) (init : Option Simple)
    (condition : Option Expr) {update : Option Simple} (body : List Stmt)
    (isStep : update.all Simple.isStep = true) :
    ((Stmt.forLoop init condition update body).run (.ofSteps none) clock rounds m).SameButSteps
      ((Stmt.expansion init condition update body).run (.ofSteps none) clock rounds m) := by
  have self : Machine.Like Eq m.log.toList m.log.toList m m := ⟨rfl, [], by simp⟩
  cases runsLike_expansion (.ofSteps none) clock rounds init condition body isStep self with
  | same halt machines =>
      obtain ⟨lines, log₁, log₂⟩ := machines.log
      exact ⟨halt, Array.toList_inj.mp (log₁.trans log₂.symm), machines.scopes⟩
  | @stopped f exceeded _ => cases f <;> cases exceeded

/-- A `for` loop whose header has what may stand there, and the block
    `{ init; while (condition) { { body } update } }`. If one of the two ends, without a limit, then
    both do, with the same fault or none, the same lines and the same scopes. -/
theorem forLoop_ends_as_expansion (clock : Clock) (m : Machine) (init : Option Simple)
    (condition : Option Expr) (update : Option Simple) (body : List Stmt)
    (headed : (Stmt.forLoop init condition update body).isHeaded = true)
    (ends : (∃ o, (Stmt.forLoop init condition update body).Ends (.ofSteps none) clock m o) ∨
      ∃ o, (Stmt.expansion init condition update body).Ends (.ofSteps none) clock m o) :
    ∃ o₁ o₂,
      (∀ o, (Stmt.forLoop init condition update body).Ends (.ofSteps none) clock m o ↔ o = o₁) ∧
      (∀ o, (Stmt.expansion init condition update body).Ends (.ofSteps none) clock m o ↔ o = o₂) ∧
      o₁.SameButSteps o₂ := by
  have isStep : update.all Simple.isStep = true := by
    simp only [Stmt.isHeaded, Bool.and_eq_true] at headed
    exact headed.1.2
  -- Whichever of the two has ended, it has done so within a number of rounds that does for both.
  have enough : ∃ rounds, ((Stmt.forLoop init condition update body).run (.ofSteps none) clock
      rounds m).halt ≠ some .unfinished := by
    rcases ends with ⟨o, rounds, rfl, finished⟩ | ⟨o, rounds, rfl, finished⟩
    · exact ⟨rounds, finished⟩
    · rw [← (run_expansion clock rounds m init condition body isStep).halt] at finished
      exact ⟨rounds, finished⟩
  obtain ⟨rounds, finished⟩ := enough
  have same := run_expansion clock rounds m init condition body isStep
  have ends₁ : (Stmt.forLoop init condition update body).Ends (.ofSteps none) clock m _ :=
    ⟨rounds, rfl, finished⟩
  have ends₂ : (Stmt.expansion init condition update body).Ends (.ofSteps none) clock m _ :=
    ⟨rounds, rfl, same.halt ▸ finished⟩
  exact ⟨_, _, ends₁.iff_eq, ends₂.iff_eq, same⟩

/-- A loop without a condition, whose first part declares a constant and whose last part assigns to
    it: the loop and its expansion end with the fault in the first round. -/
theorem forLoop_ends_as_expansion_constant :
    (Stmt.forLoop (some (.declare .constDecl "c" (some (.text "a")))) none (some (.update "c" .up))
        [.console "log" [.name "c"], .simple (.declare .varDecl "v" (some (.name "c")))]).isHeaded =
        true ∧
      ∃ o₁ o₂,
        (Stmt.forLoop (some (.declare .constDecl "c" (some (.text "a")))) none
          (some (.update "c" .up)) [.console "log" [.name "c"],
            .simple (.declare .varDecl "v" (some (.name "c")))]).Ends (.ofSteps none) (fun _ => 0)
          ⟨[[("v", ⟨some .undefined, false⟩)]], #[], 0⟩ o₁ ∧
        (Stmt.expansion (some (.declare .constDecl "c" (some (.text "a")))) none
          (some (.update "c" .up)) [.console "log" [.name "c"],
            .simple (.declare .varDecl "v" (some (.name "c")))]).Ends (.ofSteps none) (fun _ => 0)
          ⟨[[("v", ⟨some .undefined, false⟩)]], #[], 0⟩ o₂ ∧
        o₁.halt = some (.fault (.constAssignment "c")) ∧ o₂.halt = o₁.halt ∧
        o₁.machine.log = #["a"] ∧ o₂.machine.log = #["a"] ∧
        o₁.machine.scopes = [[("v", ⟨some (.text "a"), false⟩)]] ∧
        o₂.machine.scopes = o₁.machine.scopes := by
  have ends : (Stmt.forLoop (some (.declare .constDecl "c" (some (.text "a")))) none
      (some (.update "c" .up)) [.console "log" [.name "c"],
        .simple (.declare .varDecl "v" (some (.name "c")))]).Ends (.ofSteps none) (fun _ => 0)
      ⟨[[("v", ⟨some .undefined, false⟩)]], #[], 0⟩
      ⟨some (.fault (.constAssignment "c")), ⟨[[("v", ⟨some (.text "a"), false⟩)]], #["a"], 5⟩⟩ :=
    ⟨1, rfl, by simp⟩
  obtain ⟨o₁, o₂, ends₁, ends₂, same⟩ := forLoop_ends_as_expansion _ _ _ _ _ _ rfl
    (.inl ⟨_, ends⟩)
  obtain rfl := (ends₁ _).mp ends
  exact ⟨rfl, _, o₂, ends, (ends₂ o₂).mpr rfl, rfl, same.halt.symm, rfl, same.log.symm, rfl,
    same.scopes.symm⟩

end LineScript
