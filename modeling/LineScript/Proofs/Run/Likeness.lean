import LineScript.Proofs.Grammar.Layout
import LineScript.Proofs.Run.Scoping

/-! # Runs in like scopes

Two stacks of scopes may differ in ways that statements cannot tell. From machines with such scopes
two runs of the same statements go the same way: they capture the same lines, they halt for the same
reason, and they leave scopes that are alike again. Only the numbers of their steps may differ, and
so either run may be stopped by a limit where the other goes on.
-/

namespace LineScript

/-! ## The names that are used -/

/-- The names that a simple statement reads or assigns. -/
def Simple.uses : Simple → List String
  | .declare _ _ init => init.toList.flatMap Expr.names
  | .assign name _ e => name :: e.names
  | .update name _ => [name]

mutual
/-- The names that a statement reads or assigns, at any depth. -/
def Stmt.uses : Stmt → List String
  | .simple s => s.uses
  | .console _ args => args.flatMap Expr.names
  | .branch condition yes none => condition.names ++ allUses yes
  | .branch condition yes (some no) => condition.names ++ (allUses yes ++ allUses no)
  | .forLoop init condition update body =>
      init.toList.flatMap Simple.uses ++ (condition.toList.flatMap Expr.names ++
        (update.toList.flatMap Simple.uses ++ allUses body))
  | .whileLoop condition body => condition.names ++ allUses body
  | .block body => allUses body
  | .expr e => e.names
  | .empty => []

@[inherit_doc Stmt.uses]
def allUses : List Stmt → List String
  | [] => []
  | s :: rest => s.uses ++ allUses rest
end

/-- An expression has the same value wherever the names that it reads have the same values. -/
theorem Expr.eval_congr {scopes₁ scopes₂ : Scopes} (e : Expr)
    (same : ∀ n ∈ e.names, scopes₁.value n = scopes₂.value n) :
    e.eval scopes₁ = e.eval scopes₂ := by
  induction e with
  | number | text | bool | null | undefined => rfl
  | name n => exact same n (List.mem_singleton_self n)
  | unary op operand ih => rw [eval, eval, ih same]
  | binary op left right ihLeft ihRight | logical op left right ihLeft ihRight =>
      rw [names, List.forall_mem_append] at same
      rw [eval, eval, ihLeft same.1, ihRight same.2]

/-! ## Like scopes -/

/-- Two computations fail in the same way, or they have results that are related. -/
inductive SameResult {α : Type} (R : α → α → Prop) : Except Fault α → Except Fault α → Prop where
  | error (f : Fault) : SameResult R (.error f) (.error f)
  | ok {a b : α} : R a b → SameResult R (.ok a) (.ok b)

theorem SameResult.bind {α β : Type} {R : β → β → Prop} {x y : Except Fault α}
    {f g : α → Except Fault β} (first : x = y) (next : ∀ a, SameResult R (f a) (g a)) :
    SameResult R (x >>= f) (y >>= g) := by
  subst first
  cases x with
  | error fault => exact .error fault
  | ok a => exact next a

/-- Scopes that are alike have the same binding of each known name within reach, also behind an
    assignment to a known name. -/
structure Tracks (known : String → Prop) (T : Scopes → Scopes → Prop) : Prop where
  find? : ∀ {scopes₁ scopes₂ n}, T scopes₁ scopes₂ → known n →
    scopes₁.find? n = scopes₂.find? n
  replace : ∀ {scopes₁ scopes₂ n} (binding), T scopes₁ scopes₂ → known n →
    T (scopes₁.replace n binding) (scopes₂.replace n binding)

namespace Tracks

variable {known : String → Prop} {T : Scopes → Scopes → Prop} {scopes₁ scopes₂ : Scopes}

theorem value (tracks : Tracks known T) (alike : T scopes₁ scopes₂) {n : String}
    (isKnown : known n) : scopes₁.value n = scopes₂.value n := by
  rw [Scopes.value, Scopes.value, tracks.find? alike isKnown]

theorem eval (tracks : Tracks known T) (alike : T scopes₁ scopes₂) {e : Expr}
    (isKnown : ∀ n ∈ e.names, known n) : e.eval scopes₁ = e.eval scopes₂ :=
  e.eval_congr fun n member => tracks.value alike (isKnown n member)

theorem evalTexts (tracks : Tracks known T) (alike : T scopes₁ scopes₂) {args : List Expr}
    (isKnown : ∀ n ∈ args.flatMap Expr.names, known n) :
    LineScript.evalTexts scopes₁ args = LineScript.evalTexts scopes₂ args := by
  induction args with
  | nil => rfl
  | cons e args ih =>
      rw [List.flatMap_cons, List.forall_mem_append] at isKnown
      rw [LineScript.evalTexts, LineScript.evalTexts, tracks.eval alike isKnown.1, ih isKnown.2]

theorem assign (tracks : Tracks known T) (alike : T scopes₁ scopes₂) {n : String}
    (isKnown : known n) (value : Value) :
    SameResult T (scopes₁.assign n value) (scopes₂.assign n value) := by
  rw [Scopes.assign, Scopes.assign, tracks.find? alike isKnown]
  split
  · exact .error _
  · exact .error _
  · exact .error _
  · exact .ok (tracks.replace _ alike isKnown)

/-- What may stand last in a header declares nothing, so it needs no scope of its own. -/
theorem exec_step (tracks : Tracks known T) (alike : T scopes₁ scopes₂) {s : Simple}
    (isStep : s.isStep = true) (isKnown : ∀ n ∈ s.uses, known n) :
    SameResult T (s.exec scopes₁) (s.exec scopes₂) := by
  cases s with
  | declare kind name init => cases isStep
  | assign name op e =>
      rw [Simple.uses, List.forall_mem_cons] at isKnown
      have same := tracks.eval alike isKnown.2
      cases op with
      | none => exact .bind same fun value => tracks.assign alike isKnown.1 value
      | some op =>
          apply SameResult.bind same
          intro value
          apply SameResult.bind (tracks.value alike isKnown.1)
          intro current
          exact tracks.assign alike isKnown.1 _
  | update name delta =>
      have inReach : known name := isKnown name (List.mem_singleton_self name)
      exact .bind (tracks.value alike inReach) fun current => tracks.assign alike inReach _

end Tracks

/-- Stacks of scopes that stay alike whatever is declared and whichever blocks are entered and left.
    The relation may tell how many blocks are around, so it is given for each number of them. -/
structure Likeness (known : String → Prop) (S : Nat → Scopes → Scopes → Prop) : Prop where
  tracks : ∀ k, Tracks known (S k)
  setInner : ∀ {k scopes₁ scopes₂} (n binding), S k scopes₁ scopes₂ →
    S k (scopes₁.setInner n binding) (scopes₂.setInner n binding)
  setOuter : ∀ {k scopes₁ scopes₂} (n binding), S k scopes₁ scopes₂ →
    S k (scopes₁.setOuter n binding) (scopes₂.setOuter n binding)
  enter : ∀ {k scopes₁ scopes₂} (scope), S k scopes₁ scopes₂ →
    S (k + 1) (scope :: scopes₁) (scope :: scopes₂)
  leave : ∀ {k scopes₁ scopes₂}, S (k + 1) scopes₁ scopes₂ → S k scopes₁.tail scopes₂.tail

namespace Likeness

variable {known : String → Prop} {S : Nat → Scopes → Scopes → Prop} {k : Nat}
  {scopes₁ scopes₂ : Scopes}

theorem declare (likeness : Likeness known S) (alike : S k scopes₁ scopes₂) (kind : DeclKind)
    (n : String) (value : Option Value) :
    S k (scopes₁.declare kind n value) (scopes₂.declare kind n value) := by
  cases kind with
  | letDecl | constDecl => exact likeness.setInner n _ alike
  | varDecl =>
      cases value with
      | none => exact alike
      | some value => exact likeness.setOuter n _ alike

theorem exec (likeness : Likeness known S) (alike : S k scopes₁ scopes₂) {s : Simple}
    (isKnown : ∀ n ∈ s.uses, known n) : SameResult (S k) (s.exec scopes₁) (s.exec scopes₂) := by
  cases s with
  | declare kind name init =>
      cases init with
      | none => exact .ok (likeness.declare alike kind name none)
      | some e =>
          have readable : ∀ n ∈ e.names, known n := by simpa [Simple.uses] using isKnown
          apply SameResult.bind ((likeness.tracks k).eval alike readable)
          intro value
          exact .ok (likeness.declare alike kind name (some value))
  | assign | update => exact (likeness.tracks k).exec_step alike rfl isKnown

end Likeness

/-! ## Like machines and outcomes -/

/-- Machines with scopes that are alike, which have captured the same lines behind `log₁` and
    `log₂`. -/
structure Machine.Like (T : Scopes → Scopes → Prop) (log₁ log₂ : List String)
    (m₁ m₂ : Machine) : Prop where
  scopes : T m₁.scopes m₂.scopes
  log : ∃ lines, m₁.log.toList = log₁ ++ lines ∧ m₂.log.toList = log₂ ++ lines

/-- Outcomes with the same reason to halt and machines that are related, unless a limit has stopped
    one of the runs. -/
inductive Outcome.Like (limits : Limits) (R : Machine → Machine → Prop) (o₁ o₂ : Outcome) :
    Prop where
  | same : o₁.halt = o₂.halt → R o₁.machine o₂.machine → Like limits R o₁ o₂
  | stopped {f : Fault} : limits.Exceeded f →
      o₁.halt = some (.fault f) ∨ o₂.halt = some (.fault f) → Like limits R o₁ o₂

/-- Parts of two runs that lead from like machines to like outcomes. -/
def RunsLike (limits : Limits) (T : Scopes → Scopes → Prop) (f g : Machine → Outcome) : Prop :=
  ∀ ⦃log₁ log₂ m₁ m₂⦄, Machine.Like T log₁ log₂ m₁ m₂ →
    Outcome.Like limits (Machine.Like T log₁ log₂) (f m₁) (g m₂)

namespace RunsLike

variable {limits : Limits} {clock : Clock} {T T' : Scopes → Scopes → Prop}
  {f g f' g' : Machine → Outcome}

theorem done : RunsLike limits T (⟨none, ·⟩) (⟨none, ·⟩) :=
  fun _ _ _ _ alike => .same rfl alike

/-- A step that only the first run takes. -/
theorem tick_done : RunsLike limits T (·.tick limits clock) (⟨none, ·⟩) := by
  intro log₁ log₂ m₁ m₂ alike
  dsimp only
  rcases m₁.tick_cases limits clock with ⟨_, taken⟩ | ⟨l, member, _, taken⟩ | ⟨ms, member, taken⟩
  · rw [taken]
    exact .same rfl ⟨alike.scopes, alike.log⟩
  · exact .stopped (f := .stepLimit l) member (.inl (by rw [taken]))
  · exact .stopped (f := .timeLimit ms) member (.inl (by rw [taken]))

/-- A step that only the second run takes. -/
theorem done_tick : RunsLike limits T (⟨none, ·⟩) (·.tick limits clock) := by
  intro log₁ log₂ m₁ m₂ alike
  dsimp only
  rcases m₂.tick_cases limits clock with ⟨_, taken⟩ | ⟨l, member, _, taken⟩ | ⟨ms, member, taken⟩
  · rw [taken]
    exact .same rfl ⟨alike.scopes, alike.log⟩
  · exact .stopped (f := .stepLimit l) member (.inr (by rw [taken]))
  · exact .stopped (f := .timeLimit ms) member (.inr (by rw [taken]))

theorem andThen (first : RunsLike limits T f g) (next : RunsLike limits T f' g') :
    RunsLike limits T (fun m => (f m).andThen f') (fun m => (g m).andThen g') := by
  intro log₁ log₂ m₁ m₂ alike
  have outcomes := first alike
  dsimp only
  generalize f m₁ = o₁ at outcomes
  generalize g m₂ = o₂ at outcomes
  obtain ⟨halt₁, m₁'⟩ := o₁
  obtain ⟨halt₂, m₂'⟩ := o₂
  cases outcomes with
  | same halt machines =>
      cases halt
      cases halt₁ with
      | none => exact next machines
      | some halt => exact .same rfl machines
  | stopped exceeded halted =>
      apply Outcome.Like.stopped exceeded
      rcases halted with halted | halted
      · cases halted
        exact .inl rfl
      · cases halted
        exact .inr rfl

theorem tick : RunsLike limits T (·.tick limits clock) (·.tick limits clock) := by
  have both : RunsLike limits T (fun m => (m.tick limits clock).andThen (⟨none, ·⟩))
      (fun m => (m.tick limits clock)) := tick_done.andThen done_tick
  simpa only [Outcome.andThen_done] using both

/-- Blocks that are entered with scopes which make the stacks alike in another way, if leaving them
    makes the stacks alike in the old one. -/
theorem within {scope₁ scope₂ : Scope}
    (enter : ∀ {scopes₁ scopes₂}, T scopes₁ scopes₂ → T' (scope₁ :: scopes₁) (scope₂ :: scopes₂))
    (leave : ∀ {scopes₁ scopes₂}, T' scopes₁ scopes₂ → T scopes₁.tail scopes₂.tail)
    (inner : RunsLike limits T' f g) :
    RunsLike limits T (·.within scope₁ f) (·.within scope₂ g) := by
  intro log₁ log₂ m₁ m₂ alike
  have entered : Machine.Like T' log₁ log₂ (m₁.enter scope₁) (m₂.enter scope₂) :=
    ⟨enter alike.scopes, alike.log⟩
  cases inner entered with
  | same halt machines => exact .same halt ⟨leave machines.scopes, machines.log⟩
  | stopped exceeded halted => exact .stopped exceeded halted

theorem test {condition : Expr}
    (same : ∀ {scopes₁ scopes₂}, T scopes₁ scopes₂ →
      condition.eval scopes₁ = condition.eval scopes₂)
    (yes : RunsLike limits T f g) (no : RunsLike limits T f' g') :
    RunsLike limits T (·.test condition f f') (·.test condition g g') := by
  intro log₁ log₂ m₁ m₂ alike
  simp only [Machine.test, same alike.scopes]
  split
  · exact .same rfl alike
  · split
    · exact yes alike
    · exact no alike

theorem loop {condition : Expr}
    (same : ∀ {scopes₁ scopes₂}, T scopes₁ scopes₂ →
      condition.eval scopes₁ = condition.eval scopes₂)
    (round : RunsLike limits T f g) (rounds : Nat) :
    RunsLike limits T (Machine.loop condition f rounds) (Machine.loop condition g rounds) := by
  induction rounds with
  | zero => exact fun _ _ _ _ alike => .same rfl alike
  | succ rounds ih =>
      intro log₁ log₂ m₁ m₂ alike
      rw [Machine.loop_succ, Machine.loop_succ]
      exact test same (round.andThen ih) done alike

theorem simple {s : Simple}
    (exec : ∀ {scopes₁ scopes₂}, T scopes₁ scopes₂ →
      SameResult T (s.exec scopes₁) (s.exec scopes₂)) :
    RunsLike limits T (·.simple s) (·.simple s) := by
  intro log₁ log₂ m₁ m₂ alike
  have results := exec alike.scopes
  simp only [Machine.simple]
  generalize s.exec m₁.scopes = result₁ at results
  generalize s.exec m₂.scopes = result₂ at results
  cases results with
  | error fault => exact .same rfl alike
  | ok scopes => exact .same rfl ⟨scopes, alike.log⟩

theorem console {known : String → Prop} (tracks : Tracks known T) (method : String)
    {args : List Expr} (isKnown : ∀ n ∈ args.flatMap Expr.names, known n) :
    RunsLike limits T (·.console method args) (·.console method args) := by
  intro log₁ log₂ m₁ m₂ alike
  simp only [Machine.console, tracks.evalTexts alike.scopes isKnown]
  split
  · exact .same rfl alike
  · next texts evaluated =>
      split
      · obtain ⟨lines, captured₁, captured₂⟩ := alike.log
        have behind : ∃ lines, (m₁.log.push (" ".intercalate texts)).toList = log₁ ++ lines ∧
            (m₂.log.push (" ".intercalate texts)).toList = log₂ ++ lines :=
          ⟨lines ++ [" ".intercalate texts], by simp [captured₁], by simp [captured₂]⟩
        exact .same rfl ⟨alike.scopes, behind⟩
      · exact .same rfl alike

theorem eval {known : String → Prop} (tracks : Tracks known T) {e : Expr}
    (isKnown : ∀ n ∈ e.names, known n) : RunsLike limits T
      (fun m => match e.eval m.scopes with
        | .error f => m.failWith f
        | .ok _ => ⟨none, m⟩)
      (fun m => match e.eval m.scopes with
        | .error f => m.failWith f
        | .ok _ => ⟨none, m⟩) := by
  intro log₁ log₂ m₁ m₂ alike
  simp only [tracks.eval alike.scopes isKnown]
  split
  · exact .same rfl alike
  · exact .same rfl alike

end RunsLike

/-! ## Statements -/

namespace Likeness

open RunsLike

variable {known : String → Prop} {S : Nat → Scopes → Scopes → Prop} {limits : Limits}
  {clock : Clock} {rounds : Nat}

theorem simple (likeness : Likeness known S) (k : Nat) {s : Simple}
    (isKnown : ∀ n ∈ s.uses, known n) :
    RunsLike limits (S k) (s.run limits clock) (s.run limits clock) :=
  .andThen .tick (.simple fun alike => likeness.exec alike isKnown)

theorem init (likeness : Likeness known S) (k : Nat) {init : Option Simple}
    (isKnown : ∀ n ∈ init.toList.flatMap Simple.uses, known n) :
    RunsLike limits (S k) (runInit limits clock init) (runInit limits clock init) := by
  cases init with
  | none => exact done
  | some s => exact likeness.simple k (by simpa using isKnown)

theorem update (likeness : Likeness known S) (k : Nat) {update : Option Simple}
    (isKnown : ∀ n ∈ update.toList.flatMap Simple.uses, known n) :
    RunsLike limits (S k) (runUpdate limits clock update) (runUpdate limits clock update) := by
  cases update with
  | none => exact .tick
  | some s => exact likeness.simple k (by simpa using isKnown)

theorem condition (likeness : Likeness known S) (k : Nat) {condition : Option Expr}
    (isKnown : ∀ n ∈ condition.toList.flatMap Expr.names, known n) {scopes₁ scopes₂ : Scopes}
    (alike : S k scopes₁ scopes₂) :
    (condition.getD (.bool true)).eval scopes₁ = (condition.getD (.bool true)).eval scopes₂ := by
  cases condition with
  | none => rfl
  | some e => exact (likeness.tracks k).eval alike (by simpa using isKnown)

mutual

/-- From like scopes a statement runs alike. -/
theorem run (likeness : Likeness known S) : (s : Stmt) → (∀ n ∈ s.uses, known n) → (k : Nat) →
    RunsLike limits (S k) (s.run limits clock rounds) (s.run limits clock rounds)
  | .simple s, isKnown, k => likeness.simple k isKnown
  | .console method args, isKnown, k => .andThen .tick (.console (likeness.tracks k) method isKnown)
  | .branch condition yes none, isKnown, k => by
      rw [Stmt.uses, List.forall_mem_append] at isKnown
      apply RunsLike.andThen .tick
      apply RunsLike.test (fun alike => (likeness.tracks k).eval alike isKnown.1) ?_ done
      exact .within (likeness.enter _) likeness.leave (likeness.runAll yes isKnown.2 (k + 1))
  | .branch condition yes (some no), isKnown, k => by
      rw [Stmt.uses, List.forall_mem_append, List.forall_mem_append] at isKnown
      apply RunsLike.andThen .tick
      apply RunsLike.test (fun alike => (likeness.tracks k).eval alike isKnown.1)
      · exact .within (likeness.enter _) likeness.leave (likeness.runAll yes isKnown.2.1 (k + 1))
      · exact .within (likeness.enter _) likeness.leave (likeness.runAll no isKnown.2.2 (k + 1))
  | .forLoop init condition update body, isKnown, k => by
      rw [Stmt.uses, List.forall_mem_append, List.forall_mem_append,
        List.forall_mem_append] at isKnown
      obtain ⟨inInit, inCondition, inUpdate, inBody⟩ := isKnown
      apply RunsLike.andThen .tick
      apply RunsLike.within (likeness.enter _) likeness.leave
      apply RunsLike.andThen (likeness.init (k + 1) inInit)
      apply RunsLike.loop (likeness.condition (k + 1) inCondition)
      apply RunsLike.andThen ?_ (likeness.update (k + 1) inUpdate)
      exact .within (likeness.enter _) likeness.leave (likeness.runAll body inBody (k + 2))
  | .whileLoop condition body, isKnown, k => by
      rw [Stmt.uses, List.forall_mem_append] at isKnown
      apply RunsLike.andThen .tick
      apply RunsLike.loop fun alike => (likeness.tracks k).eval alike isKnown.1
      apply RunsLike.andThen ?_ .tick
      exact .within (likeness.enter _) likeness.leave (likeness.runAll body isKnown.2 (k + 1))
  | .block body, isKnown, k =>
      .andThen .tick
        (.within (likeness.enter _) likeness.leave (likeness.runAll body isKnown (k + 1)))
  | .expr e, isKnown, k => .andThen .tick (.eval (likeness.tracks k) isKnown)
  | .empty, _, _ => .tick

/-- From like scopes statements run alike. -/
theorem runAll (likeness : Likeness known S) : (stmts : List Stmt) →
    (∀ n ∈ allUses stmts, known n) → (k : Nat) →
    RunsLike limits (S k) (runAll limits clock rounds stmts) (runAll limits clock rounds stmts)
  | [], _, _ => done
  | s :: rest, isKnown, k => by
      rw [allUses, List.forall_mem_append] at isKnown
      exact .andThen (likeness.run s isKnown.1 k) (likeness.runAll rest isKnown.2 k)

end

end Likeness

end LineScript
