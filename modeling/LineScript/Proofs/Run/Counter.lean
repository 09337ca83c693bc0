import LineScript.Proofs.Listing.Repetition
import LineScript.Proofs.Run.Bindings
import LineScript.Proofs.Run.Course
import LineScript.Run.Report

/-! # The counter of a generated loop

The statements of a listing touch no scope but the innermost. So whenever a loop
tests its condition, the scopes are those that it was entered with and on top of
them the one of its counter, which has counted the rounds. The count of the loop
is evaluated with the counter in reach: a count that reads the name of the counter
gets the counter in the place of the variable, and every other count has the value
that it has around the loop.
-/

namespace LineScript

open Grammar

namespace Expr

/-- Put a number in the place of a name. -/
def fill (n : String) (x : Float) : Expr → Expr
  | .name other => if other = n then .number x else .name other
  | .unary op operand => .unary op (operand.fill n x)
  | .binary op left right => .binary op (left.fill n x) (right.fill n x)
  | .logical op left right => .logical op (left.fill n x) (right.fill n x)
  | .number y => .number y
  | .text s => .text s
  | .bool b => .bool b
  | .null => .null
  | .undefined => .undefined

theorem fill_eq_self {n : String} {x : Float} {e : Expr} (unread : n ∉ e.names) :
    e.fill n x = e := by
  induction e with
  | name other => simp_all [names, fill, eq_comm]
  | unary op operand ih => rw [fill, ih unread]
  | binary op left right ihLeft ihRight | logical op left right ihLeft ihRight =>
      rw [names, List.mem_append, not_or] at unread
      rw [fill, ihLeft unread.1, ihRight unread.2]
  | number | text | bool | null | undefined => rfl

end Expr

/-- The scope of a counter. -/
def counterScope (i : String) (x : Float) : Scope :=
  [(i, ⟨some (.number x), false⟩)]

/-- The counter of a loop after `k` rounds. -/
def countUp : Nat → Float
  | 0 => 0
  | k + 1 => countUp k + 1

theorem value_counterScope (i n : String) (x : Float) (outer : Scopes) :
    Scopes.value (counterScope i x :: outer) n =
      if n = i then .ok (.number x) else Scopes.value outer n := by
  by_cases same : n = i
  · subst same
    simp [Scopes.value, Scopes.find?, counterScope]
  · simp [Scopes.value, Scopes.find?, counterScope, same, List.lookup_cons, beq_false_of_ne same]

/-- An expression reads the counter and whatever is around it. -/
theorem eval_counterScope (i : String) (x : Float) (outer : Scopes) (e : Expr) :
    e.eval (counterScope i x :: outer) = (e.fill i x).eval outer := by
  induction e with
  | name n =>
      rw [Expr.eval, value_counterScope, Expr.fill]
      split <;> rfl
  | unary op operand ih => rw [Expr.fill, Expr.eval, Expr.eval, ih]
  | binary op left right ihLeft ihRight | logical op left right ihLeft ihRight =>
      rw [Expr.fill, Expr.eval, Expr.eval, ihLeft, ihRight]
  | number | text | bool | null | undefined => rfl

/-- A counter is compared with the value that its count has around it, unless the count reads the
    counter. -/
theorem eval_compare {i : String} {e : Expr} {outer : Scopes} {value : Value}
    (unread : i ∉ e.names) (around : e.eval outer = .ok value) (x : Float) :
    (Expr.binary .lt (.name i) e).eval (counterScope i x :: outer) =
      .ok (BinaryOp.lt.apply (.number x) value) := by
  rw [Expr.eval, Expr.eval, value_counterScope, if_pos rfl, eval_counterScope,
    Expr.fill_eq_self unread, around]
  rfl

/-! ## What a run leaves alone -/

namespace Machine

/-- A machine with the scopes `outer` and one more inside. -/
def Inside (outer : Scopes) (m : Machine) : Prop :=
  ∃ scope, m.scopes = scope :: outer

/-- What is run leaves every scope but the innermost alone. -/
def Framed (run : Machine → Outcome) : Prop :=
  ∀ ⦃outer m⦄, Inside outer m → Inside outer (run m).machine

/-- The first part of the header gives the counter its first value. -/
theorem simple_counter {m : Machine} {i : String} {outer : Scopes}
    (scopes : m.scopes = [(i, ⟨none, false⟩)] :: outer) :
    m.simple (.declare .letDecl i (some (.number 0))) =
      ⟨none, { m with scopes := counterScope i 0 :: outer }⟩ := by
  simp [simple, Simple.exec, Expr.eval, scopes, Scopes.declare, Scopes.setInner, Scope.set,
    counterScope, bind, Except.bind, pure, Except.pure]

/-- The last part of the header counts up. -/
theorem simple_countUp {m : Machine} {i : String} {x : Float} {outer : Scopes}
    (scopes : m.scopes = counterScope i x :: outer) :
    m.simple (.update i .up) = ⟨none, { m with scopes := counterScope i (x + 1) :: outer }⟩ := by
  have current : m.scopes.value i = .ok (.number x) := by
    rw [scopes, value_counterScope, if_pos rfl]
  have assigned : m.scopes.assign i (.number (x + 1)) = .ok (counterScope i (x + 1) :: outer) := by
    simp [scopes, Scopes.assign, Scopes.find?, Scopes.replace, Scope.set, counterScope]
  have exec : (Simple.update i .up).exec m.scopes = .ok (counterScope i (x + 1) :: outer) := by
    rw [Simple.exec, current]
    exact assigned
  rw [simple, exec]

theorem framed_tick (limits : Limits) (clock : Clock) : Framed (tick limits clock) := by
  rintro outer m ⟨scope, scopes⟩
  exact ⟨scope, (tick_scopes limits clock m).trans scopes⟩

theorem framed_console (method : String) (args : List Expr) : Framed (·.console method args) := by
  intro outer m inside
  dsimp only
  unfold console
  split
  · exact inside
  · split <;> exact inside

theorem framed_let (name : String) (e : Expr) :
    Framed (·.simple (.declare .letDecl name (some e))) := by
  rintro outer m ⟨scope, scopes⟩
  dsimp only
  rw [simple, Simple.exec]
  cases e.eval m.scopes with
  | error => exact ⟨scope, scopes⟩
  | ok value => exact ⟨scope.set name _, by rw [scopes]; rfl⟩

/-- What is run in a scope of its own leaves the scopes around it alone if it leaves every scope but
    the innermost alone. -/
theorem within_scopes {scope : Scope} {f : Machine → Outcome} {m : Machine}
    (inside : Inside m.scopes (f (m.enter scope)).machine) :
    (m.within scope f).machine.scopes = m.scopes := by
  obtain ⟨top, scopes⟩ := inside
  exact congrArg List.tail scopes

namespace Framed

variable {f g : Machine → Outcome}

theorem andThen (first : Framed f) (next : Framed g) : Framed fun m => (f m).andThen g :=
  fun _ _ inside => Outcome.andThen_machine (first inside) fun _ _ inside => next inside

theorem within (inner : Framed f) (scope : Scope) : Framed (·.within scope f) := by
  rintro outer m ⟨top, scopes⟩
  exact ⟨top, (within_scopes (inner ⟨scope, rfl⟩)).trans scopes⟩

theorem test (condition : Expr) (yes : Framed f) (no : Framed g) :
    Framed (·.test condition f g) := by
  intro outer m inside
  dsimp only
  unfold Machine.test
  split
  · exact inside
  · split
    · exact yes inside
    · exact no inside

end Framed

end Machine

section Loop

open Machine

variable {limits : Limits} {clock : Clock} {rounds : Nat} {i : String} {x : Float}
  {outer : Scopes} {m m' : Machine} {body : List Stmt}

/-- When the first part of the header has run, the counter is zero. -/
theorem runInit_scopes
    (completes : runInit limits clock (some (.declare .letDecl i (some (.number 0))))
      (m.enter [(i, ⟨none, false⟩)]) = ⟨none, m'⟩) :
    m'.scopes = counterScope i 0 :: m.scopes := by
  obtain ⟨m₁, ticked, declared⟩ := Outcome.andThen_eq_none completes
  have scopes := tick_scopes limits clock (m.enter [(i, ⟨none, false⟩)])
  rw [ticked] at scopes
  rw [simple_counter scopes] at declared
  cases declared
  rfl

theorem runUpdate_scopes (scopes : m.scopes = counterScope i x :: outer) :
    ∃ y, (runUpdate limits clock (some (.update i .up)) m).machine.scopes =
      counterScope i y :: outer := by
  refine Outcome.andThen_machine (P := fun m => ∃ y, m.scopes = counterScope i y :: outer)
    ⟨x, (tick_scopes limits clock m).trans scopes⟩ ?_
  rintro m - ⟨y, scopes⟩
  exact ⟨y + 1, by rw [simple_countUp scopes]⟩

/-- However a round ends, it leaves the counter in its scope. -/
theorem loopRound_scopes (framed : Framed (runAll limits clock rounds body))
    (scopes : m.scopes = counterScope i x :: outer) :
    ∃ y, (loopRound limits clock rounds (some (.update i .up)) body m).machine.scopes =
      counterScope i y :: outer := by
  refine Outcome.andThen_machine (P := fun m => ∃ y, m.scopes = counterScope i y :: outer)
    ⟨x, (within_scopes (framed ⟨_, rfl⟩)).trans scopes⟩ ?_
  rintro m - ⟨y, scopes⟩
  exact runUpdate_scopes scopes

/-- A round that completes counts up and leaves all else alone. -/
theorem loopRound_countUp (framed : Framed (runAll limits clock rounds body))
    (scopes : m.scopes = counterScope i x :: outer)
    (completes : loopRound limits clock rounds (some (.update i .up)) body m = ⟨none, m'⟩) :
    m'.scopes = counterScope i (x + 1) :: outer := by
  obtain ⟨m₁, inner, update⟩ := Outcome.andThen_eq_none completes
  obtain ⟨m₂, ticked, counted⟩ := Outcome.andThen_eq_none update
  have behind : (runBlock limits clock rounds body m).machine.scopes = m.scopes :=
    within_scopes (framed ⟨_, rfl⟩)
  rw [inner] at behind
  have kept := tick_scopes limits clock m₁
  rw [ticked] at kept
  rw [simple_countUp (kept.trans (behind.trans scopes))] at counted
  cases counted
  rfl

theorem framed_countedLoop (framed : Framed (runAll limits clock rounds body)) (i : String)
    (condition : Expr) : Framed ((countedLoop i condition body).run limits clock rounds) := by
  intro outer m inside
  rw [countedLoop, Stmt.run]
  refine Outcome.andThen_machine (framed_tick limits clock inside) ?_
  rintro m - ⟨top, scopes⟩
  refine ⟨top, (within_scopes (Outcome.andThen_machine ?_ ?_)).trans scopes⟩
  · exact (framed_tick limits clock).andThen (framed_let i (.number 0)) ⟨_, rfl⟩
  · intro m₁ started _
    have step : ∀ m₁, (∃ y, m₁.scopes = counterScope i y :: m.scopes) →
        ∃ y, (loopRound limits clock rounds (some (.update i .up)) body m₁).machine.scopes =
          counterScope i y :: m.scopes := by
      rintro m₁ ⟨y, scopes⟩
      exact loopRound_scopes framed scopes
    obtain ⟨y, scopes⟩ := loop_machine step condition rounds ⟨0, runInit_scopes started⟩
    exact ⟨_, scopes⟩

/-- Whenever a counted loop tests its condition, its counter has counted the rounds and the scopes
    around are those that the loop was entered with. -/
theorem loopTests_scopes (framed : Framed (runAll limits clock rounds body)) {condition : Expr}
    {k : Nat}
    (tests : LoopTests limits clock rounds (some (.declare .letDecl i (some (.number 0)))) condition
      (some (.update i .up)) body m k m') :
    m'.scopes = counterScope i (countUp k) :: m.scopes := by
  obtain ⟨m₁, m₂, ticked, started, tests⟩ := tests
  have entered := tick_scopes limits clock m
  rw [ticked] at entered
  induction tests with
  | first => exact (runInit_scopes started).trans (congrArg _ entered)
  | again _ _ _ run ih => exact loopRound_countUp framed (ih started) run

/-- A counted loop that completes has run as often as there are numbers from zero on below the value
    of its count. -/
theorem countedLoop_rounds (framed : Framed (runAll limits clock rounds body)) {e : Expr}
    {value : Value} (unread : i ∉ e.names) (around : e.eval m.scopes = .ok value)
    (completes : (countedLoop i (.binary .lt (.name i) e) body).run limits clock rounds m =
      ⟨none, m'⟩) :
    ∃ n m₁, LoopTests limits clock rounds (some (.declare .letDecl i (some (.number 0))))
        (.binary .lt (.name i) e) (some (.update i .up)) body m n m₁ ∧
      (BinaryOp.lt.apply (.number (countUp n)) value).isTruthy = false ∧
      ∀ k < n, (BinaryOp.lt.apply (.number (countUp k)) value).isTruthy = true := by
  obtain ⟨n, m₁, last, tests, ends, falsy⟩ := exists_last_loopTest completes
  rw [loopTests_scopes framed tests, eval_compare unread around] at ends
  cases ends
  refine ⟨n, m₁, tests, falsy, fun k before => ?_⟩
  obtain ⟨m₂, value', earlier, holds, truthy⟩ := tests.holds_before before
  rw [loopTests_scopes framed earlier, eval_compare unread around] at holds
  cases holds
  exact truthy

end Loop

/-- A statement that is the loop of one of the given counts, each with the blocks around it. -/
inductive LoopOf (counts : List (Nat × String)) : Stmt → Prop where
  | mk {depth count t inner body} : (depth, count) ∈ counts →
      phrase? 0 (loopCounter depth ++ " < " ++ count) = some t →
      Translates (depth + 1) inner body → LoopOf counts (countedLoop (loopCounter depth) t body)

theorem LoopOf.mono {counts more : List (Nat × String)} {s : Stmt} (loop : LoopOf counts s)
    (subset : counts ⊆ more) : LoopOf more s := by
  cases loop with
  | mk member read translates => exact .mk (subset member) read translates

namespace Translates

open Machine

variable {depth : Nat} {listing : Listing} {xs : List Stmt} (limits : Limits) (clock : Clock)
  (rounds : Nat)

/-- The statements of a listing leave every scope but the innermost alone. -/
theorem framed (translates : Translates depth listing xs) :
    Framed (runAll limits clock rounds xs) := by
  induction translates with
  | nil => exact fun _ _ inside => inside
  | plain plain _ ih =>
      cases plain with
      | note | danglingSet | unknown => exact ih
      | say => exact ((framed_tick limits clock).andThen (framed_console _ _)).andThen ih
      | assign => exact ((framed_tick limits clock).andThen (framed_let _ _)).andThen ih
  | block header _ _ ihInner ihRest =>
      cases header with
      | loop => exact (framed_countedLoop ihInner _ _).andThen ihRest
      | test =>
          refine Framed.andThen ((framed_tick limits clock).andThen ?_) ihRest
          exact (ihInner.within _).test _ fun _ _ inside => inside

/-- A loop that a run of the statements of a listing comes by stands for a line of it. -/
theorem loopOf_visits (translates : Translates depth listing xs) {init condition update body}
    {m m' : Machine}
    (visits : Visits limits clock rounds xs m (.forLoop init condition update body) m') :
    LoopOf (Listing.counts depth listing) (.forLoop init condition update body) := by
  induction translates generalizing m with
  | nil => cases visits
  | plain plain _ ih =>
      rw [(counts_plain plain _ _ _).1]
      cases plain with
      | note | danglingSet | unknown => exact ih visits
      | say | assign =>
          cases visits with
          | later _ visits => exact ih visits
  | block header translates _ ihInner ihRest =>
      cases header with
      | loop read =>
          rw [Listing.counts, translates.counts_append]
          cases visits with
          | here => exact .mk (List.mem_cons_self ..) read translates
          | later _ visits => exact (ihRest visits).mono (by simp [Listing.counts])
          | forLoop _ _ _ visits => exact (ihInner visits).mono (by simp)
      | test read =>
          rw [Listing.counts, translates.counts_append]
          cases visits with
          | later _ visits => exact (ihRest visits).mono (by simp [Listing.counts])
          | yes _ _ _ visits => exact (ihInner visits).mono (by simp)

end Translates

theorem Script.body_of_compile {code : String} {script : Script} {xs : List Stmt}
    (compiled : Script.compile code = .ok script) (read : read program code.toList = .ok xs) :
    script.body = xs := by
  rw [Script.compile, read] at compiled
  split at compiled
  · cases compiled
  · dsimp only at compiled
    split at compiled
    · cases compiled
    · cases compiled
      rfl

theorem Listing.exists_of_mem_counts {depth d : Nat} {count : String} {listing : Listing}
    (member : (d, count) ∈ counts depth listing) : ∃ entry ∈ listing, entry.line = .loop count := by
  induction listing generalizing depth with
  | nil => cases member
  | cons entry rest ih =>
      have further : ∀ {depth}, (d, count) ∈ counts depth rest →
          ∃ e ∈ entry :: rest, e.line = .loop count := fun inRest => by
        obtain ⟨e, inRest, line⟩ := ih inRest
        exact ⟨e, List.mem_cons_of_mem _ inRest, line⟩
      rw [counts] at member
      split at member
      · next line =>
          rcases List.mem_cons.mp member with same | member
          · cases same
            exact ⟨entry, List.mem_cons_self .., line⟩
          · exact further member
      all_goals exact further member

/-- Every loop that a run of the script of a source comes by stands for a `repeat` of the source.
    Whenever it tests its condition, the scopes are those around the loop and inside them the
    counter with the number of rounds. The count has the value that it has around the loop with the
    counter put in the place of its name. So a count that does not read the name of the counter of
    its own loop has the value that it has around the loop, and if the loop completes, it has run as
    often as there are numbers from zero on below that value. -/
theorem eval_count_of_loopTests (source : String) (clean : (Listing.ofSource source).findings = [])
    (readable : ∀ entry ∈ Listing.ofSource source, entry.line.isReadable = true)
    (tight : (Listing.ofSource source).isTight = true) {script : Script}
    (compiled : Script.compile (scriptOf source) = .ok script) (limits : Limits) (clock : Clock)
    (rounds : Nat) (start : Machine) {init : Option Simple} {condition : Option Expr}
    {update : Option Simple} {body : List Stmt} {m : Machine}
    (visits : Visits limits clock rounds script.body { start with scopes := [script.scope] }
      (.forLoop init condition update body) m) :
    ∃ depth count e, (depth, count) ∈ Listing.counts 0 (Listing.ofSource source) ∧
      phrase? 0 count = some e ∧
      condition = some (.binary .lt (.name (loopCounter depth)) e) ∧
      (∀ k m', LoopTests limits clock rounds init (condition.getD (.bool true)) update body m k m' →
        m'.scopes = counterScope (loopCounter depth) (countUp k) :: m.scopes ∧
        e.eval m'.scopes = (e.fill (loopCounter depth) (countUp k)).eval m.scopes ∧
        (loopCounter depth ∉ e.names → e.eval m'.scopes = e.eval m.scopes)) ∧
      (loopCounter depth ∉ e.names → ∀ value m',
        e.eval m.scopes = .ok value →
        (Stmt.forLoop init condition update body).run limits clock rounds m = ⟨none, m'⟩ →
        ∃ n m₁, LoopTests limits clock rounds init (condition.getD (.bool true)) update body m n m₁ ∧
          (BinaryOp.lt.apply (.number (countUp n)) value).isTruthy = false ∧
          ∀ k < n, (BinaryOp.lt.apply (.number (countUp k)) value).isTruthy = true) := by
  obtain ⟨xs, translates⟩ := Listing.exists_translates_of_clean clean readable
  rw [Script.body_of_compile compiled translates.read_code] at visits
  cases translates.loopOf_visits limits clock rounds visits with
  | @mk depth count t inner _ member read inside =>
      obtain ⟨entry, inListing, line⟩ := Listing.exists_of_mem_counts member
      have isTight := List.all_eq_true.mp tight entry inListing
      rw [line] at isTight
      obtain ⟨e, accepted⟩ := Option.isSome_iff_exists.mp isTight
      obtain ⟨whole, compared⟩ := phrase?_tight (isName_loopCounter depth) accepted
      obtain rfl := Option.some.inj (read.symm.trans compared)
      have framed := inside.framed limits clock rounds
      refine ⟨depth, count, e, member, whole, rfl, fun k m' tests => ?_,
        fun unread value m' around completes => countedLoop_rounds framed unread around completes⟩
      have filled := eval_counterScope (loopCounter depth) (countUp k) m.scopes e
      rw [loopTests_scopes framed tests]
      exact ⟨rfl, filled, fun unread => filled.trans (by rw [Expr.fill_eq_self unread])⟩

/-- A loop whose count reads a variable of the source. -/
theorem eval_count_shiftedCount :
    let source := "set n = 2\nrepeat n + 1\n  say i_0\nend"
    let count : Expr := .binary .add (.name "n") (.number 1)
    ∃ script init condition update body m, Script.compile (scriptOf source) = .ok script ∧
      Visits ⟨none, none⟩ (fun _ => 0) 9 script.body ⟨[script.scope], #[], 0⟩
        (.forLoop init (some condition) update body) m ∧
      ∀ k m', LoopTests ⟨none, none⟩ (fun _ => 0) 9 init condition update body m k m' →
        count.eval m'.scopes = count.eval m.scopes := by
  intro source count
  have listing : Listing.ofSource source =
      ⟨1, .assign "n" "2"⟩ :: ⟨2, .loop "n + 1"⟩ :: ([⟨3, .say "i_0"⟩] ++ [⟨4, .close⟩]) := by
    decide +kernel
  have accepted : phrase? 0 "n + 1" = some count := by decide +kernel
  have body : ∃ xs, Translates 0 (Listing.ofSource source)
      [.simple (.declare .letDecl "n" (some (.number 2))),
        countedLoop "i_0" (.binary .lt (.name "i_0") count) xs] := by
    rw [listing]
    exact ⟨_, .plain (.assign (isName_of_isValid (by decide) (by decide)) (by decide +kernel))
      (.block (.loop (by decide +kernel))
        (.plain (.say (e := .name "i_0") (by decide +kernel)) .nil) .nil)⟩
  obtain ⟨xs, translates⟩ := body
  have compiles : (Script.compile (scriptOf source)).isOk = true := by decide +kernel
  cases compiled : Script.compile (scriptOf source) with
  | error fault => rw [compiled] at compiles; cases compiles
  | ok script =>
      have reached : ∃ m, Visits ⟨none, none⟩ (fun _ => 0) 9 script.body ⟨[script.scope], #[], 0⟩
          (countedLoop "i_0" (.binary .lt (.name "i_0") count) xs) m := by
        rw [Script.body_of_compile compiled translates.read_code]
        exact ⟨_, .later rfl .here⟩
      obtain ⟨m, visits⟩ := reached
      obtain ⟨depth, text, e, member, whole, _, tests, _⟩ := eval_count_of_loopTests source
        (by decide +kernel) (by decide +kernel) (by decide +kernel) compiled ⟨none, none⟩ _ 9
        .fresh visits
      obtain ⟨rfl, rfl⟩ : depth = 0 ∧ text = "n + 1" := by
        rw [listing] at member
        simpa [Listing.counts] using member
      obtain rfl := Option.some.inj (accepted.symm.trans whole)
      exact ⟨script, _, _, _, _, _, rfl, visits, fun k m' test =>
        (tests k m' test).2.2 (by decide +kernel)⟩

/-- A count that reads a variable with the name of the counter: the loop does not run at all, and
    runs as often as the variable says once the variable has another name. -/
theorem executeSource_capturedCount :
    let source := "set i_0 = 3\nrepeat i_0\n  say 1\nend"
    let renamed := "set n = 3\nrepeat n\n  say 1\nend"
    (Listing.ofSource source).findings = [] ∧
      (∀ entry ∈ Listing.ofSource source, entry.line.isReadable = true) ∧
      (Listing.ofSource source).isTight = true ∧
      (Expr.name "i_0").eval (counterScope "i_0" 0 :: [counterScope "i_0" 3]) = .ok (.number 0) ∧
      (Expr.name "i_0").eval [counterScope "i_0" 3] = .ok (.number 3) ∧
      Sandbox.executeSource source = [] ∧
      Sandbox.executeSource renamed = ["1", "1", "1"] :=
  ⟨by decide +kernel, by decide +kernel, by decide +kernel, rfl, rfl, by decide +kernel,
    by decide +kernel⟩

end LineScript
