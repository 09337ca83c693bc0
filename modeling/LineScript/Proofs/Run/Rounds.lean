import LineScript.Proofs.Listing.Refusal
import LineScript.Proofs.Listing.Repeats
import LineScript.Proofs.Run.Counter
import LineScript.Proofs.Run.Likeness

/-! # Rounds of a generated loop

The rounds of a loop start in scopes that differ in the counter of the loop and in nothing else. A
body that does not read the counter cannot tell one round from another, so each round captures the
same lines.
-/

namespace LineScript

open Grammar

/-! ## Scopes that differ in one variable -/

/-- The scopes of two stacks have the same variables with the same bindings, but for `i`. -/
def AgreeBut (i : String) (scopes₁ scopes₂ : Scopes) : Prop :=
  List.Forall₂ (fun a b : Scope => ∀ n ≠ i, a.lookup n = b.lookup n) scopes₁ scopes₂

namespace AgreeBut

variable {i n : String} {scopes₁ scopes₂ : Scopes}

theorem refl (i : String) (scopes : Scopes) : AgreeBut i scopes scopes :=
  List.forall₂_same.mpr fun _ _ _ _ => rfl

theorem set_lookup {a b : Scope} (same : ∀ n ≠ i, a.lookup n = b.lookup n) (n : String)
    (binding : Binding) : ∀ x ≠ i, (a.set n binding).lookup x = (b.set n binding).lookup x := by
  intro x other
  rw [Scope.lookup_set, Scope.lookup_set, same x other]

theorem find? (agree : AgreeBut i scopes₁ scopes₂) (other : n ≠ i) :
    scopes₁.find? n = scopes₂.find? n := by
  induction agree with
  | nil => rfl
  | cons same _ ih => rw [Scopes.find?, Scopes.find?, same n other, ih]

theorem replace (agree : AgreeBut i scopes₁ scopes₂) (other : n ≠ i) (binding : Binding) :
    AgreeBut i (scopes₁.replace n binding) (scopes₂.replace n binding) := by
  induction agree with
  | nil => exact .nil
  | cons same outer ih =>
      rw [Scopes.replace, Scopes.replace, same n other]
      split
      · exact .cons (set_lookup same n binding) outer
      · exact .cons same ih

theorem setInner (agree : AgreeBut i scopes₁ scopes₂) (n : String) (binding : Binding) :
    AgreeBut i (scopes₁.setInner n binding) (scopes₂.setInner n binding) := by
  cases agree with
  | nil => exact .nil
  | cons same outer => exact .cons (set_lookup same n binding) outer

theorem setOuter (agree : AgreeBut i scopes₁ scopes₂) (n : String) (binding : Binding) :
    AgreeBut i (scopes₁.setOuter n binding) (scopes₂.setOuter n binding) := by
  induction agree with
  | nil => exact .nil
  | cons same outer ih =>
      cases outer with
      | nil => exact .cons (set_lookup same n binding) .nil
      | cons same' outer => exact .cons same ih

theorem tail (agree : AgreeBut i scopes₁ scopes₂) : AgreeBut i scopes₁.tail scopes₂.tail := by
  cases agree with
  | nil => exact .nil
  | cons _ outer => exact outer

/-- What uses every name but `i` cannot tell the stacks apart. -/
theorem likeness (i : String) : Likeness (· ≠ i) fun _ => AgreeBut i where
  tracks _ :=
    { find? := fun agree other => agree.find? other
      replace := fun binding agree other => agree.replace other binding }
  setInner n binding agree := agree.setInner n binding
  setOuter n binding agree := agree.setOuter n binding
  enter _ agree := .cons (fun _ _ => rfl) agree
  leave agree := agree.tail

end AgreeBut

/-! ## Lines captured by the rounds -/

namespace Machine

theorem tick_log (limits : Limits) (clock : Clock) (m : Machine) :
    (m.tick limits clock).machine.log = m.log := by
  rcases m.tick_cases limits clock with ⟨_, taken⟩ | ⟨_, _, _, taken⟩ | ⟨_, _, taken⟩ <;> rw [taken]

theorem simple_log (m : Machine) (s : Simple) : (m.simple s).machine.log = m.log := by
  rw [simple]
  split
  · rfl
  · rfl

end Machine

theorem Simple.run_log (limits : Limits) (clock : Clock) (s : Simple) (m : Machine) :
    (s.run limits clock m).machine.log = m.log := by
  apply Outcome.andThen_machine (P := fun m' => m'.log = m.log) (m.tick_log limits clock)
  intro m₁ _ log
  rw [Machine.simple_log, log]

/-- A loop that has gone round has done so from its first test on. -/
theorem Machine.TestsAfter.exists_first {condition : Expr} {round : Machine → Outcome} {k : Nat}
    {m m' : Machine} (tests : TestsAfter condition round (k + 1) m m') :
    ∃ m₁, round m = ⟨none, m₁⟩ := by
  induction k generalizing m' with
  | zero =>
      cases tests with
      | again earlier _ _ run =>
          cases earlier
          exact ⟨_, run⟩
  | succ k ih =>
      cases tests with
      | again earlier _ _ _ => exact ih earlier

/-- If each round captures the same lines, then so many rounds capture so many copies. -/
theorem Machine.TestsAfter.log_eq {condition : Expr} {round : Machine → Outcome} {k : Nat}
    {m m' : Machine} {lines : List String}
    (each : ∀ k a b, TestsAfter condition round k m a → round a = ⟨none, b⟩ →
      b.log.toList = a.log.toList ++ lines)
    (tests : TestsAfter condition round k m m') :
    m'.log.toList = m.log.toList ++ (List.replicate k lines).flatten := by
  induction tests with
  | first => simp
  | again earlier _ _ run ih =>
      rw [each _ _ _ earlier run, ih each, List.append_assoc, List.replicate_succ']
      simp

section Rounds

open Machine

variable {limits : Limits} {clock : Clock} {rounds : Nat} {i : String} {outer : Scopes}
  {body : List Stmt}

/-- Two rounds of a loop whose body does not use the counter capture the same lines. -/
theorem loopRound_lines (unused : i ∉ allUses body) {x y : Float} {m₁ m₂ m₁' m₂' : Machine}
    (scopes₁ : m₁.scopes = counterScope i x :: outer)
    (scopes₂ : m₂.scopes = counterScope i y :: outer)
    (run₁ : loopRound limits clock rounds (some (.update i .up)) body m₁ = ⟨none, m₁'⟩)
    (run₂ : loopRound limits clock rounds (some (.update i .up)) body m₂ = ⟨none, m₂'⟩) :
    ∃ lines, m₁'.log.toList = m₁.log.toList ++ lines ∧ m₂'.log.toList = m₂.log.toList ++ lines := by
  obtain ⟨a₁, block₁, update₁⟩ := Outcome.andThen_eq_none run₁
  obtain ⟨a₂, block₂, update₂⟩ := Outcome.andThen_eq_none run₂
  have counters : ∀ n ≠ i, (counterScope i x).lookup n = (counterScope i y).lookup n := by
    intro n other
    simp [counterScope, List.lookup_cons, beq_false_of_ne other]
  have agree : AgreeBut i m₁.scopes m₂.scopes := by
    rw [scopes₁, scopes₂]
    exact .cons counters (AgreeBut.refl i outer)
  have like : Machine.Like (AgreeBut i) m₁.log.toList m₂.log.toList m₁ m₂ :=
    ⟨agree, [], by simp⟩
  have isKnown : ∀ n ∈ allUses body, n ≠ i := by
    rintro n member rfl
    exact unused member
  have runs : RunsLike limits (AgreeBut i) (runBlock limits clock rounds body)
      (runBlock limits clock rounds body) :=
    .within ((AgreeBut.likeness i).enter (k := 0) _) ((AgreeBut.likeness i).leave (k := 0))
      ((AgreeBut.likeness i).runAll body isKnown 1)
  have outcomes := runs like
  rw [block₁, block₂] at outcomes
  have kept₁ := Simple.run_log limits clock (.update i .up) a₁
  have kept₂ := Simple.run_log limits clock (.update i .up) a₂
  rw [show Simple.run limits clock (.update i .up) a₁ = ⟨none, m₁'⟩ from update₁] at kept₁
  rw [show Simple.run limits clock (.update i .up) a₂ = ⟨none, m₂'⟩ from update₂] at kept₂
  cases outcomes with
  | same _ machines =>
      obtain ⟨lines, log₁, log₂⟩ := machines.log
      exact ⟨lines, kept₁ ▸ log₁, kept₂ ▸ log₂⟩
  | stopped _ halted =>
      rcases halted with halted | halted
      · cases halted
      · cases halted

/-- Once the first part of the header has run, the rounds of a loop whose body does not use the
    counter all capture what the first one does. -/
theorem lines_of_tests (framed : Framed (runAll limits clock rounds body))
    (unused : i ∉ allUses body) (condition : Expr) {m m₁ m₂ : Machine}
    (ticked : m.tick limits clock = ⟨none, m₁⟩)
    (started : runInit limits clock (some (.declare .letDecl i (some (.number 0))))
      (m₁.enter [(i, ⟨none, false⟩)]) = ⟨none, m₂⟩) :
    ∃ lines, ∀ k m', TestsAfter condition
        (loopRound limits clock rounds (some (.update i .up)) body) k m₂ m' →
      m'.log.toList = m₂.log.toList ++ (List.replicate k lines).flatten := by
  have scopes : ∀ {k m'}, TestsAfter condition
      (loopRound limits clock rounds (some (.update i .up)) body) k m₂ m' →
      m'.scopes = counterScope i (countUp k) :: m.scopes := fun tests =>
    loopTests_scopes framed ⟨m₁, m₂, ticked, started, tests⟩
  cases first : loopRound limits clock rounds (some (.update i .up)) body m₂ with
  | mk halt m₃ =>
      cases halt with
      | some halt =>
          refine ⟨[], fun k m' tests => ?_⟩
          cases k with
          | zero =>
              cases tests
              simp
          | succ k =>
              obtain ⟨m₄, completes⟩ := tests.exists_first
              cases first.symm.trans completes
      | none =>
          have start := scopes .first
          obtain ⟨lines, log, -⟩ := loopRound_lines unused start start first first
          refine ⟨lines, fun k m' tests => tests.log_eq fun k a b earlier run => ?_⟩
          -- Each round is compared with the first one.
          obtain ⟨lines', log', captured⟩ :=
            loopRound_lines unused start (scopes earlier) first run
          obtain rfl := List.append_cancel_left (log.symm.trans log')
          exact captured

/-- Whatever becomes of a loop that is run at `m`, there is a list of lines that each of its rounds
    captures, if its body does not use the counter. -/
theorem lines_of_loopTests (framed : Framed (runAll limits clock rounds body))
    (unused : i ∉ allUses body) (condition : Expr) (m : Machine) :
    ∃ lines, ∀ k m', LoopTests limits clock rounds (some (.declare .letDecl i (some (.number 0))))
        condition (some (.update i .up)) body m k m' →
      m'.log.toList = m.log.toList ++ (List.replicate k lines).flatten := by
  by_cases begun : ∃ m₁ m₂, m.tick limits clock = ⟨none, m₁⟩ ∧
      runInit limits clock (some (.declare .letDecl i (some (.number 0))))
        (m₁.enter [(i, ⟨none, false⟩)]) = ⟨none, m₂⟩
  · obtain ⟨m₁, m₂, ticked, started⟩ := begun
    obtain ⟨lines, each⟩ := lines_of_tests framed unused condition ticked started
    have entered := m.tick_log limits clock
    rw [ticked] at entered
    have initial := Simple.run_log limits clock (.declare .letDecl i (some (.number 0)))
      (m₁.enter [(i, ⟨none, false⟩)])
    rw [show Simple.run limits clock (.declare .letDecl i (some (.number 0)))
      (m₁.enter [(i, ⟨none, false⟩)]) = ⟨none, m₂⟩ from started] at initial
    have log : m₂.log = m.log := initial.trans entered
    refine ⟨lines, ?_⟩
    rintro k m' ⟨a₁, a₂, ticked', started', tests⟩
    cases ticked.symm.trans ticked'
    cases started.symm.trans started'
    rw [each k m' tests, log]
  · refine ⟨[], ?_⟩
    rintro k m' ⟨m₁, m₂, ticked, started, -⟩
    exact absurd ⟨m₁, m₂, ticked, started⟩ begun

end Rounds

/-! ## Names of a listing -/

/-- The names that the text of a line reads. -/
def Line.reads : Line → List String
  | .say text | .assign _ text | .loop text | .test text =>
      ((phrase? 0 text).map Expr.names).getD []
  | .note _ | .close | .danglingSet _ | .unknown _ => []

theorem allUses_append (xs ys : List Stmt) : allUses (xs ++ ys) = allUses xs ++ allUses ys := by
  induction xs with
  | nil => rfl
  | cons s xs ih => rw [List.cons_append, allUses, allUses, ih, List.append_assoc]

theorem Plain.not_mem_allUses {line : Line} {xs : List Stmt} {i : String} (plain : Plain line xs)
    (unread : i ∉ line.reads) : i ∉ allUses xs := by
  cases plain with
  | note _ | danglingSet | unknown _ => exact List.not_mem_nil
  | say accepted => simpa [allUses, Stmt.uses, Line.reads, accepted] using unread
  | assign _ accepted => simpa [allUses, Stmt.uses, Simple.uses, Line.reads, accepted] using unread

theorem Header.not_mem_uses {depth : Nat} {line : Line} {make : List Stmt → Stmt} {i : String}
    (header : Header depth line make) (tight : line.isTight = true) (unread : i ∉ line.reads)
    (other : i ≠ loopCounter depth) {body : List Stmt} (unused : i ∉ allUses body) :
    i ∉ (make body).uses := by
  cases header with
  | @loop count t read =>
      obtain ⟨e, accepted⟩ := Option.isSome_iff_exists.mp tight
      obtain ⟨whole, compared⟩ := phrase?_tight (isName_loopCounter depth) accepted
      obtain rfl := Option.some.inj (read.symm.trans compared)
      rw [Line.reads, whole] at unread
      simp_all [countedLoop, Stmt.uses, Simple.uses, Expr.names]
  | test accepted =>
      rw [Line.reads, accepted] at unread
      simp_all [Stmt.uses]

/-- Statements of a listing use no name that no line reads, except for the counters of their own
    loops. -/
theorem Translates.not_mem_allUses {depth : Nat} {listing : Listing} {xs : List Stmt} {i : String}
    (translates : Translates depth listing xs) (tight : listing.isTight = true)
    (unread : ∀ entry ∈ listing, i ∉ entry.line.reads)
    (other : ∀ d, depth ≤ d → i ≠ loopCounter d) : i ∉ allUses xs := by
  induction translates with
  | nil => exact List.not_mem_nil
  | plain plain _ ih =>
      rw [List.forall_mem_cons] at unread
      obtain ⟨-, tightRest⟩ := Bool.and_eq_true_iff.mp tight
      rw [allUses_append, List.mem_append, not_or]
      exact ⟨plain.not_mem_allUses unread.1, ih tightRest unread.2 other⟩
  | @block depth number line make inner xs last rest ys header _ _ ihInner ihRest =>
      rw [List.forall_mem_cons, List.forall_mem_append, List.forall_mem_cons] at unread
      obtain ⟨unreadLine, unreadInner, -, unreadRest⟩ := unread
      obtain ⟨tightLine, tightRest⟩ := Bool.and_eq_true_iff.mp tight
      rw [List.all_append, Bool.and_eq_true, List.all_cons, Bool.and_eq_true] at tightRest
      obtain ⟨tightInner, -, tightRest⟩ := tightRest
      have inside := ihInner tightInner unreadInner fun d deeper => other d (by omega)
      rw [allUses, List.mem_append, not_or]
      exact ⟨header.not_mem_uses tightLine unreadLine (other depth (Nat.le_refl depth)) inside,
        ihRest tightRest unreadRest other⟩

/-! ## Loops that a run comes by -/

/-- A statement that is the loop of a `repeat` in a listing that starts inside `depth` blocks. -/
inductive LoopIn (depth : Nat) (listing : Listing) : Stmt → Prop where
  | mk {before number count inner last behind d t body} :
      listing = before ++ ⟨number, .loop count⟩ :: (inner ++ ⟨last, .close⟩ :: behind) →
      Listing.level? depth before = some d →
      phrase? 0 (loopCounter d ++ " < " ++ count) = some t → Translates (d + 1) inner body →
      LoopIn depth listing (countedLoop (loopCounter d) t body)

theorem LoopIn.widen {depth d : Nat} {listing : Listing} {s : Stmt} (loop : LoopIn d listing s)
    {front : Listing} (level : Listing.level? depth front = some d) (rest : Listing) :
    LoopIn depth (front ++ (listing ++ rest)) s := by
  cases loop with
  | @mk before number count inner last behind d' t body split levelBefore read translates =>
      have levels : Listing.level? depth (front ++ before) = some d' := by
        rw [Listing.level?_append, level, Option.bind_some, levelBefore]
      have whole : front ++ (listing ++ rest) = (front ++ before) ++
          ⟨number, .loop count⟩ :: (inner ++ ⟨last, .close⟩ :: (behind ++ rest)) := by
        rw [split]
        simp
      exact .mk whole levels read translates

/-- A loop that a run of the statements of a listing comes by is the loop of a `repeat` in it. -/
theorem Translates.loopIn_visits {depth : Nat} {listing : Listing} {xs : List Stmt}
    (limits : Limits) (clock : Clock) (rounds : Nat) (translates : Translates depth listing xs)
    {init condition update body} {m m' : Machine}
    (visits : Visits limits clock rounds xs m (.forLoop init condition update body) m') :
    LoopIn depth listing (.forLoop init condition update body) := by
  induction translates generalizing m with
  | nil => cases visits
  | @plain depth number line xs rest ys plain _ ih =>
      have level : Listing.level? depth [⟨number, line⟩] = some depth := by
        rw [Listing.level?_plain plain.opens_eq plain.closes_eq, Listing.level?_nil]
      cases plain with
      | note | danglingSet | unknown => simpa using (ih visits).widen level []
      | say | assign =>
          cases visits with
          | later _ visits => simpa using (ih visits).widen level []
  | @block depth number line make inner xs last rest ys header translates _ ihInner ihRest =>
      have levelIn : Listing.level? depth [⟨number, line⟩] = some (depth + 1) := by
        rw [Listing.level?_opens header.opens_eq, Listing.level?_nil]
      have levelBehind :
          Listing.level? depth (⟨number, line⟩ :: (inner ++ [⟨last, .close⟩])) = some depth := by
        rw [Listing.level?_opens header.opens_eq, translates.settled.level?_append,
          Listing.level?_closes rfl rfl, Listing.level?_nil]
      cases header with
      | loop read =>
          cases visits with
          | here => exact .mk (List.nil_append _).symm rfl read translates
          | later _ visits => simpa using (ihRest visits).widen levelBehind []
          | forLoop _ _ _ visits => exact (ihInner visits).widen levelIn (⟨last, .close⟩ :: rest)
      | test read =>
          cases visits with
          | later _ visits => simpa using (ihRest visits).widen levelBehind []
          | yes _ _ _ visits => exact (ihInner visits).widen levelIn (⟨last, .close⟩ :: rest)

/-- A source whose names have the form of names and whose texts are expressions, with tight counts,
    and a run of its script that comes by a loop. The loop stands for a `repeat` of the source. If
    no line of the block reads the counter of that depth and the loop completes, then it has
    captured as many copies of one list of lines as it has gone round, and at each test of its
    condition it had captured as many as it had gone round by then. -/
theorem rounds_capture_alike (source : String)
    (named : ∀ entry ∈ Listing.ofSource source, entry.line.isWellNamed = true)
    (readable : ∀ entry ∈ Listing.ofSource source, entry.line.isReadable = true)
    (tight : (Listing.ofSource source).isTight = true) {script : Script}
    (compiled : Script.compile (scriptOf source) = .ok script) (limits : Limits) (clock : Clock)
    (rounds : Nat) (start : Machine) {init : Option Simple} {condition : Option Expr}
    {update : Option Simple} {body : List Stmt} {m : Machine}
    (visits : Visits limits clock rounds script.body { start with scopes := [script.scope] }
      (.forLoop init condition update body) m) :
    (∃ b : (Listing.ofSource source).RepeatBlock,
        b.StandsFor (.forLoop init condition update body)) ∧
      ∀ b : (Listing.ofSource source).RepeatBlock,
        b.StandsFor (.forLoop init condition update body) →
        (∀ entry ∈ b.inner, loopCounter b.depth ∉ entry.line.reads) →
        ∀ m', (Stmt.forLoop init condition update body).run limits clock rounds m = ⟨none, m'⟩ →
          ∃ n lines last value,
            LoopTests limits clock rounds init (condition.getD (.bool true)) update body m n last ∧
            (condition.getD (.bool true)).eval last.scopes = .ok value ∧ value.isTruthy = false ∧
            m'.log.toList = m.log.toList ++ (List.replicate n lines).flatten ∧
            ∀ k a,
              LoopTests limits clock rounds init (condition.getD (.bool true)) update body m k a →
              a.log.toList = m.log.toList ++ (List.replicate k lines).flatten := by
  have whole := (Script.compile_eq_ok_iff.mp compiled).2.1
  have sound := Listing.sound_of_read named readable whole
  have translates := Listing.translates_of_read sound whole
  constructor
  · cases translates.loopIn_visits limits clock rounds visits with
    | mk split level read inner =>
        have depth := Listing.RepeatBlock.depth_eq ⟨_, _, _, _, _, _, inner.settled, split⟩ level
        have stands := Listing.RepeatBlock.standsFor ⟨_, _, _, _, _, _, inner.settled, split⟩ tight
          (depth ▸ read) (depth ▸ inner)
        exact ⟨_, depth ▸ stands⟩
  · intro b stands unread m' completes
    obtain ⟨t, xs, same, inner⟩ := b.exists_of_standsFor sound tight stands
    obtain ⟨rfl, rfl, rfl, rfl⟩ := Stmt.forLoop.inj same
    have unused : loopCounter b.depth ∉ allUses body := by
      apply inner.not_mem_allUses ?_ unread
      · intro d deeper same
        have := loopCounter_injective same
        omega
      · apply List.all_eq_true.mpr
        intro entry member
        apply List.all_eq_true.mp tight entry
        exact b.mem_of_mem_lines (List.mem_cons_of_mem _ (List.mem_append_left _ member))
    have framed := inner.framed limits clock rounds
    obtain ⟨lines, each⟩ := lines_of_loopTests framed unused t m
    obtain ⟨n, last, value, tests, holds, falsy, left⟩ := exists_last_loopTest_leave completes
    refine ⟨n, lines, last, value, tests, holds, falsy, ?_, each⟩
    rw [← left]
    exact each n last tests

/-- A loop around another one, whose body sets a variable with the name of the counter and reads one
    with a name that is reserved outside of scripts. -/
def nestedRounds : String :=
  "set class = 1\nrepeat 2\n  set i_0 = class\n  repeat 3\n    say class\n  end\nend"

/-- The body of the outer loop. -/
def nestedRoundsBody : List Stmt :=
  [.simple (.declare .letDecl "i_0" (some (.name "class"))),
    countedLoop "i_1" (.binary .lt (.name "i_1") (.number 3)) [.console "log" [.name "class"]]]

/-- The outer loop runs to its end, and what it captures is some copies of the same lines. -/
theorem rounds_capture_alike_nested :
    ∃ script m m', Script.compile (scriptOf nestedRounds) = .ok script ∧
      Visits ⟨none, none⟩ (fun _ => 0) 9 script.body ⟨[script.scope], #[], 0⟩
        (countedLoop "i_0" (.binary .lt (.name "i_0") (.number 2)) nestedRoundsBody) m ∧
      (countedLoop "i_0" (.binary .lt (.name "i_0") (.number 2)) nestedRoundsBody).run
        ⟨none, none⟩ (fun _ => 0) 9 m = ⟨none, m'⟩ ∧
      m'.log.toList = ["1", "1", "1", "1", "1", "1"] ∧
      ∃ n lines last,
        LoopTests ⟨none, none⟩ (fun _ => 0) 9 (some (.declare .letDecl "i_0" (some (.number 0))))
          (.binary .lt (.name "i_0") (.number 2)) (some (.update "i_0" .up)) nestedRoundsBody m n
          last ∧
        m'.log.toList = m.log.toList ++ (List.replicate n lines).flatten := by
  have listing : Listing.ofSource nestedRounds =
      [⟨1, .assign "class" "1"⟩] ++ ⟨2, .loop "2"⟩ :: ((⟨3, .assign "i_0" "class"⟩ ::
        ⟨4, .loop "3"⟩ :: ([⟨5, .say "class"⟩] ++ ⟨6, .close⟩ :: [])) ++ ⟨7, .close⟩ :: []) := by
    decide +kernel
  have isName : IsName "class" :=
    ⟨'c', ['l', 'a', 's', 's'], rfl, by decide, List.all_eq_true.mp rfl, by decide +kernel⟩
  have inner : Translates 1 (⟨3, .assign "i_0" "class"⟩ :: ⟨4, .loop "3"⟩ ::
      ([⟨5, .say "class"⟩] ++ ⟨6, .close⟩ :: [])) nestedRoundsBody :=
    .plain (.assign (isName_loopCounter 0) (by decide +kernel)) (.block (.loop (by decide +kernel))
      (.plain (.say (by decide +kernel)) .nil) .nil)
  have count : phrase? 0 (loopCounter 0 ++ " < " ++ "2") =
      some (.binary .lt (.name "i_0") (.number 2)) := by decide +kernel
  have translates : Translates 0 (Listing.ofSource nestedRounds)
      [.simple (.declare .letDecl "class" (some (.number 1))),
        countedLoop "i_0" (.binary .lt (.name "i_0") (.number 2)) nestedRoundsBody] := by
    rw [listing]
    exact .plain (.assign isName (by decide +kernel)) (.block (.loop count) inner .nil)
  have tight : (Listing.ofSource nestedRounds).isTight = true := by decide +kernel
  obtain ⟨b, depth, isCount, isInner⟩ : ∃ b : (Listing.ofSource nestedRounds).RepeatBlock,
      b.depth = 0 ∧ b.count = "2" ∧ b.inner = ⟨3, .assign "i_0" "class"⟩ :: ⟨4, .loop "3"⟩ ::
        ([⟨5, .say "class"⟩] ++ ⟨6, .close⟩ :: []) :=
    ⟨⟨_, _, _, _, _, _, inner.settled, listing⟩, Listing.RepeatBlock.depth_eq _ rfl, rfl, rfl⟩
  have stands : b.StandsFor
      (countedLoop "i_0" (.binary .lt (.name "i_0") (.number 2)) nestedRoundsBody) := by
    have read : phrase? 0 (loopCounter b.depth ++ " < " ++ b.count) =
        some (.binary .lt (.name "i_0") (.number 2)) := by
      rw [depth, isCount]
      exact count
    have inside : Translates (b.depth + 1) b.inner nestedRoundsBody := by
      rw [depth, isInner]
      exact inner
    have stands := b.standsFor tight read inside
    rw [depth] at stands
    exact stands
  have unread : ∀ entry ∈ b.inner, loopCounter b.depth ∉ entry.line.reads := by
    rw [depth, isInner]
    decide +kernel
  have compiles : (Script.compile (scriptOf nestedRounds)).isOk = true := by decide +kernel
  cases compiled : Script.compile (scriptOf nestedRounds) with
  | error fault =>
      rw [compiled] at compiles
      cases compiles
  | ok script =>
      obtain ⟨body⟩ := script
      obtain rfl := Script.body_of_compile compiled translates.read_code
      have visits : Visits ⟨none, none⟩ (fun _ => 0) 9
          [.simple (.declare .letDecl "class" (some (.number 1))),
            countedLoop "i_0" (.binary .lt (.name "i_0") (.number 2)) nestedRoundsBody]
          ⟨[[("class", ⟨none, false⟩)]], #[], 0⟩
          (countedLoop "i_0" (.binary .lt (.name "i_0") (.number 2)) nestedRoundsBody)
          ⟨[[("class", ⟨some (.number 1), false⟩)]], #[], 1⟩ := .later rfl .here
      have halt : ((countedLoop "i_0" (.binary .lt (.name "i_0") (.number 2)) nestedRoundsBody).run
          ⟨none, none⟩ (fun _ => 0) 9 ⟨[[("class", ⟨some (.number 1), false⟩)]], #[], 1⟩).halt =
          none := by decide +kernel
      have log : ((countedLoop "i_0" (.binary .lt (.name "i_0") (.number 2)) nestedRoundsBody).run
          ⟨none, none⟩ (fun _ => 0) 9
          ⟨[[("class", ⟨some (.number 1), false⟩)]], #[], 1⟩).machine.log.toList =
          ["1", "1", "1", "1", "1", "1"] := by decide +kernel
      cases completes : (countedLoop "i_0" (.binary .lt (.name "i_0") (.number 2))
          nestedRoundsBody).run ⟨none, none⟩ (fun _ => 0) 9
          ⟨[[("class", ⟨some (.number 1), false⟩)]], #[], 1⟩ with
      | mk halted m' =>
          rw [completes] at halt log
          cases halt
          obtain ⟨-, alike⟩ := rounds_capture_alike nestedRounds (by decide +kernel)
            (by decide +kernel) tight compiled ⟨none, none⟩ (fun _ => 0) 9 .fresh visits
          obtain ⟨n, lines, last, value, tests, -, -, captured, -⟩ :=
            alike b stands unread m' completes
          exact ⟨_, _, m', rfl, visits, completes, log, n, lines, last, tests, captured⟩

end LineScript
