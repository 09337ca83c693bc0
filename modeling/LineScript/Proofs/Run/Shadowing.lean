import LineScript.Proofs.Run.Course
import LineScript.Proofs.Run.Names
import LineScript.Run.Report

/-! # What stands before a `var`

A `var` gets its value in the scope of the script as a whole, and a name is read
in the nearest scope that has it. The check of the declarations sees to it that no
block around a `var` declares its name by `let` or `const`. A header is checked for
itself, without the body of its loop, and may declare the name: then what is read
behind the `var` is the variable of the header.
-/

namespace LineScript

/-! ## What has been checked -/

namespace Declarations

variable {declared declared' final : Declared} {stmts body : List Stmt} {s : Stmt} {x : String}
  {kind : DeclKind}

theorem of_mem_locals {kind' : DeclKind} {name : String} {init : Option Expr}
    (member : (x, kind) ∈ (Simple.declare kind' name init).locals) :
    x = name ∧ kind = kind' ∧ kind ≠ .varDecl := by
  cases kind' with
  | varDecl => cases member
  | letDecl | constDecl =>
      cases List.mem_singleton.mp member
      exact ⟨rfl, rfl, nofun⟩

theorem kind_of_mem_locals (member : (x, kind) ∈ s.locals) : kind ≠ .varDecl := by
  cases s with
  | simple s =>
      cases s with
      | declare => exact (of_mem_locals member).2.2
      | assign | update => cases member
  | _ => cases member

/-- A declaration is accepted only where the name is not there, or is that of a `var` and is
    declared by `var` again. -/
theorem of_declare {name : String} {init : Option Expr}
    (accepted : declare declared (.declare kind name init) = .ok declared') :
    declared' = (name, kind) :: declared ∧
      (declared.lookup name = none ∨ declared.lookup name = some .varDecl ∧ kind = .varDecl) := by
  rw [declare] at accepted
  split at accepted
  · cases accepted
  split at accepted
  · next absent =>
      cases accepted
      exact ⟨rfl, .inl absent⟩
  · next found =>
      split at accepted
      · next isVar =>
          cases accepted
          exact ⟨rfl, .inr ⟨found, isVar⟩⟩
      · cases accepted
  · cases accepted

/-- A name that is declared by `let` or `const` stays so declared. -/
theorem lookup_declare {s : Simple} (accepted : declare declared s = .ok declared')
    (isLocal : kind ≠ .varDecl) (known : declared.lookup x = some kind ∨ (x, kind) ∈ s.locals) :
    declared'.lookup x = some kind := by
  cases s with
  | assign | update =>
      cases accepted
      exact known.resolve_right nofun
  | declare kind' name init =>
      obtain ⟨rfl, before⟩ := of_declare accepted
      rw [List.lookup_cons]
      rcases known with known | member
      · have differs : x ≠ name := by
          rintro rfl
          rcases before with absent | ⟨found, -⟩
          · cases absent.symm.trans known
          · exact isLocal (Option.some.inj (known.symm.trans found))
        rw [beq_false_of_ne differs]
        exact known
      · obtain ⟨rfl, rfl, -⟩ := of_mem_locals member
        simp

theorem checkStmts_cons {rest : List Stmt} (checked : checkStmts declared (s :: rest) = .ok final) :
    ∃ mid, declareStmt declared s = .ok mid ∧ checkNested s = .ok () ∧
      checkStmts mid rest = .ok final := by
  rw [checkStmts] at checked
  obtain ⟨mid, accepted, checked⟩ := bind_eq_ok.mp checked
  obtain ⟨⟨⟩, nested, checked⟩ := bind_eq_ok.mp checked
  exact ⟨mid, accepted, nested, checked⟩

theorem lookup_checkStmts (checked : checkStmts declared stmts = .ok final)
    (isLocal : kind ≠ .varDecl)
    (known : declared.lookup x = some kind ∨ (x, kind) ∈ stmts.flatMap Stmt.locals) :
    final.lookup x = some kind := by
  induction stmts generalizing declared with
  | nil =>
      cases checked
      exact known.resolve_right nofun
  | cons s rest ih =>
      obtain ⟨mid, accepted, -, checked⟩ := checkStmts_cons checked
      have atHead : declared.lookup x = some kind ∨ (x, kind) ∈ s.locals →
          mid.lookup x = some kind := by
        intro known
        cases s with
        | simple s => exact lookup_declare accepted isLocal known
        | _ =>
            cases accepted
            exact known.resolve_right nofun
      refine ih checked ?_
      rw [List.flatMap_cons, List.mem_append, ← or_assoc] at known
      exact known.imp_left atHead

theorem checkNested_of_checkStmts (checked : checkStmts declared stmts = .ok final) :
    ∀ s ∈ stmts, checkNested s = .ok () := by
  induction stmts generalizing declared with
  | nil => exact nofun
  | cons s rest ih =>
      obtain ⟨mid, -, nested, checked⟩ := checkStmts_cons checked
      exact List.forall_mem_cons.mpr ⟨nested, ih checked⟩

theorem lookup_of_checkVars {vars : List String} (checked : checkVars declared vars = .ok ())
    (member : x ∈ vars) (isLocal : kind ≠ .varDecl) : declared.lookup x ≠ some kind := by
  induction vars with
  | nil => cases member
  | cons name rest ih =>
      rw [checkVars] at checked
      split at checked
      · cases checked
      · cases checked
      · next notLet notConst =>
          rcases List.mem_cons.mp member with rfl | later
          · cases kind with
            | letDecl => exact notLet
            | constDecl => exact notConst
            | varDecl => exact absurd rfl isLocal
          · exact ih checked later

theorem checkNested_of_checkBlock (checked : checkBlock stmts = .ok ()) :
    ∀ s ∈ stmts, checkNested s = .ok () := by
  obtain ⟨final, checked, -⟩ := bind_eq_ok.mp checked
  exact checkNested_of_checkStmts checked

theorem checkBlock_of_mem_bodies (checked : checkNested s = .ok ()) (member : body ∈ s.bodies) :
    checkBlock body = .ok () := by
  cases s with
  | branch condition yes no =>
      cases no with
      | none =>
          obtain rfl := List.mem_singleton.mp member
          exact checked
      | some no =>
          obtain ⟨⟨⟩, inYes, inNo⟩ := bind_eq_ok.mp checked
          rcases List.mem_pair.mp member with rfl | rfl
          · exact inYes
          · exact inNo
  | forLoop init condition update body =>
      obtain rfl := List.mem_singleton.mp member
      cases init with
      | none => exact checked
      | some init =>
          obtain ⟨⟨⟩, -, inBody⟩ := bind_eq_ok.mp checked
          exact inBody
  | whileLoop | block =>
      obtain rfl := List.mem_singleton.mp member
      exact checked
  | simple | console | expr | empty => cases member

/-- No block declares by `let` or `const` what is declared by `var` inside it. -/
theorem not_mem_locals_of_checkBlock (checked : checkBlock stmts = .ok ())
    (isVar : x ∈ varNames stmts) :
    x ∉ (stmts.flatMap Stmt.locals).map Prod.fst := by
  obtain ⟨final, inOrder, disjoint⟩ := bind_eq_ok.mp checked
  rintro member
  obtain ⟨⟨x, kind⟩, isLocal, rfl⟩ := List.mem_map.mp member
  obtain ⟨s, -, inLocals⟩ := List.mem_flatMap.mp isLocal
  have notVar := kind_of_mem_locals inLocals
  exact lookup_of_checkVars disjoint isVar notVar (lookup_checkStmts inOrder notVar (.inr isLocal))

end Declarations

open Declarations Grammar

/-! ## Places in a run -/

/-- What opens a scope inside a script. -/
inductive Enclosure where
  | block (stmts : List Stmt)
  | header (init : Option Simple)

namespace Enclosure

/-- The names that are declared by `let` or `const`. -/
def declared : Enclosure → List String
  | block stmts => (stmts.flatMap Stmt.locals).map Prod.fst
  | header init => (init.elim [] Simple.locals).map Prod.fst

def isHeader : Enclosure → Bool
  | block _ => false
  | header _ => true

theorem names_ofBlock (stmts : List Stmt) :
    (Scope.ofBlock stmts).names = (block stmts).declared := by
  rw [Scope.ofBlock_eq, Scope.names_ofDeclared, declared]

theorem names_ofHeader (init : Option Simple) :
    (Scope.ofHeader init).names = (header init).declared := by
  rw [Scope.ofHeader_eq, Scope.names_ofDeclared, declared]

end Enclosure

section

variable (limits : Limits) (clock : Clock) (rounds : Nat)

/-- Running a statement at a machine comes to one of its blocks, at another machine and behind the
    given headers. -/
inductive Enters : Stmt → Machine → List Enclosure → List Stmt → Machine → Prop where
  | yes {condition yes no m m₁ value} : m.tick limits clock = ⟨none, m₁⟩ →
      condition.eval m₁.scopes = .ok value → value.isTruthy = true →
      Enters (.branch condition yes no) m [] yes m₁
  | no {condition yes no m m₁ value} : m.tick limits clock = ⟨none, m₁⟩ →
      condition.eval m₁.scopes = .ok value → value.isTruthy = false →
      Enters (.branch condition yes (some no)) m [] no m₁
  | forLoop {init condition update body m k m₁ value} :
      LoopTests limits clock rounds init (condition.getD (.bool true)) update body m k m₁ →
      (condition.getD (.bool true)).eval m₁.scopes = .ok value → value.isTruthy = true →
      Enters (.forLoop init condition update body) m [.header init] body m₁
  | whileLoop {condition body m m₁ k m₂ value} : m.tick limits clock = ⟨none, m₁⟩ →
      Machine.TestsAfter condition
        (fun m => (runBlock limits clock rounds body m).andThen (Machine.tick limits clock))
        k m₁ m₂ →
      condition.eval m₂.scopes = .ok value → value.isTruthy = true →
      Enters (.whileLoop condition body) m [] body m₂
  | block {body m m₁} : m.tick limits clock = ⟨none, m₁⟩ → Enters (.block body) m [] body m₁

variable (script : Script) (start : Machine)

/-- A run of a script comes to the statements that are left of a block, at a machine and inside the
    given enclosures, innermost first. -/
inductive Reaches : List Enclosure → List Stmt → Machine → Prop where
  | script : Reaches [] script.body { start with scopes := [script.scope] }
  | next {around s rest m m'} : Reaches around (s :: rest) m →
      s.run limits clock rounds m = ⟨none, m'⟩ → Reaches around rest m'
  | inside {around s rest m headers body m'} : Reaches around (s :: rest) m →
      Enters limits clock rounds s m headers body m' →
      Reaches (.block body :: (headers ++ around)) body (m'.enter (Scope.ofBlock body))

/-- A run of a script performs a simple statement, be it one of a block or a part of a header. -/
inductive Performs : List Enclosure → Simple → Machine → Prop where
  | statement {around s rest m} :
      Reaches limits clock rounds script start around (.simple s :: rest) m → Performs around s m
  | init {around s condition update body rest m m₁} :
      Reaches limits clock rounds script start around
        (.forLoop (some s) condition update body :: rest) m →
      m.tick limits clock = ⟨none, m₁⟩ →
      Performs (.header (some s) :: around) s (m₁.enter (Scope.ofHeader (some s)))
  | update {around init condition s body rest m k m₁ value m₂} :
      Reaches limits clock rounds script start around
        (.forLoop init condition (some s) body :: rest) m →
      LoopTests limits clock rounds init (condition.getD (.bool true)) (some s) body m k m₁ →
      (condition.getD (.bool true)).eval m₁.scopes = .ok value → value.isTruthy = true →
      runBlock limits clock rounds body m₁ = ⟨none, m₂⟩ →
      Performs (.header init :: around) s m₂

end

/-! ## What holds at a place -/

section

variable {limits : Limits} {clock : Clock} {rounds : Nat}

theorem Machine.TestsAfter.names {condition : Expr} {round : Machine → Outcome} {k : Nat}
    {m m' : Machine} {names : List (List String)} (tests : TestsAfter condition round k m m')
    (keeps : Keeps names round) (same : m.scopes.names = names) : m'.scopes.names = names := by
  induction tests with
  | first => exact same
  | again _ _ _ run ih => exact keeps.names_eq run (ih same)

theorem Machine.names_of_tick {m m' : Machine} (ticked : m.tick limits clock = ⟨none, m'⟩) :
    m'.scopes.names = m.scopes.names :=
  (Keeps.tick limits clock).names_eq ticked rfl

theorem LoopTests.names {init update : Option Simple} {condition : Option Expr} {e : Expr}
    {body : List Stmt} {m m' : Machine} {k : Nat}
    (fits : (Stmt.forLoop init condition update body).FitsIn m.scopes.names)
    (tests : LoopTests limits clock rounds init e update body m k m') :
    m'.scopes.names = (Enclosure.header init).declared :: m.scopes.names := by
  obtain ⟨m₁, m₂, ticked, started, tests⟩ := tests
  rw [← Enclosure.names_ofHeader]
  have entered : (m₁.enter (Scope.ofHeader init)).scopes.names =
      (Scope.ofHeader init).names :: m.scopes.names :=
    congrArg (_ :: ·) (Machine.names_of_tick ticked)
  have round : Keeps ((Scope.ofHeader init).names :: m.scopes.names)
      (loopRound limits clock rounds update body) :=
    .andThen (keeps_runBlock fits (.head _) (getLastD_subset_cons _)) fits.keeps_update
  exact tests.names round (fits.keeps_init.names_eq started entered)

/-- What is known of a place: the names of the scopes, that there is room for the declarations of
    the statements, and that no block around it declares a name that they declare by `var`. -/
structure Placed (script : Script) (around : List Enclosure) (stmts : List Stmt) (m : Machine) :
    Prop where
  names : m.scopes.names = around.map Enclosure.declared ++ [script.scope.names]
  fits : ∀ s ∈ stmts, s.FitsIn m.scopes.names
  checked : ∀ s ∈ stmts, checkNested s = .ok ()
  apart : ∀ x ∈ varNames stmts, ∀ outer ∈ around, x ∈ outer.declared → outer.isHeader = true

namespace Placed

variable {script : Script} {around outside : List Enclosure} {s : Stmt} {rest body : List Stmt}
  {m m' : Machine}

theorem start {code : String} (compiled : Script.compile code = .ok script) (m : Machine) :
    Placed script [] script.body { m with scopes := [script.scope] } where
  names := rfl
  fits := script.fitsIn_scope (Script.areHeaded_of_compile compiled)
  checked := checkNested_of_checkBlock (Script.compile_eq_ok_iff.mp compiled).2.2
  apart := nofun

theorem next (placed : Placed script around (s :: rest) m)
    (run : s.run limits clock rounds m = ⟨none, m'⟩) : Placed script around rest m' := by
  have same := (s.keeps_run (placed.fits s (.head _))).names_eq run rfl
  refine ⟨same.trans placed.names, ?_, ?_, ?_⟩
  · rw [same]
    exact fun t later => placed.fits t (.tail _ later)
  · exact fun t later => placed.checked t (.tail _ later)
  · exact fun x isVar => placed.apart x (List.mem_append_right _ isVar)

/-- Entering a block, directly or behind headers. -/
theorem enter (placed : Placed script around (s :: rest) m) (member : body ∈ s.bodies)
    (names : m'.scopes.names = outside.map Enclosure.declared ++ [script.scope.names])
    (headers : ∀ outer ∈ outside, outer ∈ around ∨ outer.isHeader = true) :
    Placed script (.block body :: outside) body (m'.enter (Scope.ofBlock body)) := by
  have checked := checkBlock_of_mem_bodies (placed.checked s (.head _)) member
  have scopes : (m'.enter (Scope.ofBlock body)).scopes.names =
      (Scope.ofBlock body).names :: m'.scopes.names := rfl
  refine ⟨?_, ?_, checkNested_of_checkBlock checked, ?_⟩
  · rw [scopes, names, Enclosure.names_ofBlock]
    rfl
  · rw [scopes]
    refine (placed.fits s (.head _)).of_mem_bodies member ?_
    simp [names, placed.names]
  · intro x isVar outer inside isLocal
    rcases List.mem_cons.mp inside with rfl | inside
    · exact absurd isLocal (not_mem_locals_of_checkBlock checked isVar)
    · have inStmt := Stmt.varNames_subset_of_mem_bodies member isVar
      rcases headers outer inside with inside | isHeader
      · exact placed.apart x (List.mem_append_left _ inStmt) outer inside isLocal
      · exact isHeader

theorem inside {headers : List Enclosure} (placed : Placed script around (s :: rest) m)
    (enters : Enters limits clock rounds s m headers body m') :
    Placed script (.block body :: (headers ++ around)) body (m'.enter (Scope.ofBlock body)) := by
  have fits := placed.fits s (.head _)
  cases enters with
  | yes ticked =>
      exact placed.enter (.head _) ((Machine.names_of_tick ticked).trans placed.names) fun _ => .inl
  | no ticked =>
      exact placed.enter (.tail _ (.head _)) ((Machine.names_of_tick ticked).trans placed.names)
        fun _ => .inl
  | block ticked =>
      exact placed.enter (.head _) ((Machine.names_of_tick ticked).trans placed.names) fun _ => .inl
  | whileLoop ticked tests =>
      have names := tests.names
        (.andThen (keeps_runBlock fits (.head _) (List.Subset.refl _)) (.tick limits clock))
        (Machine.names_of_tick ticked)
      exact placed.enter (.head _) (names.trans placed.names) fun _ => .inl
  | @forLoop init _ _ _ _ _ _ _ tests =>
      refine placed.enter (.head _) ?_ ?_
      · rw [LoopTests.names fits tests, placed.names]
        rfl
      · intro outer member
        rcases List.mem_cons.mp member with rfl | member
        · exact .inr rfl
        · exact .inl member

end Placed

variable {script : Script} {start : Machine} {around : List Enclosure}

/-- Every place that a run of an accepted script comes to is as the text says. -/
theorem Reaches.placed {code : String} (compiled : Script.compile code = .ok script)
    {stmts : List Stmt} {m : Machine}
    (reaches : Reaches limits clock rounds script start around stmts m) :
    Placed script around stmts m := by
  induction reaches with
  | script => exact .start compiled start
  | next _ run ih => exact ih.next run
  | inside _ enters ih => exact ih.inside enters

theorem Performs.names {code : String} (compiled : Script.compile code = .ok script) {s : Simple}
    {m : Machine} (performs : Performs limits clock rounds script start around s m) :
    m.scopes.names = around.map Enclosure.declared ++ [script.scope.names] := by
  cases performs with
  | statement reaches => exact (reaches.placed compiled).names
  | init reaches ticked =>
      have placed := reaches.placed compiled
      refine congrArg₂ (· :: ·) (Enclosure.names_ofHeader _) ?_
      exact (Machine.names_of_tick ticked).trans placed.names
  | update reaches tests _ _ run =>
      have placed := reaches.placed compiled
      have fits := placed.fits _ (.head _)
      have tested := LoopTests.names fits tests
      have left := Keeps.names_eq
        (keeps_runBlock fits (.head _) (getLastD_subset_cons _)) run tested
      rw [left, placed.names]
      rfl

/-- What is declared by `var` can be declared in a header around it, but not in a block. -/
theorem Performs.isHeader {code : String} (compiled : Script.compile code = .ok script)
    {s : Simple} {m : Machine} (performs : Performs limits clock rounds script start around s m)
    {x : String} (isVar : x ∈ varOf s) :
    ∀ outer ∈ around, x ∈ outer.declared → outer.isHeader = true := by
  cases performs with
  | statement reaches =>
      exact (reaches.placed compiled).apart x (List.mem_append_left _ isVar)
  | init reaches =>
      intro outer member isLocal
      rcases List.mem_cons.mp member with rfl | member
      · rfl
      · refine (reaches.placed compiled).apart x (List.mem_append_left _ ?_) outer member isLocal
        simp [varNamesOf, isVar]
  | update reaches =>
      have fits := (reaches.placed compiled).fits _ (.head _)
      cases (fits.update : Simple.FitsIn [] _).vars x isVar

end

/-! ## Reading back what a `var` has been given -/

namespace Scopes

variable {name : String} {inner : Scopes} {scope : Scope}

theorem setOuter_append (inner : Scopes) (scope : Scope) (name : String) (binding : Binding) :
    setOuter name binding (inner ++ [scope]) = inner ++ [scope.set name binding] := by
  induction inner with
  | nil => rfl
  | cons first inner ih =>
      cases inner with
      | nil => rfl
      | cons => exact congrArg (first :: ·) ih

theorem find?_append (name : String) (inner outer : Scopes) :
    find? name (inner ++ outer) = (find? name inner).or (find? name outer) := by
  induction inner with
  | nil => rfl
  | cons scope inner ih => rw [List.cons_append, find?_cons, find?_cons, ih, Option.or_assoc]

theorem find?_eq_none : find? name inner = none ↔ ∀ names ∈ inner.names, name ∉ names := by
  induction inner with
  | nil => simp [find?, names]
  | cons scope inner ih =>
      rw [find?_cons, Option.or_eq_none_iff, Scope.lookup_eq_none, ih, names, names, List.map_cons,
        List.forall_mem_cons]

/-- A value that is set in the outermost scope is read unless an inner scope has the name. -/
theorem value_setOuter (inner : Scopes) (scope : Scope) (name : String) (value : Value) :
    (setOuter name ⟨some value, false⟩ (inner ++ [scope])).value name =
      if inner.names.any (·.contains name) then Scopes.value (inner ++ [scope]) name
      else .ok value := by
  rw [setOuter_append]
  cases found : find? name inner with
  | some binding =>
      have hidden : inner.names.any (·.contains name) = true := by
        by_contra free
        have absent : find? name inner = none := find?_eq_none.mpr (by simpa using free)
        cases found.symm.trans absent
      rw [if_pos hidden, Scopes.value, Scopes.value, find?_append, find?_append, found]
      rfl
  | none =>
      have free : ¬inner.names.any (·.contains name) = true := by
        simpa using find?_eq_none.mp found
      have set : find? name [scope.set name ⟨some value, false⟩] = some ⟨some value, false⟩ := by
        rw [find?_cons, Scope.lookup_set, if_pos rfl, Option.some_or]
      rw [if_neg free]
      exact value_of_find? (by rw [find?_append, found, Option.none_or, set])

end Scopes

/-- Wherever a run of an accepted script performs `var x = e`, no block around it declares `x` by
    `let` or `const`. If no header around it does, `x` has the value of `e` behind the statement.
    Otherwise `x` has there what it had before, as if the statement had not been performed. -/
theorem value_behind_var {code : String} {script : Script}
    (compiled : Script.compile code = .ok script) {limits : Limits} {clock : Clock} {rounds : Nat}
    {start m m' : Machine} {around : List Enclosure} {x : String} {e : Expr}
    (performs : Performs limits clock rounds script start around
      (.declare .varDecl x (some e)) m)
    (completes : (Simple.declare .varDecl x (some e)).run limits clock m = ⟨none, m'⟩) :
    (∀ outer ∈ around, x ∈ outer.declared → outer.isHeader = true) ∧
      ∃ value, e.eval m.scopes = .ok value ∧
        m'.scopes.value x =
          if around.any (·.declared.contains x) then m.scopes.value x else .ok value := by
  refine ⟨performs.isHeader compiled (.head _), ?_⟩
  obtain ⟨m₁, ticked, done⟩ := Outcome.andThen_eq_none completes
  have same : m₁.scopes = m.scopes := by simpa [ticked] using m.tick_scopes limits clock
  rw [Machine.simple, same] at done
  cases read : e.eval m.scopes with
  | error fault =>
      rw [Simple.exec, read] at done
      cases done
  | ok value =>
      rw [Simple.exec, read] at done
      cases done
      refine ⟨value, rfl, ?_⟩
      obtain ⟨inner, last, split, atInner, atLast⟩ :=
        List.map_eq_append_iff.mp (performs.names compiled)
      obtain ⟨scope, rfl, -⟩ := List.map_eq_singleton_iff.mp atLast
      have hidden : (Scopes.names inner).any (·.contains x) =
          around.any (·.declared.contains x) := by
        rw [Scopes.names, atInner, List.any_map]
        rfl
      rw [← hidden, split]
      exact Scopes.value_setOuter inner scope x value

/-- A `var` inside two blocks and a header, none of which has its name. -/
theorem value_behind_var_guarded :
    let s := Simple.declare .varDecl "x" (some (.name "y"))
    let init := Simple.declare .letDecl "y" (some (.text "a"))
    let guarded := Stmt.branch (.bool true) [.simple s] none
    let script : Script := ⟨[.forLoop (some init) (some (.bool true)) none [guarded]]⟩
    let code := "for (let y = \"a\"; true; ) \x7b\nif (true) \x7b\nvar x = y;\n\x7d\n\x7d\n"
    Script.compile code = .ok script ∧
      ∃ m m', Performs ⟨none, none⟩ (fun _ => 0) 1 script .fresh
          [.block [.simple s], .block [guarded], .header (some init)] s m ∧
        s.run ⟨none, none⟩ (fun _ => 0) m = ⟨none, m'⟩ ∧
        m'.scopes.value "x" = .ok (.text "a") := by
  intro s init guarded script code
  have proper : AreProper (IsSpelled fun _ => []) script.body := by
    have isX : IsName "x" := isName_of_isValid (by decide) (by decide)
    have isY : IsName "y" := isName_of_isValid (by decide) (by decide)
    simp [script, guarded, init, s, AreProper, Stmt.IsProper, Simple.IsProper, Simple.isInit,
      IsSpelled, isX, isY]
  have read : read program code.toList = .ok script.body := by
    have text : code.toList = layoutAll (Expr.enclosed fun _ => []) script.body := by decide +kernel
    have items := (proper.mono fun _ spelled => IsSpelled.phrase spelled 0).items_layoutAll .script
    rw [List.append_nil, ← outcome_program] at items
    rw [text]
    exact read_eq_ok_iff.mpr items
  have compiled : Script.compile code = .ok script :=
    Script.compile_eq_ok_iff.mpr ⟨by decide +kernel, read, rfl⟩
  have inLoop : Reaches ⟨none, none⟩ (fun _ => 0) 1 script .fresh
      [.block [guarded], .header (some init)] [guarded] _ :=
    .inside .script (.forLoop ⟨_, _, rfl, rfl, .first⟩ rfl rfl)
  have performs := Performs.statement (.inside inLoop (.yes rfl rfl rfl))
  obtain ⟨-, value, read, behind⟩ := value_behind_var compiled performs rfl
  cases read
  exact ⟨compiled, _, _, performs, rfl, behind⟩

/-- A header that declares the name of a `var` in the body of its loop: the script is accepted, and
    behind the `var` its value is not read. It is once the header declares another name. -/
theorem execute_hiddenVar :
    let hidden := "for (let x = 1; x < 2; x++) { var x = 5; console.log(x); }"
    let renamed := "for (let y = 1; y < 2; y++) { var x = 5; console.log(x); }"
    (Script.compile hidden).isOk = true ∧ Sandbox.execute hidden = ["1"] ∧
      Sandbox.execute renamed = ["5"] :=
  ⟨by decide +kernel, by decide +kernel, by decide +kernel⟩

end LineScript
