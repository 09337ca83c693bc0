import LineScript.Proofs.Except
import LineScript.Proofs.Grammar.Headers
import LineScript.Proofs.Run.Scoping

/-! # The names in scope

A scope has all its names from the start: those of the `let` and `const`
declarations of its block or header, and for the script as a whole those of every
`var` too. Running a statement, to its end or to a fault, gives bindings new values
and leaves the names of every scope as they are.
-/

namespace LineScript

open Declarations

namespace Scope

variable {scope : Scope} {name : String}

def names (scope : Scope) : List String :=
  scope.map Prod.fst

theorem lookup_eq_none : scope.lookup name = none ↔ name ∉ scope.names :=
  lookup_eq_none_iff

theorem names_set (binding : Binding) (member : name ∈ scope.names) :
    (scope.set name binding).names = scope.names := by
  induction scope with
  | nil => cases member
  | cons entry rest ih =>
      obtain ⟨first, old⟩ := entry
      rw [set]
      split
      · rfl
      · next elsewhere =>
          have later : name ∈ names rest :=
            (List.mem_cons.mp member).resolve_left (Ne.symm elsewhere)
          exact congrArg (first :: ·) (ih later)

theorem names_ofDeclared (declared : Declared) :
    (ofDeclared declared).names = declared.map Prod.fst := by
  simp [names, ofDeclared, Function.comp_def]

theorem names_subset_addVars (scope : Scope) (added : List String) :
    scope.names ⊆ (scope.addVars added).names := by
  induction added generalizing scope with
  | nil => exact List.Subset.refl _
  | cons other added ih =>
      rw [addVars]
      split
      · exact ih scope
      · exact List.Subset.trans (by simp [names]) (ih _)

theorem subset_names_addVars (scope : Scope) (added : List String) :
    added ⊆ (scope.addVars added).names := by
  intro name member
  by_contra absent
  have unfound := lookup_eq_none.mpr absent
  cases found : scope.lookup name with
  | none => cases unfound.symm.trans (lookup_addVars member found)
  | some binding => cases unfound.symm.trans (lookup_addVars_of_some found added)

end Scope

namespace Scopes

variable {scopes scopes' : Scopes} {name : String} {binding : Binding}

/-- The names of every scope. -/
def names (scopes : Scopes) : List (List String) :=
  scopes.map Scope.names

theorem names_replace (scopes : Scopes) (name : String) (binding : Binding) :
    (scopes.replace name binding).names = scopes.names := by
  induction scopes with
  | nil => rfl
  | cons scope outer ih =>
      rw [replace]
      split
      · next found =>
          refine congrArg (· :: names outer) (Scope.names_set binding ?_)
          by_contra absent
          cases found.symm.trans (Scope.lookup_eq_none.mpr absent)
      · exact congrArg (scope.names :: ·) ih

theorem names_setInner (member : name ∈ scopes.names.headD []) :
    (scopes.setInner name binding).names = scopes.names := by
  cases scopes with
  | nil => rfl
  | cons scope outer => exact congrArg (· :: names outer) (Scope.names_set binding member)

theorem names_setOuter (member : name ∈ scopes.names.getLastD []) :
    (scopes.setOuter name binding).names = scopes.names := by
  induction scopes with
  | nil => rfl
  | cons scope outer ih =>
      cases outer with
      | nil => exact congrArg ([·]) (Scope.names_set binding member)
      | cons next outer => exact congrArg (scope.names :: ·) (ih member)

theorem names_assign {value : Value} (assigned : scopes.assign name value = .ok scopes') :
    scopes'.names = scopes.names := by
  rw [assign] at assigned
  split at assigned <;> cases assigned
  exact names_replace scopes name _

end Scopes

/-! ## Room for what is declared -/

/-- Scopes with these names have those that a simple statement declares: the innermost one what is
    declared by `let` or `const`, the outermost one what is declared by `var`. -/
structure Simple.FitsIn (names : List (List String)) (s : Simple) : Prop where
  locals : ∀ declared ∈ s.locals, declared.1 ∈ names.headD []
  vars : ∀ x ∈ varOf s, x ∈ names.getLastD []

/-- Scopes with these names have those that a statement declares, and no header in it has more than
    may stand there. -/
structure Stmt.FitsIn (names : List (List String)) (s : Stmt) : Prop where
  headed : s.isHeaded = true
  locals : ∀ declared ∈ s.locals, declared.1 ∈ names.headD []
  vars : ∀ x ∈ varNamesOf s, x ∈ names.getLastD []

/-- The blocks that a statement is made of. -/
def Stmt.bodies : Stmt → List (List Stmt)
  | .branch _ yes no => yes :: no.toList
  | .forLoop _ _ _ body | .whileLoop _ body | .block body => [body]
  | .simple _ | .console _ _ | .expr _ | .empty => []

section Room

variable {s : Stmt} {body : List Stmt} {names outer : List (List String)}

theorem Stmt.areHeaded_of_mem_bodies (headed : s.isHeaded = true) (member : body ∈ s.bodies) :
    areHeaded body = true := by
  cases s with
  | branch condition yes no =>
      cases no with
      | none => simp_all [isHeaded, bodies]
      | some no =>
          simp only [isHeaded, Bool.and_eq_true] at headed
          rcases List.mem_pair.mp member with rfl | rfl
          · exact headed.1
          · exact headed.2
  | forLoop | whileLoop | block => simp_all [isHeaded, bodies]
  | simple | console | expr | empty => cases member

theorem Stmt.varNames_subset_of_mem_bodies (member : body ∈ s.bodies) :
    varNames body ⊆ varNamesOf s := by
  cases s with
  | branch condition yes no =>
      cases no with
      | none => simp_all [varNamesOf, bodies]
      | some no => rcases List.mem_pair.mp member with rfl | rfl <;> simp [varNamesOf]
  | forLoop | whileLoop | block => simp_all [varNamesOf, bodies]
  | simple | console | expr | empty => cases member

theorem varNamesOf_subset_varNames {stmts : List Stmt} (member : s ∈ stmts) :
    varNamesOf s ⊆ varNames stmts := by
  induction stmts with
  | nil => cases member
  | cons t rest ih =>
      rw [varNames]
      rcases List.mem_cons.mp member with rfl | later
      · exact List.subset_append_left _ _
      · exact List.subset_append_of_subset_right _ (ih later)

theorem Scope.mem_names_ofBlock (member : s ∈ body) :
    ∀ declared ∈ s.locals, declared.1 ∈ (ofBlock body).names := by
  intro declared inLocals
  rw [ofBlock_eq, names_ofDeclared]
  exact List.mem_map_of_mem (List.mem_flatMap.mpr ⟨s, member, inLocals⟩)

theorem getLastD_subset_cons (inner : List String) :
    outer.getLastD [] ⊆ (inner :: outer).getLastD [] := by
  cases outer with
  | nil => exact List.nil_subset _
  | cons => exact List.Subset.refl _

/-- A block is entered with a scope that has room for its statements. -/
theorem Stmt.FitsIn.of_mem_bodies (fits : s.FitsIn names) (member : body ∈ s.bodies)
    (reaches : names.getLastD [] ⊆ outer.getLastD []) :
    ∀ t ∈ body, t.FitsIn ((Scope.ofBlock body).names :: outer) := by
  intro t inBody
  refine ⟨?_, Scope.mem_names_ofBlock inBody, fun x declared => getLastD_subset_cons _ ?_⟩
  · exact areHeaded_iff.mp (areHeaded_of_mem_bodies fits.headed member) t inBody
  · have inStmt := varNames_subset_of_mem_bodies member (varNamesOf_subset_varNames inBody declared)
    exact reaches (fits.vars x inStmt)

theorem Stmt.FitsIn.init {init condition update}
    (fits : (Stmt.forLoop (some init) condition update body).FitsIn names) :
    init.FitsIn ((Scope.ofHeader (some init)).names :: names) := by
  refine ⟨fun declared member => ?_, fun x member => getLastD_subset_cons _ (fits.vars x ?_)⟩
  · rw [Scope.ofHeader_eq, Scope.names_ofDeclared]
    exact List.mem_map_of_mem member
  · simp [varNamesOf, member]

/-- Nothing is declared by the last part of a header. -/
theorem Stmt.FitsIn.update {init condition update}
    (fits : (Stmt.forLoop init condition (some update) body).FitsIn names) :
    update.FitsIn outer := by
  have isStep : update.isStep = true := by
    have headed := fits.headed
    simp only [isHeaded, Bool.and_eq_true, Option.all_some] at headed
    exact headed.1.2
  cases update with
  | declare => cases isStep
  | assign | update => exact ⟨by simp [Simple.locals], by simp [varOf]⟩

/-- The scope that a script starts in has room for its statements. -/
theorem Script.fitsIn_scope (script : Script) (headed : areHeaded script.body = true) :
    ∀ s ∈ script.body, s.FitsIn [script.scope.names] := by
  intro s member
  refine ⟨areHeaded_iff.mp headed s member, fun declared inLocals => ?_, fun x declared => ?_⟩
  · exact Scope.names_subset_addVars _ _ (Scope.mem_names_ofBlock member declared inLocals)
  · exact Scope.subset_names_addVars _ _ (varNamesOf_subset_varNames member declared)

end Room

/-! ## Names are kept -/

theorem Scopes.names_declare {scopes : Scopes} {kind : DeclKind} {name : String}
    {init : Option Expr} (fits : (Simple.declare kind name init).FitsIn scopes.names)
    (value : Option Value) :
    (scopes.declare kind name value).names = scopes.names := by
  cases kind with
  | letDecl => exact names_setInner (fits.locals (name, .letDecl) (.head _))
  | constDecl => exact names_setInner (fits.locals (name, .constDecl) (.head _))
  | varDecl =>
      cases value with
      | none => rfl
      | some value => exact names_setOuter (fits.vars name (.head _))

/-- A simple statement that is executed declares a variable or gives one a new value. -/
theorem Simple.exec_cases {scopes scopes' : Scopes} {s : Simple}
    (executed : s.exec scopes = .ok scopes') :
    (∃ kind name init value, s = .declare kind name init ∧
        scopes' = scopes.declare kind name value) ∨
      (s.locals = [] ∧ ∃ name value, scopes.assign name value = .ok scopes') := by
  cases s with
  | declare kind name init =>
      cases init with
      | none =>
          cases executed
          exact .inl ⟨kind, name, none, none, rfl, rfl⟩
      | some e =>
          obtain ⟨value, -, ⟨⟩⟩ := bind_eq_ok.mp executed
          exact .inl ⟨kind, name, some e, some value, rfl, rfl⟩
  | assign name op e =>
      cases op with
      | none =>
          obtain ⟨value, -, assigned⟩ := bind_eq_ok.mp executed
          exact .inr ⟨rfl, name, value, assigned⟩
      | some op =>
          obtain ⟨value, -, rest⟩ := bind_eq_ok.mp executed
          obtain ⟨current, -, assigned⟩ := bind_eq_ok.mp rest
          exact .inr ⟨rfl, name, _, assigned⟩
  | update name delta =>
      obtain ⟨current, -, assigned⟩ := bind_eq_ok.mp executed
      exact .inr ⟨rfl, name, _, assigned⟩

theorem Scopes.names_exec {scopes scopes' : Scopes} {s : Simple} (fits : s.FitsIn scopes.names)
    (executed : s.exec scopes = .ok scopes') : scopes'.names = scopes.names := by
  rcases s.exec_cases executed with ⟨kind, name, init, value, rfl, rfl⟩ | ⟨-, name, value, assigned⟩
  · exact names_declare fits value
  · exact names_assign assigned

/-- A part of a run leaves scopes with these names as they are, but for the bindings. -/
def Keeps (names : List (List String)) (f : Machine → Outcome) : Prop :=
  ∀ m, m.scopes.names = names → (f m).machine.scopes.names = names

namespace Keeps

variable {names : List (List String)} {f g : Machine → Outcome}

theorem names_eq {m m' : Machine} (keeps : Keeps names f) (run : f m = ⟨none, m'⟩)
    (same : m.scopes.names = names) : m'.scopes.names = names := by
  have kept := keeps m same
  rwa [run] at kept

theorem done : Keeps names (⟨none, ·⟩) :=
  fun _ same => same

theorem tick (limits : Limits) (clock : Clock) : Keeps names (·.tick limits clock) := by
  intro m same
  rw [Machine.tick_scopes, same]

theorem andThen (first : Keeps names f) (next : Keeps names g) :
    Keeps names fun m => (f m).andThen g :=
  fun m same => Outcome.andThen_machine (P := (·.scopes.names = names)) (first m same)
    fun m' _ => next m'

theorem within {scope : Scope} (inner : Keeps (scope.names :: names) f) :
    Keeps names (·.within scope f) := by
  intro m same
  have left := inner (m.enter scope) (congrArg (scope.names :: ·) same)
  exact (List.map_tail).trans (congrArg List.tail left)

theorem test {condition : Expr} (yes : Keeps names f) (no : Keeps names g) :
    Keeps names (·.test condition f g) := by
  intro m same
  simp only [Machine.test]
  split
  · exact same
  · split
    · exact yes m same
    · exact no m same

theorem loop {condition : Expr} (round : Keeps names f) (rounds : Nat) :
    Keeps names (Machine.loop condition f rounds) :=
  fun _ same => Machine.loop_machine (P := (·.scopes.names = names)) round condition rounds same

theorem simple {s : Simple} (fits : s.FitsIn names) : Keeps names (·.simple s) := by
  intro m same
  simp only [Machine.simple]
  split
  · exact same
  · next executed => exact (Scopes.names_exec (same ▸ fits) executed).trans same

theorem console (method : String) (args : List Expr) : Keeps names (·.console method args) := by
  intro m same
  simp only [Machine.console]
  split
  · exact same
  · split <;> exact same

end Keeps

section Runs

variable {limits : Limits} {clock : Clock} {rounds : Nat} {names : List (List String)}

theorem Simple.keeps_run {s : Simple} (fits : s.FitsIn names) : Keeps names (s.run limits clock) :=
  .andThen (.tick limits clock) (.simple fits)

theorem Stmt.FitsIn.keeps_init {init condition update body}
    (fits : (Stmt.forLoop init condition update body).FitsIn names) :
    Keeps ((Scope.ofHeader init).names :: names) (runInit limits clock init) := by
  cases init with
  | none => exact .done
  | some s => exact Simple.keeps_run fits.init

theorem Stmt.FitsIn.keeps_update {init condition update body} {outer : List (List String)}
    (fits : (Stmt.forLoop init condition update body).FitsIn names) :
    Keeps outer (runUpdate limits clock update) := by
  cases update with
  | none => exact .tick limits clock
  | some s => exact Simple.keeps_run fits.update

mutual

theorem Stmt.keeps_run : (s : Stmt) → ∀ {names}, s.FitsIn names →
    Keeps names (s.run limits clock rounds)
  | .simple s, _, fits => Simple.keeps_run ⟨fits.locals, fits.vars⟩
  | .console method args, _, _ => .andThen (.tick limits clock) (.console method args)
  | .branch condition yes none, _, fits => by
      have inYes := fits.of_mem_bodies (.head _) (List.Subset.refl _)
      exact .andThen (.tick limits clock) (.test (.within (keeps_runAll yes inYes)) .done)
  | .branch condition yes (some no), _, fits => by
      have inYes := fits.of_mem_bodies (.head _) (List.Subset.refl _)
      have inNo := fits.of_mem_bodies (.tail _ (.head _)) (List.Subset.refl _)
      refine .andThen (.tick limits clock) (.test (.within ?_) (.within ?_))
      · exact keeps_runAll yes inYes
      · exact keeps_runAll no inNo
  | .forLoop init condition update body, _, fits => by
      have inBody := fits.of_mem_bodies (.head _)
        (getLastD_subset_cons (Scope.ofHeader init).names)
      refine .andThen (.tick limits clock) (.within (.andThen fits.keeps_init (.loop ?_ rounds)))
      exact .andThen (.within (keeps_runAll body inBody)) fits.keeps_update
  | .whileLoop condition body, _, fits => by
      have inBody := fits.of_mem_bodies (.head _) (List.Subset.refl _)
      refine .andThen (.tick limits clock) (.loop ?_ rounds)
      exact .andThen (.within (keeps_runAll body inBody)) (.tick limits clock)
  | .block body, _, fits => by
      have inBody := fits.of_mem_bodies (.head _) (List.Subset.refl _)
      exact .andThen (.tick limits clock) (.within (keeps_runAll body inBody))
  | .expr e, _, _ => by
      refine .andThen (.tick limits clock) fun m same => ?_
      split <;> exact same
  | .empty, _, _ => .tick limits clock

theorem keeps_runAll : (stmts : List Stmt) → ∀ {names}, (∀ s ∈ stmts, s.FitsIn names) →
    Keeps names (runAll limits clock rounds stmts)
  | [], _, _ => .done
  | s :: rest, _, fits =>
      .andThen (s.keeps_run (fits s (.head _)))
        (keeps_runAll rest fun t later => fits t (.tail _ later))

end

theorem keeps_runBlock {s : Stmt} {body : List Stmt} {outer : List (List String)}
    (fits : s.FitsIn names) (member : body ∈ s.bodies)
    (reaches : names.getLastD [] ⊆ outer.getLastD []) :
    Keeps outer (runBlock limits clock rounds body) :=
  .within (keeps_runAll body (fits.of_mem_bodies member reaches))

end Runs

end LineScript
