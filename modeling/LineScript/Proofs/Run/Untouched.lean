import LineScript.Proofs.Run.Names

/-! # What a statement leaves alone

A statement changes the variables that it or a part of it assigns, updates or declares. A `let` or
`const` inside one of its blocks goes into the scope of that block, which is gone behind the block.
So every other name has the same binding as before in every scope, also where the statement fails.
-/

namespace LineScript

/-! ## The names that are changed -/

/-- The name that a simple statement changes wherever it is declared. -/
def Simple.changed : Simple → List String
  | .assign name _ _ | .update name _ | .declare .varDecl name (some _) => [name]
  | .declare .varDecl _ none | .declare .letDecl _ _ | .declare .constDecl _ _ => []

mutual
/-- The names that a statement assigns, updates or declares by `var` with a first value, at any
    depth. -/
def Stmt.changed : Stmt → List String
  | .simple s => s.changed
  | .branch _ yes none => allChanged yes
  | .branch _ yes (some no) => allChanged yes ++ allChanged no
  | .forLoop init _ update body =>
      init.toList.flatMap Simple.changed ++ update.toList.flatMap Simple.changed ++ allChanged body
  | .whileLoop _ body | .block body => allChanged body
  | .console _ _ | .expr _ | .empty => []

@[inherit_doc Stmt.changed]
def allChanged : List Stmt → List String
  | [] => []
  | s :: rest => s.changed ++ allChanged rest
end

/-! ## Bindings in every scope -/

namespace Scopes

variable {x name : String} {binding : Binding} {scopes scopes' : Scopes}

/-- The binding of a name in each scope. -/
def bindings (x : String) (scopes : Scopes) : List (Option Binding) :=
  scopes.map (·.lookup x)

/-- The binding of a name in each scope but the innermost. -/
def outerBindings (x : String) (scopes : Scopes) : List (Option Binding) :=
  bindings x scopes.tail

theorem bindings_setInner (other : x ≠ name) :
    (scopes.setInner name binding).bindings x = scopes.bindings x := by
  cases scopes with
  | nil => rfl
  | cons scope outer => simp [setInner, bindings, Scope.lookup_set, other]

theorem bindings_setOuter (other : x ≠ name) :
    (scopes.setOuter name binding).bindings x = scopes.bindings x := by
  induction scopes with
  | nil => rfl
  | cons scope outer ih =>
      cases outer with
      | nil => simp [setOuter, bindings, Scope.lookup_set, other]
      | cons next outer => exact congrArg (scope.lookup x :: ·) ih

theorem bindings_replace (other : x ≠ name) :
    (scopes.replace name binding).bindings x = scopes.bindings x := by
  induction scopes with
  | nil => rfl
  | cons scope outer ih =>
      rw [replace]
      split
      · simp [bindings, Scope.lookup_set, other]
      · exact congrArg (scope.lookup x :: ·) ih

theorem bindings_assign {value : Value} (other : x ≠ name)
    (assigned : scopes.assign name value = .ok scopes') :
    scopes'.bindings x = scopes.bindings x := by
  rw [assign] at assigned
  split at assigned <;> cases assigned
  exact bindings_replace other

theorem outerBindings_setInner :
    (scopes.setInner name binding).outerBindings x = scopes.outerBindings x := by
  cases scopes <;> rfl

end Scopes

open Scopes

/-- A simple statement keeps the binding of a name that it does not change, but for a `let` or
    `const` of the name, which has its place in the innermost scope. -/
theorem Simple.exec_bindings {s : Simple} {scopes scopes' : Scopes} {x : String}
    (unchanged : x ∉ s.changed) (executed : s.exec scopes = .ok scopes') :
    scopes'.bindings x = scopes.bindings x ∨
      x ∈ s.locals.map Prod.fst ∧ ∃ binding, scopes' = scopes.setInner x binding := by
  have inner : ∀ {name binding}, scopes' = scopes.setInner name binding →
      s.locals.map Prod.fst = [name] → scopes'.bindings x = scopes.bindings x ∨
        x ∈ s.locals.map Prod.fst ∧ ∃ binding, scopes' = scopes.setInner x binding := by
    rintro name binding rfl isLocal
    by_cases same : x = name
    · subst same
      exact .inr ⟨isLocal ▸ List.mem_singleton_self x, binding, rfl⟩
    · exact .inl (bindings_setInner same)
  cases s with
  | declare kind name init =>
      cases init with
      | none =>
          cases executed
          cases kind with
          | varDecl => exact .inl rfl
          | letDecl | constDecl => exact inner rfl rfl
      | some e =>
          obtain ⟨value, -, ⟨⟩⟩ := bind_eq_ok.mp executed
          cases kind with
          | varDecl => exact .inl (bindings_setOuter (List.ne_of_not_mem_cons unchanged))
          | letDecl | constDecl => exact inner rfl rfl
  | assign name op e =>
      have other : x ≠ name := List.ne_of_not_mem_cons unchanged
      cases op with
      | none =>
          obtain ⟨value, -, assigned⟩ := bind_eq_ok.mp executed
          exact .inl (bindings_assign other assigned)
      | some op =>
          obtain ⟨value, -, rest⟩ := bind_eq_ok.mp executed
          obtain ⟨current, -, assigned⟩ := bind_eq_ok.mp rest
          exact .inl (bindings_assign other assigned)
  | update name delta =>
      have other : x ≠ name := List.ne_of_not_mem_cons unchanged
      obtain ⟨current, -, assigned⟩ := bind_eq_ok.mp executed
      exact .inl (bindings_assign other assigned)

/-! ## Parts of a run -/

/-- A part of a run leaves what is seen of the scopes as it is, however it ends. -/
def Spares {α : Type} (view : Scopes → α) (f : Machine → Outcome) : Prop :=
  ∀ m, view (f m).machine.scopes = view m.scopes

namespace Spares

variable {α : Type} {view : Scopes → α} {f g : Machine → Outcome} {x : String}

theorem done : Spares view (⟨none, ·⟩) :=
  fun _ => rfl

theorem tick (limits : Limits) (clock : Clock) : Spares view (·.tick limits clock) := by
  intro m
  rw [Machine.tick_scopes]

theorem andThen (first : Spares view f) (next : Spares view g) :
    Spares view fun m => (f m).andThen g :=
  fun m => Outcome.andThen_machine (P := (view ·.scopes = view m.scopes)) (first m)
    fun m' _ same => (next m').trans same

theorem test {condition : Expr} (yes : Spares view f) (no : Spares view g) :
    Spares view (·.test condition f g) := by
  intro m
  simp only [Machine.test]
  split
  · rfl
  · split
    · exact yes m
    · exact no m

theorem loop {condition : Expr} (round : Spares view f) (rounds : Nat) :
    Spares view (Machine.loop condition f rounds) :=
  fun m => Machine.loop_machine (P := (view ·.scopes = view m.scopes))
    (fun m' same => (round m').trans same) condition rounds rfl

theorem console (method : String) (args : List Expr) : Spares view (·.console method args) := by
  intro m
  simp only [Machine.console]
  split
  · rfl
  · split <;> rfl

theorem eval (e : Expr) : Spares view fun m =>
    match e.eval m.scopes with
    | .error f => m.failWith f
    | .ok _ => ⟨none, m⟩ := by
  intro m
  dsimp only
  split <;> rfl

theorem simple {s : Simple}
    (kept : ∀ {scopes scopes'}, s.exec scopes = .ok scopes' → view scopes' = view scopes) :
    Spares view (·.simple s) := by
  intro m
  simp only [Machine.simple]
  split
  · rfl
  · next executed => exact kept executed

/-- What spares the scopes around its own spares all that are there before. -/
theorem within {scope : Scope} (inner : Spares (outerBindings x) f) :
    Spares (bindings x) (·.within scope f) :=
  fun m => inner (m.enter scope)

theorem outer (spares : Spares (bindings x) f) : Spares (outerBindings x) f := by
  intro m
  simp only [outerBindings, bindings, List.map_tail]
  exact congrArg List.tail (spares m)

end Spares

section Runs

variable {limits : Limits} {clock : Clock} {rounds : Nat} {x : String}

theorem Simple.spares_run {s : Simple} (unchanged : x ∉ s.changed)
    (undeclared : x ∉ s.locals.map Prod.fst) : Spares (bindings x) (s.run limits clock) := by
  refine .andThen (.tick limits clock) (.simple fun executed => ?_)
  rcases exec_bindings unchanged executed with same | ⟨declared, -⟩
  · exact same
  · exact absurd declared undeclared

/-- A declaration in a block is out of sight for what is around the block. -/
theorem Simple.spares_outer {s : Simple} (unchanged : x ∉ s.changed) :
    Spares (outerBindings x) (s.run limits clock) := by
  refine .andThen (.tick limits clock) (.simple fun executed => ?_)
  rcases exec_bindings unchanged executed with same | ⟨-, binding, rfl⟩
  · simp only [outerBindings, bindings, List.map_tail]
    exact congrArg List.tail same
  · exact outerBindings_setInner

theorem spares_init {init : Option Simple} (unchanged : x ∉ init.toList.flatMap Simple.changed) :
    Spares (outerBindings x) (runInit limits clock init) := by
  cases init with
  | none => exact .done
  | some s => exact s.spares_outer (by simpa using unchanged)

theorem spares_update {update : Option Simple}
    (unchanged : x ∉ update.toList.flatMap Simple.changed) :
    Spares (outerBindings x) (runUpdate limits clock update) := by
  cases update with
  | none => exact .tick limits clock
  | some s => exact s.spares_outer (by simpa using unchanged)

theorem Stmt.eq_simple {s : Stmt} (declared : x ∈ s.locals.map Prod.fst) :
    ∃ simple, s = .simple simple := by
  cases s with
  | simple s => exact ⟨s, rfl⟩
  | _ => cases declared

mutual

theorem Stmt.spares_run : (s : Stmt) → x ∉ s.changed → x ∉ s.locals.map Prod.fst →
    Spares (bindings x) (s.run limits clock rounds)
  | .simple s, unchanged, undeclared => s.spares_run unchanged undeclared
  | .console method args, _, _ => .andThen (.tick limits clock) (.console method args)
  | .branch condition yes none, unchanged, _ =>
      .andThen (.tick limits clock) (.test (.within (spares_runAll yes unchanged)) .done)
  | .branch condition yes (some no), unchanged, _ => by
      rw [Stmt.changed, List.mem_append, not_or] at unchanged
      refine .andThen (.tick limits clock) (.test (.within ?_) (.within ?_))
      · exact spares_runAll yes unchanged.1
      · exact spares_runAll no unchanged.2
  | .forLoop init condition update body, unchanged, _ => by
      simp only [Stmt.changed, List.mem_append, not_or] at unchanged
      obtain ⟨⟨inInit, inUpdate⟩, inBody⟩ := unchanged
      refine .andThen (.tick limits clock) (.within ?_)
      refine .andThen (spares_init inInit) (.loop ?_ rounds)
      exact .andThen (Spares.within (spares_runAll body inBody)).outer (spares_update inUpdate)
  | .whileLoop condition body, unchanged, _ => by
      refine .andThen (.tick limits clock) (.loop ?_ rounds)
      exact .andThen (.within (spares_runAll body unchanged)) (.tick limits clock)
  | .block body, unchanged, _ =>
      .andThen (.tick limits clock) (.within (spares_runAll body unchanged))
  | .expr e, _, _ => .andThen (.tick limits clock) (.eval e)
  | .empty, _, _ => .tick limits clock

theorem spares_runAll : (stmts : List Stmt) → x ∉ allChanged stmts →
    Spares (outerBindings x) (runAll limits clock rounds stmts)
  | [], _ => .done
  | s :: rest, unchanged => by
      rw [allChanged, List.mem_append, not_or] at unchanged
      refine .andThen ?_ (spares_runAll rest unchanged.2)
      -- A declaration of the name has its place in the scope of this block, which is not looked at.
      by_cases declared : x ∈ s.locals.map Prod.fst
      · obtain ⟨s, rfl⟩ := Stmt.eq_simple declared
        exact s.spares_outer unchanged.1
      · exact (s.spares_run unchanged.1 declared).outer

end

end Runs

/-- Whatever the scopes are and however the statement ends, a name that it does not assign, update
    or declare by `var` with a first value, at any depth, and that it does not itself declare by
    `let` or `const`, has the same binding in every scope behind it as before it. -/
theorem run_frame (limits : Limits) (clock : Clock) (rounds : Nat) (s : Stmt) (x : String)
    (unchanged : x ∉ s.changed) (undeclared : x ∉ s.locals.map Prod.fst) (m : Machine) :
    (s.run limits clock rounds m).machine.scopes.map (·.lookup x) = m.scopes.map (·.lookup x) :=
  s.spares_run unchanged undeclared m

/-- A block that declares a name itself and then fails keeps the variable of that name around it. -/
theorem run_frame_shadowed :
    let inner : List Stmt := [.simple (.declare .letDecl "x" (some (.text "inner"))),
      .simple (.assign "y" none (.name "x")), .simple (.assign "z" none (.name "x"))]
    let outer : Scope := [("x", ⟨some (.text "outer"), false⟩), ("y", ⟨some .null, false⟩)]
    let m : Machine := ⟨[outer], #[], 0⟩
    let o := (Stmt.block inner).run default (fun _ => 0) 0 m
    o.halt = some (.fault (.notDefined "z")) ∧
      o.machine.scopes.map (·.lookup "x") = [some ⟨some (.text "outer"), false⟩] ∧
      o.machine.scopes.map (·.lookup "y") = [some ⟨some (.text "inner"), false⟩] := by
  intro inner outer m o
  refine ⟨?_, ?_, ?_⟩
  · rfl
  · exact (run_frame default (fun _ => 0) 0 (.block inner) "x" (by decide) (by decide) m).trans rfl
  · rfl

end LineScript
