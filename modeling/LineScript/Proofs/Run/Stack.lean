import LineScript.Proofs.Run.Constancy

/-! # The stack of scopes

A declaration is put into the innermost scope, or into that of the script as a whole, without a look
at what stands there. It is always the right scope, and the name is in it already: blocks and
headers are entered with the names that they declare, the script with those of every `var` too. So a
statement leaves behind the scopes that it has found, each with its names, whether it completes or
halts.
-/

namespace LineScript

open Declarations Grammar

/-! ## Where a statement stands -/

namespace Script

/-- The names of the scopes inside the given enclosures, as they were entered. -/
def namesIn (script : Script) (around : List Enclosure) : List (List String) :=
  around.map Enclosure.declared ++ [script.scope.names]

/-- The given enclosures and, around them, the script itself. -/
def enclosing (script : Script) (around : List Enclosure) : List Enclosure :=
  around ++ [.block script.body]

/-- A script is entered with what its statements declare and with every `var` inside it. -/
theorem mem_names_scope {script : Script} {x : String} :
    x ∈ script.scope.names ↔
      x ∈ (Enclosure.block script.body).declared ∨ x ∈ script.varNames := by
  have added : ∀ (scope : Scope) (vars : List String),
      (scope.addVars vars).names ⊆ scope.names ++ vars := by
    intro scope vars
    induction vars generalizing scope with
    | nil => exact List.subset_append_left _ _
    | cons name vars ih =>
        rw [Scope.addVars]
        split
        · exact List.Subset.trans (ih scope) (by simp)
        · exact List.Subset.trans (ih _) (by simp [Scope.names])
  rw [← Enclosure.names_ofBlock, ← List.mem_append]
  refine ⟨fun member => added _ _ member, fun member => ?_⟩
  rcases List.mem_append.mp member with isLocal | isVar
  · exact Scope.names_subset_addVars _ _ isLocal
  · exact Scope.subset_names_addVars _ _ isVar

end Script

section Places

variable {limits : Limits} {clock : Clock} {rounds : Nat} {script : Script} {start m m' : Machine}
  {around : List Enclosure} {s : Simple} {code : String}

theorem Enters.mem_bodies {t : Stmt} {headers : List Enclosure} {body : List Stmt}
    (enters : Enters limits clock rounds t m headers body m') : body ∈ t.bodies := by
  cases enters with
  | no => exact .tail _ (.head _)
  | yes | forLoop | whileLoop | block => exact .head _

/-- What is left to run are the last statements of the innermost block. -/
theorem Reaches.exists_suffix {stmts : List Stmt}
    (reaches : Reaches limits clock rounds script start around stmts m) :
    ∃ body, (script.enclosing around).head? = some (.block body) ∧ stmts <:+ body := by
  induction reaches with
  | script => exact ⟨script.body, rfl, List.suffix_rfl⟩
  | next _ _ ih =>
      obtain ⟨body, innermost, suffix⟩ := ih
      exact ⟨body, innermost, (List.suffix_cons _ _).trans suffix⟩
  | inside _ _ _ => exact ⟨_, rfl, List.suffix_rfl⟩

theorem Reaches.varNames_subset {stmts : List Stmt}
    (reaches : Reaches limits clock rounds script start around stmts m) :
    varNames stmts ⊆ script.varNames := by
  induction reaches with
  | script => exact List.Subset.refl _
  | next _ _ ih => exact fun x isVar => ih (List.mem_append_right _ isVar)
  | inside _ enters ih =>
      have inStmt := Stmt.varNames_subset_of_mem_bodies enters.mem_bodies
      exact fun x isVar => ih (List.mem_append_left _ (inStmt isVar))

namespace Performs

/-- Where a simple statement is performed there is room for what it declares. -/
theorem fitsIn (compiled : Script.compile code = .ok script)
    (performs : Performs limits clock rounds script start around s m) :
    s.FitsIn m.scopes.names := by
  cases performs with
  | statement reaches =>
      have fits := (reaches.placed compiled).fits _ (.head _)
      exact ⟨fits.locals, fits.vars⟩
  | init reaches ticked =>
      have entered : ∀ scope : Scope, (Machine.enter _ scope).scopes.names = scope.names :: _ :=
        fun scope => congrArg (scope.names :: ·) (Machine.names_of_tick ticked)
      rw [entered]
      exact ((reaches.placed compiled).fits _ (.head _)).init
  | update reaches => exact ((reaches.placed compiled).fits _ (.head _)).update

/-- A declaration stands in the innermost of the enclosures. -/
theorem holds {kind : DeclKind} {x : String} {init : Option Expr}
    (compiled : Script.compile code = .ok script)
    (performs : Performs limits clock rounds script start around (.declare kind x init) m) :
    ∃ e ∈ (script.enclosing around).head?, e.Holds (.declare kind x init) := by
  cases performs with
  | statement reaches =>
      obtain ⟨body, innermost, suffix⟩ := reaches.exists_suffix
      exact ⟨.block body, innermost, suffix.subset (.head _)⟩
  | init => exact ⟨_, rfl, rfl⟩
  | update reaches =>
      have headed := ((reaches.placed compiled).fits _ (.head _)).headed
      simp [Stmt.isHeaded, Simple.isStep] at headed

theorem varOf_subset (compiled : Script.compile code = .ok script)
    (performs : Performs limits clock rounds script start around s m) :
    varOf s ⊆ script.varNames := by
  intro x isVar
  cases performs with
  | statement reaches => exact reaches.varNames_subset (List.mem_append_left _ isVar)
  | init reaches =>
      refine reaches.varNames_subset (List.mem_append_left _ ?_)
      simp [varNamesOf, isVar]
  | update reaches =>
      have fits := (reaches.placed compiled).fits _ (.head _)
      cases (fits.update : Simple.FitsIn [] _).vars x isVar

end Performs

end Places

/-! ## What a declaration does -/

/-- In the scope that has `p` scopes below it a name, which is there, is given a value, and nothing
    else changes. -/
structure Scopes.Fills (p : Nat) (x : String) (old new : Scopes) : Prop where
  there : (old.binding? p x).isSome = true
  filled : ∃ value constant, new.binding? p x = some ⟨some value, constant⟩
  others : ∀ q y, (q, y) ≠ (p, x) → new.binding? q y = old.binding? q y

namespace Scopes

variable {scopes scopes' : Scopes} {p : Nat} {x : String}

theorem Fills.cons (fills : scopes.Fills p x scopes') (same : scopes'.length = scopes.length)
    (scope : Scope) : Fills p x (scope :: scopes) (scope :: scopes') := by
  obtain ⟨b, found⟩ := Option.isSome_iff_exists.mp fills.there
  have below := lt_of_binding? found
  have below' : p < scopes'.length := same ▸ below
  refine ⟨?_, ?_, fun q y other => ?_⟩
  · rw [binding?_cons_of_lt _ below]
    exact fills.there
  · rw [binding?_cons_of_lt _ below']
    exact fills.filled
  · rw [binding?, binding?, same, fills.others q y other]

theorem fills_setInner (member : x ∈ scopes.names.headD []) (value : Value) (constant : Bool) :
    scopes.Fills (scopes.length - 1) x (scopes.setInner x ⟨some value, constant⟩) := by
  cases scopes with
  | nil => cases member
  | cons scope outer =>
      rw [List.length_cons, Nat.add_sub_cancel, setInner]
      refine ⟨?_, ⟨value, constant, ?_⟩, fun q y other => ?_⟩
      · rw [binding?_cons_self, Option.isSome_iff_ne_none]
        exact fun none_ => Scope.lookup_eq_none.mp none_ member
      · rw [binding?_cons_self, Scope.lookup_set, if_pos rfl]
      · rw [binding?, binding?]
        split
        · next here =>
            have differs : y ≠ x := by
              rintro rfl
              exact other (by rw [here])
            rw [Scope.lookup_set, if_neg differs]
        · rfl

theorem fills_setOuter (member : x ∈ scopes.names.getLastD []) (value : Value) :
    scopes.Fills 0 x (scopes.setOuter x ⟨some value, false⟩) := by
  induction scopes with
  | nil => cases member
  | cons scope outer ih =>
      cases outer with
      | nil =>
          have inner : x ∈ (names [scope]).headD [] := member
          exact fills_setInner inner value false
      | cons next outer =>
          have same : (setOuter x ⟨some value, false⟩ (next :: outer)).names =
              names (next :: outer) := names_setOuter member
          have length := congrArg List.length same
          rw [names, names, List.length_map, List.length_map] at length
          exact (ih member).cons length scope

end Scopes

/-- What a declaration does to scopes that have room for it: by `let` or `const` it fills a name of
    the innermost scope, by `var` one of the outermost, and a `var` without a first value does
    nothing. -/
theorem Simple.exec_declare {kind : DeclKind} {x : String} {init : Option Expr}
    {scopes scopes' : Scopes} (fits : (Simple.declare kind x init).FitsIn scopes.names)
    (executed : (Simple.declare kind x init).exec scopes = .ok scopes') :
    if kind ≠ .varDecl then scopes.Fills (scopes.length - 1) x scopes'
    else if init.isSome then scopes.Fills 0 x scopes' else scopes' = scopes := by
  have inner : ∀ value : Option Value, kind ≠ .varDecl → scopes' = scopes.declare kind x value →
      scopes.Fills (scopes.length - 1) x scopes' := by
    rintro value isLocal rfl
    cases kind with
    | letDecl => exact Scopes.fills_setInner (fits.locals (x, .letDecl) (.head _)) _ _
    | constDecl => exact Scopes.fills_setInner (fits.locals (x, .constDecl) (.head _)) _ _
    | varDecl => exact absurd rfl isLocal
  cases init with
  | none =>
      cases executed
      split
      · next isLocal => exact inner none isLocal rfl
      · next isVar =>
          obtain rfl := not_not.mp isVar
          rfl
  | some e =>
      obtain ⟨value, -, ⟨⟩⟩ := bind_eq_ok.mp executed
      split
      · next isLocal => exact inner (some value) isLocal rfl
      · next isVar =>
          obtain rfl := not_not.mp isVar
          exact Scopes.fills_setOuter (fits.vars x (.head _)) value

section Completed

variable {limits : Limits} {clock : Clock} {m m' : Machine}

theorem Machine.scopes_of_tick (ticked : m.tick limits clock = ⟨none, m'⟩) :
    m'.scopes = m.scopes := by
  simpa [ticked] using m.tick_scopes limits clock

theorem Simple.exec_of_run {s : Simple} (completes : s.run limits clock m = ⟨none, m'⟩) :
    s.exec m.scopes = .ok m'.scopes := by
  obtain ⟨m₁, ticked, done⟩ := Outcome.andThen_eq_none completes
  rw [Machine.simple, Machine.scopes_of_tick ticked] at done
  split at done
  · cases done
  · next scopes executed =>
      cases done
      exact executed

end Completed

/-! ## The moments of a run, told by their places -/

namespace Moments

variable {f : Machine → Outcome} {first next : Moments} {around : List Enclosure} {m : Machine}
  {v : Moment}

theorem of_mem_behind (member : v ∈ behind f next m) : ∃ m₁, f m = ⟨none, m₁⟩ ∧ v ∈ next m₁ := by
  rw [behind] at member
  split at member
  · next m₁ run => exact ⟨m₁, run, member⟩
  · cases member

theorem of_mem_andThen (member : v ∈ andThen f first next m) :
    v ∈ first m ∨ ∃ m₁, f m = ⟨none, m₁⟩ ∧ v ∈ next m₁ :=
  (List.mem_append.mp member).imp_right of_mem_behind

theorem of_mem_simple {s : Simple} (member : v ∈ simple around s m) :
    ∃ scopes, s.exec m.scopes = .ok scopes ∧ v = ⟨⟨around, scopes⟩, .perform s⟩ := by
  rw [simple] at member
  split at member
  · cases member
  · next scopes executed => exact ⟨scopes, executed, List.mem_singleton.mp member⟩

theorem of_mem_within {e : Enclosure} (member : v ∈ within around e f first m) :
    v = ⟨⟨e :: around, (m.enter e.scope).scopes⟩, .enter e⟩ ∨ v ∈ first (m.enter e.scope) ∨
      v = ⟨⟨around, (f (m.enter e.scope)).machine.leave.scopes⟩, .leave⟩ := by
  simpa [within] using member

theorem of_mem_test {condition : Expr} (member : v ∈ test condition first next m) :
    ∃ value, condition.eval m.scopes = .ok value ∧
      (value.isTruthy = true ∧ v ∈ first m ∨ value.isTruthy = false ∧ v ∈ next m) := by
  rw [test] at member
  split at member
  · cases member
  · next value holds =>
      refine ⟨value, holds, ?_⟩
      split at member
      · next truthy => exact .inl ⟨truthy, member⟩
      · next falsy => exact .inr ⟨Bool.eq_false_iff.mpr falsy, member⟩

/-- A moment of a loop is one of a round, which comes behind a test that holds. -/
theorem of_mem_loop {condition : Expr} {rounds : Nat}
    (member : v ∈ loop condition f first rounds m) :
    ∃ k m₁ value, Machine.TestsAfter condition f k m m₁ ∧ condition.eval m₁.scopes = .ok value ∧
      value.isTruthy = true ∧ v ∈ first m₁ := by
  induction rounds generalizing m with
  | zero => cases member
  | succ rounds ih =>
      obtain ⟨value, holds, ⟨truthy, member⟩ | ⟨-, member⟩⟩ := of_mem_test member
      · rcases of_mem_andThen member with member | ⟨m₁, run, member⟩
        · exact ⟨0, m, value, .first, holds, truthy, member⟩
        · obtain ⟨k, m₂, value', tests, rest⟩ := ih member
          exact ⟨1 + k, m₂, value', (Machine.TestsAfter.first.again holds truthy run).trans tests,
            rest⟩
      · cases member

end Moments

/-- A moment inside the given enclosures: the scopes have the names with which they were entered,
    and what is performed is a statement that the run comes to there. -/
structure Moment.IsIn (limits : Limits) (clock : Clock) (rounds : Nat) (script : Script)
    (start : Machine) (around : List Enclosure) (v : Moment) : Prop where
  around_eq : v.around = script.enclosing around
  names : v.scopes.names = script.namesIn around
  performs : ∀ s, v.act = .perform s →
    ∃ m, Performs limits clock rounds script start around s m ∧ s.exec m.scopes = .ok v.scopes

/-- Leaving what was entered, with its names, leaves the names around it. -/
theorem Script.names_leave {script : Script} {m : Machine} {e : Enclosure} {around : List Enclosure}
    (names : m.scopes.names = script.namesIn (e :: around)) :
    m.leave.scopes.names = script.namesIn around :=
  (List.map_tail).trans (congrArg List.tail names)

section Located

variable {limits : Limits} {clock : Clock} {rounds : Nat} {code : String} {script : Script}
  {start : Machine}

/-- The moments of a part of a run, from a machine on, are moments inside enclosures. -/
abbrev Located (limits : Limits) (clock : Clock) (rounds : Nat) (script : Script) (start : Machine)
    (moments : List Moment) : Prop :=
  ∀ v ∈ moments, ∃ around, v.IsIn limits clock rounds script start around

theorem Performs.located (compiled : Script.compile code = .ok script) {around : List Enclosure}
    {s : Simple} {m : Machine} (performs : Performs limits clock rounds script start around s m) :
    Located limits clock rounds script start
      (s.moments limits clock (script.enclosing around) m) := by
  intro v member
  obtain ⟨m₁, ticked, member⟩ := Moments.of_mem_behind member
  obtain ⟨scopes, executed, rfl⟩ := Moments.of_mem_simple member
  rw [Machine.scopes_of_tick ticked] at executed
  refine ⟨around, rfl, ?_, ?_⟩
  · exact (Scopes.names_exec (performs.fitsIn compiled) executed).trans (performs.names compiled)
  · rintro _ ⟨⟩
    exact ⟨m, performs, executed⟩

/-- The moments of a block that a statement comes to. -/
theorem Reaches.located_block (compiled : Script.compile code = .ok script)
    {around headers : List Enclosure} {s : Stmt} {rest body : List Stmt} {m m' : Machine}
    (reaches : Reaches limits clock rounds script start around (s :: rest) m)
    (enters : Enters limits clock rounds s m headers body m')
    (inner : ∀ {around m}, Reaches limits clock rounds script start around body m →
      Located limits clock rounds script start
        (allMoments limits clock rounds (script.enclosing around) body m)) :
    Located limits clock rounds script start
      (Moments.within (script.enclosing (headers ++ around)) (.block body)
        (runAll limits clock rounds body)
        (allMoments limits clock rounds (script.enclosing (.block body :: (headers ++ around)))
          body) m') := by
  intro v member
  have placed := (reaches.placed compiled).inside enters
  rcases Moments.of_mem_within member with rfl | member | rfl
  · exact ⟨_, rfl, placed.names, nofun⟩
  · exact inner (reaches.inside enters) v member
  · refine ⟨headers ++ around, rfl, Script.names_leave (e := .block body) ?_, nofun⟩
    exact (keeps_runAll body placed.fits _ rfl).trans placed.names

/-- The moments of the first or the last part of a header. -/
theorem located_part (compiled : Script.compile code = .ok script) (around : List Enclosure)
    {part : Option Simple} {m : Machine}
    (performs : ∀ s, part = some s → Performs limits clock rounds script start around s m) :
    Located limits clock rounds script start
      (partMoments limits clock (script.enclosing around) part m) := by
  cases part with
  | none => exact nofun
  | some s => exact (performs s rfl).located compiled

/-- The moments of a loop with a header. -/
theorem Reaches.located_forLoop (compiled : Script.compile code = .ok script)
    {around : List Enclosure} {init update : Option Simple} {condition : Option Expr}
    {rest body : List Stmt} {m : Machine}
    (reaches : Reaches limits clock rounds script start around
      (.forLoop init condition update body :: rest) m)
    (inner : ∀ {around m}, Reaches limits clock rounds script start around body m →
      Located limits clock rounds script start
        (allMoments limits clock rounds (script.enclosing around) body m)) :
    Located limits clock rounds script start
      ((Stmt.forLoop init condition update body).moments limits clock rounds
        (script.enclosing around) m) := by
  intro v member
  have placed := reaches.placed compiled
  obtain ⟨m₁, ticked, member⟩ := Moments.of_mem_behind member
  rcases Moments.of_mem_within member with rfl | member | rfl
  · refine ⟨.header init :: around, rfl, ?_, nofun⟩
    exact congrArg₂ (· :: ·) (Enclosure.names_ofHeader init)
      ((Machine.names_of_tick ticked).trans placed.names)
  · rcases Moments.of_mem_andThen member with member | ⟨m₂, started, member⟩
    · refine located_part compiled (.header init :: around) ?_ v member
      rintro s rfl
      exact .init reaches ticked
    · obtain ⟨k, m₃, value, tests, holds, truthy, member⟩ := Moments.of_mem_loop member
      have loopTests : LoopTests limits clock rounds init (condition.getD (.bool true)) update body
          m k m₃ := ⟨m₁, m₂, ticked, started, tests⟩
      rcases Moments.of_mem_andThen member with member | ⟨m₄, run, member⟩
      · exact reaches.located_block compiled (.forLoop loopTests holds truthy) inner v member
      · refine located_part compiled (.header init :: around) ?_ v member
        rintro s rfl
        exact .update reaches loopTests holds truthy run
  · refine ⟨around, rfl, ?_, nofun⟩
    have keeps : Keeps m.scopes.names
        ((Stmt.forLoop init condition update body).run limits clock rounds) :=
      Stmt.keeps_run _ (placed.fits _ (.head _))
    have kept := keeps m rfl
    rw [Stmt.run, ticked] at kept
    exact kept.trans placed.names

mutual

theorem Stmt.located (compiled : Script.compile code = .ok script) :
    (s : Stmt) → ∀ {around rest m}, Reaches limits clock rounds script start around (s :: rest) m →
      Located limits clock rounds script start
        (s.moments limits clock rounds (script.enclosing around) m)
  | .simple s, _, _, _, reaches => (Performs.statement reaches).located compiled
  | .branch condition yes none, _, _, _, reaches => fun v member => by
      obtain ⟨m₁, ticked, member⟩ := Moments.of_mem_behind member
      obtain ⟨value, holds, ⟨truthy, member⟩ | ⟨-, member⟩⟩ := Moments.of_mem_test member
      · exact reaches.located_block compiled (.yes ticked holds truthy)
          (located_all compiled yes) v member
      · cases member
  | .branch condition yes (some no), _, _, _, reaches => fun v member => by
      obtain ⟨m₁, ticked, member⟩ := Moments.of_mem_behind member
      obtain ⟨value, holds, ⟨truthy, member⟩ | ⟨falsy, member⟩⟩ := Moments.of_mem_test member
      · exact reaches.located_block compiled (.yes ticked holds truthy)
          (located_all compiled yes) v member
      · exact reaches.located_block compiled (.no ticked holds falsy)
          (located_all compiled no) v member
  | .forLoop _ _ _ body, _, _, _, reaches =>
      reaches.located_forLoop compiled (located_all compiled body)
  | .whileLoop condition body, _, _, _, reaches => fun v member => by
      obtain ⟨m₁, ticked, member⟩ := Moments.of_mem_behind member
      obtain ⟨k, m₂, value, tests, holds, truthy, member⟩ := Moments.of_mem_loop member
      rcases Moments.of_mem_andThen member with member | ⟨_, _, member⟩
      · exact reaches.located_block compiled (.whileLoop ticked tests holds truthy)
          (located_all compiled body) v member
      · cases member
  | .block body, _, _, _, reaches => fun v member => by
      obtain ⟨m₁, ticked, member⟩ := Moments.of_mem_behind member
      exact reaches.located_block compiled (.block ticked) (located_all compiled body) v member
  | .console _ _, _, _, _, _ | .expr _, _, _, _, _ | .empty, _, _, _, _ => nofun

theorem located_all (compiled : Script.compile code = .ok script) :
    (stmts : List Stmt) → ∀ {around m}, Reaches limits clock rounds script start around stmts m →
      Located limits clock rounds script start
        (allMoments limits clock rounds (script.enclosing around) stmts m)
  | [], _, _, _ => nofun
  | s :: rest, _, _, reaches => fun v member => by
      rcases Moments.of_mem_andThen member with member | ⟨m₁, run, member⟩
      · exact s.located compiled reaches v member
      · exact located_all compiled rest (reaches.next run) v member

end

end Located

/-- In a run of an accepted script every statement, and every part of a header, finds the scopes of
    the enclosures around it with the names that they were entered with, and these are what it
    leaves, however it ends. A declaration by `let` or `const` stands in the innermost enclosure and
    fills its name in the innermost scope. One by `var` fills its name in the scope of the script,
    which is entered with what the script declares and with every `var`. The scopes have the names
    that they were entered with at every moment of the run, and all that is performed is told so. -/
theorem scopes_keep_names {code : String} {script : Script}
    (compiled : Script.compile code = .ok script) (limits : Limits) (clock : Clock) (rounds : Nat)
    (start : Machine) :
    (∀ around s rest m, Reaches limits clock rounds script start around (s :: rest) m →
        m.scopes.names = script.namesIn around ∧
          (s.run limits clock rounds m).machine.scopes.names = m.scopes.names) ∧
      (∀ around s m, Performs limits clock rounds script start around s m →
        m.scopes.names = script.namesIn around ∧
          (s.run limits clock m).machine.scopes.names = m.scopes.names) ∧
      (∀ around kind x init m m',
        Performs limits clock rounds script start around (.declare kind x init) m →
        (Simple.declare kind x init).run limits clock m = ⟨none, m'⟩ →
          if kind ≠ .varDecl then
            (∃ e ∈ (script.enclosing around).head?, e.Holds (.declare kind x init)) ∧
              m.scopes.Fills (m.scopes.length - 1) x m'.scopes
          else x ∈ script.varNames ∧
            if init.isSome then m.scopes.Fills 0 x m'.scopes else m'.scopes = m.scopes) ∧
      (∀ x, x ∈ script.scope.names ↔
        x ∈ (Enclosure.block script.body).declared ∨ x ∈ script.varNames) ∧
      ∀ v ∈ script.moments limits clock rounds start,
        ∃ around, v.IsIn limits clock rounds script start around := by
  refine ⟨?_, ?_, ?_, fun x => Script.mem_names_scope, ?_⟩
  · intro around s rest m reaches
    have placed := reaches.placed compiled
    exact ⟨placed.names, s.keeps_run (placed.fits s (.head _)) m rfl⟩
  · intro around s m performs
    exact ⟨performs.names compiled, Simple.keeps_run (performs.fitsIn compiled) m rfl⟩
  · intro around kind x init m m' performs completes
    have executed := Simple.exec_of_run completes
    have filled := Simple.exec_declare (performs.fitsIn compiled) executed
    split at filled
    · next isLocal =>
        rw [if_pos isLocal]
        exact ⟨performs.holds compiled, filled⟩
    · next isVar =>
        rw [if_neg isVar]
        obtain rfl := not_not.mp isVar
        exact ⟨performs.varOf_subset compiled (.head _), filled⟩
  · intro v member
    rcases List.mem_cons.mp member with rfl | later
    · refine ⟨[], rfl, rfl, fun s performs => ?_⟩
      cases performs
    · exact located_all compiled script.body .script v later

/-- A fault in a block in the body of a loop: the loop is left, and the script has the name of the
    `var` inside. -/
theorem scopes_keep_names_fault :
    let init := Simple.declare .letDecl "y" (some (.text "a"))
    let body := [Stmt.simple (.declare .varDecl "x" (some (.name "y"))),
      .block [.simple (.declare .constDecl "w" (some (.name "z")))]]
    let loop := Stmt.forLoop (some init) (some (.bool true)) none body
    let script : Script := ⟨[loop]⟩
    let code := "for (let y = \"a\"; true; ) \x7b\nvar x = y;\n\x7b\nconst w = z;\n\x7d\n\x7d\n"
    Script.compile code = .ok script ∧
      ∃ m, Reaches ⟨none, none⟩ (fun _ => 0) 1 script .fresh [] [loop] m ∧
        (loop.run ⟨none, none⟩ (fun _ => 0) 1 m).halt = some (.fault (.notDefined "z")) ∧
        (loop.run ⟨none, none⟩ (fun _ => 0) 1 m).machine.scopes.names = [["x"]] := by
  intro init body loop script code
  have proper : AreProper (IsSpelled fun _ => []) script.body := by
    have isW : IsName "w" := isName_of_isValid (by decide) (by decide)
    have isX : IsName "x" := isName_of_isValid (by decide) (by decide)
    have isY : IsName "y" := isName_of_isValid (by decide) (by decide)
    have isZ : IsName "z" := isName_of_isValid (by decide) (by decide)
    simp [script, loop, body, init, AreProper, Stmt.IsProper, Simple.IsProper, Simple.isInit,
      IsSpelled, isW, isX, isY, isZ]
  have text : code = String.ofList (layoutAll (Expr.enclosed fun _ => []) script.body) := rfl
  have compiled : Script.compile code = .ok script := by
    rw [text]
    exact compile_layoutAll_enclosed proper (by decide) rfl
  have reaches : Reaches ⟨none, none⟩ (fun _ => 0) 1 script .fresh [] [loop] _ := .script
  have kept := (scopes_keep_names compiled ⟨none, none⟩ (fun _ => 0) 1 .fresh).1 _ _ _ _ reaches
  exact ⟨compiled, _, reaches, rfl, kept.2.trans rfl⟩

end LineScript
