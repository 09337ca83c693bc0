import LineScript.Proofs.Run.Bindings
import LineScript.Proofs.Run.Budget

/-! # Scoped scripts run without faults of their own

Where a name is used, the blocks and headers around the use say what the name
stands for: the nearest of them that declares it by `let` or `const`, and if there
is none a `var` of the script. A script is scoped if each name that it uses has
been declared there before the use, nothing it assigns to is a constant, and it
calls no method of the console but `log`. What the text says of a place is kept
true of the scopes by every statement, so that a run never finds a name missing
or without a value.
-/

namespace LineScript

open Declarations

/-! ## What the text says of a place -/

/-- What a statement declares by `let` or `const` in the block it stands in. -/
def Simple.locals : Simple → Declared
  | .declare .letDecl name _ => [(name, .letDecl)]
  | .declare .constDecl name _ => [(name, .constDecl)]
  | .declare .varDecl _ _ | .assign _ _ _ | .update _ _ => []

@[inherit_doc Simple.locals]
def Stmt.locals : Stmt → Declared
  | .simple s => s.locals
  | .console _ _ | .branch _ _ _ | .forLoop _ _ _ _ | .whileLoop _ _ | .block _ | .expr _
  | .empty => []

/-- A block or a header around a place, by its `let` and `const` declarations: those that have been
    made when the place is reached, and those at the place or behind it. -/
structure Frame where
  before : Declared
  behind : Declared

namespace Frame

def declares (frame : Frame) (name : String) : Bool :=
  (frame.before ++ frame.behind).any (·.1 == name)

def hasMade (frame : Frame) (name : String) : Bool :=
  frame.before.any (·.1 == name)

def isConstant (frame : Frame) (name : String) : Bool :=
  (frame.before ++ frame.behind).contains (name, .constDecl)

end Frame

/-- The blocks and headers around a place, innermost first. -/
abbrev Frames := List Frame

namespace Frames

/-- The nearest block or header that declares a name. -/
def declaring? (frames : Frames) (name : String) : Option Frame :=
  frames.find? (·.declares name)

/-- Whether a name can be read: it has been declared in the nearest frame that declares it, or else
    is one of the names declared by `var`. -/
def canRead (vars : List String) (frames : Frames) (name : String) : Bool :=
  match frames.declaring? name with
  | some frame => frame.hasMade name
  | none => vars.contains name

/-- Whether a name stands for a constant. -/
def isConstant (frames : Frames) (name : String) : Bool :=
  (frames.declaring? name).any (·.isConstant name)

def canAssign (vars : List String) (frames : Frames) (name : String) : Bool :=
  frames.canRead vars name && !frames.isConstant name

end Frames

section

variable (vars : List String)

def Expr.isScoped (frames : Frames) (e : Expr) : Bool :=
  e.names.all (frames.canRead vars)

def Simple.isScoped (frames : Frames) : Simple → Bool
  | .declare _ _ init => init.all (·.isScoped vars frames)
  | .assign name _ value => value.isScoped vars frames && frames.canAssign vars name
  | .update name _ => frames.canAssign vars name

/-- What the header of a loop declares, for a place behind its first part. Should the last part
    declare anything, no place in the loop is behind it. -/
def Frame.ofHeader (init update : Option Simple) : Frame :=
  ⟨init.elim [] Simple.locals, update.elim [] Simple.locals⟩

mutual

/-- Whether every name in a statement can be used where it stands, the console being called by `log`
    only. -/
def Stmt.isScoped (frames : Frames) : Stmt → Bool
  | .simple s => s.isScoped vars frames
  | .console method args => method == "log" && args.all (·.isScoped vars frames)
  | .branch condition yes none => condition.isScoped vars frames && areScoped [] frames yes
  | .branch condition yes (some no) =>
      condition.isScoped vars frames && areScoped [] frames yes && areScoped [] frames no
  | .forLoop init condition update body =>
      let header := Frame.ofHeader init update
      init.all (·.isScoped vars (⟨[], header.before ++ header.behind⟩ :: frames)) &&
        condition.all (·.isScoped vars (header :: frames)) &&
        update.all (·.isScoped vars (header :: frames)) && areScoped [] (header :: frames) body
  | .whileLoop condition body => condition.isScoped vars frames && areScoped [] frames body
  | .block body => areScoped [] frames body
  | .expr e => e.isScoped vars frames
  | .empty => true

/-- Whether the last statements of a block are scoped, the others having declared `before`. -/
def areScoped (before : Declared) (outer : Frames) : List Stmt → Bool
  | [] => true
  | s :: rest =>
      s.isScoped (⟨before, (s :: rest).flatMap Stmt.locals⟩ :: outer) &&
        areScoped (before ++ s.locals) outer rest

end

end

/-- Whether every name that a script uses has been declared, by `let` or `const` before its use or
    by `var` anywhere, no constant is assigned to, and the console is called by `log` only. -/
def Script.isScoped (script : Script) : Bool :=
  areScoped script.varNames [] [] script.body

/-! ## What the scopes have at a place -/

/-- A binding that can be read, and assigned to unless it is meant to be constant. -/
def Binding.Serves (constant : Bool) (binding : Option Binding) : Prop :=
  ∃ value kept, binding = some ⟨some value, kept⟩ ∧ (constant = false → kept = false)

/-- A scope has a value for all that its frame has declared. -/
def Frame.Filled (frame : Frame) (scope : Scope) : Prop :=
  ∀ name, frame.hasMade name = true →
    Binding.Serves (frame.isConstant name) (scope.lookup name)

/-- The scopes are what the frames say. A scope has nothing but what its frame declares, and the
    outermost one has the names declared by `var` in addition. -/
inductive Frames.Models (vars : List String) : Frames → Scopes → Prop where
  | script {frame scope} : frame.Filled scope →
      (∀ name ∈ vars, frame.declares name = false → Binding.Serves false (scope.lookup name)) →
      Models vars [frame] [scope]
  | inner {frame scope frames scopes} : frame.Filled scope →
      (∀ name, frame.declares name = false → scope.lookup name = none) →
      Models vars frames scopes → Models vars (frame :: frames) (scope :: scopes)

namespace Binding

theorem serves_value (value : Value) (constant : Bool) :
    Serves constant (some ⟨some value, false⟩) :=
  ⟨value, false, rfl, fun _ => rfl⟩

theorem Serves.of_not_constant {constant : Bool} {binding : Option Binding}
    (serves : Serves constant binding) (assignable : constant = false) :
    ∃ value, binding = some ⟨some value, false⟩ := by
  obtain ⟨value, kept, rfl, free⟩ := serves
  exact ⟨value, by rw [free assignable]⟩

end Binding

namespace Frame

variable {frame : Frame} {scope : Scope} {before made behind : Declared} {name : String}

theorem declares_append (name : String) :
    (⟨before ++ made, behind⟩ : Frame).declares name =
      (⟨before, made ++ behind⟩ : Frame).declares name := by
  simp [declares, List.append_assoc]

theorem isConstant_append (name : String) :
    (⟨before ++ made, behind⟩ : Frame).isConstant name =
      (⟨before, made ++ behind⟩ : Frame).isConstant name := by
  simp [isConstant, List.append_assoc]

theorem Filled.set (filled : frame.Filled scope) {binding : Binding}
    (serves : Binding.Serves (frame.isConstant name) (some binding)) :
    frame.Filled (scope.set name binding) := by
  intro other made
  rw [Scope.lookup_set]
  split
  · next same => exact same ▸ serves
  · exact filled other made

/-- A declaration fills the place that it makes. -/
theorem Filled.declare {kind : DeclKind}
    (filled : (⟨before, (name, kind) :: behind⟩ : Frame).Filled scope) {binding : Binding}
    (serves : Binding.Serves ((⟨before ++ [(name, kind)], behind⟩ : Frame).isConstant name)
      (some binding)) :
    (⟨before ++ [(name, kind)], behind⟩ : Frame).Filled (scope.set name binding) := by
  intro other made
  rw [Scope.lookup_set]
  split
  · next same => exact same ▸ serves
  · next differs =>
      rw [isConstant_append]
      refine filled other ?_
      simpa [hasMade, Ne.symm differs] using made

theorem filled_nil (scope : Scope) : (⟨[], behind⟩ : Frame).Filled scope := by
  intro name made
  cases made

end Frame

namespace Frames.Models

variable {vars : List String} {frames : Frames} {scopes : Scopes} {name : String}

/-- Where a name can be read, there is a value. -/
theorem find?_serves (models : Models vars frames scopes)
    (readable : frames.canRead vars name = true) :
    Binding.Serves (frames.isConstant name) (scopes.find? name) := by
  rw [canRead] at readable
  rw [isConstant]
  induction models with
  | @script frame scope filled hasVars =>
      rw [Scopes.find?_cons, Scopes.find?, Option.or_none]
      cases declared : frame.declares name with
      | true =>
          simp only [declaring?, List.find?_cons, declared] at readable ⊢
          exact filled name readable
      | false =>
          simp only [declaring?, List.find?_cons, List.find?_nil, declared] at readable ⊢
          exact hasVars name (List.contains_iff_mem.mp readable) declared
  | @inner frame scope frames scopes filled absent _ ih =>
      rw [Scopes.find?_cons]
      cases declared : frame.declares name with
      | true =>
          simp only [declaring?, List.find?_cons, declared] at readable ⊢
          obtain ⟨value, kept, found, free⟩ := filled name readable
          exact ⟨value, kept, by rw [found, Option.some_or], free⟩
      | false =>
          simp only [declaring?, List.find?_cons, declared] at readable ⊢
          rw [absent name declared, Option.none_or]
          exact ih readable

theorem value (models : Models vars frames scopes) (readable : frames.canRead vars name = true) :
    ∃ value, scopes.value name = .ok value := by
  obtain ⟨value, _, found, _⟩ := models.find?_serves readable
  exact ⟨value, Scopes.value_of_find? found⟩

theorem eval (models : Models vars frames scopes) {e : Expr}
    (known : e.isScoped vars frames = true) : ∃ value, e.eval scopes = .ok value := by
  refine Expr.eval_of_names fun name member => models.value ?_
  exact List.all_eq_true.mp known name member

theorem set_script {frame : Frame} {scope : Scope} (filled : frame.Filled scope)
    (hasVars : ∀ name ∈ vars, frame.declares name = false →
      Binding.Serves false (scope.lookup name)) (name : String) (value : Value) :
    Models vars [frame] [scope.set name ⟨some value, false⟩] := by
  refine .script (filled.set (Binding.serves_value value _)) fun other member undeclared => ?_
  rw [Scope.lookup_set]
  split
  · exact Binding.serves_value value false
  · exact hasVars other member undeclared

/-- The variables of a block may change, but there are no others. -/
theorem set_inner {frame : Frame} {scope : Scope} (filled : frame.Filled scope)
    (absent : ∀ name, frame.declares name = false → scope.lookup name = none)
    (outer : Models vars frames scopes) (declared : frame.declares name = true) {binding : Binding}
    (serves : Binding.Serves (frame.isConstant name) (some binding)) :
    Models vars (frame :: frames) (scope.set name binding :: scopes) := by
  refine .inner (filled.set serves) (fun other undeclared => ?_) outer
  rw [Scope.lookup_set, if_neg, absent other undeclared]
  rintro rfl
  cases declared.symm.trans undeclared

/-- Giving a variable a value in the nearest scope that has it. -/
theorem replace (models : Models vars frames scopes) (name : String) (value : Value) :
    Models vars frames (scopes.replace name ⟨some value, false⟩) := by
  induction models with
  | script filled hasVars =>
      rw [Scopes.replace]
      split
      · exact set_script filled hasVars name value
      · exact .script filled hasVars
  | @inner frame scope _ _ filled absent outer ih =>
      rw [Scopes.replace]
      split
      · next found =>
          refine set_inner filled absent outer ?_ (Binding.serves_value value _)
          cases declared : frame.declares name with
          | true => rfl
          | false => cases found.symm.trans (absent name declared)
      · exact .inner filled absent ih

/-- Giving a variable a value in the scope of the script as a whole. -/
theorem setOuter (models : Models vars frames scopes) (name : String) (value : Value) :
    Models vars frames (scopes.setOuter name ⟨some value, false⟩) := by
  induction models with
  | script filled hasVars => exact set_script filled hasVars name value
  | inner filled absent outer ih =>
      cases outer with
      | script => exact .inner filled absent ih
      | inner => exact .inner filled absent ih

theorem assign (models : Models vars frames scopes) (assignable : frames.canAssign vars name = true)
    (value : Value) :
    ∃ scopes', scopes.assign name value = .ok scopes' ∧ Models vars frames scopes' := by
  obtain ⟨readable, free⟩ := Bool.and_eq_true_iff.mp assignable
  obtain ⟨old, found⟩ := (models.find?_serves readable).of_not_constant (by simpa using free)
  exact ⟨_, Scopes.assign_of_find? found value, models.replace name value⟩

/-- Declaring a variable by `let` or `const` where the text does. -/
theorem setInner {kind : DeclKind} {before behind : Declared} {binding : Binding}
    (models : Models vars (⟨before, (name, kind) :: behind⟩ :: frames) scopes)
    (serves : Binding.Serves ((⟨before ++ [(name, kind)], behind⟩ : Frame).isConstant name)
      (some binding)) :
    Models vars (⟨before ++ [(name, kind)], behind⟩ :: frames) (scopes.setInner name binding) := by
  have declared : (⟨before ++ [(name, kind)], behind⟩ : Frame).declares name = true := by
    simp [Frame.declares]
  have differs : ∀ {other}, (⟨before ++ [(name, kind)], behind⟩ : Frame).declares other = false →
      other ≠ name := by
    rintro _ undeclared rfl
    cases declared.symm.trans undeclared
  cases models with
  | script filled hasVars =>
      refine .script (filled.declare serves) fun other member undeclared => ?_
      rw [Scope.lookup_set, if_neg (differs undeclared)]
      exact hasVars other member (by rwa [← List.singleton_append, ← Frame.declares_append])
  | inner filled absent outer =>
      refine .inner (filled.declare serves) (fun other undeclared => ?_) outer
      rw [Scope.lookup_set, if_neg (differs undeclared)]
      exact absent other (by rwa [← List.singleton_append, ← Frame.declares_append])

theorem declare {kind : DeclKind} {init : Option Expr} {before behind : Declared}
    (models : Models vars (⟨before, (Simple.declare kind name init).locals ++ behind⟩ :: frames)
      scopes) (value : Option Value) :
    Models vars (⟨before ++ (Simple.declare kind name init).locals, behind⟩ :: frames)
      (scopes.declare kind name value) := by
  cases kind with
  | letDecl => exact models.setInner (Binding.serves_value _ _)
  | constDecl =>
      refine models.setInner ⟨_, _, rfl, fun assignable => ?_⟩
      simp [Frame.isConstant] at assignable
  | varDecl =>
      rw [Simple.locals, List.append_nil]
      cases value with
      | none => exact models
      | some value => exact models.setOuter name value

/-- A simple statement runs, and what it declares has been declared then. -/
theorem exec {s : Simple} {before behind : Declared}
    (models : Models vars (⟨before, s.locals ++ behind⟩ :: frames) scopes)
    (known : s.isScoped vars (⟨before, s.locals ++ behind⟩ :: frames) = true) :
    ∃ scopes', s.exec scopes = .ok scopes' ∧
      Models vars (⟨before ++ s.locals, behind⟩ :: frames) scopes' := by
  cases s with
  | declare kind name init =>
      cases init with
      | none => exact ⟨_, rfl, models.declare none⟩
      | some e =>
          obtain ⟨value, read⟩ := models.eval known
          exact ⟨_, by rw [Simple.exec, read]; rfl, models.declare (some value)⟩
  | assign name op e =>
      obtain ⟨knownValue, assignable⟩ := Bool.and_eq_true_iff.mp known
      obtain ⟨value, read⟩ := models.eval knownValue
      rw [Simple.locals, List.append_nil]
      cases op with
      | none =>
          obtain ⟨scopes', assigned, kept⟩ := models.assign assignable value
          exact ⟨scopes', by rw [Simple.exec, read]; exact assigned, kept⟩
      | some op =>
          obtain ⟨current, found⟩ := models.value (Bool.and_eq_true_iff.mp assignable).1
          obtain ⟨scopes', assigned, kept⟩ :=
            models.assign assignable (op.binary.apply current value)
          exact ⟨scopes', by rw [Simple.exec, read, found]; exact assigned, kept⟩
  | update name delta =>
      obtain ⟨current, found⟩ := models.value (Bool.and_eq_true_iff.mp known).1
      obtain ⟨scopes', assigned, kept⟩ :=
        models.assign known (.number (current.toNumber + delta.amount))
      rw [Simple.locals, List.append_nil]
      exact ⟨scopes', by rw [Simple.exec, found]; exact assigned, kept⟩

/-- A frame promises less if some of what has been declared is taken to be behind the place. -/
theorem shift {before made behind : Declared}
    (models : Models vars (⟨before ++ made, behind⟩ :: frames) scopes) :
    Models vars (⟨before, made ++ behind⟩ :: frames) scopes := by
  have less : ∀ {scope}, (⟨before ++ made, behind⟩ : Frame).Filled scope →
      (⟨before, made ++ behind⟩ : Frame).Filled scope := by
    intro scope filled name made
    rw [← Frame.isConstant_append]
    refine filled name ?_
    rw [Frame.hasMade, List.any_append]
    exact Bool.or_eq_true_iff.mpr (.inl made)
  cases models with
  | script filled hasVars =>
      refine .script (less filled) fun name member undeclared => hasVars name member ?_
      rwa [Frame.declares_append]
  | inner filled absent outer =>
      refine .inner (less filled) (fun name undeclared => absent name ?_) outer
      rwa [Frame.declares_append]

/-- Leaving a block. -/
theorem leave {frame : Frame} {inner : Scopes} (models : Models vars frames scopes)
    (inside : Models vars (frame :: frames) inner) : Models vars frames inner.tail := by
  cases inside with
  | inner _ _ outer => exact outer
  | script => cases models

end Frames.Models

/-! ## What a scope starts with -/

namespace Scope

/-- Variables whose declarations have not been run. -/
def ofDeclared (declared : Declared) : Scope :=
  declared.map fun entry => (entry.1, ⟨none, false⟩)

theorem ofSimple_eq (s : Simple) : ofSimple s = ofDeclared s.locals := by
  cases s with
  | declare kind => cases kind <;> rfl
  | assign | update => rfl

theorem ofHeader_eq (init : Option Simple) :
    ofHeader init = ofDeclared (init.elim [] Simple.locals) := by
  cases init with
  | none => rfl
  | some s => exact ofSimple_eq s

theorem ofBlock_eq (stmts : List Stmt) :
    ofBlock stmts = ofDeclared (stmts.flatMap Stmt.locals) := by
  rw [ofBlock, ofDeclared, List.map_flatMap]
  congr
  funext s
  cases s with
  | simple s => exact ofSimple_eq s
  | _ => rfl

theorem lookup_ofDeclared {declared behind : Declared} (subset : declared ⊆ behind) {name : String}
    (undeclared : (⟨[], behind⟩ : Frame).declares name = false) :
    (ofDeclared declared).lookup name = none := by
  rw [List.lookup_eq_none_iff, ofDeclared]
  intro entry member
  obtain ⟨declaration, within, rfl⟩ := List.mem_map.mp member
  simp only [Frame.declares, List.nil_append, List.any_eq_false, beq_iff_eq] at undeclared
  exact bne_iff_ne.mpr (Ne.symm (undeclared declaration (subset within)))

end Scope

/-- Entering a block, where nothing has been declared yet. -/
theorem Frames.Models.enter {vars : List String} {frames : Frames} {scopes : Scopes}
    {declared behind : Declared} (models : Models vars frames scopes)
    (subset : declared ⊆ behind) :
    Models vars (⟨[], behind⟩ :: frames) (Scope.ofDeclared declared :: scopes) :=
  .inner (Frame.filled_nil _) (fun _ => Scope.lookup_ofDeclared subset) models

/-- At the start of a script the names declared by `var` have a value, and no other name has. -/
theorem Script.models_scope (script : Script) :
    Frames.Models script.varNames [⟨[], script.body.flatMap Stmt.locals⟩] [script.scope] := by
  refine .script (Frame.filled_nil _) fun name member undeclared => ?_
  have absent : (Scope.ofBlock script.body).lookup name = none := by
    rw [Scope.ofBlock_eq]
    exact Scope.lookup_ofDeclared (List.Subset.refl _) undeclared
  rw [Script.scope, Scope.lookup_addVars member absent]
  exact Binding.serves_value .undefined false

/-! ## Runs that nothing but the budget stops -/

/-- Whether a fault is that one of the limits is exceeded. -/
def Limits.Exceeded (limits : Limits) : Fault → Prop
  | .stepLimit l => l ∈ limits.maxSteps
  | .timeLimit ms => ms ∈ limits.timeout
  | .notDefined _ | .uninitialized _ | .constAssignment _ | .notAFunction _ => False

/-- No fault but that a limit is exceeded, and scopes in the end that are as they should. -/
structure Outcome.Safe (limits : Limits) (good : Scopes → Prop) (o : Outcome) : Prop where
  completed : o.halt = none → good o.machine.scopes
  fault : ∀ f, o.halt = some (.fault f) → limits.Exceeded f

namespace Outcome.Safe

variable {limits : Limits} {clock : Clock} {good good' : Scopes → Prop} {m : Machine}
  {o : Outcome} {f g : Machine → Outcome}

theorem done (holds : good m.scopes) : Safe limits good ⟨none, m⟩ :=
  ⟨fun _ => holds, nofun⟩

theorem mono (safe : Safe limits good o) (weaker : ∀ scopes, good scopes → good' scopes) :
    Safe limits good' o :=
  ⟨fun completed => weaker _ (safe.completed completed), safe.fault⟩

theorem tick (holds : good m.scopes) : Safe limits good (m.tick limits clock) := by
  rcases m.tick_cases limits clock with ⟨_, taken⟩ | ⟨l, member, _, taken⟩ | ⟨ms, member, taken⟩
  · rw [taken]
    exact done holds
  · rw [taken]
    exact ⟨nofun, by rintro _ ⟨⟩; exact member⟩
  · rw [taken]
    exact ⟨nofun, by rintro _ ⟨⟩; exact member⟩

theorem andThen (first : Safe limits good o)
    (next : ∀ m, good m.scopes → Safe limits good' (f m)) : Safe limits good' (o.andThen f) := by
  obtain ⟨halt, m⟩ := o
  cases halt with
  | none => exact next m (first.completed rfl)
  | some halt => exact ⟨nofun, first.fault⟩

theorem within {scope : Scope}
    (inner : Safe limits (fun scopes => good scopes.tail) (f (m.enter scope))) :
    Safe limits good (m.within scope f) :=
  ⟨inner.completed, inner.fault⟩

theorem test {condition : Expr} (evaluates : ∃ value, condition.eval m.scopes = .ok value)
    (yes : Safe limits good (f m)) (no : Safe limits good (g m)) :
    Safe limits good (m.test condition f g) := by
  obtain ⟨value, read⟩ := evaluates
  rw [Machine.test, read]
  dsimp only
  split
  · exact yes
  · exact no

/-- What every round keeps a loop keeps. -/
theorem loop {condition : Expr}
    (evaluates : ∀ m : Machine, good m.scopes → ∃ value, condition.eval m.scopes = .ok value)
    (step : ∀ m, good m.scopes → Safe limits good (f m)) (rounds : Nat) (start : good m.scopes) :
    Safe limits good (Machine.loop condition f rounds m) := by
  induction rounds generalizing m with
  | zero => exact ⟨nofun, nofun⟩
  | succ rounds ih =>
      rw [Machine.loop_succ]
      exact test (evaluates m start) ((step m start).andThen fun _ => ih) (done start)

end Outcome.Safe

open Outcome Frames

section

variable {limits : Limits} {clock : Clock} {rounds : Nat} {vars : List String} {frames : Frames}
  {m : Machine}

theorem Simple.safe_run {s : Simple} {before behind : Declared}
    (known : s.isScoped vars (⟨before, s.locals ++ behind⟩ :: frames) = true)
    (models : Models vars (⟨before, s.locals ++ behind⟩ :: frames) m.scopes) :
    Safe limits (Models vars (⟨before ++ s.locals, behind⟩ :: frames)) (s.run limits clock m) := by
  refine (Safe.tick models).andThen fun m models => ?_
  obtain ⟨scopes, executed, kept⟩ := models.exec known
  rw [Machine.simple, executed]
  exact .done kept

theorem safe_init {init : Option Simple} {behind : Declared}
    (known : init.all (·.isScoped vars (⟨[], init.elim [] Simple.locals ++ behind⟩ :: frames)))
    (models : Models vars (⟨[], init.elim [] Simple.locals ++ behind⟩ :: frames) m.scopes) :
    Safe limits (Models vars (⟨init.elim [] Simple.locals, behind⟩ :: frames))
      (runInit limits clock init m) := by
  cases init with
  | none => exact .done models
  | some s => exact s.safe_run known models

theorem safe_update {update : Option Simple} {before : Declared}
    (known : update.all (·.isScoped vars (⟨before, update.elim [] Simple.locals⟩ :: frames)))
    (models : Models vars (⟨before, update.elim [] Simple.locals⟩ :: frames) m.scopes) :
    Safe limits (Models vars (⟨before, update.elim [] Simple.locals⟩ :: frames))
      (runUpdate limits clock update m) := by
  cases update with
  | none => exact .tick models
  | some s =>
      have whole : s.locals = s.locals ++ [] := (List.append_nil _).symm
      rw [Option.elim_some, whole] at models ⊢
      rw [Option.all_some, Option.elim_some, whole] at known
      exact (s.safe_run known models).mono fun _ => Models.shift

theorem safe_console {args : List Expr} (known : ∀ e ∈ args, e.isScoped vars frames = true)
    (models : Models vars frames m.scopes) :
    Safe limits (Models vars frames) (m.console "log" args) := by
  obtain ⟨texts, read⟩ := evalTexts_of_names fun e member name reads =>
    models.value (List.all_eq_true.mp (known e member) name reads)
  rw [Machine.console, read]
  exact .done models

theorem safe_block {body : List Stmt}
    (inner : ∀ m, Models vars (⟨[], body.flatMap Stmt.locals⟩ :: frames) m.scopes →
      Safe limits (Models vars (⟨body.flatMap Stmt.locals, []⟩ :: frames))
        (runAll limits clock rounds body m))
    (models : Models vars frames m.scopes) :
    Safe limits (Models vars frames)
      (m.within (Scope.ofBlock body) (runAll limits clock rounds body)) := by
  refine .within ((inner _ ?_).mono fun _ => models.leave)
  rw [Scope.ofBlock_eq]
  exact models.enter (List.Subset.refl _)

theorem safe_branch {condition : Expr} {yes no : Machine → Outcome}
    (known : condition.isScoped vars frames = true) (models : Models vars frames m.scopes)
    (taken : ∀ m, Models vars frames m.scopes → Safe limits (Models vars frames) (yes m))
    (other : ∀ m, Models vars frames m.scopes → Safe limits (Models vars frames) (no m)) :
    Safe limits (Models vars frames)
      ((m.tick limits clock).andThen fun m => m.test condition yes no) :=
  (Safe.tick models).andThen fun m models =>
    .test (models.eval known) (taken m models) (other m models)

theorem safe_forLoop {init update : Option Simple} {condition : Option Expr}
    {body : Machine → Outcome}
    (known : (Stmt.forLoop init condition update []).isScoped vars frames = true)
    (models : Models vars frames m.scopes)
    (inner : ∀ m, Models vars (.ofHeader init update :: frames) m.scopes →
      Safe limits (Models vars (.ofHeader init update :: frames)) (body m)) :
    Safe limits (Models vars frames)
      (m.within (Scope.ofHeader init) fun m => (runInit limits clock init m).andThen
        (Machine.loop (condition.getD (.bool true))
          (fun m => (body m).andThen (runUpdate limits clock update)) rounds)) := by
  simp only [Stmt.isScoped, Bool.and_eq_true] at known
  obtain ⟨⟨⟨knownInit, knownCondition⟩, knownUpdate⟩, -⟩ := known
  have entered := models.enter (List.subset_append_left (Frame.ofHeader init update).before
    (Frame.ofHeader init update).behind)
  rw [Scope.ofHeader_eq]
  refine .within (Safe.mono (?_ : Safe limits (Models vars (.ofHeader init update :: frames)) _)
    fun _ => models.leave)
  refine (safe_init (m := m.enter _) knownInit entered).andThen fun m models => ?_
  refine .loop (fun m models => ?_) (fun m models => ?_) rounds models
  · cases condition with
    | none => exact ⟨_, rfl⟩
    | some e => exact models.eval knownCondition
  · exact (inner m models).andThen fun m models => safe_update knownUpdate models

variable (limits clock rounds vars)

mutual

/-- A scoped statement is run without faults of its own, and what it declares has been declared
    then. -/
theorem Stmt.safe_run : (s : Stmt) → ∀ {before behind : Declared} {frames : Frames} {m : Machine},
    s.isScoped vars (⟨before, s.locals ++ behind⟩ :: frames) = true →
    Models vars (⟨before, s.locals ++ behind⟩ :: frames) m.scopes →
    Safe limits (Models vars (⟨before ++ s.locals, behind⟩ :: frames))
      (s.run limits clock rounds m)
  | .simple s, _, _, _, _, known, models => s.safe_run known models
  | .console method args, _, _, _, _, known, models => by
      simp only [Stmt.isScoped, Bool.and_eq_true, beq_iff_eq, List.all_eq_true] at known
      rw [Stmt.locals, List.append_nil, known.1]
      exact (Safe.tick models).andThen fun _ => safe_console known.2
  | .branch condition yes none, _, _, _, _, known, models => by
      rw [Stmt.locals, List.append_nil]
      obtain ⟨knownCondition, knownYes⟩ := Bool.and_eq_true_iff.mp known
      exact safe_branch knownCondition models
        (fun _ => safe_block fun _ => safe_runAll yes knownYes) fun _ => .done
  | .branch condition yes (some no), _, _, _, _, known, models => by
      rw [Stmt.locals, List.append_nil]
      simp only [Stmt.isScoped, Bool.and_eq_true] at known
      exact safe_branch known.1.1 models (fun _ => safe_block fun _ => safe_runAll yes known.1.2)
        fun _ => safe_block fun _ => safe_runAll no known.2
  | .forLoop init condition update body, _, _, _, _, known, models => by
      rw [Stmt.locals, List.append_nil]
      obtain ⟨knownHeader, knownBody⟩ := Bool.and_eq_true_iff.mp known
      refine (Safe.tick models).andThen fun _ models => safe_forLoop ?_ models fun _ =>
        safe_block fun _ => safe_runAll body knownBody
      exact Bool.and_eq_true_iff.mpr ⟨knownHeader, rfl⟩
  | .whileLoop condition body, _, _, _, _, known, models => by
      rw [Stmt.locals, List.append_nil]
      obtain ⟨knownCondition, knownBody⟩ := Bool.and_eq_true_iff.mp known
      refine (Safe.tick models).andThen fun _ => .loop (fun _ models => models.eval knownCondition)
        (fun _ models => ?_) rounds
      exact (safe_block (fun _ => safe_runAll body knownBody) models).andThen fun _ => .tick
  | .block body, _, _, _, _, known, models => by
      rw [Stmt.locals, List.append_nil]
      exact (Safe.tick models).andThen fun _ => safe_block fun _ => safe_runAll body known
  | .expr e, _, _, _, _, known, models => by
      rw [Stmt.locals, List.append_nil]
      refine (Safe.tick models).andThen fun m models => ?_
      obtain ⟨value, read⟩ := models.eval known
      rw [read]
      exact .done models
  | .empty, _, _, _, _, _, models => by
      rw [Stmt.locals, List.append_nil]
      exact .tick models

/-- The last statements of a block, the others having declared `before`. -/
theorem safe_runAll : (stmts : List Stmt) → ∀ {before : Declared} {frames : Frames} {m : Machine},
    areScoped vars before frames stmts = true →
    Models vars (⟨before, stmts.flatMap Stmt.locals⟩ :: frames) m.scopes →
    Safe limits (Models vars (⟨before ++ stmts.flatMap Stmt.locals, []⟩ :: frames))
      (runAll limits clock rounds stmts m)
  | [], _, _, _, _, models => by
      rw [List.flatMap_nil, List.append_nil]
      exact .done models
  | s :: rest, _, _, _, known, models => by
      obtain ⟨knownHere, knownRest⟩ := Bool.and_eq_true_iff.mp known
      refine (Stmt.safe_run s knownHere models).andThen fun _ models => ?_
      rw [List.flatMap_cons, ← List.append_assoc]
      exact safe_runAll rest knownRest models

end

end

/-- A run of a scoped script completes, or it exceeds one of its limits, or one of its loops is cut
    off; and with more rounds for its loops than steps no loop is cut off. -/
theorem halt_of_isScoped (script : Script) (known : script.isScoped = true) (limits : Limits)
    (clock : Clock) (rounds : Nat) (m : Machine) :
    let halt := (script.run limits clock rounds m).halt
    (halt = none ∨ (∃ l ∈ limits.maxSteps, halt = some (.fault (.stepLimit l))) ∨
        (∃ ms ∈ limits.timeout, halt = some (.fault (.timeLimit ms))) ∨ halt = some .unfinished) ∧
      ∀ l ∈ limits.maxSteps, m.steps ≤ l → l < rounds → halt ≠ some .unfinished := by
  intro halt
  refine ⟨?_, fun l limited within enough => finished_run clock script limited enough within⟩
  have fault : ∀ f, halt = some (.fault f) → limits.Exceeded f :=
    (safe_runAll limits clock rounds script.varNames script.body known
      (m := { m with scopes := [script.scope] }) script.models_scope).fault
  generalize halt = halt at fault
  cases halt with
  | none => exact .inl rfl
  | some halt =>
      cases halt with
      | unfinished => exact .inr (.inr (.inr rfl))
      | fault f =>
          have exceeded := fault f rfl
          cases f with
          | stepLimit l => exact .inr (.inl ⟨l, exceeded, rfl⟩)
          | timeLimit ms => exact .inr (.inr (.inl ⟨ms, exceeded, rfl⟩))
          | notDefined | uninitialized | constAssignment | notAFunction => cases exceeded

/-- A script in which two blocks and a header shadow each other's names and a `var` is used before
    its declaration. -/
theorem halt_of_isScoped_shadowed :
    let code := "sum = 0; const n = 3; for (let i = 0; i < n; i++) \x7b let n = i; " ++
      "\x7b let i = n; sum += i; var sum; \x7d console.log(sum, n); \x7d"
    ∃ script, Script.compile code = .ok script ∧ script.isScoped = true ∧
      ∀ clock, (script.run ⟨some 20, none⟩ clock 21 .fresh).halt ∈
        [none, some (.fault (.stepLimit 20))] := by
  intro code
  have accepted : (Script.compile code).toOption.any (·.isScoped) = true := by decide +kernel
  cases compiled : Script.compile code with
  | error fault =>
      rw [compiled] at accepted
      cases accepted
  | ok script =>
      rw [compiled] at accepted
      refine ⟨script, rfl, accepted, fun clock => ?_⟩
      obtain ⟨halted, finished⟩ :=
        halt_of_isScoped script accepted ⟨some 20, none⟩ clock 21 .fresh
      rcases halted with completed | ⟨l, limited, stopped⟩ | ⟨_, timed, _⟩ | unfinished
      · simp [completed]
      · cases limited
        simp [stopped]
      · cases timed
      · exact absurd unfinished (finished 20 rfl (by decide) (by decide))

end LineScript
