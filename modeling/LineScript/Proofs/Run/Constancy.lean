import LineScript.Proofs.Nesting.Agreement
import LineScript.Proofs.Run.Moments

/-! # Constants and first values

A declaration gives a binding its value without a look at what is there, be it a constant. That a
constant is not overwritten is due to the check of the declarations and to the scopes: no name is
declared twice in a block, no `var` has the name of a `let` or `const` of a block around it, and
each run of a block and each round of a loop has a scope of its own.

So a declaration by `let` or `const` always finds its name without a value, and a `var` finds its
name, in the scope of the script, with one. Both are kept by all that a run does between.
-/

namespace LineScript

open Declarations Grammar

namespace Enclosure

theorem declared_cons (s : Stmt) (rest : List Stmt) :
    (block (s :: rest)).declared = s.locals.map Prod.fst ++ (block rest).declared := by
  simp [declared]

/-- A scope is entered without values. -/
theorem lookup_scope {e : Enclosure} {x : String} (member : x ∈ e.declared) :
    e.scope.lookup x = some ⟨none, false⟩ := by
  have unset : ∀ declared : Declared, x ∈ declared.map Prod.fst →
      (Scope.ofDeclared declared).lookup x = some ⟨none, false⟩ := by
    intro declared
    induction declared with
    | nil => exact nofun
    | cons entry rest ih =>
        intro member
        rw [Scope.ofDeclared, List.map_cons, Scope.lookup_cons]
        split
        · rfl
        · next differs => exact ih ((List.mem_cons.mp member).resolve_left differs)
  cases e with
  | block stmts =>
      rw [scope, Scope.ofBlock_eq]
      exact unset _ member
  | header init =>
      rw [scope, Scope.ofHeader_eq]
      exact unset _ member

end Enclosure

theorem Simple.nodup_locals (s : Simple) : (s.locals.map Prod.fst).Nodup := by
  cases s with
  | declare kind => cases kind <;> simp [locals]
  | assign | update => exact .nil

/-! ## How bindings change -/

/-- What may become of a binding while its scope is there. -/
structure Binding.Evolves (old new : Binding) : Prop where
  constant : old.constant = true → new = old
  value : old.value.isSome = true → new.value.isSome = true
  kind : old.value.isSome = true → new.constant = old.constant

namespace Binding.Evolves

variable {b b₁ b₂ : Binding}

theorem refl (b : Binding) : b.Evolves b :=
  ⟨fun _ => rfl, id, fun _ => rfl⟩

theorem trans (first : b.Evolves b₁) (next : b₁.Evolves b₂) : b.Evolves b₂ := by
  refine ⟨fun isConstant => ?_, fun isSome => next.value (first.value isSome), fun isSome => ?_⟩
  · obtain rfl := first.constant isConstant
    exact next.constant isConstant
  · exact (next.kind (first.value isSome)).trans (first.kind isSome)

/-- A variable that has a value is given another. -/
theorem assigned (old new : Value) : Evolves ⟨some old, false⟩ ⟨some new, false⟩ :=
  ⟨nofun, fun _ => rfl, fun _ => rfl⟩

theorem declared (new : Binding) : Evolves ⟨none, false⟩ new :=
  ⟨nofun, nofun, nofun⟩

end Binding.Evolves

/-- The bindings of a scope change as they may, and none but those of `own` get a first value. -/
def Scope.Evolves (own : List String) (old new : Scope) : Prop :=
  ∀ x b, old.lookup x = some b →
    ∃ b', new.lookup x = some b' ∧ b.Evolves b' ∧ (b.value = none → x ∉ own → b' = b)

namespace Scope.Evolves

variable {own own₁ own₂ : List String} {scope scope₁ scope₂ : Scope}

theorem refl (own : List String) (scope : Scope) : scope.Evolves own scope :=
  fun _ b found => ⟨b, found, .refl b, fun _ _ => rfl⟩

theorem mono (subset : own₁ ⊆ own₂) (evolves : scope.Evolves own₁ scope₁) :
    scope.Evolves own₂ scope₁ := by
  intro x b found
  obtain ⟨b₁, found₁, evolves, same⟩ := evolves x b found
  exact ⟨b₁, found₁, evolves, fun unset notOwn => same unset fun inOwn => notOwn (subset inOwn)⟩

theorem trans (first : scope.Evolves own₁ scope₁) (next : scope₁.Evolves own₂ scope₂) :
    scope.Evolves (own₁ ++ own₂) scope₂ := by
  intro x b found
  obtain ⟨b₁, found₁, evolves₁, same₁⟩ := first x b found
  obtain ⟨b₂, found₂, evolves₂, same₂⟩ := next x b₁ found₁
  refine ⟨b₂, found₂, evolves₁.trans evolves₂, fun unset notOwn => ?_⟩
  obtain ⟨notOwn₁, notOwn₂⟩ := not_or.mp (List.mem_append.not.mp notOwn)
  obtain rfl := same₁ unset notOwn₁
  exact same₂ unset notOwn₂

theorem set {x : String} {b b' : Binding} (found : scope.lookup x = some b) (evolves : b.Evolves b')
    (first : b.value = none → x ∈ own) : scope.Evolves own (scope.set x b') := by
  intro y c foundY
  rw [lookup_set]
  split
  · next same =>
      subst same
      obtain rfl := Option.some.inj (found.symm.trans foundY)
      exact ⟨b', rfl, evolves, fun unset notOwn => absurd (first unset) notOwn⟩
  · exact ⟨c, foundY, .refl c, fun _ _ => rfl⟩

theorem assign {x : String} {old : Value} (found : scope.lookup x = some ⟨some old, false⟩)
    (value : Value) : scope.Evolves [] (scope.set x ⟨some value, false⟩) :=
  .set found (.assigned old value) (by simp)

end Scope.Evolves

/-- The binding of a name in the scope that has `p` scopes below it. -/
def Scopes.binding? (p : Nat) (x : String) : Scopes → Option Binding
  | [] => none
  | scope :: outer => if p = outer.length then scope.lookup x else binding? p x outer

/-- The scopes stay, their bindings change as they may, and none but those of `own` in the innermost
    scope get a first value. -/
inductive Scopes.Evolves : List String → Scopes → Scopes → Prop where
  | nil {own} : Evolves own [] []
  | cons {own scope scope' outer outer'} : scope.Evolves own scope' → Evolves [] outer outer' →
      Evolves own (scope :: outer) (scope' :: outer')

namespace Scopes

variable {own own₁ own₂ : List String} {scopes scopes₁ scopes₂ : Scopes} {p : Nat} {x : String}
  {b : Binding}

theorem lt_of_binding? (found : scopes.binding? p x = some b) : p < scopes.length := by
  induction scopes with
  | nil => cases found
  | cons scope outer ih =>
      rw [binding?] at found
      split at found
      · next here => simp [here]
      · exact Nat.lt_succ_of_lt (ih found)

theorem binding?_cons_of_lt (scope : Scope) (below : p < scopes.length) :
    binding? p x (scope :: scopes) = binding? p x scopes :=
  if_neg (Nat.ne_of_lt below)

theorem binding?_cons_self (scope : Scope) :
    binding? scopes.length x (scope :: scopes) = scope.lookup x :=
  if_pos rfl

namespace Evolves

theorem refl (own : List String) (scopes : Scopes) : scopes.Evolves own scopes := by
  induction scopes generalizing own with
  | nil => exact .nil
  | cons scope outer ih => exact .cons (.refl own scope) (ih [])

theorem mono (subset : own₁ ⊆ own₂) (evolves : scopes.Evolves own₁ scopes₁) :
    scopes.Evolves own₂ scopes₁ := by
  cases evolves with
  | nil => exact .nil
  | cons inner outer => exact .cons (inner.mono subset) outer

theorem trans (first : scopes.Evolves own₁ scopes₁) (next : scopes₁.Evolves own₂ scopes₂) :
    scopes.Evolves (own₁ ++ own₂) scopes₂ := by
  induction first generalizing own₂ scopes₂ with
  | nil =>
      cases next
      exact .nil
  | cons inner _ ih =>
      cases next with
      | cons inner' outer' => exact .cons (inner.trans inner') (ih outer')

theorem length_eq (evolves : scopes.Evolves own scopes₁) : scopes₁.length = scopes.length := by
  induction evolves with
  | nil => rfl
  | cons _ _ ih => exact congrArg (· + 1) ih

/-- What is left of the scopes once the innermost is. -/
theorem leave {scope : Scope} (evolves : Evolves own (scope :: scopes) scopes₁) :
    ∃ scope₁ outer, scopes₁ = scope₁ :: outer ∧ scopes.Evolves [] outer := by
  cases evolves with
  | cons _ outer => exact ⟨_, _, rfl, outer⟩

theorem binding? (evolves : scopes.Evolves own scopes₁) (found : scopes.binding? p x = some b) :
    ∃ b', scopes₁.binding? p x = some b' ∧ b.Evolves b' ∧
      (b.value = none → (x ∈ own → p + 1 < scopes.length) → b' = b) := by
  induction evolves with
  | nil => cases found
  | @cons own scope scope' outer outer' inner rest ih =>
      rw [Scopes.binding?] at found ⊢
      rw [rest.length_eq]
      split at found
      · next here =>
          rw [if_pos here]
          obtain ⟨b', found', evolves, same⟩ := inner x b found
          refine ⟨b', found', evolves, fun unset outside => same unset fun isOwn => ?_⟩
          have := outside isOwn
          simp [here] at this
      · next elsewhere =>
          rw [if_neg elsewhere]
          obtain ⟨b', found', evolves, same⟩ := ih found
          exact ⟨b', found', evolves, fun unset _ => same unset nofun⟩

theorem replace {old : Value} (found : scopes.find? x = some ⟨some old, false⟩) (value : Value) :
    scopes.Evolves [] (scopes.replace x ⟨some value, false⟩) := by
  induction scopes with
  | nil => cases found
  | cons scope outer ih =>
      rw [Scopes.replace]
      rw [find?_cons] at found
      cases here : scope.lookup x with
      | some binding =>
          rw [here, Option.some_or] at found
          cases found
          exact .cons (.assign here value) (.refl [] outer)
      | none =>
          rw [here, Option.none_or] at found
          exact .cons (.refl [] scope) (ih found)

theorem setInner (found : scopes.binding? (scopes.length - 1) x = some ⟨none, false⟩)
    (new : Binding) : scopes.Evolves [x] (scopes.setInner x new) := by
  cases scopes with
  | nil => exact .nil
  | cons scope outer =>
      rw [List.length_cons, Nat.add_sub_cancel, binding?_cons_self] at found
      exact .cons (.set found (.declared new) fun _ => .head _) (.refl [] outer)

theorem setOuter {old : Value} (found : scopes.binding? 0 x = some ⟨some old, false⟩)
    (value : Value) : scopes.Evolves [] (scopes.setOuter x ⟨some value, false⟩) := by
  induction scopes with
  | nil => exact .nil
  | cons scope outer ih =>
      cases outer with
      | nil => exact .cons (.assign found value) .nil
      | cons next outer =>
          rw [binding?_cons_of_lt _ (Nat.zero_lt_succ _)] at found
          exact .cons (.refl [] scope) (ih found)

theorem assign {value : Value} (assigned : scopes.assign x value = .ok scopes₁) :
    scopes.Evolves [] scopes₁ := by
  rw [Scopes.assign] at assigned
  split at assigned <;> cases assigned
  next found => exact .replace found value

end Evolves

end Scopes

/-! ## Declarations of one block -/

namespace Declarations

variable {declared declared' final : Declared} {stmts : List Stmt} {x : String}

/-- A name that is declared by `let` or `const` was not declared before, and what is not declared
    behind the declaration is another name. -/
theorem fresh_of_declare {s : Simple} (accepted : declare declared s = .ok declared') :
    (∀ x ∈ s.locals.map Prod.fst, declared.lookup x = none) ∧
      ∀ y, declared'.lookup y = none → declared.lookup y = none ∧ y ∉ s.locals.map Prod.fst := by
  cases s with
  | assign | update =>
      cases accepted
      exact ⟨nofun, fun y absent => ⟨absent, nofun⟩⟩
  | declare kind name init =>
      obtain ⟨rfl, before⟩ := of_declare accepted
      refine ⟨fun x member => ?_, fun y absent => ?_⟩
      · obtain ⟨⟨x, kind'⟩, isLocal, rfl⟩ := List.mem_map.mp member
        obtain ⟨rfl, rfl, notVar⟩ := of_mem_locals isLocal
        exact before.resolve_right fun again => notVar again.2
      · rw [List.lookup_cons] at absent
        split at absent
        · cases absent
        · next differs =>
            refine ⟨absent, fun member => ?_⟩
            obtain ⟨⟨y, kind'⟩, isLocal, rfl⟩ := List.mem_map.mp member
            obtain ⟨rfl, -⟩ := of_mem_locals isLocal
            simp at differs

theorem nodup_of_checkStmts (checked : checkStmts declared stmts = .ok final) :
    (Enclosure.block stmts).declared.Nodup ∧
      ∀ x ∈ (Enclosure.block stmts).declared, declared.lookup x = none := by
  induction stmts generalizing declared with
  | nil => exact ⟨.nil, nofun⟩
  | cons s rest ih =>
      obtain ⟨mid, accepted, -, checked⟩ := checkStmts_cons checked
      obtain ⟨nodup, later⟩ := ih checked
      have fresh : (∀ x ∈ s.locals.map Prod.fst, declared.lookup x = none) ∧
          ∀ y, mid.lookup y = none → declared.lookup y = none ∧ y ∉ s.locals.map Prod.fst := by
        cases s with
        | simple s => exact fresh_of_declare accepted
        | _ =>
            cases accepted
            exact ⟨nofun, fun y absent => ⟨absent, nofun⟩⟩
      rw [Enclosure.declared_cons]
      refine ⟨List.nodup_append'.mpr ⟨?_, nodup, fun x here behind => ?_⟩, fun x member => ?_⟩
      · cases s with
        | simple s => exact s.nodup_locals
        | _ => exact .nil
      · exact (fresh.2 x (later x behind)).2 here
      · rcases List.mem_append.mp member with here | behind
        · exact fresh.1 x here
        · exact (fresh.2 x (later x behind)).1

/-- No name is declared twice by `let` or `const` in a block. -/
theorem nodup_of_checkBlock (checked : checkBlock stmts = .ok ()) :
    (Enclosure.block stmts).declared.Nodup := by
  obtain ⟨final, checked, -⟩ := bind_eq_ok.mp checked
  exact (nodup_of_checkStmts checked).1

end Declarations

/-! ## What holds between the parts of a run -/

/-- Every `var` has a value in the scope of the script, and the names that are still to be declared
    have none in the innermost scope. -/
structure Scopes.Ready (vars fresh : List String) (scopes : Scopes) : Prop where
  vars : ∀ x ∈ vars, ∃ value, scopes.binding? 0 x = some ⟨some value, false⟩
  fresh : ∀ x ∈ fresh, scopes.binding? (scopes.length - 1) x = some ⟨none, false⟩

namespace Scopes.Ready

variable {vars fresh fresh' own : List String} {scopes scopes' : Scopes}

theorem mono (ready : scopes.Ready vars fresh) (subset : fresh' ⊆ fresh) :
    scopes.Ready vars fresh' :=
  ⟨ready.vars, fun x member => ready.fresh x (subset member)⟩

theorem evolve (ready : scopes.Ready vars fresh) (evolves : scopes.Evolves own scopes')
    (left : ∀ x ∈ fresh', x ∈ fresh ∧ x ∉ own) : scopes'.Ready vars fresh' := by
  refine ⟨fun x isVar => ?_, fun x isFresh => ?_⟩
  · obtain ⟨value, found⟩ := ready.vars x isVar
    obtain ⟨⟨value', constant⟩, found', evolves, -⟩ := evolves.binding? found
    obtain ⟨value', rfl⟩ := Option.isSome_iff_exists.mp (evolves.value rfl)
    obtain rfl := evolves.kind rfl
    exact ⟨value', found'⟩
  · obtain ⟨wasFresh, notOwn⟩ := left x isFresh
    obtain ⟨b, found', -, same⟩ := evolves.binding? (ready.fresh x wasFresh)
    rw [evolves.length_eq, found', same rfl fun isOwn => absurd isOwn notOwn]

theorem enter (ready : scopes.Ready vars fresh) (e : Enclosure) :
    Ready vars e.declared (e.scope :: scopes) := by
  refine ⟨fun x isVar => ?_, fun x isLocal => ?_⟩
  · obtain ⟨value, found⟩ := ready.vars x isVar
    rw [binding?_cons_of_lt _ (lt_of_binding? found)]
    exact ⟨value, found⟩
  · rw [List.length_cons, Nat.add_sub_cancel, binding?_cons_self]
    exact e.lookup_scope isLocal

/-- What a simple statement makes of scopes that are ready for it. -/
theorem exec {s : Simple} (ready : scopes.Ready vars (s.locals.map Prod.fst))
    (known : varOf s ⊆ vars) (executed : s.exec scopes = .ok scopes') :
    scopes.Evolves (s.locals.map Prod.fst) scopes' := by
  rcases s.exec_cases executed with ⟨kind, name, init, value, rfl, rfl⟩ |
    ⟨none_, name, value, assigned⟩
  · cases kind with
    | letDecl => exact .setInner (ready.fresh name (.head _)) _
    | constDecl => exact .setInner (ready.fresh name (.head _)) _
    | varDecl =>
        obtain ⟨old, found⟩ := ready.vars name (known (.head _))
        cases value with
        | none => exact .refl [] scopes
        | some value => exact .setOuter found value
  · rw [none_]
    exact .assign assigned

end Scopes.Ready

/-- The scope that a script starts in is ready for its statements. -/
theorem Script.ready_scope {script : Script} (checked : checkBlock script.body = .ok ()) :
    Scopes.Ready script.varNames (Enclosure.block script.body).declared [script.scope] := by
  refine ⟨fun x isVar => ⟨.undefined, Scope.lookup_addVars isVar ?_⟩, fun x isLocal => ?_⟩
  · rw [Scope.lookup_eq_none, Enclosure.names_ofBlock]
    exact not_mem_locals_of_checkBlock checked isVar
  · exact Scope.lookup_addVars_of_some (Enclosure.lookup_scope isLocal) _

/-! ## A run, moment by moment -/

/-- A simple statement is performed in order. Of what has no value it gives one to the names that it
    declares by `let` or `const`, and then it is the one declaration of that name in the innermost
    enclosure. -/
structure Simple.InOrder (s : Simple) (stage : Stage) (scopes' : Scopes) : Prop where
  own : s.locals ≠ [] → ∃ e ∈ stage.around.head?, e.Holds s ∧ e.declared.Nodup
  evolves : stage.scopes.Evolves (s.locals.map Prod.fst) scopes'

structure Moment.Succeeds (stage : Stage) (v : Moment) : Prop where
  follows : Follows stage v
  inOrder : ∀ s, v.act = .perform s → s.InOrder stage v.scopes

/-- Moments one behind another, from one stage to another. -/
inductive Leads : Stage → List Moment → Stage → Prop where
  | nil {stage} : Leads stage [] stage
  | cons {stage v moments last} : v.Succeeds stage → Leads v.toStage moments last →
      Leads stage (v :: moments) last

namespace Leads

variable {stage mid last : Stage} {moments moments' : List Moment}

theorem append (first : Leads stage moments mid) (next : Leads mid moments' last) :
    Leads stage (moments ++ moments') last := by
  induction first with
  | nil => exact next
  | cons succeeds _ ih => exact .cons succeeds (ih next)

theorem isChain {u : Moment} (leads : Leads u.toStage moments last) :
    (u :: moments).IsChain fun u v => v.Succeeds u.toStage := by
  generalize start : u.toStage = stage at leads
  induction leads generalizing u with
  | nil => exact .singleton _
  | cons succeeds _ ih =>
      subst start
      exact .cons_cons succeeds (ih rfl)

theorem exists_stage (leads : Leads stage moments last) :
    ∀ v ∈ moments, ∃ before, v.Succeeds before := by
  induction leads with
  | nil => exact nofun
  | cons succeeds _ ih => exact List.forall_mem_cons.mpr ⟨⟨_, succeeds⟩, ih⟩

theorem getLast?_eq {u : Moment} (leads : Leads u.toStage moments last) :
    (u :: moments).getLast?.map Moment.toStage = some last := by
  generalize start : u.toStage = stage at leads
  induction leads generalizing u with
  | nil => exact congrArg some start
  | cons _ _ ih =>
      rw [List.getLast?_cons_cons]
      exact ih rfl

end Leads

/-- The moments of a part of a run that comes back to the enclosures it starts in. -/
structure Course (around : List Enclosure) (own : List String) (m : Machine) (moments : List Moment)
    (o : Outcome) : Prop where
  leads : Leads ⟨around, m.scopes⟩ moments ⟨around, o.machine.scopes⟩
  evolves : m.scopes.Evolves own o.machine.scopes

/-- From scopes that are ready, `moments` are the moments of `f`. -/
def Tells (vars fresh : List String) (around : List Enclosure) (own : List String)
    (f : Machine → Outcome) (moments : Moments) : Prop :=
  ∀ m, m.scopes.Ready vars fresh → Course around own m (moments m) (f m)

namespace Tells

variable {vars fresh fresh' own own' : List String} {around : List Enclosure}
  {f g : Machine → Outcome} {first next : Moments}

theorem mono (tells : Tells vars fresh' around own f first) (subset : fresh' ⊆ fresh) :
    Tells vars fresh around own f first :=
  fun m ready => tells m (ready.mono subset)

theorem still (same : ∀ m, (f m).machine.scopes = m.scopes) :
    Tells vars fresh around [] f .still := by
  intro m _
  refine ⟨?_, ?_⟩
  · rw [same]
    exact .nil
  · rw [same]
    exact .refl [] _

theorem andThen (tells : Tells vars fresh around own f first)
    (tells' : Tells vars fresh' around own' g next) (left : ∀ x ∈ fresh', x ∈ fresh ∧ x ∉ own) :
    Tells vars fresh around (own ++ own') (fun m => (f m).andThen g) (.andThen f first next) := by
  intro m ready
  have course := tells m ready
  simp only [Moments.andThen, Moments.behind]
  cases run : f m with
  | mk halt m₁ =>
      rw [run] at course
      cases halt with
      | some halt =>
          rw [List.append_nil]
          exact ⟨course.leads, course.evolves.mono (List.subset_append_left _ _)⟩
      | none =>
          have course' := tells' m₁ (ready.evolve course.evolves left)
          exact ⟨course.leads.append course'.leads, course.evolves.trans course'.evolves⟩

/-- What comes behind declares nothing. -/
theorem andThen_plain (tells : Tells vars fresh around own f first)
    (tells' : Tells vars [] around [] g next) :
    Tells vars fresh around own (fun m => (f m).andThen g) (.andThen f first next) := by
  have both := tells.andThen tells' nofun
  rwa [List.append_nil] at both

theorem behind (same : ∀ m, (f m).machine.scopes = m.scopes)
    (tells : Tells vars fresh around own g next) :
    Tells vars fresh around own (fun m => (f m).andThen g) (.behind f next) :=
  andThen (still same) tells fun _ isFresh => ⟨isFresh, nofun⟩

theorem within (e : Enclosure) (inner : Tells vars e.declared (e :: around) e.declared f first) :
    Tells vars fresh around [] (·.within e.scope f) (.within around e f first) := by
  intro m ready
  have course := inner (m.enter e.scope) (ready.enter e)
  obtain ⟨scope, outer, same, evolves⟩ := course.evolves.leave
  have left : (m.within e.scope f).machine.scopes = outer := congrArg List.tail same
  refine ⟨.cons ⟨.enter e, nofun⟩ (course.leads.append (.cons ⟨?_, nofun⟩ ?_)), ?_⟩
  · rw [same, Machine.leave, same]
    exact .leave
  · exact .nil
  · rw [left]
    exact evolves

theorem test (condition : Expr) (yes : Tells vars fresh around own f first)
    (no : Tells vars fresh around own g next) :
    Tells vars fresh around own (·.test condition f g) (.test condition first next) := by
  intro m ready
  simp only [Machine.test, Moments.test]
  cases condition.eval m.scopes with
  | error => exact ⟨.nil, .refl own _⟩
  | ok value =>
      dsimp only
      split
      · exact yes m ready
      · exact no m ready

theorem loop (condition : Expr) (round : Tells vars [] around [] f first) (rounds : Nat) :
    Tells vars [] around [] (Machine.loop condition f rounds) (.loop condition f first rounds) := by
  induction rounds with
  | zero => exact still fun _ => rfl
  | succ rounds ih =>
      intro m ready
      rw [Machine.loop_succ]
      exact test condition (round.andThen_plain ih) (still fun _ => rfl) m ready

theorem simple {s : Simple} {e : Enclosure} (known : varOf s ⊆ vars)
    (held : s.locals ≠ [] → e.Holds s ∧ e.declared.Nodup) :
    Tells vars (s.locals.map Prod.fst) (e :: around) (s.locals.map Prod.fst) (·.simple s)
      (.simple (e :: around) s) := by
  intro m ready
  simp only [Machine.simple, Moments.simple]
  cases executed : s.exec m.scopes with
  | error => exact ⟨.nil, .refl _ _⟩
  | ok scopes =>
      have evolves := ready.exec known executed
      refine ⟨.cons ⟨.perform executed, ?_⟩ .nil, evolves⟩
      rintro _ ⟨⟩
      exact ⟨fun isLocal => ⟨e, rfl, held isLocal⟩, evolves⟩

end Tells

/-- A statement stands in an enclosure of a script that has been checked. -/
structure Stmt.Sits (vars : List String) (e : Enclosure) (s : Stmt) : Prop where
  headed : s.isHeaded = true
  checked : checkNested s = .ok ()
  vars : varNamesOf s ⊆ vars
  held : ∀ t, s = .simple t → e.Holds t
  distinct : e.declared.Nodup

/-- Statements stand in a block, the last ones of it. -/
structure AllSit (vars : List String) (body stmts : List Stmt) : Prop where
  each : ∀ s ∈ stmts, s.Sits vars (.block body)
  distinct : (Enclosure.block stmts).declared.Nodup

theorem AllSit.of_checkBlock {vars : List String} {body : List Stmt}
    (headed : areHeaded body = true) (checked : checkBlock body = .ok ())
    (known : varNames body ⊆ vars) : AllSit vars body body := by
  have distinct := nodup_of_checkBlock checked
  refine ⟨fun s member => ⟨areHeaded_iff.mp headed s member,
    checkNested_of_checkBlock checked s member, ?_, ?_, distinct⟩, distinct⟩
  · exact fun x isVar => known (varNamesOf_subset_varNames member isVar)
  · rintro t rfl
    exact member

theorem Stmt.Sits.of_mem_bodies {vars : List String} {e : Enclosure} {s : Stmt} {body : List Stmt}
    (sits : s.Sits vars e) (member : body ∈ s.bodies) : AllSit vars body body :=
  .of_checkBlock (areHeaded_of_mem_bodies sits.headed member)
    (checkBlock_of_mem_bodies sits.checked member)
    fun _ isVar => sits.vars (varNames_subset_of_mem_bodies member isVar)

theorem Machine.console_scopes (method : String) (args : List Expr) (m : Machine) :
    (m.console method args).machine.scopes = m.scopes := by
  rw [console]
  split
  · rfl
  · split <;> rfl

section Runs

variable {limits : Limits} {clock : Clock} {rounds : Nat} {vars : List String}
  {around : List Enclosure}

theorem scopes_tick_andThen {f : Machine → Outcome}
    (same : ∀ m, (f m).machine.scopes = m.scopes) (m : Machine) :
    ((m.tick limits clock).andThen f).machine.scopes = m.scopes :=
  Outcome.andThen_machine (P := (·.scopes = m.scopes)) (m.tick_scopes limits clock)
    fun m' _ kept => (same m').trans kept

theorem Simple.tells {s : Simple} {e : Enclosure} (known : varOf s ⊆ vars)
    (held : s.locals ≠ [] → e.Holds s ∧ e.declared.Nodup) :
    Tells vars (s.locals.map Prod.fst) (e :: around) (s.locals.map Prod.fst) (s.run limits clock)
      (s.moments limits clock (e :: around)) :=
  .behind (Machine.tick_scopes limits clock) (.simple known held)

/-- The first part of a header is the only one that may declare. -/
theorem tells_init {init : Option Simple} (known : init.toList.flatMap varOf ⊆ vars) :
    Tells vars (Enclosure.header init).declared (.header init :: around)
      (Enclosure.header init).declared (runInit limits clock init)
      (partMoments limits clock (.header init :: around) init) := by
  cases init with
  | none => exact .still fun _ => rfl
  | some s =>
      refine Simple.tells ?_ fun _ => ⟨rfl, s.nodup_locals⟩
      simpa using known

theorem tells_update {update : Option Simple} {e : Enclosure}
    (isStep : update.all Simple.isStep = true) :
    Tells vars [] (e :: around) [] (runUpdate limits clock update)
      (partMoments limits clock (e :: around) update) := by
  cases update with
  | none => exact .still (Machine.tick_scopes limits clock)
  | some s =>
      cases s with
      | declare => cases isStep
      | assign => exact Simple.tells (s := .assign ..) (List.nil_subset _) nofun
      | update => exact Simple.tells (s := .update ..) (List.nil_subset _) nofun

mutual

theorem Stmt.tells : (s : Stmt) → ∀ {around e}, s.Sits vars e →
    Tells vars (s.locals.map Prod.fst) (e :: around) (s.locals.map Prod.fst)
      (s.run limits clock rounds) (s.moments limits clock rounds (e :: around))
  | .simple s, _, _, sits => Simple.tells sits.vars fun _ => ⟨sits.held s rfl, sits.distinct⟩
  | .branch condition yes none, _, _, sits =>
      .behind (Machine.tick_scopes limits clock)
        (.test condition (.within (.block yes) (tells_runAll yes (sits.of_mem_bodies (.head _))))
          (.still fun _ => rfl))
  | .branch condition yes (some no), _, _, sits =>
      .behind (Machine.tick_scopes limits clock)
        (.test condition (.within (.block yes) (tells_runAll yes (sits.of_mem_bodies (.head _))))
          (.within (.block no) (tells_runAll no (sits.of_mem_bodies (.tail _ (.head _))))))
  | .forLoop init condition update body, _, _, sits => by
      have headed := sits.headed
      simp only [Stmt.isHeaded, Bool.and_eq_true] at headed
      refine .behind (Machine.tick_scopes limits clock) (.within (.header init) ?_)
      refine .andThen_plain (tells_init (List.append_subset.mp sits.vars).1) (.loop _ ?_ rounds)
      refine .andThen_plain (.within (.block body) ?_) (tells_update headed.1.2)
      exact tells_runAll body (sits.of_mem_bodies (.head _))
  | .whileLoop condition body, _, _, sits => by
      refine .behind (Machine.tick_scopes limits clock) (.loop condition ?_ rounds)
      refine .andThen_plain (.within (.block body) ?_) (.still (Machine.tick_scopes limits clock))
      exact tells_runAll body (sits.of_mem_bodies (.head _))
  | .block body, _, _, sits =>
      .behind (Machine.tick_scopes limits clock)
        (.within (.block body) (tells_runAll body (sits.of_mem_bodies (.head _))))
  | .console method args, _, _, _ =>
      .still (scopes_tick_andThen (Machine.console_scopes method args))
  | .expr e, _, _, _ => by
      refine .still (scopes_tick_andThen fun m => ?_)
      split <;> rfl
  | .empty, _, _, _ => .still (Machine.tick_scopes limits clock)

theorem tells_runAll : (stmts : List Stmt) → ∀ {around body}, AllSit vars body stmts →
    Tells vars (Enclosure.block stmts).declared (.block body :: around)
      (Enclosure.block stmts).declared (runAll limits clock rounds stmts)
      (allMoments limits clock rounds (.block body :: around) stmts)
  | [], _, _, _ => .still fun _ => rfl
  | s :: rest, _, _, sit => by
      have distinct := sit.distinct
      rw [Enclosure.declared_cons] at distinct ⊢
      obtain ⟨-, later, apart⟩ := List.nodup_append'.mp distinct
      refine .andThen (.mono (s.tells (sit.each s (.head _))) (List.subset_append_left _ _))
        (tells_runAll rest ⟨fun t behind => sit.each t (.tail _ behind), later⟩) ?_
      exact fun x behind => ⟨List.mem_append_right _ behind, fun before => apart before behind⟩

end

variable (limits clock rounds) in
/-- The moments of an accepted script lead from the scope that it starts in to the outcome. -/
theorem Script.leads_moments {code : String} {script : Script}
    (compiled : Script.compile code = .ok script) (start : Machine) :
    Leads ⟨[.block script.body], [script.scope]⟩
      (allMoments limits clock rounds [.block script.body] script.body
        { start with scopes := [script.scope] })
      ⟨[.block script.body], (script.run limits clock rounds start).machine.scopes⟩ := by
  have checked := (Script.compile_eq_ok_iff.mp compiled).2.2
  have sit : AllSit script.varNames script.body script.body :=
    .of_checkBlock (Script.areHeaded_of_compile compiled) checked (List.Subset.refl _)
  exact (tells_runAll script.body sit { start with scopes := [script.scope] }
    (Script.ready_scope checked)).leads

end Runs

/-! ## What becomes of a binding -/

theorem Simple.of_mem_locals {s : Simple} {x : String} (member : x ∈ s.locals.map Prod.fst) :
    ∃ kind init, s = .declare kind x init ∧ kind ≠ .varDecl := by
  obtain ⟨⟨x, kind⟩, isLocal, rfl⟩ := List.mem_map.mp member
  cases s with
  | declare kind' name init =>
      obtain ⟨rfl, rfl, notVar⟩ := Declarations.of_mem_locals isLocal
      exact ⟨kind, init, rfl, notVar⟩
  | assign | update => cases isLocal

theorem Enclosure.Holds.mem_declared {e : Enclosure} {s : Simple} (holds : e.Holds s) {x : String}
    (member : x ∈ s.locals.map Prod.fst) : x ∈ e.declared := by
  cases e with
  | block stmts =>
      obtain ⟨entry, isLocal, rfl⟩ := List.mem_map.mp member
      exact List.mem_map_of_mem (List.mem_flatMap.mpr ⟨_, holds, isLocal⟩)
  | header init =>
      cases holds
      exact member

/-- A binding in a scope that is there before and behind a change. -/
theorem Moment.Succeeds.binding? {stage : Stage} {v : Moment} (succeeds : v.Succeeds stage)
    {p : Nat} {x : String} {b : Binding} (found : stage.scopes.binding? p x = some b)
    (there : p < v.scopes.length) :
    ∃ b', v.scopes.binding? p x = some b' ∧ b.Evolves b' ∧
      (b.value = none → b'.value.isSome = true →
        ∃ kind init e, v.act = .perform (.declare kind x init) ∧ kind ≠ .varDecl ∧
          p + 1 = v.scopes.length ∧ v.around.head? = some e ∧ e.Holds (.declare kind x init) ∧
          e.declared.count x = 1) := by
  obtain ⟨follows, inOrder⟩ := succeeds
  have unchanged : ∀ {P : Prop}, b.value = none → b.value.isSome = true → P := by
    intro P unset isSet
    rw [unset] at isSet
    cases isSet
  cases follows with
  | enter e =>
      refine ⟨b, ?_, .refl b, unchanged⟩
      rw [Scopes.binding?_cons_of_lt _ (Scopes.lt_of_binding? found), found]
  | leave =>
      rw [Scopes.binding?_cons_of_lt _ there] at found
      exact ⟨b, found, .refl b, unchanged⟩
  | @perform around scopes s scopes' executed =>
      obtain ⟨own, evolves⟩ := inOrder s rfl
      obtain ⟨b', found', lasts, same⟩ := evolves.binding? found
      refine ⟨b', found', lasts, fun unset isSet => ?_⟩
      by_cases isOwn : x ∈ s.locals.map Prod.fst
      · obtain ⟨kind, init, rfl, notVar⟩ := Simple.of_mem_locals isOwn
        obtain ⟨e, inside, holds, distinct⟩ := own fun none => by simp [none] at isOwn
        have innermost : p + 1 = scopes'.length := by
          by_contra outside
          have sameLength : scopes'.length = scopes.length := evolves.length_eq
          have below : p < scopes'.length := there
          have inOuter : p + 1 < scopes.length := by omega
          obtain rfl := same unset fun _ => inOuter
          exact unchanged unset isSet
        exact ⟨kind, init, e, rfl, notVar, innermost, inside, holds,
          List.count_eq_one_of_mem distinct (holds.mem_declared isOwn)⟩
      · obtain rfl := same unset fun member => absurd member isOwn
        exact unchanged unset isSet

/-- A scope is entered with no value for what is declared there by `let` or `const`. -/
theorem Moment.Succeeds.binding?_of_enter {stage : Stage} {v : Moment}
    (succeeds : v.Succeeds stage) {e : Enclosure} (entered : v.act = .enter e) :
    v.around.head? = some e ∧
      ∀ x ∈ e.declared, v.scopes.binding? (v.scopes.length - 1) x = some ⟨none, false⟩ := by
  obtain ⟨follows, -⟩ := succeeds
  cases follows with
  | enter =>
      cases entered
      refine ⟨rfl, fun x isLocal => ?_⟩
      rw [List.length_cons, Nat.add_sub_cancel, Scopes.binding?_cons_self]
      exact Enclosure.lookup_scope isLocal
  | leave | perform => cases entered

/-- What becomes of the bindings of a scope between two moments. -/
def Lasts (p : Nat) (u v : Moment) : Prop :=
  ∀ x b, u.scopes.binding? p x = some b → ∃ b', v.scopes.binding? p x = some b' ∧ b.Evolves b'

theorem Lasts.trans {p : Nat} {u v w : Moment} (first : Lasts p u v) (next : Lasts p v w) :
    Lasts p u w := by
  intro x b found
  obtain ⟨b₁, found₁, evolves₁⟩ := first x b found
  obtain ⟨b₂, found₂, evolves₂⟩ := next x b₁ found₁
  exact ⟨b₂, found₂, evolves₁.trans evolves₂⟩

/-- While a scope is there, what has a value keeps one, and a constant keeps its own. -/
theorem pairwise_lasts {p : Nat} {moments : List Moment}
    (chain : moments.IsChain fun u v => v.Succeeds u.toStage)
    (there : ∀ u ∈ moments, p < u.scopes.length) : moments.Pairwise (Lasts p) := by
  have : Trans (Lasts p) (Lasts p) (Lasts p) := ⟨Lasts.trans⟩
  rw [← List.isChain_iff_pairwise]
  induction chain with
  | nil => exact .nil
  | singleton u => exact .singleton u
  | @cons_cons u v rest succeeds _ ih =>
      refine .cons_cons (fun x b found => ?_) (ih fun w member => there w (.tail _ member))
      obtain ⟨b', found', evolves, -⟩ := succeeds.binding? found (there v (.tail _ (.head _)))
      exact ⟨b', found', evolves⟩

/-- The moments of a run of an accepted script lead, change by change, to its outcome. As long as a
    scope is there, a binding in it that is constant stays what it is, and one that has a value is
    never without one again. What is declared by `let` or `const` has no value when its scope is
    entered, and is given the first one by the declaration itself, the only one of the name in the
    block or header that the scope was entered for. -/
theorem constants_and_first_values_kept {code : String} {script : Script}
    (compiled : Script.compile code = .ok script) (limits : Limits) (clock : Clock) (rounds : Nat)
    (start : Machine) :
    let moments := script.moments limits clock rounds start
    moments.IsChain (fun u v => v.Follows u.toStage) ∧
      moments.getLast?.map (·.scopes) =
        some (script.run limits clock rounds start).machine.scopes ∧
      (∀ p stretch, stretch <:+: moments → (∀ u ∈ stretch, p < u.scopes.length) →
        stretch.Pairwise fun u v => ∀ x b, u.scopes.binding? p x = some b →
          ∃ b', v.scopes.binding? p x = some b' ∧ (b.constant = true → b' = b) ∧
            (b.value.isSome = true → b'.value.isSome = true)) ∧
      (∀ u ∈ moments, ∀ e, u.act = .enter e → u.around.head? = some e ∧
        ∀ x ∈ e.declared, u.scopes.binding? (u.scopes.length - 1) x = some ⟨none, false⟩) ∧
      ∀ u v, [u, v] <:+: moments → ∀ p x b b', u.scopes.binding? p x = some b →
        v.scopes.binding? p x = some b' → b.value = none → b'.value.isSome = true →
        ∃ kind init e, v.act = .perform (.declare kind x init) ∧ kind ≠ .varDecl ∧
          p + 1 = v.scopes.length ∧ v.around.head? = some e ∧ e.Holds (.declare kind x init) ∧
          e.declared.count x = 1 := by
  intro moments
  have checked := (Script.compile_eq_ok_iff.mp compiled).2.2
  have leads := Script.leads_moments limits clock rounds compiled start
  have chain : moments.IsChain fun u v => v.Succeeds u.toStage := leads.isChain
  refine ⟨chain.imp fun _ _ succeeds => succeeds.follows, ?_, ?_, ?_, ?_⟩
  · have ends : moments.getLast?.map Moment.toStage = some _ := leads.getLast?_eq
    have scopes := congrArg (Option.map Stage.scopes) ends
    rwa [Option.map_map] at scopes
  · intro p stretch part there
    have inside := List.IsChain.infix chain part
    refine (pairwise_lasts inside there).imp fun lasts x b found => ?_
    obtain ⟨b', found', evolves⟩ := lasts x b found
    exact ⟨b', found', evolves.constant, evolves.value⟩
  · intro u member e entered
    rcases List.mem_cons.mp member with rfl | later
    · cases entered
      exact ⟨rfl, (Script.ready_scope checked).fresh⟩
    · obtain ⟨before, succeeds⟩ := leads.exists_stage u later
      exact succeeds.binding?_of_enter entered
  · intro u v part p x b b' found found' unset isSet
    have inside := List.IsChain.infix chain part
    have succeeds : v.Succeeds u.toStage := by simpa using inside
    obtain ⟨b'', found'', -, first⟩ := succeeds.binding? found (Scopes.lt_of_binding? found')
    obtain rfl := Option.some.inj (found'.symm.trans found'')
    exact first unset isSet

/-- A constant whose name is declared once more in a block, and assigned there. -/
theorem constants_and_first_values_kept_shadowed :
    let script : Script := ⟨[.simple (.declare .constDecl "x" (some (.bool true))),
      .block [.simple (.declare .letDecl "x" (some .null)),
        .simple (.assign "x" none (.bool false))]]⟩
    let code := "const x = true;\n\x7b\nlet x = null;\nx = false;\n\x7d\n"
    let moments := script.moments ⟨none, none⟩ (fun _ => 0) 1 .fresh
    Script.compile code = .ok script ∧
      moments.map (·.scopes.binding? 1 "x") = [none, none, some ⟨none, false⟩,
        some ⟨some .null, false⟩, some ⟨some (.bool false), false⟩, none] ∧
      ∀ v ∈ moments.drop 2, v.scopes.binding? 0 "x" = some ⟨some (.bool true), true⟩ := by
  intro script code moments
  have proper : AreProper (IsSpelled fun _ => []) script.body := by
    have isX : IsName "x" := isName_of_isValid (by decide) (by decide)
    simp [script, AreProper, Stmt.IsProper, Simple.IsProper, IsSpelled, isX]
  have text : code = String.ofList (layoutAll (Expr.enclosed fun _ => []) script.body) := rfl
  have compiled : Script.compile code = .ok script := by
    rw [text]
    exact compile_layoutAll_enclosed proper (by decide) rfl
  obtain ⟨-, -, kept, -⟩ :=
    constants_and_first_values_kept compiled ⟨none, none⟩ (fun _ => 0) 1 .fresh
  refine ⟨compiled, rfl, fun v member => ?_⟩
  have heights : (moments.drop 1).all (fun u => 0 < u.scopes.length) = true := rfl
  have pairwise := kept 0 _ (List.drop_suffix 1 moments).isInfix
    fun u inside => of_decide_eq_true (List.all_eq_true.mp heights u inside)
  obtain ⟨b, found, same, -⟩ :=
    (List.pairwise_cons.mp pairwise).1 v member "x" ⟨some (.bool true), true⟩ rfl
  rw [found, same rfl]

end LineScript
