import LineScript.Proofs.Run.Shadowing

/-! # The moments of a run

A run changes its scopes in three ways only: it enters a block or a header, it leaves one, or it
performs a simple statement. What the scopes are behind each such change are the moments of the
run. They are told part by part, each part from the machine at which the run comes to it.
-/

namespace LineScript

namespace Enclosure

/-- The scope that is entered. -/
def scope : Enclosure → Scope
  | block stmts => Scope.ofBlock stmts
  | header init => Scope.ofHeader init

/-- A simple statement stands in a block, not in one of the blocks inside, or is the first part of
    a header. -/
def Holds (s : Simple) : Enclosure → Prop
  | block stmts => .simple s ∈ stmts
  | header init => init = some s

end Enclosure

/-- What changes the scopes. -/
inductive Act where
  | enter (inside : Enclosure)
  | leave
  | perform (s : Simple)

/-- The scopes of a run and what they were entered for, innermost first. -/
structure Stage where
  around : List Enclosure
  scopes : Scopes

/-- The scopes behind a change. -/
structure Moment extends Stage where
  act : Act

/-- A moment comes next behind a stage if it is what the act makes of it. -/
inductive Moment.Follows : Stage → Moment → Prop where
  | enter {around scopes} (e : Enclosure) :
      Follows ⟨around, scopes⟩ ⟨⟨e :: around, e.scope :: scopes⟩, .enter e⟩
  | leave {e around scope scopes} :
      Follows ⟨e :: around, scope :: scopes⟩ ⟨⟨around, scopes⟩, .leave⟩
  | perform {around scopes s scopes'} : s.exec scopes = .ok scopes' →
      Follows ⟨around, scopes⟩ ⟨⟨around, scopes'⟩, .perform s⟩

/-- The moments of a part of a run, by the machine that it starts at. -/
abbrev Moments := Machine → List Moment

namespace Moments

/-- Nothing changes. -/
def still : Moments :=
  fun _ => []

/-- The moments of what comes behind `f`, if `f` does not halt. -/
def behind (f : Machine → Outcome) (next : Moments) : Moments := fun m =>
  match f m with
  | ⟨none, m⟩ => next m
  | ⟨some _, _⟩ => []

/-- The moments of `f` and of what comes behind it. -/
def andThen (f : Machine → Outcome) (first next : Moments) : Moments := fun m =>
  first m ++ behind f next m

def simple (around : List Enclosure) (s : Simple) : Moments := fun m =>
  match s.exec m.scopes with
  | .error _ => []
  | .ok scopes => [⟨⟨around, scopes⟩, .perform s⟩]

/-- The moments of `f` in a scope of its own, which is left however `f` ends. -/
def within (around : List Enclosure) (e : Enclosure) (f : Machine → Outcome) (inner : Moments) :
    Moments := fun m =>
  let inside := m.enter e.scope
  ⟨⟨e :: around, inside.scopes⟩, .enter e⟩ ::
    (inner inside ++ [⟨⟨around, (f inside).machine.leave.scopes⟩, .leave⟩])

def test (condition : Expr) (yes no : Moments) : Moments := fun m =>
  match condition.eval m.scopes with
  | .error _ => []
  | .ok value => if value.isTruthy then yes m else no m

def loop (condition : Expr) (round : Machine → Outcome) (inner : Moments) : Nat → Moments
  | 0 => still
  | rounds + 1 => test condition (andThen round inner (loop condition round inner rounds)) still

end Moments

section

variable (limits : Limits) (clock : Clock) (rounds : Nat)

def Simple.moments (around : List Enclosure) (s : Simple) : Moments :=
  .behind (·.tick limits clock) (.simple around s)

/-- The moments of the first or the last part of a header. -/
def partMoments (around : List Enclosure) : Option Simple → Moments
  | some s => s.moments limits clock around
  | none => .still

mutual
/-- The moments of a statement inside the given enclosures. -/
def Stmt.moments (around : List Enclosure) : Stmt → Moments
  | .simple s => s.moments limits clock around
  | .branch condition yes none =>
      .behind (·.tick limits clock) (.test condition
        (.within around (.block yes) (runAll limits clock rounds yes)
          (allMoments (.block yes :: around) yes))
        .still)
  | .branch condition yes (some no) =>
      .behind (·.tick limits clock) (.test condition
        (.within around (.block yes) (runAll limits clock rounds yes)
          (allMoments (.block yes :: around) yes))
        (.within around (.block no) (runAll limits clock rounds no)
          (allMoments (.block no :: around) no)))
  | .forLoop init condition update body =>
      .behind (·.tick limits clock) (.within around (.header init)
        (fun m => (runInit limits clock init m).andThen
          (Machine.loop (condition.getD (.bool true)) (loopRound limits clock rounds update body)
            rounds))
        (.andThen (runInit limits clock init)
          (partMoments limits clock (.header init :: around) init)
          (.loop (condition.getD (.bool true)) (loopRound limits clock rounds update body)
            (.andThen (runBlock limits clock rounds body)
              (.within (.header init :: around) (.block body) (runAll limits clock rounds body)
                (allMoments (.block body :: .header init :: around) body))
              (partMoments limits clock (.header init :: around) update))
            rounds)))
  | .whileLoop condition body =>
      .behind (·.tick limits clock) (.loop condition
        (fun m => (runBlock limits clock rounds body m).andThen (Machine.tick limits clock))
        (.andThen (runBlock limits clock rounds body)
          (.within around (.block body) (runAll limits clock rounds body)
            (allMoments (.block body :: around) body))
          .still)
        rounds)
  | .block body =>
      .behind (·.tick limits clock)
        (.within around (.block body) (runAll limits clock rounds body)
          (allMoments (.block body :: around) body))
  | .console _ _ | .expr _ | .empty => .still

/-- The moments of statements in order. -/
def allMoments (around : List Enclosure) : List Stmt → Moments
  | [] => .still
  | s :: rest =>
      .andThen (s.run limits clock rounds) (s.moments around) (allMoments around rest)
end

/-- The moments of a script, from the one when its own scope is entered. -/
def Script.moments (script : Script) (m : Machine) : List Moment :=
  ⟨⟨[.block script.body], [script.scope]⟩, .enter (.block script.body)⟩ ::
    allMoments limits clock rounds [.block script.body] script.body
      { m with scopes := [script.scope] }

end

end LineScript
