import LineScript.Proofs.Grammar.Layout
import LineScript.Proofs.Parse.Values
import LineScript.Script.Compile

/-! # Headers of loops

The tree of a loop has room for any simple statement in its header. The grammar
reads no more than a declaration or an assignment as the first part, and no more
than an update or an assignment as the last.
-/

namespace LineScript

open Parse Parser Grammar

mutual

/-- Whether the headers of all loops in a statement have what may stand there. -/
def Stmt.isHeaded : Stmt → Bool
  | .branch _ yes none => areHeaded yes
  | .branch _ yes (some no) => areHeaded yes && areHeaded no
  | .forLoop init _ step body => init.all Simple.isInit && step.all Simple.isStep && areHeaded body
  | .whileLoop _ body | .block body => areHeaded body
  | .simple _ | .console _ _ | .expr _ | .empty => true

@[inherit_doc Stmt.isHeaded]
def areHeaded : List Stmt → Bool
  | [] => true
  | s :: rest => s.isHeaded && areHeaded rest

end

theorem areHeaded_iff {stmts : List Stmt} :
    areHeaded stmts = true ↔ ∀ s ∈ stmts, s.isHeaded = true := by
  induction stmts with
  | nil => simp [areHeaded]
  | cons s rest ih => simp [areHeaded, ih]

namespace Grammar

theorem yields_declaration : Yields declaration fun s => s.isInit = true :=
  .skip fun _ => .skip fun _ => .skip fun _ => .skip fun _ => .pure rfl

theorem yields_assignment : Yields assignment fun s => s.isInit = true ∧ s.isStep = true :=
  .skip fun _ => .skip fun _ => .skip fun _ => .skip fun _ => .skip fun _ => .pure ⟨rfl, rfl⟩

theorem yields_update : Yields update fun s => s.isStep = true :=
  .choice (.skip fun _ => .skip fun _ => .skip fun _ => .pure rfl)
    (.skip fun _ => .skip fun _ => .skip fun _ => .pure rfl)

section Rules

variable {self : Rule → Parser Stmt}

theorem yields_block (inner : ∀ r, Yields (self r) fun s => s.isHeaded = true) :
    Yields (block self) fun body => areHeaded body = true := by
  have items : Yields (many do let s ← self .statement; blank; return s)
      fun body => ∀ s ∈ body, s.isHeaded = true :=
    .many (.bind (inner .statement) fun _ here => .skip fun _ => .pure here)
  refine .skip fun _ => .skip fun _ => .bind items fun body holds => .skip fun _ => .pure ?_
  exact areHeaded_iff.mpr holds

theorem yields_body (inner : ∀ r, Yields (self r) fun s => s.isHeaded = true) :
    Yields (body self) fun body => areHeaded body = true := by
  refine .choice (yields_block inner) (.bind (inner .statement) fun s here => .pure ?_)
  simp [areHeaded, here]

theorem yields_branch (inner : ∀ r, Yields (self r) fun s => s.isHeaded = true) :
    Yields (branch self) fun s => s.isHeaded = true := by
  have chained : Yields ((do return [← self .ifStatement]) <|> body self)
      fun body => areHeaded body = true := by
    refine .choice (.bind (inner .ifStatement) fun s here => .pure ?_) (yields_body inner)
    simp [areHeaded, here]
  refine .skip fun _ => .skip fun _ => .skip fun _ => .bind (yields_body inner) fun yes inYes => ?_
  refine .bind (.optional (.skip fun _ => .skip fun _ => .skip fun _ => chained)) fun no inNo => ?_
  refine .pure ?_
  cases no with
  | none => simpa [Stmt.isHeaded] using inYes
  | some no => simpa [Stmt.isHeaded, inYes] using inNo

theorem yields_forLoop (inner : ∀ r, Yields (self r) fun s => s.isHeaded = true) :
    Yields (forLoop self) fun s => s.isHeaded = true := by
  have first : Yields (declaration <|> assignment) fun s => s.isInit = true :=
    .choice yields_declaration fun _ _ _ read => (yields_assignment read).1
  have last : Yields (update <|> assignment) fun s => s.isStep = true :=
    .choice yields_update fun _ _ _ read => (yields_assignment read).2
  iterate 4 refine .skip fun _ => ?_
  refine .bind first.optional fun init isInit => ?_
  iterate 7 refine .skip fun _ => ?_
  refine .bind last.optional fun step isStep => ?_
  iterate 3 refine .skip fun _ => ?_
  refine .bind (yields_body inner) fun body headed => .pure ?_
  rw [Stmt.isHeaded, headed, Bool.and_true, Bool.and_eq_true]
  exact ⟨Option.all_eq_true _ _ |>.mpr isInit, Option.all_eq_true _ _ |>.mpr isStep⟩

theorem yields_statementRules (inner : ∀ r, Yields (self r) fun s => s.isHeaded = true) (r : Rule) :
    Yields (statementRules self r) fun s => s.isHeaded = true := by
  cases r with
  | ifStatement => exact yields_branch inner
  | statement =>
      have plain (p : Parser Simple) :
          Yields (do return Stmt.simple (← p)) fun s => s.isHeaded = true :=
        .skip fun _ => .pure rfl
      have ended {p : Parser Stmt} (each : Yields p fun s => s.isHeaded = true) :
          Yields (ended p) fun s => s.isHeaded = true :=
        .bind each fun _ here => .skip fun _ => .pure here
      have console : Yields console fun s => s.isHeaded = true := by
        iterate 12 refine .skip fun _ => ?_
        exact .pure rfl
      refine .choice (ended (plain _)) (.choice (yields_branch inner) ?_)
      refine .choice (yields_forLoop inner) ?_
      refine .choice (.skip fun _ => .skip fun _ => .skip fun _ => ?_) ?_
      · exact .bind (yields_body inner) fun _ headed => .pure headed
      refine .choice (.bind (yields_block inner) fun _ headed => .pure headed) ?_
      refine .choice (ended console) (.choice (ended (plain _)) (.choice (ended (plain _)) ?_))
      exact .choice (.skip fun _ => .pure rfl) (ended (.skip fun _ => .pure rfl))

end Rules

theorem yields_program : Yields program fun body => areHeaded body = true := by
  have statement : Yields statement fun s => s.isHeaded = true :=
    Yields.recursive (P := fun _ s => Stmt.isHeaded s = true) (fun _ => yields_statementRules)
      Rule.statement
  refine .skip fun _ s body rest read => areHeaded_iff.mpr ?_
  exact Yields.many (.bind statement fun _ here => .skip fun _ => .pure here) read

end Grammar

namespace Script

variable {code : String} {script : Script}

/-- A script is accepted if its brackets are not nested too deeply, it is read to the end of the
    text, and its declarations are in order. -/
theorem compile_eq_ok_iff : compile code = .ok script ↔
    Nesting.isWithin code.toList = true ∧ read program code.toList = .ok script.body ∧
      Declarations.checkBlock script.body = .ok () := by
  constructor
  · intro compiled
    rw [compile] at compiled
    split at compiled
    · cases compiled
    · next within =>
        split at compiled
        · cases compiled
        · next body read =>
            split at compiled
            · cases compiled
            · next checked =>
                cases compiled
                exact ⟨by simpa using within, read, checked⟩
  · rintro ⟨within, read, checked⟩
    simp [compile, within, read, checked]

theorem areHeaded_of_compile (compiled : compile code = .ok script) :
    areHeaded script.body = true :=
  yields_program (read_eq_ok_iff.mp (compile_eq_ok_iff.mp compiled).2.1)

end Script

end LineScript
