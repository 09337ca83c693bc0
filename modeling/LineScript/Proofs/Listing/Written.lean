import LineScript.Proofs.Grammar.Form
import LineScript.Listing.Generated

/-! # Reading generated lines

Each line of a script is written behind a line feed and its indentation. A line
that opens no block is read as a statement or passed over as a remark, and the
header of a block is read together with the block, whatever lines come next.
-/

namespace LineScript

open Parse Parser Grammar

/-- The text of a statement inside `depth` blocks, behind the line feed that ends the line before. -/
def Line.written (depth : Nat) (line : Line) : List Char :=
  match line.script? depth with
  | some text => '\n' :: ((indentation depth).toList ++ text.toList)
  | none => []

/-- The rest of a script at the end of a line: another line or nothing, and no `else`. -/
structure LineEnd (k : List Char) : Prop where
  line : k = [] ∨ ∃ s, k = '\n' :: s
  noElse : (keyword .elseWord).outcome (skipBlank k) = none

theorem LineEnd.nil : LineEnd [] where
  line := .inl rfl
  noElse := stop_bind (miss_token_nil _)

/-- A remark ends with its line. -/
theorem LineEnd.skipBlank_remark {t k : List Char} (end_ : LineEnd k) (oneLine : '\n' ∉ t) :
    skipBlank ("// ".toList ++ t ++ k) = skipBlank k := by
  have inside : ∀ c ∈ ' ' :: t, (c != '\n') = true := by
    intro c member
    rw [bne_iff_ne]
    rintro rfl
    rcases List.mem_cons.mp member with same | member
    · exact absurd same (by decide)
    · exact oneLine member
  have behind : (' ' :: t ++ k).dropWhile (· != '\n') = k := by
    rw [List.dropWhile_append_of_pos inside]
    rcases end_.line with rfl | ⟨s, rfl⟩
    · rfl
    · simp
  have remark : skipBlank ('/' :: '/' :: (' ' :: t ++ k)) = skipBlank k := by
    rw [skipBlank_line, behind]
  exact remark

theorem blanks_indentation (depth : Nat) : Blanks ('\n' :: (indentation depth).toList) := by
  have spaces : ∀ n, Blanks (List.replicate n ' ') := by
    intro n
    induction n with
    | zero => exact .nil
    | succ n ih => exact .space (by decide) ih
  rw [indentation, String.toList_ofList]
  exact .space (by decide) (spaces _)

theorem Line.skipBlank_written {depth : Nat} {line : Line} {text : String}
    (script : line.script? depth = some text) (k : List Char) :
    skipBlank (line.written depth ++ k) = skipBlank (text.toList ++ k) := by
  rw [Line.written, script]
  dsimp only
  rw [← List.cons_append, List.append_assoc, (blanks_indentation depth).skipBlank_append]

/-- A line ends in front of another one that does not start like an `else`. -/
theorem Line.lineEnd_written {depth : Nat} {line : Line} {text : String}
    (script : line.script? depth = some text) {k : List Char} {c : Char}
    (start : (skipBlank (text.toList ++ k)).head? = some c) (other : c ≠ 'e') :
    LineEnd (line.written depth ++ k) where
  line := by
    rw [Line.written, script]
    exact .inr ⟨_, rfl⟩
  noElse := by
    rw [Line.skipBlank_written script]
    cases rest : skipBlank (text.toList ++ k) with
    | nil => exact stop_bind (miss_token_nil _)
    | cons d s =>
        rw [rest] at start
        cases start
        exact miss_keyword rfl other

theorem Line.skipBlank_assign (name text : String) (depth : Nat) (k : List Char) :
    skipBlank ((Line.assign name text).written depth ++ k) =
      "let ".toList ++ (name.toList ++ (" = ".toList ++ (text.toList ++ ';' :: k))) := by
  have spelled : ("let " ++ name ++ " = " ++ text ++ ";").toList ++ k =
      "let ".toList ++ (name.toList ++ (" = ".toList ++ (text.toList ++ ';' :: k))) := by
    simp
  rw [Line.skipBlank_written rfl, spelled, skipBlank_front (c := 'l') rfl (by decide) (by decide)]

/-- In front of an assignment another line ends, whatever the name. -/
theorem Line.lineEnd_assign (name text : String) (depth : Nat) (k : List Char) :
    LineEnd ((Line.assign name text).written depth ++ k) := by
  have script : (Line.assign name text).script? depth =
      some ("let " ++ name ++ " = " ++ text ++ ";") := rfl
  apply Line.lineEnd_written script (c := 'l') ?_ (by decide)
  rw [← Line.skipBlank_written script, Line.skipBlank_assign]
  rfl

/-! ## The forms that are written -/

namespace Grammar

section Written

variable {n : String} {s k r : List Char} {e : Expr} {xs : List Stmt}

theorem outcome_let (isName : IsName n)
    (value : expression.outcome (skipBlank s) = some (e, ';' :: k)) :
    statement.outcome ("let ".toList ++ (n.toList ++ (" = ".toList ++ s))) =
      some (.simple (.declare .letDecl n (some e)), k) :=
  outcome_statement_declaration
    (outcome_declaration .letDecl isName (apart_cons.mpr (by decide)) (outcome_initial value))

theorem outcome_log (value : expression.outcome (skipBlank s) = some (e, ')' :: ';' :: k)) :
    statement.outcome ("console.log(".toList ++ s) = some (.console "log" [e], k) := by
  have isMethod : IsMethod "log" := ⟨'l', ['o', 'g'], rfl, by decide, List.all_eq_true.mp rfl⟩
  have spelled : "console.log(".toList ++ s =
      Token.consoleWord.spelling ++ '.' :: ("log".toList ++ '(' :: s) := rfl
  rw [spelled]
  exact outcome_statement_console (outcome_console isMethod
    (outcome_arguments_cons value (outcome_many_of_none (nextArgument_closeParen _))))

/-- The loop that counts `i` up from zero as long as `e` holds. -/
def countedLoop (i : String) (e : Expr) (xs : List Stmt) : Stmt :=
  .forLoop (some (.declare .letDecl i (some (.number 0)))) (some e) (some (.update i .up)) xs

private theorem outcome_fromZero (isName : IsName n) (s : List Char) :
    (optional (declaration <|> assignment)).outcome
        (skipBlank ("let ".toList ++ (n.toList ++ (" = 0; ".toList ++ s)))) =
      some (some (.declare .letDecl n (some (.number 0))), "; ".toList ++ s) := by
  have solid : skipBlank ("let ".toList ++ (n.toList ++ (" = 0; ".toList ++ s))) =
      "let ".toList ++ (n.toList ++ (" = 0; ".toList ++ s)) :=
    skipBlank_solid (by decide) (by decide)
  have accepted : phrase? 0 "0" = some (.number 0) := by decide +kernel
  have zero : expression.outcome (skipBlank ("0; ".toList ++ s)) =
      some (.number 0, "; ".toList ++ s) :=
    outcome_accepted accepted (apart_cons.mpr (by decide)) (.semicolon _)
  rw [solid]
  exact run_optional (run_choice (outcome_declaration .letDecl isName (apart_cons.mpr (by decide))
    (outcome_initial zero)))

private theorem outcome_countUp (isName : IsName n) (k : List Char) :
    (optional (update <|> assignment)).outcome
        (skipBlank (n.toList ++ ("++) ".toList ++ '\x7b' :: k))) =
      some (some (.update n .up), ") \x7b".toList ++ k) := by
  rw [isName.skipBlank_append]
  exact run_optional (run_choice (outcome_update isName .up _))

theorem run_countedLoop (isName : IsName n)
    (value : expression.outcome (skipBlank s) =
      some (e, "; ".toList ++ (n.toList ++ ("++) ".toList ++ '\x7b' :: k))))
    (inner : (block ruled).outcome ('\x7b' :: k) = some (xs, r)) :
    statement.outcome ("for (let ".toList ++ (n.toList ++ (" = 0; ".toList ++ s))) =
      some (countedLoop n e xs, r) :=
  run_for (outcome_fromZero isName s) (run_optional value) (outcome_countUp isName k) inner

theorem stop_countedLoop (isName : IsName n)
    (value : expression.outcome (skipBlank s) =
      some (e, "; ".toList ++ (n.toList ++ ("++) ".toList ++ '\x7b' :: k))))
    (unclosed : (block ruled).outcome ('\x7b' :: k) = none) :
    statement.outcome ("for (let ".toList ++ (n.toList ++ (" = 0; ".toList ++ s))) = none :=
  stop_for (outcome_fromZero isName s) (run_optional value) (outcome_countUp isName k) unclosed

end Written

end Grammar

/-! ## Lines that open no block -/

/-- What a line that neither opens nor closes a block stands for. -/
inductive Plain : Line → List Stmt → Prop where
  | note {text} : '\n' ∉ text.toList → Plain (.note text) []
  | danglingSet {raw} : Plain (.danglingSet raw) []
  | unknown {raw} : '\n' ∉ raw.toList → Plain (.unknown raw) []
  | say {text e} : phrase? 0 text = some e → Plain (.say text) [.console "log" [e]]
  | assign {name text e} : IsName name → phrase? 0 text = some e →
      Plain (.assign name text) [.simple (.declare .letDecl name (some e))]

namespace Plain

variable {line : Line} {xs : List Stmt} {k : List Char}

/-- Read a text in its place. -/
private theorem outcome_value {text : String} {e : Expr} (accepted : phrase? 0 text = some e)
    {c : Char} (k : List Char) (end_ : c = ')' ∨ c = ';') :
    expression.outcome (skipBlank (text.toList ++ c :: k)) = some (e, c :: k) := by
  rcases end_ with rfl | rfl
  · exact outcome_accepted accepted (apart_cons.mpr (by decide)) (.closeParen _)
  · exact outcome_accepted accepted (apart_cons.mpr (by decide)) (.semicolon _)

private theorem toList_say (text : String) (k : List Char) :
    ("console.log(" ++ text ++ ");").toList ++ k =
      "console.log(".toList ++ (text.toList ++ ')' :: ';' :: k) := by
  simp

/-- A plain line is read as what it stands for, and reading goes on behind it. -/
theorem outcome_items (plain : Plain line xs) (depth : Nat) (end_ : LineEnd k) :
    items.outcome (skipBlank (line.written depth ++ k)) =
      (items.outcome (skipBlank k)).map fun y => (xs ++ y.1, y.2) := by
  have same : (items.outcome (skipBlank k)).map (fun y => (([] : List Stmt) ++ y.1, y.2)) =
      items.outcome (skipBlank k) := by
    simp
  cases plain with
  | @note text oneLine =>
      have remark := end_.skipBlank_remark oneLine
      rw [Line.skipBlank_written rfl, String.toList_append, remark, same]
  | danglingSet => rw [Line.written, Line.script?, same, List.nil_append]
  | @unknown raw oneLine =>
      have remark := end_.skipBlank_remark (t := "Unknown syntax: ".toList ++ raw.toList) (by
        rw [List.mem_append]
        exact not_or.mpr ⟨by decide, oneLine⟩)
      have spelled : ("// Unknown syntax: " ++ raw).toList ++ k =
          "// ".toList ++ ("Unknown syntax: ".toList ++ raw.toList) ++ k := by
        simp
      rw [Line.skipBlank_written rfl, spelled, remark, same]
  | @say text e accepted =>
      rw [Line.skipBlank_written rfl, toList_say,
        skipBlank_front (c := 'c') rfl (by decide) (by decide)]
      exact outcome_items_of_some (outcome_log (outcome_value accepted _ (.inl rfl)))
  | @assign name text e isName accepted =>
      rw [Line.skipBlank_assign]
      exact outcome_items_of_some (outcome_let isName (outcome_value accepted _ (.inr rfl)))

/-- In front of a plain line another line ends. -/
theorem lineEnd (plain : Plain line xs) (depth : Nat) (end_ : LineEnd k) :
    LineEnd (line.written depth ++ k) := by
  have remark : ∀ {t : String} {s : List Char}, line.script? depth = some t →
      t.toList = "// ".toList ++ s → '\n' ∉ s → LineEnd (line.written depth ++ k) := by
    intro t s script spelled oneLine
    refine ⟨?_, ?_⟩
    · rw [Line.written, script]
      exact .inr ⟨_, rfl⟩
    · rw [Line.skipBlank_written script, spelled, end_.skipBlank_remark oneLine]
      exact end_.noElse
  cases plain with
  | @note text oneLine => exact remark rfl (String.toList_append ..) oneLine
  | danglingSet => exact end_
  | @unknown raw oneLine =>
      refine remark rfl (s := "Unknown syntax: ".toList ++ raw.toList) (by simp) ?_
      rw [List.mem_append]
      exact not_or.mpr ⟨by decide, oneLine⟩
  | say _ =>
      refine Line.lineEnd_written rfl ?_ (c := 'c') (by decide)
      rw [toList_say, skipBlank_front (c := 'c') rfl (by decide) (by decide)]
      rfl
  | assign _ _ => exact Line.lineEnd_assign _ _ depth k

end Plain

/-! ## Headers of blocks -/

/-- The statement that a line makes of the block it opens inside `depth` blocks. -/
inductive Header (depth : Nat) : Line → (List Stmt → Stmt) → Prop where
  | loop {count e} : phrase? 0 (loopCounter depth ++ " < " ++ count) = some e →
      Header depth (.loop count) (countedLoop (loopCounter depth) e)
  | test {condition e} : phrase? 0 condition = some e →
      Header depth (.test condition) (.branch e · none)

theorem isName_loopCounter (depth : Nat) : IsName (loopCounter depth) := by
  have digits : (toString depth).toList = Nat.toDigits 10 depth := by
    simp [ToString.toString, Nat.repr]
  refine ⟨'i', '_' :: Nat.toDigits 10 depth, ?_, by decide, ?_, ?_⟩
  · rw [loopCounter, String.toList_append, digits]
    rfl
  · intro c member
    rcases List.mem_cons.mp member with rfl | member
    · decide
    · have isDigit := Nat.isDigit_of_mem_toDigits (by decide) (by decide) member
      simp [Name.isPart, isDigit]
  · have second : ∀ w ∈ reservedWords, w.tail.head? ≠ some '_' := by decide +kernel
    by_contra isReserved
    exact second _ (by simpa using isReserved) rfl

namespace Header

variable {depth : Nat} {line : Line} {make : List Stmt → Stmt} {k r : List Char} {xs : List Stmt}

private theorem toList_loop (i count : String) (k : List Char) :
    ("for (let " ++ i ++ " = 0; " ++ i ++ " < " ++ count ++ "; " ++ i ++ "++) \x7b").toList ++ k =
      "for (let ".toList ++ (i.toList ++ (" = 0; ".toList ++ ((i ++ " < " ++ count).toList ++
        ("; ".toList ++ (i.toList ++ ("++) ".toList ++ '\x7b' :: k)))))) := by
  simp

private theorem toList_test (condition : String) (k : List Char) :
    ("if (" ++ condition ++ ") \x7b").toList ++ k =
      "if (".toList ++ (condition.toList ++ (") \x7b".toList ++ k)) := by
  simp

/-- A header whose block closes is read together with that block. -/
theorem run (header : Header depth line make)
    (inner : (block ruled).outcome ('\x7b' :: k) = some (xs, r)) (end_ : LineEnd r) :
    statement.outcome (skipBlank (line.written depth ++ k)) = some (make xs, r) := by
  cases header with
  | @loop count e accepted =>
      rw [Line.skipBlank_written rfl, toList_loop,
        skipBlank_front (c := 'f') rfl (by decide) (by decide)]
      refine run_countedLoop (isName_loopCounter depth) ?_ inner
      exact outcome_accepted accepted (apart_cons.mpr (by decide)) (.semicolon _)
  | @test condition e accepted =>
      rw [Line.skipBlank_written rfl, toList_test,
        skipBlank_front (c := 'i') rfl (by decide) (by decide)]
      refine run_if ?_ inner end_.noElse
      exact outcome_accepted accepted (apart_cons.mpr (by decide)) (.closeParen _)

/-- A header whose block does not close is not read at all. -/
theorem stop (header : Header depth line make)
    (unclosed : (block ruled).outcome ('\x7b' :: k) = none) :
    statement.outcome (skipBlank (line.written depth ++ k)) = none := by
  cases header with
  | @loop count e accepted =>
      rw [Line.skipBlank_written rfl, toList_loop,
        skipBlank_front (c := 'f') rfl (by decide) (by decide)]
      refine stop_countedLoop (e := e) (isName_loopCounter depth) ?_ unclosed
      exact outcome_accepted accepted (apart_cons.mpr (by decide)) (.semicolon _)
  | @test condition e accepted =>
      rw [Line.skipBlank_written rfl, toList_test,
        skipBlank_front (c := 'i') rfl (by decide) (by decide)]
      refine stop_if (e := e) ?_ unclosed
      exact outcome_accepted accepted (apart_cons.mpr (by decide)) (.closeParen _)

/-- A header starts with its word. -/
theorem head_written (header : Header depth line make) (k : List Char) :
    ∃ text c, line.script? depth = some text ∧ c ∈ ['f', 'i'] ∧
      (skipBlank (text.toList ++ k)).head? = some c := by
  cases header with
  | loop _ =>
      refine ⟨_, 'f', rfl, by decide, ?_⟩
      rw [toList_loop, skipBlank_front (c := 'f') rfl (by decide) (by decide)]
      rfl
  | test _ =>
      refine ⟨_, 'i', rfl, by decide, ?_⟩
      rw [toList_test, skipBlank_front (c := 'i') rfl (by decide) (by decide)]
      rfl

/-- In front of a header another line ends. -/
theorem lineEnd (header : Header depth line make) (k : List Char) :
    LineEnd (line.written depth ++ k) := by
  obtain ⟨text, c, script, word, start⟩ := header.head_written k
  refine Line.lineEnd_written script start ?_
  rintro rfl
  revert word
  decide

end Header

/-! ## Closers -/

theorem skipBlank_close (depth : Nat) (k : List Char) :
    skipBlank (Line.close.written depth ++ k) = '\x7d' :: k := by
  rw [Line.skipBlank_written rfl]
  exact skipBlank_solid (by decide) (by decide)

theorem lineEnd_close (depth : Nat) (k : List Char) : LineEnd (Line.close.written depth ++ k) := by
  refine Line.lineEnd_written (c := '\x7d') rfl ?_ (by decide)
  rw [skipBlank_front (c := '\x7d') rfl (by decide) (by decide)]
  rfl

/-- At a closer no statement is read. -/
theorem outcome_items_close (depth : Nat) (k : List Char) :
    items.outcome (skipBlank (Line.close.written depth ++ k)) = some ([], '\x7d' :: k) := by
  rw [skipBlank_close]
  exact outcome_items_of_none (statement_closeBrace k)

end LineScript
