import LineScript.Proofs.Grammar.Phrase
import LineScript.Script.Grammar.Statement

/-! # Reading statements

The rules for statements are guarded too. Statements are read one after another
up to where none can be read, and the first word or character of a statement
tells which of its rules can be the one that reads it.
-/

namespace LineScript.Grammar

open Parse Parser

/-! ## The rules are guarded -/

section Guarded

variable {self : Rule → Parser Stmt} {p : Parser Stmt}

instance : Advances expression := inferInstanceAs (Advances (expressionAt 0))

instance : Keeps semicolon :=
  inferInstanceAs (Keeps ((blank >>= _) <|> (inlineBlank >>= _)))

instance : Advances declKind :=
  inferInstanceAs (Advances ((keyword _ >>= _) <|> (keyword _ >>= _) <|> (keyword _ >>= _)))

instance : Advances equalsSign := inferInstanceAs (Advances (token _ >>= _))

instance : Advances declaration := by
  refine Advances.bind fun _ => Keeps.bind fun _ => Keeps.bind fun _ => ?_
  infer_instance

instance : Advances assignmentOp :=
  inferInstanceAs (Advances ((token _ >>= _) <|> (token _ >>= _) <|> (token _ >>= _) <|>
    (token _ >>= _) <|> (token _ >>= _) <|> (equalsSign >>= _)))

instance : Advances assignment := inferInstanceAs (Advances (identifier >>= _))

instance : Advances delta := inferInstanceAs (Advances ((token _ >>= _) <|> (token _ >>= _)))

instance : Advances update :=
  inferInstanceAs (Advances ((identifier >>= _) <|> (delta >>= _)))

instance : Keeps arguments where
  suffix read := by
    obtain ⟨found, s₁, first, rest⟩ := bind_success read
    refine List.IsSuffix.trans ?_ (Keeps.suffix first)
    cases found with
    | none => exact Keeps.suffix (p := pure []) rest
    | some e =>
        exact Keeps.suffix
          (p := many (do blank; token .comma; blank; expression) >>= fun es => pure (e :: es)) rest

instance : Advances console := by
  refine Advances.bind fun _ => ?_
  iterate 10 refine Keeps.bind fun _ => ?_
  infer_instance

instance [∀ r, Keeps (self r)] : Advances (block self) := inferInstanceAs (Advances (token _ >>= _))

instance [∀ r, Keeps (self r)] : Keeps (body self) :=
  inferInstanceAs (Keeps (block self <|> (self .statement >>= _)))

instance : Advances condition := inferInstanceAs (Advances (token _ >>= _))

instance [∀ r, Keeps (self r)] : Advances (branch self) := by
  refine Advances.bind fun _ => Keeps.bind fun _ => Keeps.bind fun _ => Keeps.bind fun _ => ?_
  infer_instance

instance [∀ r, Keeps (self r)] : Advances (forLoop self) := by
  refine Advances.bind fun _ => ?_
  iterate 15 refine Keeps.bind fun _ => ?_
  infer_instance

instance [∀ r, Keeps (self r)] : Advances (whileLoop self) :=
  inferInstanceAs (Advances (keyword _ >>= _))

instance [Advances p] : Advances (ended p) := inferInstanceAs (Advances (p >>= _))

instance [∀ r, Keeps (self r)] : Advances (anyStatement self) :=
  inferInstanceAs (Advances (ended _ <|> branch self <|> forLoop self <|> whileLoop self <|>
    (block self >>= _) <|> ended _ <|> ended _ <|> ended _ <|> (token _ >>= _) <|> ended _))

end Guarded

section Agree

open AgreeBelow

variable {n : Nat} {f g : Rule → Parser Stmt} [∀ r, Keeps (f r)]

private theorem agree_block (same : ∀ r, AgreeBelow n (f r) (g r)) :
    AgreeBelow (n + 1) (block f) (block g) :=
  bind_advancing _ fun _ => bind (refl _ _) fun _ =>
    bind (AgreeBelow.many (bind (same _) fun _ => refl _ _)) fun _ => refl _ _

private theorem agree_body (same : ∀ r, AgreeBelow n (f r) (g r)) :
    AgreeBelow n (body f) (body g) :=
  choice ((agree_block same).mono (Nat.le_succ n)) (bind (same _) fun _ => refl _ _)

private theorem agree_branch (same : ∀ r, AgreeBelow n (f r) (g r)) :
    AgreeBelow (n + 1) (branch f) (branch g) :=
  bind_advancing _ fun _ => bind (refl _ _) fun _ => bind (refl _ _) fun _ =>
    bind (agree_body same) fun _ =>
      bind (AgreeBelow.optional (bind (refl _ _) fun _ => bind (refl _ _) fun _ =>
        bind (refl _ _) fun _ => choice (bind (same _) fun _ => refl _ _) (agree_body same)))
        fun _ => refl _ _

private theorem agree_forLoop (same : ∀ r, AgreeBelow n (f r) (g r)) :
    AgreeBelow (n + 1) (forLoop f) (forLoop g) := by
  refine bind_advancing _ fun _ => ?_
  iterate 15 refine bind (refl _ _) fun _ => ?_
  exact bind (agree_body same) fun _ => refl _ _

private theorem agree_whileLoop (same : ∀ r, AgreeBelow n (f r) (g r)) :
    AgreeBelow (n + 1) (whileLoop f) (whileLoop g) :=
  bind_advancing _ fun _ => bind (refl _ _) fun _ => bind (refl _ _) fun _ =>
    bind (agree_body same) fun _ => refl _ _

theorem guarded_statementRules : Guarded statementRules where
  keeps f _ r := by
    cases r with
    | statement => exact inferInstanceAs (Keeps (anyStatement f))
    | ifStatement => exact inferInstanceAs (Keeps (branch f))
  agree n f g _ same r := by
    cases r with
    | ifStatement => exact agree_branch same
    | statement =>
        refine choice (refl _ _) (choice (agree_branch same) (choice (agree_forLoop same)
          (choice (agree_whileLoop same) (choice (bind (agree_block same) fun _ => refl _ _)
            (refl _ _)))))

end Agree

/-- A statement of the given rule. -/
abbrev ruled : Rule → Parser Stmt :=
  recursive statementRules

instance (r : Rule) : Keeps (ruled r) :=
  guarded_statementRules.keeps_recursive r

theorem outcome_statement (s : List Char) :
    statement.outcome s = (anyStatement ruled).outcome s :=
  guarded_statementRules.outcome_recursive .statement s

instance : Advances statement where
  suffix read := (guarded_statementRules.keeps_recursive .statement).suffix read
  shorter read := by
    rw [outcome_statement] at read
    exact Advances.shorter read

/-! ## Statements in order -/

/-- Statements with blanks behind each. -/
def items : Parser (List Stmt) :=
  many do
    let s ← statement
    blank
    return s

section Items

variable {s r k : List Char} {x : Stmt} {xs : List Stmt}

theorem outcome_items_of_some (read : statement.outcome s = some (x, r)) :
    items.outcome s = (items.outcome (skipBlank r)).map fun y => (x :: y.1, y.2) := by
  apply outcome_many_of_some
  rw [run_bind read, run_bind (outcome_blank r)]
  rfl

theorem outcome_items_of_none (missed : statement.outcome s = none) :
    items.outcome s = some ([], s) :=
  outcome_many_of_none (stop_bind missed)

theorem outcome_program (s : List Char) : program.outcome s = items.outcome (skipBlank s) :=
  run_bind (outcome_blank s)

/-- A block ends with the brace behind its statements. -/
theorem run_block (inner : items.outcome (skipBlank s) = some (xs, '\x7d' :: k)) :
    (block ruled).outcome ('\x7b' :: s) = some (xs, k) := by
  have start : (token .openBrace).outcome ('\x7b' :: s) = some ((), s) := run_token .openBrace s
  have end_ : (token .closeBrace).outcome ('\x7d' :: k) = some ((), k) := run_token .closeBrace k
  rw [block, run_bind start, run_bind (outcome_blank s)]
  exact (run_bind inner).trans (run_bind end_)

theorem stop_block (inner : items.outcome (skipBlank s) = some (xs, k))
    (other : k.head? ≠ some '\x7d') : (block ruled).outcome ('\x7b' :: s) = none := by
  have start : (token .openBrace).outcome ('\x7b' :: s) = some ((), s) := run_token .openBrace s
  have noEnd : (token .closeBrace).outcome k = none := by
    cases k with
    | nil => exact miss_token_nil _
    | cons c k =>
        refine miss_token rfl ?_
        rintro rfl
        exact other rfl
  rw [block, run_bind start, run_bind (outcome_blank s)]
  exact (run_bind inner).trans (stop_bind noEnd)

end Items

/-! ## The first character of a statement -/

theorem expressionAt_eq_none {l : Nat} {c : Char} {s : List Char} (other : startsPhrase c = false) :
    (expressionAt l).outcome (c :: s) = none := by
  cases read : (expressionAt l).outcome (c :: s) with
  | none => rfl
  | some x =>
      obtain ⟨u, split, phrase, -⟩ := phrase_of_outcome read
      obtain ⟨d, w, rfl, start⟩ := phrase.start
      cases split
      simp [start] at other

theorem identifier_eq_none {c : Char} {s : List Char} (other : Name.isStart c = false) :
    identifier.outcome (c :: s) = none := by
  rw [outcome_identifier_cons, if_neg]
  simp [other]

private theorem isStart_of_startsPhrase_false {c : Char} (other : startsPhrase c = false) :
    Name.isStart c = false := by
  simp only [startsPhrase, startsAtom, Name.isPart, Bool.or_eq_false_iff] at other
  exact other.1.1.1

theorem stop_ended {p : Parser Stmt} {s : List Char} (missed : p.outcome s = none) :
    (ended p).outcome s = none :=
  stop_bind missed

section Start

variable {c : Char} {s : List Char}

theorem declaration_eq_none (noLet : c ≠ 'l') (noConst : c ≠ 'c') (noVar : c ≠ 'v') :
    declaration.outcome (c :: s) = none := by
  apply stop_bind
  rw [declKind, next_choice (stop_bind (miss_keyword rfl noLet)),
    next_choice (stop_bind (miss_keyword rfl noConst))]
  exact stop_bind (miss_keyword rfl noVar)

theorem branch_eq_none (other : c ≠ 'i') : (branch ruled).outcome (c :: s) = none :=
  stop_bind (miss_keyword rfl other)

theorem forLoop_eq_none (other : c ≠ 'f') : (forLoop ruled).outcome (c :: s) = none :=
  stop_bind (miss_keyword rfl other)

theorem whileLoop_eq_none (other : c ≠ 'w') : (whileLoop ruled).outcome (c :: s) = none :=
  stop_bind (miss_keyword rfl other)

theorem block_eq_none (other : c ≠ '\x7b') : (block ruled).outcome (c :: s) = none :=
  stop_bind (miss_token rfl other)

theorem console_eq_none (other : c ≠ 'c') : console.outcome (c :: s) = none :=
  stop_bind (miss_token rfl other)

theorem update_eq_none (noName : identifier.outcome (c :: s) = none) (plus : c ≠ '+')
    (minus : c ≠ '-') : update.outcome (c :: s) = none := by
  rw [update, next_choice (stop_bind noName)]
  apply stop_bind
  rw [delta, next_choice (stop_bind (miss_token rfl plus))]
  exact stop_bind (miss_token rfl minus)

end Start

/-- The first characters of the words that statements start with. -/
def wordStarts : List Char :=
  ['c', 'f', 'i', 'l', 'v', 'w']

/-- What starts like no word of the rules is a block or empty, or starts with a name, an operator of
    an update or an expression. -/
theorem outcome_statement_wordless {c : Char} {s : List Char} (other : c ∉ wordStarts) :
    statement.outcome (c :: s) =
      ((do return Stmt.block (← block ruled)) <|> ended (do return .simple (← update)) <|>
        ended (do return .simple (← assignment)) <|> (do token .semicolon; return .empty) <|>
        ended (do return .expr (← expression))).outcome (c :: s) := by
  have differs : ∀ d ∈ wordStarts, c ≠ d := by
    rintro d member rfl
    exact other member
  have noDeclaration : declaration.outcome (c :: s) = none :=
    declaration_eq_none (differs _ (by decide)) (differs _ (by decide)) (differs _ (by decide))
  have noBranch := branch_eq_none (s := s) (differs _ (by decide))
  have noFor := forLoop_eq_none (s := s) (differs _ (by decide))
  have noWhile := whileLoop_eq_none (s := s) (differs _ (by decide))
  have noConsole := console_eq_none (s := s) (differs _ (by decide))
  rw [outcome_statement, anyStatement]
  simp only [outcome_choice, noBranch, noFor, noWhile, stop_ended noConsole,
    stop_ended (stop_bind noDeclaration), Option.none_or]

/-- A statement that starts with no letter, sign or literal is a block or empty. -/
theorem outcome_statement_symbol {c : Char} {s : List Char} (other : startsPhrase c = false) :
    statement.outcome (c :: s) =
      ((do return Stmt.block (← block ruled)) <|>
        (do token .semicolon; return Stmt.empty)).outcome (c :: s) := by
  have differs : ∀ d, startsPhrase d = true → c ≠ d := by
    rintro d start rfl
    simp [start] at other
  have wordless : c ∉ wordStarts := by
    have starts : ∀ d ∈ wordStarts, startsPhrase d = true := List.all_eq_true.mp rfl
    exact fun member => differs c (starts c member) rfl
  have noName := identifier_eq_none (s := s) (isStart_of_startsPhrase_false other)
  have noUpdate : update.outcome (c :: s) = none :=
    update_eq_none noName (differs _ (by decide)) (differs _ (by decide))
  have noAssignment : assignment.outcome (c :: s) = none := stop_bind noName
  have noExpression : expression.outcome (c :: s) = none := expressionAt_eq_none other
  rw [outcome_statement_wordless wordless]
  simp only [outcome_choice, stop_ended (stop_bind noUpdate), stop_ended (stop_bind noAssignment),
    stop_ended (stop_bind noExpression), Option.none_or, Option.or_none]

theorem statement_closeBrace (s : List Char) : statement.outcome ('\x7d' :: s) = none := by
  rw [outcome_statement_symbol (by decide), next_choice (stop_bind (block_eq_none (by decide)))]
  exact stop_bind (miss_token rfl (by decide))

theorem outcome_statement_openBrace (s : List Char) : statement.outcome ('\x7b' :: s) =
    (do return Stmt.block (← block ruled)).outcome ('\x7b' :: s) := by
  have noEmpty : (token .semicolon).outcome ('\x7b' :: s) = none := miss_token rfl (by decide)
  rw [outcome_statement_symbol (by decide), outcome_choice, stop_bind noEmpty, Option.or_none]

theorem statement_nil : statement.outcome [] = none := by
  cases read : statement.outcome [] with
  | none => rfl
  | some x =>
      have less := Advances.shorter read
      cases less

/-! ## Control statements -/

section Control

variable {t : Token} {k : List Char}

/-- The words that a loop or a branch starts with. -/
def controlWords : List Token :=
  [.forWord, .ifWord, .whileWord]

private theorem controlWord_facts : ∀ t ∈ controlWords,
    t.spelling.all Name.isPart = true ∧ reservedWords.contains t.spelling = true ∧
      t.spelling.head?.any Name.isStart = true ∧
      constants.find? (fun x => t.spelling = x.1.spelling) = none := by
  decide +kernel

/-- A reserved word that is no constant is no name and no expression. -/
theorem outcome_reservedWord (parts : t.spelling.all Name.isPart = true)
    (reserved : reservedWords.contains t.spelling = true)
    (start : t.spelling.head?.any Name.isStart = true)
    (noConstant : constants.find? (fun x => t.spelling = x.1.spelling) = none) (apart : Apart k) :
    identifier.outcome (t.spelling ++ k) = none ∧ expression.outcome (t.spelling ++ k) = none := by
  cases spelled : t.spelling with
  | nil => exact absurd spelled (spelling_ne_nil t)
  | cons c w =>
      rw [spelled] at parts reserved start noConstant
      simp only [List.all_cons, Bool.and_eq_true, List.all_eq_true, List.head?_cons,
        Option.any_some] at parts start
      have all : ∀ d ∈ c :: w, Name.isPart d = true := by simpa using parts
      constructor
      · rw [List.cons_append, outcome_identifier_cons, ← List.cons_append,
          (takeWhile_word all apart).1, reserved, if_neg]
        simp
      · have unsigned : c ∉ ['!', '-', '+'] := by
          simp only [List.mem_cons, List.not_mem_nil, or_false, not_or]
          refine ⟨?_, ?_, ?_⟩ <;> rintro rfl <;> revert start <;> decide
        have noOperand : (operand expressionAt).outcome (c :: w ++ k) = none := by
          rw [List.cons_append, outcome_operand_unsigned unsigned, ← List.cons_append,
            outcome_atom_word start parts.2 apart, noConstant, reserved]
          rfl
        exact (outcome_expressionAt 0 _).trans (stop_bind noOperand)

/-- A control word is no name and no expression. -/
theorem outcome_controlWord (control : t ∈ controlWords) (apart : Apart k) :
    identifier.outcome (t.spelling ++ k) = none ∧ expression.outcome (t.spelling ++ k) = none := by
  obtain ⟨parts, reserved, start, noConstant⟩ := controlWord_facts t control
  exact outcome_reservedWord parts reserved start noConstant apart

/-- A statement that starts with a control word is a loop or a branch. -/
theorem outcome_statement_control (control : t ∈ controlWords) (apart : Apart k) :
    statement.outcome (t.spelling ++ k) =
      (branch ruled <|> forLoop ruled <|> whileLoop ruled).outcome (t.spelling ++ k) := by
  obtain ⟨noName, noExpression⟩ := outcome_controlWord control apart
  have start : ∃ c s, t.spelling ++ k = c :: s ∧ c ∈ ['f', 'i', 'w'] := by
    simp only [controlWords, List.mem_cons, List.not_mem_nil, or_false] at control
    rcases control with rfl | rfl | rfl
    · exact ⟨_, _, rfl, by decide⟩
    · exact ⟨_, _, rfl, by decide⟩
    · exact ⟨_, _, rfl, by decide⟩
  obtain ⟨c, s, eq, first⟩ := start
  rw [eq] at noName noExpression ⊢
  have differs : ∀ d, d ∉ ['f', 'i', 'w'] → c ≠ d := by
    rintro d other rfl
    exact other first
  have noDeclaration : declaration.outcome (c :: s) = none :=
    declaration_eq_none (differs _ (by decide)) (differs _ (by decide)) (differs _ (by decide))
  have noUpdate : update.outcome (c :: s) = none :=
    update_eq_none noName (differs _ (by decide)) (differs _ (by decide))
  have noAssignment : assignment.outcome (c :: s) = none := stop_bind noName
  have noBlock := block_eq_none (s := s) (differs _ (by decide))
  have noConsole := console_eq_none (s := s) (differs _ (by decide))
  have noEmpty : (token .semicolon).outcome (c :: s) = none :=
    miss_token rfl (differs _ (by decide))
  rw [outcome_statement, anyStatement]
  simp only [outcome_choice, stop_bind noBlock, stop_bind noEmpty, stop_ended noConsole,
    stop_ended (stop_bind noDeclaration), stop_ended (stop_bind noUpdate),
    stop_ended (stop_bind noAssignment), stop_ended (stop_bind noExpression), Option.none_or,
    Option.or_none]

end Control

end LineScript.Grammar
