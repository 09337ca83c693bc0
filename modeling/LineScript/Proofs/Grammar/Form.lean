import LineScript.Proofs.Grammar.Statement

/-! # The forms of statements

The rules for statements are tried in a fixed order, and the first that succeeds
is final. The lemmas below run each rule on the form of text that it is for, and
show that no rule before it takes that text: a declaration by its first word, an
update or an assignment by what stands behind a name, and so on.
-/

namespace LineScript

open Parse Parser Grammar

/-- The word that starts a declaration. -/
def DeclKind.word : DeclKind → Token
  | .letDecl => .letWord
  | .constDecl => .constWord
  | .varDecl => .varWord

/-- The operator of an assignment. -/
def CompoundOp.token : Option CompoundOp → Token
  | some .add => .addAssign
  | some .sub => .subAssign
  | some .mul => .mulAssign
  | some .div => .divAssign
  | some .rem => .remAssign
  | none => .assign

/-- The operator of an update. -/
def Delta.token : Delta → Token
  | .up => .increment
  | .down => .decrement

namespace Grammar

theorem outcome_semicolon (k : List Char) : semicolon.outcome (';' :: k) = some ((), k) := by
  have mark : (token .semicolon).outcome (';' :: k) = some ((), k) := run_token .semicolon k
  apply run_choice
  rw [run_bind (outcome_blank _), skipBlank_solid (by decide) (by decide), mark]

theorem run_ended {p : Parser Stmt} {s k : List Char} {x : Stmt}
    (read : p.outcome s = some (x, ';' :: k)) : (ended p).outcome s = some (x, k) := by
  rw [ended, run_bind read, run_bind (outcome_semicolon k)]
  rfl

/-! ## Declarations -/

section Declaration

variable {n : String} {s k : List Char} {e : Expr}

theorem outcome_declKind (kind : DeclKind) (apart : Apart k) :
    declKind.outcome (kind.word.spelling ++ k) = some (kind, k) := by
  cases kind with
  | letDecl => exact run_choice (run_bind (run_keyword rfl apart))
  | constDecl =>
      have noLet : (keyword .letWord).outcome (Token.constWord.spelling ++ k) = none :=
        miss_keyword rfl (by decide)
      exact (next_choice (stop_bind noLet)).trans (run_choice (run_bind (run_keyword rfl apart)))
  | varDecl =>
      have noLet : (keyword .letWord).outcome (Token.varWord.spelling ++ k) = none :=
        miss_keyword rfl (by decide)
      have noConst : (keyword .constWord).outcome (Token.varWord.spelling ++ k) = none :=
        miss_keyword rfl (by decide)
      exact (next_choice (stop_bind noLet)).trans ((next_choice (stop_bind noConst)).trans
        (run_bind (run_keyword rfl apart)))

/-- The first value of a variable, if the declaration gives one. -/
abbrev initial : Parser (Option Expr) :=
  optional do
    blank
    equalsSign
    blank
    expression

theorem outcome_equalsSign (s : List Char) :
    equalsSign.outcome ('=' :: ' ' :: s) = some ((), ' ' :: s) := by
  have mark : (token .assign).outcome ('=' :: ' ' :: s) = some ((), ' ' :: s) := run_token .assign _
  rw [equalsSign, run_bind mark]
  exact run_absent rfl

theorem outcome_initial (value : expression.outcome (skipBlank s) = some (e, k)) :
    initial.outcome (" = ".toList ++ s) = some (some e, k) := by
  have gap : skipBlank (" = ".toList ++ s) = '=' :: ' ' :: s :=
    (skipBlank_space (by decide)).trans (skipBlank_solid (by decide) (by decide))
  apply run_optional
  rw [run_bind (outcome_blank _), gap, run_bind (outcome_equalsSign s), run_bind (outcome_blank _),
    skipBlank_space (by decide), value]

theorem outcome_initial_none (k : List Char) :
    initial.outcome (';' :: k) = some (none, ';' :: k) := by
  apply pass_optional
  rw [run_bind (outcome_blank _), skipBlank_solid (by decide) (by decide)]
  exact stop_bind (stop_bind (miss_token rfl (by decide)))

theorem outcome_declaration (kind : DeclKind) (isName : IsName n) (apart : Apart s)
    {found : Option Expr} (value : initial.outcome s = some (found, k)) :
    declaration.outcome (kind.word.spelling ++ ' ' :: (n.toList ++ s)) =
      some (.declare kind n found, k) := by
  rw [declaration, run_bind (outcome_declKind kind (apart_cons.mpr (by decide))),
    run_bind (outcome_blank _), skipBlank_space (by decide), isName.skipBlank_append,
    run_bind (isName.outcome_identifier apart), run_bind value]
  rfl

theorem outcome_statement_declaration {d : Simple}
    (read : declaration.outcome s = some (d, ';' :: k)) :
    statement.outcome s = some (.simple d, k) := by
  rw [outcome_statement]
  exact run_choice (run_ended (run_bind read))

end Declaration

/-! ## Updates and assignments -/

section Name

variable {n : String} {s k : List Char} {e : Expr}

theorem apart_delta (delta : Delta) (k : List Char) : Apart (delta.token.spelling ++ k) := by
  cases delta <;> exact apart_cons.mpr (by decide)

theorem skipBlank_delta (delta : Delta) (k : List Char) :
    skipBlank (delta.token.spelling ++ k) = delta.token.spelling ++ k := by
  cases delta <;> exact skipBlank_solid (by decide) (by decide)

theorem outcome_update (isName : IsName n) (delta : Delta) (k : List Char) :
    update.outcome (n.toList ++ (delta.token.spelling ++ k)) = some (.update n delta, k) := by
  have mark : Grammar.delta.outcome (delta.token.spelling ++ k) = some (delta, k) := by
    cases delta with
    | up => exact run_choice (run_bind (run_token .increment k))
    | down =>
        have noUp : (token .increment).outcome (Token.decrement.spelling ++ k) = none :=
          miss_token rfl (by decide)
        exact (next_choice (stop_bind noUp)).trans (run_bind (run_token .decrement k))
  apply run_choice
  rw [run_bind (isName.outcome_identifier (apart_delta delta k)), run_bind (outcome_blank _),
    skipBlank_delta, run_bind mark]
  rfl

/-- The operator of an assignment is no comment and no update, and it has no longer operator for a
    start. -/
theorem outcome_assignmentOp (op : Option CompoundOp) (s : List Char) :
    skipBlank ((CompoundOp.token op).spelling ++ ' ' :: s) =
        (CompoundOp.token op).spelling ++ ' ' :: s ∧
      delta.outcome ((CompoundOp.token op).spelling ++ ' ' :: s) = none ∧
      assignmentOp.outcome ((CompoundOp.token op).spelling ++ ' ' :: s) = some (op, ' ' :: s) := by
  rcases op with _ | op
  · exact ⟨skipBlank_solid (by decide) (by decide), rfl, rfl⟩
  · cases op with
    | div => exact ⟨skipBlank_slash (by decide) (by decide), rfl, rfl⟩
    | add | sub | mul | rem => exact ⟨skipBlank_solid (by decide) (by decide), rfl, rfl⟩

theorem outcome_assignment (op : Option CompoundOp) (isName : IsName n)
    (value : expression.outcome (skipBlank s) = some (e, k)) :
    assignment.outcome (n.toList ++ ' ' :: ((CompoundOp.token op).spelling ++ ' ' :: s)) =
      some (.assign n op e, k) := by
  obtain ⟨solid, -, mark⟩ := outcome_assignmentOp op s
  rw [assignment, run_bind (isName.outcome_identifier (apart_cons.mpr (by decide))),
    run_bind (outcome_blank _), skipBlank_space (by decide), solid, run_bind mark,
    run_bind (outcome_blank _), skipBlank_space (by decide), run_bind value]
  rfl

/-- A name does not start with the operator of an update. -/
theorem delta_name_eq_none (isName : IsName n) (k : List Char) :
    delta.outcome (n.toList ++ k) = none := by
  obtain ⟨c, w, spelled, start, -⟩ := isName
  have differs : ∀ d, Name.isStart d = false → c ≠ d := by
    rintro d noStart rfl
    simp [start] at noStart
  rw [spelled, List.cons_append, delta,
    next_choice (stop_bind (miss_token rfl (differs _ (by decide))))]
  exact stop_bind (miss_token rfl (differs _ (by decide)))

theorem update_assignment_eq_none (op : Option CompoundOp) (isName : IsName n) (s : List Char) :
    update.outcome (n.toList ++ ' ' :: ((CompoundOp.token op).spelling ++ ' ' :: s)) = none := by
  obtain ⟨solid, noDelta, -⟩ := outcome_assignmentOp op s
  have name := isName.outcome_identifier
    (k := ' ' :: ((CompoundOp.token op).spelling ++ ' ' :: s)) (apart_cons.mpr (by decide))
  have noPostfix : (do let name ← identifier; blank; return Simple.update name (← delta)
      : Parser Simple).outcome
        (n.toList ++ ' ' :: ((CompoundOp.token op).spelling ++ ' ' :: s)) = none := by
    rw [run_bind name, run_bind (outcome_blank _), skipBlank_space (by decide), solid]
    exact stop_bind noDelta
  rw [update, next_choice noPostfix]
  exact stop_bind (delta_name_eq_none isName _)

/-- A name is none of the words that start other statements. -/
theorem keyword_name_eq_none {t : Token} (isWord : t.spelling.all Name.isPart = true)
    (reserved : reservedWords.contains t.spelling = true) (isName : IsName n) (apart : Apart k) :
    (keyword t).outcome (n.toList ++ k) = none := by
  obtain ⟨c, w, spelled, start, parts, free⟩ := isName
  have all : ∀ d ∈ c :: w, Name.isPart d = true := by
    simpa [isPart_of_isStart start] using parts
  rw [outcome_keyword isWord, spelled, (takeWhile_word all apart).1, if_neg]
  intro same
  rw [same, reserved] at free
  cases free

theorem declaration_name_eq_none (isName : IsName n) (apart : Apart k) :
    declaration.outcome (n.toList ++ k) = none := by
  apply stop_bind
  rw [declKind, next_choice (stop_bind (keyword_name_eq_none (by decide) (by decide) isName apart)),
    next_choice (stop_bind (keyword_name_eq_none (by decide) (by decide) isName apart))]
  exact stop_bind (keyword_name_eq_none (by decide) (by decide) isName apart)

/-- A name is not taken for the console, even if it starts with that word, unless a point
    follows. -/
theorem console_name_eq_none (isName : IsName n) (apart : Apart k)
    (noPoint : (skipBlank k).head? ≠ some '.') : console.outcome (n.toList ++ k) = none := by
  cases read : console.outcome (n.toList ++ k) with
  | none => rfl
  | some x =>
      obtain ⟨⟨⟩, s₁, word, read₁⟩ := bind_success read
      obtain ⟨⟨⟩, s₂, gap, read₂⟩ := bind_success read₁
      obtain ⟨⟨⟩, s₃, point, -⟩ := bind_success read₂
      have behind : skipBlank s₁ = '.' :: s₃ := (blank_success gap).symm.trans (token_success point)
      obtain ⟨c, w, spelled, start, parts, -⟩ := isName
      have all : ∀ d ∈ n.toList, Name.isPart d = true := by
        simpa [spelled, isPart_of_isStart start] using parts
      have rest := (takeWhile_word all apart).2
      rw [token_success word, List.dropWhile_append_of_pos (List.all_eq_true.mp rfl)] at rest
      -- Behind the word stands the rest of the name, if it has any.
      cases s₁ with
      | nil => cases behind
      | cons d s₁ =>
          by_cases part : Name.isPart d = true
          · rw [skipBlank_isPart part] at behind
            cases behind
            exact absurd part (by decide)
          · rw [List.dropWhile_cons_of_neg part] at rest
            rw [rest] at behind
            exact absurd (congrArg List.head? behind) noPoint

/-- A statement that starts with a name is an update, an assignment or an expression. -/
theorem outcome_statement_name (isName : IsName n) (apart : Apart k)
    (noPoint : (skipBlank k).head? ≠ some '.') :
    statement.outcome (n.toList ++ k) =
      (ended (do return .simple (← update)) <|> ended (do return .simple (← assignment)) <|>
        (do token .semicolon; return .empty) <|> ended (do return .expr (← expression))).outcome
          (n.toList ++ k) := by
  have noWord : ∀ {t : Token}, t.spelling.all Name.isPart = true →
      reservedWords.contains t.spelling = true → (keyword t).outcome (n.toList ++ k) = none :=
    fun isWord reserved => keyword_name_eq_none isWord reserved isName apart
  have noDeclaration := declaration_name_eq_none isName apart
  have noBlock : (block ruled).outcome (n.toList ++ k) = none := by
    obtain ⟨c, w, spelled, start, -⟩ := isName
    rw [spelled, List.cons_append]
    apply block_eq_none
    rintro rfl
    revert start
    decide
  have noBranch : (branch ruled).outcome (n.toList ++ k) = none :=
    stop_bind (noWord (by decide) (by decide))
  have noFor : (forLoop ruled).outcome (n.toList ++ k) = none :=
    stop_bind (noWord (by decide) (by decide))
  have noWhile : (whileLoop ruled).outcome (n.toList ++ k) = none :=
    stop_bind (noWord (by decide) (by decide))
  rw [outcome_statement, anyStatement, next_choice (stop_ended (stop_bind noDeclaration)),
    next_choice noBranch, next_choice noFor, next_choice noWhile, next_choice (stop_bind noBlock),
    next_choice (stop_ended (console_name_eq_none isName apart noPoint))]

theorem outcome_statement_update (isName : IsName n) (delta : Delta) (k : List Char) :
    statement.outcome (n.toList ++ (delta.token.spelling ++ ';' :: k)) =
      some (.simple (.update n delta), k) := by
  have noPoint : (skipBlank (delta.token.spelling ++ ';' :: k)).head? ≠ some '.' := by
    rw [skipBlank_delta, List.head?_append_of_ne_nil _ (spelling_ne_nil _)]
    cases delta <;> decide
  rw [outcome_statement_name isName (apart_delta delta _) noPoint]
  exact run_choice (run_ended (run_bind (outcome_update isName delta _)))

theorem outcome_statement_assignment (op : Option CompoundOp) (isName : IsName n)
    (value : expression.outcome (skipBlank s) = some (e, ';' :: k)) :
    statement.outcome (n.toList ++ ' ' :: ((CompoundOp.token op).spelling ++ ' ' :: s)) =
      some (.simple (.assign n op e), k) := by
  have noPoint : (skipBlank (' ' :: ((CompoundOp.token op).spelling ++ ' ' :: s))).head? ≠
      some '.' := by
    rw [skipBlank_space (by decide), (outcome_assignmentOp op s).1,
      List.head?_append_of_ne_nil _ (spelling_ne_nil _)]
    rcases op with _ | op
    · decide
    · cases op <;> decide
  rw [outcome_statement_name isName (apart_cons.mpr (by decide)) noPoint,
    next_choice (stop_ended (stop_bind (update_assignment_eq_none op isName s)))]
  exact run_choice (run_ended (run_bind (outcome_assignment op isName value)))

end Name

/-! ## Calls of the console -/

/-- A name that a method can have. -/
def IsMethod (m : String) : Prop :=
  ∃ c w, m.toList = c :: w ∧ Name.isStart c = true ∧ ∀ d ∈ w, Name.isPart d = true

section Console

variable {m : String} {s k : List Char} {e : Expr} {es : List Expr}

theorem outcome_methodName (isMethod : IsMethod m) (s : List Char) :
    methodName.outcome (m.toList ++ '(' :: s) = some (m, '(' :: s) := by
  obtain ⟨c, w, spelled, start, parts⟩ := isMethod
  have rest : (many (oneOf .namePart Name.isPart)).outcome (w ++ '(' :: s) =
      some (w, '(' :: s) := by
    clear spelled
    induction w with
    | nil =>
        refine outcome_many_of_none ?_
        rw [List.nil_append, outcome_oneOf_cons, if_neg (by decide)]
    | cons d w ih =>
        rw [List.forall_mem_cons] at parts
        have part : (oneOf .namePart Name.isPart).outcome (d :: (w ++ '(' :: s)) =
            some (d, w ++ '(' :: s) := by
          rw [outcome_oneOf_cons, if_pos parts.1]
        rw [List.cons_append, outcome_many_of_some part, ih parts.2]
        rfl
  have first : (oneOf .nameStart Name.isStart).outcome (c :: (w ++ '(' :: s)) =
      some (c, w ++ '(' :: s) := by
    rw [outcome_oneOf_cons, if_pos start]
  have inner : (do
      let _ ← oneOf .nameStart Name.isStart
      many (oneOf .namePart Name.isPart)).outcome (c :: w ++ '(' :: s) = some (w, '(' :: s) := by
    rw [List.cons_append, run_bind first, rest]
  rw [methodName, spelled, run_bind (outcome_slice_append inner), ← spelled, String.ofList_toList]
  rfl

/-- An argument that is not the first. -/
abbrev nextArgument : Parser Expr := do
  blank
  token .comma
  blank
  expression

theorem outcome_nextArgument (value : expression.outcome (skipBlank s) = some (e, k)) :
    nextArgument.outcome (", ".toList ++ s) = some (e, k) := by
  have solid : skipBlank (", ".toList ++ s) = ", ".toList ++ s :=
    skipBlank_solid (by decide) (by decide)
  have mark : (token .comma).outcome (", ".toList ++ s) = some ((), ' ' :: s) := run_token .comma _
  rw [run_bind (outcome_blank _), solid, run_bind mark, run_bind (outcome_blank _),
    skipBlank_space (by decide), value]

theorem nextArgument_closeParen (k : List Char) : nextArgument.outcome (')' :: k) = none := by
  rw [run_bind (outcome_blank _), skipBlank_solid (by decide) (by decide)]
  exact stop_bind (miss_token rfl (by decide))

theorem outcome_arguments_nil (k : List Char) :
    arguments.outcome (')' :: k) = some ([], ')' :: k) := by
  have none_ : expression.outcome (')' :: k) = none := expressionAt_eq_none (by decide)
  rw [arguments, run_bind (pass_optional none_)]
  rfl

theorem outcome_arguments_cons {r : List Char}
    (first : expression.outcome (skipBlank s) = some (e, r))
    (rest : (many nextArgument).outcome r = some (es, k)) :
    arguments.outcome (skipBlank s) = some (e :: es, k) := by
  rw [arguments, run_bind (run_optional first)]
  exact run_bind rest

theorem outcome_console (isMethod : IsMethod m)
    (args : arguments.outcome (skipBlank s) = some (es, ')' :: k)) :
    console.outcome (Token.consoleWord.spelling ++ '.' :: (m.toList ++ '(' :: s)) =
      some (.console m es, k) := by
  have point : (token .point).outcome ('.' :: (m.toList ++ '(' :: s)) =
      some ((), m.toList ++ '(' :: s) := run_token .point _
  have start : (token .openParen).outcome ('(' :: s) = some ((), s) := run_token .openParen s
  have end_ : (token .closeParen).outcome (')' :: k) = some ((), k) := run_token .closeParen k
  have noComma : (do token .comma; blank : Parser Unit).outcome (')' :: k) = none :=
    stop_bind (miss_token rfl (by decide))
  have method : skipBlank (m.toList ++ '(' :: s) = m.toList ++ '(' :: s := by
    obtain ⟨c, w, spelled, start, -⟩ := isMethod
    rw [spelled, List.cons_append, skipBlank_isPart (isPart_of_isStart start)]
  rw [console, run_bind (run_token _ _), run_bind (outcome_blank _),
    skipBlank_solid (by decide) (by decide), run_bind point, run_bind (outcome_blank _), method,
    run_bind (outcome_methodName isMethod s), run_bind (outcome_blank _),
    skipBlank_solid (by decide) (by decide), run_bind start,
    run_bind (outcome_blank _), run_bind args, run_bind (outcome_blank _),
    skipBlank_solid (by decide) (by decide), run_bind (pass_optional noComma), run_bind end_]
  rfl

/-- Only the first word tells a call of the console from a declaration by `const`. -/
theorem outcome_statement_console {x : Stmt}
    (read : console.outcome (Token.consoleWord.spelling ++ '.' :: s) = some (x, ';' :: k)) :
    statement.outcome (Token.consoleWord.spelling ++ '.' :: s) = some (x, k) := by
  have noConst : (keyword .constWord).outcome (Token.consoleWord.spelling ++ '.' :: s) = none := by
    have whole : List.takeWhile Name.isPart (Token.consoleWord.spelling ++ '.' :: s) =
        Token.consoleWord.spelling := rfl
    rw [outcome_keyword rfl, whole, if_neg (by decide)]
  obtain ⟨c, r, eq, first⟩ : ∃ c r, Token.consoleWord.spelling ++ '.' :: s = c :: r ∧ c = 'c' :=
    ⟨_, _, rfl, rfl⟩
  rw [eq] at noConst read ⊢
  have differs : ∀ d, d ≠ 'c' → c ≠ d := by
    rintro d other rfl
    exact other first
  have noDeclaration : declaration.outcome (c :: r) = none := by
    apply stop_bind
    rw [declKind, next_choice (stop_bind (miss_keyword rfl (differs _ (by decide)))),
      next_choice (stop_bind noConst)]
    exact stop_bind (miss_keyword rfl (differs _ (by decide)))
  rw [outcome_statement, anyStatement, next_choice (stop_ended (stop_bind noDeclaration)),
    next_choice (branch_eq_none (differs _ (by decide))),
    next_choice (forLoop_eq_none (differs _ (by decide))),
    next_choice (whileLoop_eq_none (differs _ (by decide))),
    next_choice (stop_bind (block_eq_none (differs _ (by decide))))]
  exact run_choice (run_ended read)

end Console

/-! ## Branches and loops -/

section Control

variable {s k r : List Char} {e : Expr} {xs ys : List Stmt}

theorem run_body (inner : (block ruled).outcome s = some (xs, k)) :
    (body ruled).outcome s = some (xs, k) :=
  run_choice inner

/-- A block that does not close leaves nothing to read at its brace. -/
theorem body_eq_none (unclosed : (block ruled).outcome ('\x7b' :: s) = none) :
    (body ruled).outcome ('\x7b' :: s) = none := by
  have noStatement : statement.outcome ('\x7b' :: s) = none := by
    rw [outcome_statement_openBrace, stop_bind unclosed]
  rw [body, next_choice unclosed]
  exact stop_bind noStatement

theorem outcome_condition
    (value : expression.outcome (skipBlank s) = some (e, ") \x7b".toList ++ k)) :
    condition.outcome ('(' :: s) = some (e, '\x7b' :: k) := by
  have start : (token .openParen).outcome ('(' :: s) = some ((), s) := run_token .openParen s
  have end_ : (token .closeParen).outcome (") \x7b".toList ++ k) = some ((), ' ' :: '\x7b' :: k) :=
    run_token .closeParen _
  have solid : skipBlank (") \x7b".toList ++ k) = ") \x7b".toList ++ k :=
    skipBlank_solid (by decide) (by decide)
  rw [condition, run_bind start, run_bind (outcome_blank _), run_bind value,
    run_bind (outcome_blank _), solid, run_bind end_, run_bind (outcome_blank _),
    skipBlank_space (by decide), skipBlank_solid (by decide) (by decide)]
  rfl

/-- The branch for when the condition fails. -/
abbrev otherwise : Parser (List Stmt) := do
  blank
  keyword .elseWord
  blank
  (do return [← ruled .ifStatement]) <|> body ruled

theorem outcome_branch
    (value : expression.outcome (skipBlank s) = some (e, ") \x7b".toList ++ k)) :
    (branch ruled).outcome ("if (".toList ++ s) = (do
      let yes ← body ruled
      let no ← optional otherwise
      return Stmt.branch e yes no).outcome ('\x7b' :: k) := by
  have word : (keyword .ifWord).outcome ("if (".toList ++ s) = some ((), ' ' :: '(' :: s) :=
    run_keyword rfl (apart_cons.mpr (by decide))
  rw [branch, run_bind word, run_bind (outcome_blank _), skipBlank_space (by decide),
    skipBlank_solid (by decide) (by decide), run_bind (outcome_condition value)]

/-- A branch is read together with its block if no `else` follows that. -/
theorem run_if (value : expression.outcome (skipBlank s) = some (e, ") \x7b".toList ++ k))
    (inner : (block ruled).outcome ('\x7b' :: k) = some (xs, r))
    (noElse : (keyword .elseWord).outcome (skipBlank r) = none) :
    statement.outcome ("if (".toList ++ s) = some (.branch e xs none, r) := by
  have read : (branch ruled).outcome ("if (".toList ++ s) = some (.branch e xs none, r) := by
    have absent : otherwise.outcome r = none := by
      rw [run_bind (outcome_blank r)]
      exact stop_bind noElse
    rw [outcome_branch value, run_bind (run_body inner), run_bind (pass_optional absent)]
    rfl
  exact (outcome_statement_control (t := .ifWord) (by decide)
    (apart_cons.mpr (by decide))).trans (run_choice read)

/-- A branch with an `else` is read together with both its blocks. -/
theorem run_ifElse (value : expression.outcome (skipBlank s) = some (e, ") \x7b".toList ++ k))
    (inner : (block ruled).outcome ('\x7b' :: k) = some (xs, " else \x7b".toList ++ r))
    {r' : List Char} (inner' : (block ruled).outcome ('\x7b' :: r) = some (ys, r')) :
    statement.outcome ("if (".toList ++ s) = some (.branch e xs (some ys), r') := by
  have word : (keyword .elseWord).outcome ("else \x7b".toList ++ r) =
      some ((), ' ' :: '\x7b' :: r) :=
    run_keyword rfl (apart_cons.mpr (by decide))
  have solid : skipBlank (" else \x7b".toList ++ r) = "else \x7b".toList ++ r :=
    (skipBlank_space (by decide)).trans (skipBlank_solid (by decide) (by decide))
  have noIf : (ruled .ifStatement).outcome ('\x7b' :: r) = none :=
    (guarded_statementRules.outcome_recursive .ifStatement _).trans (branch_eq_none (by decide))
  have no : otherwise.outcome (" else \x7b".toList ++ r) = some (ys, r') := by
    rw [run_bind (outcome_blank _), solid, run_bind word, run_bind (outcome_blank _),
      skipBlank_space (by decide), skipBlank_solid (by decide) (by decide),
      next_choice (stop_bind noIf)]
    exact run_body inner'
  have read : (branch ruled).outcome ("if (".toList ++ s) = some (.branch e xs (some ys), r') := by
    rw [outcome_branch value, run_bind (run_body inner), run_bind (run_optional no)]
    rfl
  exact (outcome_statement_control (t := .ifWord) (by decide)
    (apart_cons.mpr (by decide))).trans (run_choice read)

/-- Where its block does not close there is no branch. -/
theorem stop_if (value : expression.outcome (skipBlank s) = some (e, ") \x7b".toList ++ k))
    (unclosed : (block ruled).outcome ('\x7b' :: k) = none) :
    statement.outcome ("if (".toList ++ s) = none := by
  have noBranch : (branch ruled).outcome ("if (".toList ++ s) = none := by
    rw [outcome_branch value]
    exact stop_bind (body_eq_none unclosed)
  have noFor : (forLoop ruled).outcome ("if (".toList ++ s) = none := forLoop_eq_none (by decide)
  have noWhile : (whileLoop ruled).outcome ("if (".toList ++ s) = none :=
    whileLoop_eq_none (by decide)
  exact (outcome_statement_control (t := .ifWord) (by decide)
    (apart_cons.mpr (by decide))).trans
      ((next_choice noBranch).trans ((next_choice noFor).trans noWhile))

theorem run_while (value : expression.outcome (skipBlank s) = some (e, ") \x7b".toList ++ k))
    (inner : (block ruled).outcome ('\x7b' :: k) = some (xs, r)) :
    statement.outcome ("while (".toList ++ s) = some (.whileLoop e xs, r) := by
  have word : (keyword .whileWord).outcome ("while (".toList ++ s) = some ((), ' ' :: '(' :: s) :=
    run_keyword rfl (apart_cons.mpr (by decide))
  have noBranch : (branch ruled).outcome ("while (".toList ++ s) = none :=
    branch_eq_none (by decide)
  have noFor : (forLoop ruled).outcome ("while (".toList ++ s) = none :=
    forLoop_eq_none (by decide)
  have read : (whileLoop ruled).outcome ("while (".toList ++ s) = some (.whileLoop e xs, r) := by
    rw [whileLoop, run_bind word, run_bind (outcome_blank _), skipBlank_space (by decide),
      skipBlank_solid (by decide) (by decide), run_bind (outcome_condition value),
      run_bind (run_body inner)]
    rfl
  exact (outcome_statement_control (t := .whileWord) (by decide)
    (apart_cons.mpr (by decide))).trans
      ((next_choice noBranch).trans ((next_choice noFor).trans read))

section For

variable {s' s'' : List Char} {init step : Option Simple} {condition : Option Expr}

/-- The header of a loop, up to the brace of its block. -/
theorem outcome_forLoop
    (first : (optional (declaration <|> assignment)).outcome (skipBlank s) =
      some (init, "; ".toList ++ s'))
    (test : (optional expression).outcome (skipBlank s') = some (condition, "; ".toList ++ s''))
    (last : (optional (update <|> assignment)).outcome (skipBlank s'') =
      some (step, ") \x7b".toList ++ k)) :
    (forLoop ruled).outcome ("for (".toList ++ s) =
      (body ruled >>= fun xs => pure (.forLoop init condition step xs)).outcome ('\x7b' :: k) := by
  have word : (keyword .forWord).outcome ("for (".toList ++ s) = some ((), ' ' :: '(' :: s) :=
    run_keyword rfl (apart_cons.mpr (by decide))
  have start : (token .openParen).outcome ('(' :: s) = some ((), s) := run_token .openParen s
  have solid : ∀ r, skipBlank ("; ".toList ++ r) = "; ".toList ++ r :=
    fun r => skipBlank_solid (by decide) (by decide)
  have mark : ∀ r, (token .semicolon).outcome ("; ".toList ++ r) = some ((), ' ' :: r) :=
    fun r => run_token .semicolon _
  have solid' : skipBlank (") \x7b".toList ++ k) = ") \x7b".toList ++ k :=
    skipBlank_solid (by decide) (by decide)
  have close : (token .closeParen).outcome (") \x7b".toList ++ k) = some ((), ' ' :: '\x7b' :: k) :=
    run_token .closeParen _
  rw [forLoop, run_bind word, run_bind (outcome_blank _), skipBlank_space (by decide),
    skipBlank_solid (by decide) (by decide), run_bind start, run_bind (outcome_blank _),
    run_bind first, run_bind (outcome_blank _), solid, run_bind (mark _),
    run_bind (outcome_blank _), skipBlank_space (by decide), run_bind test, run_bind (outcome_blank _), solid,
    run_bind (mark _), run_bind (outcome_blank _), skipBlank_space (by decide), run_bind last,
    run_bind (outcome_blank _), solid', run_bind close, run_bind (outcome_blank _),
    skipBlank_space (by decide), skipBlank_solid (by decide) (by decide)]

theorem outcome_statement_for (s : List Char) :
    statement.outcome ("for (".toList ++ s) = (forLoop ruled).outcome ("for (".toList ++ s) := by
  have noBranch : (branch ruled).outcome ("for (".toList ++ s) = none := branch_eq_none (by decide)
  have noWhile : (whileLoop ruled).outcome ("for (".toList ++ s) = none :=
    whileLoop_eq_none (by decide)
  refine (outcome_statement_control (t := .forWord) (by decide) (apart_cons.mpr (by decide))).trans
    ((next_choice noBranch).trans ?_)
  exact (outcome_choice _ _ _).trans (by rw [noWhile, Option.or_none])

/-- A loop is read together with its block. -/
theorem run_for
    (first : (optional (declaration <|> assignment)).outcome (skipBlank s) =
      some (init, "; ".toList ++ s'))
    (test : (optional expression).outcome (skipBlank s') = some (condition, "; ".toList ++ s''))
    (last : (optional (update <|> assignment)).outcome (skipBlank s'') =
      some (step, ") \x7b".toList ++ k))
    (inner : (block ruled).outcome ('\x7b' :: k) = some (xs, r)) :
    statement.outcome ("for (".toList ++ s) = some (.forLoop init condition step xs, r) := by
  rw [outcome_statement_for, outcome_forLoop first test last, run_bind (run_body inner)]
  rfl

/-- Where its block does not close there is no loop. -/
theorem stop_for
    (first : (optional (declaration <|> assignment)).outcome (skipBlank s) =
      some (init, "; ".toList ++ s'))
    (test : (optional expression).outcome (skipBlank s') = some (condition, "; ".toList ++ s''))
    (last : (optional (update <|> assignment)).outcome (skipBlank s'') =
      some (step, ") \x7b".toList ++ k))
    (unclosed : (block ruled).outcome ('\x7b' :: k) = none) :
    statement.outcome ("for (".toList ++ s) = none := by
  rw [outcome_statement_for, outcome_forLoop first test last]
  exact stop_bind (body_eq_none unclosed)

end For

end Control

/-! ## Other statements -/

section Symbol

variable {s k : List Char} {e : Expr} {xs : List Stmt}

theorem outcome_statement_block (inner : (block ruled).outcome ('\x7b' :: s) = some (xs, k)) :
    statement.outcome ('\x7b' :: s) = some (.block xs, k) := by
  rw [outcome_statement_openBrace, run_bind inner]
  rfl

theorem outcome_statement_empty (k : List Char) :
    statement.outcome (';' :: k) = some (.empty, k) := by
  have mark : (token .semicolon).outcome (';' :: k) = some ((), k) := run_token .semicolon k
  rw [outcome_statement_symbol (by decide), next_choice (stop_bind (block_eq_none (by decide))),
    run_bind mark]
  rfl

/-- What starts with a parenthesis is an expression. -/
theorem outcome_statement_paren (read : expression.outcome ('(' :: s) = some (e, ';' :: k)) :
    statement.outcome ('(' :: s) = some (.expr e, k) := by
  have noName : identifier.outcome ('(' :: s) = none := identifier_eq_none (by decide)
  have noUpdate : update.outcome ('(' :: s) = none :=
    update_eq_none noName (by decide) (by decide)
  have noAssignment : assignment.outcome ('(' :: s) = none := stop_bind noName
  have noEmpty : (token .semicolon).outcome ('(' :: s) = none := miss_token rfl (by decide)
  rw [outcome_statement_wordless (by decide),
    next_choice (stop_bind (block_eq_none (by decide))),
    next_choice (stop_ended (stop_bind noUpdate)),
    next_choice (stop_ended (stop_bind noAssignment)), next_choice (stop_bind noEmpty)]
  exact run_ended (run_bind read)

end Symbol

end Grammar

end LineScript
