import LineScript.Proofs.Grammar.Statement
import LineScript.Proofs.Nesting.Reading

/-! # The rules of scripts and the scan

What the grammar takes for literals and comments is what the scan takes for them, wherever a rule
succeeds. The one place where this hangs on more than the rule itself is the sign of a division:
the scan would take it for a comment if a slash or a star stood behind it. A slash cannot, since
then the blanks before it would have been read on as a comment, and a star cannot, since no operand
starts with one. The pieces of a tree have brackets that match and room for the tree.
-/

namespace LineScript.Grammar

open Parse Parser Nesting

/-! ## Expressions -/

section Expressions

variable {inner : Nat → Parser Expr} [∀ l, Traced (inner l)]

/-- What is asked of the pieces of an expression. -/
abbrev FitsExpr (e : Expr) (u : List Piece) : Prop :=
  Holds u 0 (e.height + 1)

theorem isPair_parens : IsPair '(' ')' := by
  simp [IsPair]

/-- A token of one character that the scan takes for plain, such as a bracket. -/
theorem reads_mark {t : Token} {c : Char} (spelled : t.spelling = [c])
    (code : Mode.behind c = .code) : Reads (token t) fun _ u => u = [.plain c] := by
  intro s a rest read
  have split := token_success read
  rw [spelled] at split
  subst split
  change cut (c :: rest) = (extent (token t) ([c] ++ rest)).map .plain ++ cut rest ∧
    (extent (token t) ([c] ++ rest)).map Piece.plain = [.plain c]
  rw [extent_append read, cut_plain code]
  exact ⟨rfl, rfl⟩

theorem reads_atom {e : Parser Expr} [Traced e] (reads : Reads e FitsExpr) :
    Reads (atom e) FitsExpr := by
  have leaf : ∀ {α : Type} {p : Parser α} {g : α → Expr} [Traced p],
      Reads p (fun _ u => Holds u 1 1) → (∀ a, (g a).height = 0) →
        Reads (p >>= fun a => pure (g a)) FitsExpr := by
    intro α p g _ here low
    refine .bind here fun a u holds => .pure ?_
    rw [List.append_nil, FitsExpr, low]
    exact holds.mono (Nat.zero_le _) le_rfl
  refine .choice (leaf reads_number fun _ => rfl) (.choice (leaf reads_text fun _ => rfl) ?_)
  iterate 6 refine .choice (leaf (reads_keyword rfl) fun _ => rfl) ?_
  refine .choice (leaf reads_identifier fun _ => rfl) ?_
  refine .bind (reads_mark rfl rfl) fun _ _ opened => .bind reads_blank fun _ b blank => ?_
  refine .bind reads fun x u fits => .bind reads_blank fun _ b' blank' => ?_
  refine .bind (reads_mark rfl rfl) fun _ _ closed => .pure ?_
  subst opened closed
  have whole := Holds.pair isPair_parens (blank.skip (fits.append blank')) .nil
  simp only [List.append_assoc] at whole
  exact whole.mono (Nat.zero_le _) (by omega)

theorem reads_signed {e : Parser Expr} [Traced e] (reads : Reads e FitsExpr) {sign : Token}
    (ordinary : sign.spelling.all isOrdinary = true) (op : UnaryOp) :
    Reads (signed sign op e) FitsExpr := by
  refine .bind (reads_word ordinary) fun _ _ word => .bind reads_blank fun _ _ blank => ?_
  refine .bind reads fun x _ fits => .pure ?_
  have whole := word.append (blank.skip (fits.append .nil))
  exact whole.mono (Nat.zero_le _) (by simp only [Expr.height]; omega)

theorem reads_operand (reads : ∀ l, Reads (inner l) FitsExpr) : Reads (operand inner) FitsExpr :=
  .choice (reads_signed (reads _) rfl _) (.choice (reads_signed (reads _) rfl _)
    (.choice (reads_signed (reads _) rfl _) (reads_atom (reads 0))))

/-- The sign of a division does not start a comment: not one up to the end of the line, since that
    would have been read as a blank, and no other, since no operand starts with a star. -/
theorem cut_division {s s₂ : List Char} (sign : skipBlank s = '/' :: s₂)
    (operand : ∀ t, skipBlank s₂ ≠ '*' :: t) : cut ('/' :: s₂) = .plain '/' :: cut s₂ := by
  cases s₂ with
  | nil => rfl
  | cons d s₃ =>
      refine cut_slash ?_ ?_
      · rintro rfl
        have none_ := gapUnit_skipBlank s
        rw [sign] at none_
        simp [gapUnit, lineComment, isSpace, Text.after?] at none_
      · rintro rfl
        exact operand s₃ (skipBlank_solid rfl (by decide))

theorem trace_token {t : Token} {s rest : List Char} {a : Unit}
    (read : (token t).outcome s = some (a, rest)) : trace (token t) s = t.spelling.map .plain := by
  obtain rfl := token_success read
  exact congrArg (List.map Piece.plain) (extent_append read)

/-- Behind blanks a connective is read as the scan takes it, if what follows it is an operand. -/
theorem cut_connective {c : Connective} {s s₂ : List Char}
    (sign : skipBlank s = c.token.spelling ++ s₂) (operand : ∀ t, skipBlank s₂ ≠ '*' :: t) :
    cut (skipBlank s) = c.token.spelling.map .plain ++ cut s₂ := by
  by_cases division : c = .binary .div
  · subst division
    rw [sign]
    exact cut_division sign operand
  · rw [sign]
    refine cut_ordinary ?_ s₂
    cases c with
    | logical op => cases op <;> rfl
    | binary op => cases op <;> first | rfl | exact absurd rfl division

theorem holds_connective (c : Connective) : Holds (c.token.spelling.map .plain) 1 1 := by
  refine holds_ink ?_ (spelling_ne_nil _)
  cases c with
  | logical op => cases op <;> rfl
  | binary op => cases op <;> rfl

/-- A connective and its operand, behind pieces `u` for the operand on the left. -/
theorem reads_continued (reads : ∀ l, Reads (inner l) FitsExpr)
    (starless : ∀ l s, (inner l).outcome ('*' :: s) = none) {left : Expr} {u : List Piece}
    (before : FitsExpr left u) (c : Connective) :
    Reads (continued inner left c) fun e v => FitsExpr e (u ++ v) := by
  intro s e rest read
  obtain ⟨⟨⟩, s₁, read₁, more⟩ := bind_success read
  obtain ⟨⟨⟩, s₂, read₂, more₂⟩ := bind_success more
  obtain ⟨⟨⟩, s₃, read₃, more₃⟩ := bind_success more₂
  obtain ⟨⟨⟩, s₄, read₄, more₄⟩ := bind_success more₃
  obtain ⟨right, s₅, read₅, last⟩ := bind_success more₄
  obtain ⟨rfl, rfl⟩ := pure_success last
  obtain ⟨rfl, -⟩ := absent_success read₃
  obtain rfl := blank_success read₁
  obtain rfl := blank_success read₄
  have sign : cut (skipBlank s) = c.token.spelling.map .plain ++ cut s₃ := by
    refine cut_connective (token_success read₂) fun t star => ?_
    rw [star, starless] at read₅
    cases read₅
  obtain ⟨same, blank⟩ := reads_blank read₁
  obtain ⟨same', blank'⟩ := reads_blank read₄
  obtain ⟨same'', fits⟩ := reads _ read₅
  have whole := before.append
    (blank.skip ((holds_connective c).append (blank'.skip (fits.append .nil))))
  have pieces : trace (continued inner left c) s = trace Grammar.blank s ++
      (c.token.spelling.map .plain ++
        (trace Grammar.blank s₃ ++ (trace (inner (c.level + 1)) (skipBlank s₃) ++ []))) := by
    refine (trace_bind read₁).trans (congrArg _ ?_)
    refine (trace_bind read₂).trans (congrArg₂ _ (trace_token read₂) ?_)
    refine (trace_bind read₃).trans ?_
    exact (trace_bind read₄).trans (congrArg _ (trace_bind read₅))
  rw [pieces]
  refine ⟨?_, whole.mono (Nat.zero_le _) ?_⟩
  · simp only [List.append_assoc, List.append_nil]
    rw [← same'', ← same', ← sign, ← same]
  · rw [c.height_join]
    omega

/-- No operand starts with a star. -/
theorem operand_star (inner : Nat → Parser Expr) (s : List Char) :
    (operand inner).outcome ('*' :: s) = none := by
  have sign : ∀ {t : Token} {op : UnaryOp} {c : Char}, t.spelling.head? = some c → '*' ≠ c →
      (signed t op (inner operandLevel)).outcome ('*' :: s) = none :=
    fun first other => stop_bind (miss_token first other)
  have word : ∀ {t : Token} {e : Expr} {c : Char}, t.spelling.head? = some c → '*' ≠ c →
      (keyword t >>= fun _ => pure e).outcome ('*' :: s) = none :=
    fun first other => stop_bind (miss_keyword first other)
  rw [operand, next_choice (sign rfl (by decide)), next_choice (sign rfl (by decide)),
    next_choice (sign rfl (by decide)), atom,
    next_choice (stop_bind (number_eq_none rfl (by decide))),
    next_choice (stop_bind (text_eq_none (by decide) (by decide)))]
  iterate 6 rw [next_choice (word rfl (by decide))]
  rw [next_choice (stop_bind (identifier_eq_none rfl))]
  exact stop_bind (miss_token rfl (by decide))

theorem reads_expression : Reads expression FitsExpr := by
  have starless : ∀ self l s, (expressionRules self l).outcome ('*' :: s) = none :=
    fun self _ s => stop_bind (operand_star self s)
  refine Reads.recursive (P := fun _ => FitsExpr)
    (K := fun self => ∀ l s, (self l).outcome ('*' :: s) = none) (fun _ _ => rfl) starless ?_ 0
  intro self _ starless reads least
  refine .bind (reads_operand reads) fun left u before => ?_
  refine Reads.extend before fun left u before => ?_
  exact .firstOf fun c _ => reads_continued reads starless before c

end Expressions

/-! ## Statements -/

section Simples

/-- What is asked of the pieces of a simple statement. -/
abbrev FitsSimple (s : Simple) (u : List Piece) : Prop :=
  Holds u 0 s.height

theorem reads_semicolon : Reads semicolon fun _ u => Holds u 0 0 := by
  refine .choice (.bind reads_blank fun _ _ blank => ?_)
    (.bind reads_inlineBlank fun _ _ blank => ?_)
  · refine (reads_word rfl).mono fun _ _ word => ?_
    exact (blank.skip word).mono (Nat.zero_le _) (Nat.zero_le _)
  · exact .ahead (by rwa [List.append_nil])

/-- A value that a token stands for. -/
theorem reads_token_pure {α : Type} {p : Parser Unit} [Traced p] {d h : Nat}
    (reads : Reads p fun _ u => Holds u d h) (a : α) :
    Reads (p >>= fun _ => pure a) fun _ u => Holds u 0 0 := by
  refine .bind reads fun _ _ word => .pure ?_
  rw [List.append_nil]
  exact word.mono (Nat.zero_le _) (Nat.zero_le _)

theorem reads_declKind : Reads declKind fun _ u => Holds u 0 0 :=
  .choice (reads_token_pure (reads_keyword rfl) _) (.choice (reads_token_pure (reads_keyword rfl) _)
    (reads_token_pure (reads_keyword rfl) _))

theorem reads_equalsSign : Reads equalsSign fun _ u => Holds u 1 1 :=
  .bind (reads_word rfl) fun _ _ word => .absent (by rwa [List.append_nil])

/-- The slash of a compound assignment is followed by an equals sign, so it starts no comment. -/
theorem reads_divAssign : Reads (token .divAssign) fun _ u => Holds u 1 1 := by
  intro s a rest read
  rw [trace_token read]
  obtain rfl := token_success read
  refine ⟨?_, holds_ink rfl (spelling_ne_nil _)⟩
  have slash : cut ('/' :: '=' :: rest) = .plain '/' :: cut ('=' :: rest) :=
    cut_slash (by decide) (by decide)
  exact slash.trans (congrArg _ (cut_plain rfl))

theorem reads_assignmentOp : Reads assignmentOp fun _ u => Holds u 0 0 :=
  .choice (reads_token_pure (reads_word rfl) _) (.choice (reads_token_pure (reads_word rfl) _)
    (.choice (reads_token_pure (reads_word rfl) _) (.choice (reads_token_pure reads_divAssign _)
      (.choice (reads_token_pure (reads_word rfl) _) (reads_token_pure reads_equalsSign _)))))

theorem reads_delta : Reads delta fun _ u => Holds u 0 0 :=
  .choice (reads_token_pure (reads_word rfl) _) (reads_token_pure (reads_word rfl) _)

theorem reads_declaration : Reads declaration FitsSimple := by
  refine .bind reads_declKind fun kind _ word => .bind reads_blank fun _ _ blank => ?_
  refine .bind reads_identifier fun name _ named => ?_
  refine .bind (P := fun init u => Holds u 0 (init.elim 0 fun e => e.height + 1))
    (.optional ?_ .nil) fun init _ value => .pure ?_
  · refine .bind reads_blank fun _ _ blank => .bind reads_equalsSign fun _ _ word => ?_
    refine .bind reads_blank fun _ _ blank' => reads_expression.mono fun e _ fits => ?_
    exact (blank.skip (word.append (blank'.skip fits))).mono (Nat.zero_le _)
      (by simp only [Option.elim_some]; omega)
  · have whole := word.append (blank.skip (named.append (value.append .nil)))
    refine whole.mono (Nat.zero_le _) ?_
    cases init <;> simp only [Simple.height, Option.elim_some, Option.elim_none] <;> omega

theorem reads_assignment : Reads assignment FitsSimple := by
  refine .bind reads_identifier fun name _ named => .bind reads_blank fun _ _ blank => ?_
  refine .bind reads_assignmentOp fun op _ word => .bind reads_blank fun _ _ blank' => ?_
  refine .bind reads_expression fun e _ fits => .pure ?_
  have whole := named.append (blank.skip (word.append (blank'.skip (fits.append .nil))))
  exact whole.mono (Nat.zero_le _) (by simp only [Simple.height]; omega)

theorem reads_update : Reads update FitsSimple := by
  refine .choice ?_ ?_
  · refine .bind reads_identifier fun name _ named => .bind reads_blank fun _ _ blank => ?_
    refine .bind reads_delta fun delta _ word => .pure ?_
    exact (named.append (blank.skip (word.append .nil))).mono (Nat.zero_le _) (Nat.zero_le _)
  · refine .bind reads_delta fun delta _ word => .bind reads_blank fun _ _ blank => ?_
    refine .bind reads_identifier fun name _ named => .pure ?_
    exact (word.append (blank.skip (named.append .nil))).mono (Nat.zero_le _) (Nat.zero_le _)

end Simples

section Statements

variable {self : Rule → Parser Stmt} [∀ r, Traced (self r)]

/-- What is asked of the pieces of a statement. -/
abbrev FitsStmt (s : Stmt) (u : List Piece) : Prop :=
  Holds u 0 s.height

/-- What is asked of the pieces of several statements. -/
abbrev FitsAll (body : List Stmt) (u : List Piece) : Prop :=
  Holds u 0 (heightOfAll body)

theorem isPair_braces : IsPair '\x7b' '\x7d' := by
  simp [IsPair]

theorem reads_arguments : Reads arguments fun es u => Holds u 0 (heightOfExprs es) := by
  refine .bind (P := fun first u => Holds u 0 (first.elim 0 Expr.height)) (f := moreArguments)
    (.optional (reads_expression.mono fun e _ fits => fits.mono le_rfl (Nat.le_succ _)) .nil) ?_
  intro first u here
  cases first with
  | none =>
      refine .pure ?_
      rwa [List.append_nil]
  | some first =>
      refine .bind (P := fun es u => Holds u 0 (heightOfExprs es)) (.many .nil ?_) ?_
      · intro es _ before
        refine .bind reads_blank fun _ _ blank => .bind (reads_word rfl) fun _ _ word => ?_
        refine .bind reads_blank fun _ _ blank' => reads_expression.mono fun e _ fits => ?_
        have whole := before.append (blank.skip (word.append (blank'.skip fits)))
        refine whole.mono (Nat.zero_le _) ?_
        rw [heightOfExprs_append]
        simp only [heightOfExprs, List.foldr_cons, List.foldr_nil]
        omega
      · intro es _ others
        refine .pure ((here.append (others.append .nil)).mono (Nat.zero_le _) ?_)
        simp only [heightOfExprs, List.foldr_cons, Option.elim_some]
        omega

theorem reads_console : Reads console FitsStmt := by
  refine .bind (reads_word rfl) fun _ _ word => .bind reads_blank fun _ _ blank₁ => ?_
  refine .bind (reads_word rfl) fun _ _ point => .bind reads_blank fun _ _ blank₂ => ?_
  refine .bind reads_methodName fun method _ named => .bind reads_blank fun _ _ blank₃ => ?_
  refine .bind (reads_mark rfl rfl) fun _ _ opened => .bind reads_blank fun _ _ blank₄ => ?_
  refine .bind reads_arguments fun args _ fits => .bind reads_blank fun _ _ blank₅ => ?_
  refine .bind (P := fun _ u => Holds u 0 0) (.optional ?_ .nil) fun _ _ comma => ?_
  · refine .bind (reads_word rfl) fun _ _ comma => reads_blank.mono fun _ _ blank => ?_
    exact (comma.append blank).mono (Nat.zero_le _) (Nat.zero_le _)
  refine .bind (reads_mark rfl rfl) fun _ _ closed => .pure ?_
  subst opened closed
  have inside := Holds.pair isPair_parens (blank₄.skip (fits.append (blank₅.skip comma))) .nil
  simp only [List.append_assoc] at inside
  have whole := word.append (blank₁.skip (point.append (blank₂.skip
    (named.append (blank₃.skip inside)))))
  exact whole.mono (Nat.zero_le _) (by simp only [Stmt.height]; omega)

/-- Statements with blanks behind each. -/
theorem reads_items {p : Parser Stmt} [Traced p] (reads : Reads p FitsStmt) :
    Reads (many do let s ← p; blank; return s) FitsAll := by
  refine .many .nil fun before _ fits => ?_
  refine .bind reads fun s _ here => .bind reads_blank fun _ _ blank => .pure ?_
  refine (fits.append (here.append (blank.skip .nil))).mono (Nat.zero_le _) ?_
  simp only [heightOfAll_append, heightOfAll]
  omega

theorem reads_block (reads : ∀ r, Reads (self r) FitsStmt) :
    Reads (block self) fun body u => Holds u 0 (heightOfAll body + 1) := by
  refine .bind (reads_mark rfl rfl) fun _ _ opened => .bind reads_blank fun _ _ blank => ?_
  refine .bind (reads_items (reads .statement)) fun body _ fits => ?_
  refine .bind (reads_mark rfl rfl) fun _ _ closed => .pure ?_
  subst opened closed
  have whole := Holds.pair isPair_braces (blank.skip fits) .nil
  simp only [List.append_assoc] at whole
  exact whole.mono (Nat.zero_le _) (by omega)

theorem reads_single {p : Parser Stmt} [Traced p] (reads : Reads p FitsStmt) :
    Reads (do return [← p]) FitsAll := by
  refine .bind reads fun s _ here => .pure ((here.append .nil).mono (Nat.zero_le _) ?_)
  simp only [heightOfAll]
  omega

theorem reads_body (reads : ∀ r, Reads (self r) FitsStmt) : Reads (body self) FitsAll :=
  .choice ((reads_block reads).mono fun _ _ fits => fits.mono le_rfl (Nat.le_succ _))
    (reads_single (reads .statement))

theorem reads_condition : Reads condition FitsExpr := by
  refine .bind (reads_mark rfl rfl) fun _ _ opened => .bind reads_blank fun _ _ blank => ?_
  refine .bind reads_expression fun e _ fits => .bind reads_blank fun _ _ blank' => ?_
  refine .bind (reads_mark rfl rfl) fun _ _ closed => .bind reads_blank fun _ _ blank'' => .pure ?_
  subst opened closed
  have whole := Holds.pair isPair_parens (blank.skip (fits.append blank')) (blank''.skip .nil)
  simp only [List.append_assoc] at whole
  exact whole.mono (Nat.zero_le _) (by omega)

theorem reads_branch (reads : ∀ r, Reads (self r) FitsStmt) : Reads (branch self) FitsStmt := by
  refine .bind (reads_keyword rfl) fun _ _ word => .bind reads_blank fun _ _ blank => ?_
  refine .bind reads_condition fun e _ fits => .bind (reads_body reads) fun yes _ inYes => ?_
  refine .bind (P := fun no u => Holds u 0 (no.elim 0 heightOfAll)) (.optional ?_ .nil)
    fun no _ inNo => .pure ?_
  · refine .bind reads_blank fun _ _ blank => .bind (reads_keyword rfl) fun _ _ word => ?_
    refine .bind reads_blank fun _ _ blank' => ?_
    refine (Reads.choice (reads_single (reads .ifStatement)) (reads_body reads)).mono ?_
    intro no _ fits
    exact (blank.skip (word.append (blank'.skip fits))).mono (Nat.zero_le _)
      (by simp only [Option.elim_some]; omega)
  · have whole := word.append (blank.skip (fits.append (inYes.append (inNo.append .nil))))
    refine whole.mono (Nat.zero_le _) ?_
    cases no <;> simp only [Stmt.height, Option.elim_some, Option.elim_none] <;> omega

theorem reads_forLoop (reads : ∀ r, Reads (self r) FitsStmt) : Reads (forLoop self) FitsStmt := by
  have first : Reads (optional (declaration <|> assignment))
      fun init u => Holds u 0 (init.elim 0 Simple.height) :=
    .optional (.choice reads_declaration reads_assignment) .nil
  have second : Reads (optional expression) fun e u => Holds u 0 (e.elim 0 Expr.height) :=
    .optional (reads_expression.mono fun _ _ fits => fits.mono le_rfl (Nat.le_succ _)) .nil
  have third : Reads (optional (update <|> assignment))
      fun step u => Holds u 0 (step.elim 0 Simple.height) :=
    .optional (.choice reads_update reads_assignment) .nil
  refine .bind (reads_keyword rfl) fun _ _ word => .bind reads_blank fun _ _ blank₁ => ?_
  refine .bind (reads_mark rfl rfl) fun _ _ opened => .bind reads_blank fun _ _ blank₂ => ?_
  refine .bind first fun init _ inInit => .bind reads_blank fun _ _ blank₃ => ?_
  refine .bind (reads_word rfl) fun _ _ semi₁ => .bind reads_blank fun _ _ blank₄ => ?_
  refine .bind second fun e _ inCond => .bind reads_blank fun _ _ blank₅ => ?_
  refine .bind (reads_word rfl) fun _ _ semi₂ => .bind reads_blank fun _ _ blank₆ => ?_
  refine .bind third fun step _ inStep => .bind reads_blank fun _ _ blank₇ => ?_
  refine .bind (reads_mark rfl rfl) fun _ _ closed => .bind reads_blank fun _ _ blank₈ => ?_
  refine .bind (reads_body reads) fun body _ inBody => .pure ?_
  subst opened closed
  have header := blank₂.skip (inInit.append (blank₃.skip (semi₁.skip (blank₄.skip
    (inCond.append (blank₅.skip (semi₂.skip (blank₆.skip (inStep.append blank₇)))))))))
  have rest := Holds.pair isPair_parens header (blank₈.skip (inBody.append .nil))
  simp only [List.append_assoc] at rest
  exact (word.append (blank₁.skip rest)).mono (Nat.zero_le _) (by simp only [Stmt.height]; omega)

theorem reads_whileLoop (reads : ∀ r, Reads (self r) FitsStmt) :
    Reads (whileLoop self) FitsStmt := by
  refine .bind (reads_keyword rfl) fun _ _ word => .bind reads_blank fun _ _ blank => ?_
  refine .bind reads_condition fun e _ fits => .bind (reads_body reads) fun body _ inBody => .pure ?_
  have whole := word.append (blank.skip (fits.append (inBody.append .nil)))
  exact whole.mono (Nat.zero_le _) (by simp only [Stmt.height]; omega)

theorem reads_ended {p : Parser Stmt} [Traced p] (reads : Reads p FitsStmt) :
    Reads (ended p) FitsStmt := by
  refine .bind reads fun s _ fits => .bind reads_semicolon fun _ _ semicolon => .pure ?_
  exact (fits.append (semicolon.append .nil)).mono (Nat.zero_le _) (by omega)

theorem reads_anyStatement (reads : ∀ r, Reads (self r) FitsStmt) :
    Reads (anyStatement self) FitsStmt := by
  have simple : ∀ {p : Parser Simple} [Traced p], Reads p FitsSimple →
      Reads (do return Stmt.simple (← p)) FitsStmt := by
    intro p _ reads
    refine .bind reads fun s u fits => .pure ?_
    rw [List.append_nil]
    exact fits
  have expr : Reads (do return Stmt.expr (← expression)) FitsStmt := by
    refine .bind reads_expression fun e u fits => .pure ?_
    rw [List.append_nil]
    exact fits
  have block : Reads (do return Stmt.block (← block self)) FitsStmt := by
    refine .bind (reads_block reads) fun body u fits => .pure ?_
    rw [List.append_nil]
    exact fits
  have empty : Reads (do token .semicolon; return Stmt.empty) FitsStmt :=
    .bind (reads_word rfl) fun _ _ word => .pure ((word.skip .nil).mono le_rfl le_rfl)
  refine .choice (reads_ended (simple reads_declaration)) (.choice (reads_branch reads) ?_)
  refine .choice (reads_forLoop reads) (.choice (reads_whileLoop reads) (.choice block ?_))
  refine .choice (reads_ended reads_console) (.choice (reads_ended (simple reads_update)) ?_)
  exact .choice (reads_ended (simple reads_assignment)) (.choice empty (reads_ended expr))

theorem reads_statement : Reads statement FitsStmt := by
  refine Reads.recursive (P := fun _ => FitsStmt) (K := fun _ => True) trivial (fun _ => trivial) ?_
    Rule.statement
  intro self _ _ reads r
  cases r with
  | statement => exact reads_anyStatement reads
  | ifStatement => exact reads_branch reads

/-- A whole script is cut by the scan as the grammar takes it, and the tree fits its pieces. -/
theorem reads_program : Reads program FitsAll := by
  refine .bind reads_blank fun _ _ blank => (reads_items reads_statement).mono fun body _ fits => ?_
  exact (blank.skip fits).mono (Nat.zero_le _) (by omega)

end Statements

end LineScript.Grammar
