import LineScript.Proofs.Grammar.Form
import LineScript.Proofs.Grammar.Rendering

/-! # Laying out scripts

A script is laid out with a line feed behind every statement, all bodies in braces,
a semicolon at the end of all that holds no other statement, and parentheses around
an expression that is a statement by itself. Whatever text an expression is given,
as long as that is a phrase, the script is then read back as it was: the text of a
statement is no start of another form, and what stands behind it is no part of it.
-/

namespace LineScript

open Parse Parser Grammar

/-! ## Expressions in parentheses -/

def UnaryOp.token : UnaryOp → Token
  | .not => .bang
  | .negate => .minus
  | .plus => .plus

/-- The text of an expression with parentheses around every operation in it. -/
def Expr.enclosed (spell : Float → List Char) : Expr → List Char
  | .number x => spell x
  | .text s => '"' :: (s.toList.flatMap quotedSpelling ++ ['"'])
  | .bool true => Token.trueWord.spelling
  | .bool false => Token.falseWord.spelling
  | .null => Token.nullWord.spelling
  | .undefined => Token.undefinedWord.spelling
  | .name n => n.toList
  | .unary op e => '(' :: (op.token.spelling ++ (e.enclosed spell ++ [')']))
  | .binary op x y => joined (.binary op) (x.enclosed spell) (y.enclosed spell)
  | .logical op x y => joined (.logical op) (x.enclosed spell) (y.enclosed spell)
where
  joined (c : Connective) (u v : List Char) : List Char :=
    '(' :: (u ++ ' ' :: (c.token.spelling ++ ' ' :: (v ++ [')'])))

/-- The names in an expression are names, and its numbers are spelled by literals of theirs. -/
def IsSpelled (spell : Float → List Char) : Expr → Prop
  | .number x => Atomic (spell x) (.number x)
  | .name n => IsName n
  | .unary _ e => IsSpelled spell e
  | .binary _ x y | .logical _ x y => IsSpelled spell x ∧ IsSpelled spell y
  | .text _ | .bool _ | .null | .undefined => True

theorem phrase_joined {c : Connective} {x y : Expr} {u v : List Char}
    (left : Phrase c.level u x) (right : Phrase (c.level + 1) v y) (l : Nat) :
    Phrase l (Expr.enclosed.joined c u v) (c.join x y) := by
  have space : Blanks [' '] := .space (by decide) .nil
  have inner := Phrase.join c (Nat.zero_le _) left space space (c.fits_space v) right
  simpa [Expr.enclosed.joined] using Phrase.paren (l := l) .nil inner .nil

theorem IsSpelled.phrase {spell : Float → List Char} {e : Expr} (spelled : IsSpelled spell e)
    (l : Nat) : Phrase l (e.enclosed spell) e := by
  induction e generalizing l with
  | number x => exact .atomic spelled
  | text s => exact .atomic (atomic_text s)
  | bool b => cases b <;> exact .atomic (.constant (by simp [constants]))
  | null => exact .atomic (.constant (by simp [constants]))
  | undefined => exact .atomic (.constant (by simp [constants]))
  | name n => exact .atomic (IsName.atomic spelled)
  | unary op e ih =>
      have sign : (op.token, op) ∈ signs := by cases op <;> simp [UnaryOp.token, signs]
      have inner := Phrase.signed (l := 0) sign .nil (ih spelled operandLevel)
      simpa [Expr.enclosed] using Phrase.paren (l := l) .nil inner .nil
  | binary op x y ihLeft ihRight =>
      exact phrase_joined (c := .binary op) (ihLeft spelled.1 _) (ihRight spelled.2 _) l
  | logical op x y ihLeft ihRight =>
      exact phrase_joined (c := .logical op) (ihLeft spelled.1 _) (ihRight spelled.2 _) l

/-- There is a way to spell all numbers that can be spelled. -/
theorem exists_isSpelled : ∃ spell, ∀ e, IsSpellable e → IsSpelled spell e := by
  have each : ∀ x : Float, ∃ u, IsSpellable (.number x) → Atomic u (.number x) := by
    intro x
    by_cases spellable : IsSpellable (.number x)
    · rcases spellable with ⟨u, d, isNumeral, value, rfl⟩ | rfl | rfl
      · exact ⟨u, fun _ => .number isNumeral value⟩
      · exact ⟨Token.nanWord.spelling, fun _ => .constant (by simp [constants])⟩
      · exact ⟨Token.infinityWord.spelling, fun _ => .constant (by simp [constants])⟩
    · exact ⟨[], fun isSpellable => absurd isSpellable spellable⟩
  obtain ⟨spell, spells⟩ := Classical.skolem.mp each
  refine ⟨spell, fun e spellable => ?_⟩
  induction e with
  | number x => exact spells x spellable
  | text | bool | null | undefined => trivial
  | name n => exact spellable
  | unary op e ih => exact ih spellable
  | binary op x y ihLeft ihRight => exact ⟨ihLeft spellable.1, ihRight spellable.2⟩
  | logical op x y ihLeft ihRight => exact ⟨ihLeft spellable.1, ihRight spellable.2⟩

/-! ## Layout -/

def braced (body : List Char) : List Char :=
  "\x7b\n".toList ++ (body ++ ['\x7d'])

def headed (word : Token) (header body : List Char) : List Char :=
  word.spelling ++ (" (".toList ++ (header ++ (") ".toList ++ braced body)))

def withElse (yes no : List Char) : List Char :=
  yes ++ (" else ".toList ++ braced no)

section Layout

variable (render : Expr → List Char)

def Simple.layout : Simple → List Char
  | .declare kind name none => kind.word.spelling ++ ' ' :: name.toList
  | .declare kind name (some e) =>
      kind.word.spelling ++ ' ' :: (name.toList ++ (" = ".toList ++ render e))
  | .assign name op e => name.toList ++ ' ' :: ((CompoundOp.token op).spelling ++ ' ' :: render e)
  | .update name delta => name.toList ++ delta.token.spelling

def layoutNext (es : List Expr) : List Char :=
  es.flatMap fun e => ", ".toList ++ render e

def layoutArguments : List Expr → List Char
  | [] => []
  | e :: es => render e ++ layoutNext render es

def layoutCall (method : String) (args : List Expr) : List Char :=
  Token.consoleWord.spelling ++ '.' :: (method.toList ++ '(' ::
    (layoutArguments render args ++ [')', ';']))

def layoutHeader (init : Option Simple) (e : Option Expr) (step : Option Simple) : List Char :=
  init.elim [] (·.layout render) ++ ("; ".toList ++ (e.elim [] render ++ ("; ".toList ++
    step.elim [] (·.layout render))))

mutual

/-- The text of a statement. -/
def Stmt.layout : Stmt → List Char
  | .simple s => s.layout render ++ [';']
  | .console method args => layoutCall render method args
  | .branch e yes none => headed .ifWord (render e) (layoutAll yes)
  | .branch e yes (some no) =>
      withElse (headed .ifWord (render e) (layoutAll yes)) (layoutAll no)
  | .forLoop init e step body => headed .forWord (layoutHeader render init e step) (layoutAll body)
  | .whileLoop e body => headed .whileWord (render e) (layoutAll body)
  | .block body => braced (layoutAll body)
  | .expr e => '(' :: (render e ++ [')', ';'])
  | .empty => [';']

/-- The text of statements, each with a line feed behind it. -/
def layoutAll : List Stmt → List Char
  | [] => []
  | x :: xs => x.layout ++ '\n' :: layoutAll xs

end

end Layout

/-! ## What can be laid out -/

/-- Whether a statement may be the first part of the header of a loop. -/
def Simple.isInit : Simple → Bool
  | .declare .. | .assign .. => true
  | .update .. => false

/-- Whether a statement may be the last part of the header of a loop. -/
def Simple.isStep : Simple → Bool
  | .update .. | .assign .. => true
  | .declare .. => false

section Proper

variable (good : Expr → Prop)

def Simple.IsProper : Simple → Prop
  | .declare _ name init => IsName name ∧ ∀ e ∈ init, good e
  | .assign name _ e => IsName name ∧ good e
  | .update name _ => IsName name

mutual

/-- The names in a statement are names, its expressions are good, and the headers of its loops have
    what may stand there. -/
def Stmt.IsProper : Stmt → Prop
  | .simple s => s.IsProper good
  | .console method args => IsMethod method ∧ ∀ e ∈ args, good e
  | .branch e yes none => good e ∧ AreProper yes
  | .branch e yes (some no) => good e ∧ AreProper yes ∧ AreProper no
  | .forLoop init e step body =>
      (∀ s ∈ init, s.isInit = true ∧ s.IsProper good) ∧ (∀ x ∈ e, good x) ∧
        (∀ s ∈ step, s.isStep = true ∧ s.IsProper good) ∧ AreProper body
  | .whileLoop e body => good e ∧ AreProper body
  | .block body => AreProper body
  | .expr e => good e
  | .empty => True

def AreProper : List Stmt → Prop
  | [] => True
  | x :: xs => x.IsProper ∧ AreProper xs

end

end Proper

section Mono

variable {good fair : Expr → Prop}

theorem Simple.IsProper.mono (imp : ∀ e, good e → fair e) {s : Simple} (proper : s.IsProper good) :
    s.IsProper fair := by
  cases s with
  | declare kind name init => exact ⟨proper.1, fun e member => imp e (proper.2 e member)⟩
  | assign name op e => exact ⟨proper.1, imp e proper.2⟩
  | update name delta => exact proper

mutual

theorem Stmt.IsProper.mono (imp : ∀ e, good e → fair e) : ∀ {x : Stmt},
    x.IsProper good → x.IsProper fair
  | .simple _, proper => Simple.IsProper.mono imp proper
  | .console _ _, ⟨isMethod, args⟩ => ⟨isMethod, fun e member => imp e (args e member)⟩
  | .branch _ _ none, ⟨e, yes⟩ => ⟨imp _ e, yes.mono imp⟩
  | .branch _ _ (some _), ⟨e, yes, no⟩ => ⟨imp _ e, yes.mono imp, no.mono imp⟩
  | .forLoop _ _ _ _, ⟨init, e, step, body⟩ =>
      ⟨fun s member => (init s member).imp_right (·.mono imp), fun x member => imp x (e x member),
        fun s member => (step s member).imp_right (·.mono imp), body.mono imp⟩
  | .whileLoop _ _, ⟨e, body⟩ => ⟨imp _ e, body.mono imp⟩
  | .block _, (body : AreProper good _) => body.mono imp
  | .expr e, proper => imp e proper
  | .empty, _ => trivial

theorem AreProper.mono (imp : ∀ e, good e → fair e) : ∀ {xs : List Stmt},
    AreProper good xs → AreProper fair xs
  | [], _ => trivial
  | _ :: _, ⟨first, rest⟩ => ⟨first.mono imp, rest.mono imp⟩

end

end Mono

/-! ## Simple statements and arguments -/

/-- The text that an expression is given is one of its phrases. -/
def IsPhrase (render : Expr → List Char) (e : Expr) : Prop :=
  Phrase 0 (render e) e

section Parts

variable {render : Expr → List Char}

namespace Simple

variable {s : Simple}

/-- A simple statement starts with a letter, and not with the word `else`. -/
theorem IsProper.start_layout (proper : s.IsProper (IsPhrase render)) (k : List Char) :
    skipBlank (s.layout render ++ k) = s.layout render ++ k ∧
      (keyword .elseWord).outcome (s.layout render ++ k) = none := by
  cases s with
  | declare kind name init =>
      cases init <;> cases kind <;>
        exact ⟨skipBlank_solid (by decide) (by decide), miss_keyword rfl (by decide)⟩
  | assign name op e =>
      rw [layout, List.append_assoc]
      exact ⟨proper.1.skipBlank_append _,
        keyword_name_eq_none (by decide) (by decide) proper.1 (apart_cons.mpr (by decide))⟩
  | update name delta =>
      rw [layout, List.append_assoc]
      exact ⟨IsName.skipBlank_append proper _,
        keyword_name_eq_none (by decide) (by decide) proper (apart_delta delta _)⟩

theorem outcome_declare {kind : DeclKind} {name : String} {init : Option Expr}
    (proper : (declare kind name init).IsProper (IsPhrase render)) (k : List Char) :
    declaration.outcome ((declare kind name init).layout render ++ ';' :: k) =
      some (.declare kind name init, ';' :: k) := by
  obtain ⟨isName, value⟩ := proper
  cases init with
  | none =>
      simp only [layout, List.append_assoc, List.cons_append]
      exact outcome_declaration kind isName (apart_cons.mpr (by decide)) (outcome_initial_none k)
  | some e =>
      have read := (value e rfl).outcome_expression (c := ';') (by decide) k
      simp only [layout, List.append_assoc, List.cons_append]
      exact outcome_declaration kind isName (apart_cons.mpr (by decide)) (outcome_initial read)

/-- The first part of the header of a loop. -/
theorem outcome_init (proper : s.IsProper (IsPhrase render)) (isInit : s.isInit = true)
    (k : List Char) :
    (declaration <|> assignment).outcome (s.layout render ++ ';' :: k) = some (s, ';' :: k) := by
  cases s with
  | declare kind name init => exact run_choice (outcome_declare proper k)
  | assign name op e =>
      have read := proper.2.outcome_expression (c := ';') (by decide) k
      simp only [layout, List.append_assoc, List.cons_append]
      rw [next_choice (declaration_name_eq_none proper.1 (apart_cons.mpr (by decide)))]
      exact outcome_assignment op proper.1 read
  | update name delta => cases isInit

/-- The last part of the header of a loop. -/
theorem outcome_step (proper : s.IsProper (IsPhrase render)) (isStep : s.isStep = true)
    (k : List Char) :
    (Grammar.update <|> assignment).outcome (s.layout render ++ ')' :: k) = some (s, ')' :: k) := by
  cases s with
  | declare kind name init => cases isStep
  | assign name op e =>
      have read := proper.2.outcome_expression (c := ')') (by decide) k
      simp only [layout, List.append_assoc, List.cons_append]
      rw [next_choice (update_assignment_eq_none op proper.1 _)]
      exact outcome_assignment op proper.1 read
  | update name delta =>
      rw [layout, List.append_assoc]
      exact run_choice (outcome_update proper delta _)

theorem outcome_statement (proper : s.IsProper (IsPhrase render)) (k : List Char) :
    statement.outcome (s.layout render ++ ';' :: k) = some (.simple s, k) := by
  cases s with
  | declare kind name init => exact outcome_statement_declaration (outcome_declare proper k)
  | assign name op e =>
      have read := proper.2.outcome_expression (c := ';') (by decide) k
      simp only [layout, List.append_assoc, List.cons_append]
      exact outcome_statement_assignment op proper.1 read
  | update name delta =>
      rw [layout, List.append_assoc]
      exact outcome_statement_update proper delta k

end Simple

/-- Behind an argument stands a comma or the closing parenthesis. -/
theorem outcome_layoutNext {e : Expr} (phrase : IsPhrase render e) (es : List Expr)
    (k : List Char) :
    expression.outcome (skipBlank (render e ++ (layoutNext render es ++ ')' :: k))) =
      some (e, layoutNext render es ++ ')' :: k) := by
  cases es with
  | nil => exact phrase.outcome_expression (c := ')') (by decide) k
  | cons e' es => exact phrase.outcome_expression (c := ',') (by decide) _

theorem many_layoutNext {es : List Expr} (phrases : ∀ e ∈ es, IsPhrase render e) (k : List Char) :
    (many nextArgument).outcome (layoutNext render es ++ ')' :: k) = some (es, ')' :: k) := by
  induction es with
  | nil => exact outcome_many_of_none (nextArgument_closeParen k)
  | cons e es ih =>
      rw [List.forall_mem_cons] at phrases
      have first := outcome_nextArgument (outcome_layoutNext phrases.1 es k)
      have split : layoutNext render (e :: es) ++ ')' :: k =
          ", ".toList ++ (render e ++ (layoutNext render es ++ ')' :: k)) := by
        simp [layoutNext]
      rw [split, outcome_many_of_some first, ih phrases.2]
      rfl

theorem outcome_layoutArguments {args : List Expr} (phrases : ∀ e ∈ args, IsPhrase render e)
    (k : List Char) :
    arguments.outcome (skipBlank (layoutArguments render args ++ ')' :: k)) =
      some (args, ')' :: k) := by
  cases args with
  | nil =>
      rw [layoutArguments, List.nil_append, skipBlank_solid (by decide) (by decide)]
      exact outcome_arguments_nil k
  | cons e es =>
      rw [List.forall_mem_cons] at phrases
      rw [layoutArguments, List.append_assoc]
      exact outcome_arguments_cons (outcome_layoutNext phrases.1 es k) (many_layoutNext phrases.2 k)

/-! ## Headers of loops -/

private theorem skipBlank_separator (k : List Char) :
    skipBlank ("; ".toList ++ k) = "; ".toList ++ k :=
  skipBlank_solid (by decide) (by decide)

theorem outcome_layoutInit {init : Option Simple}
    (proper : ∀ s ∈ init, s.isInit = true ∧ s.IsProper (IsPhrase render)) (k : List Char) :
    (optional (declaration <|> assignment)).outcome
        (skipBlank (init.elim [] (·.layout render) ++ ("; ".toList ++ k))) =
      some (init, "; ".toList ++ k) := by
  cases init with
  | none =>
      have absent : (declaration <|> assignment).outcome ("; ".toList ++ k) = none :=
        (next_choice (declaration_eq_none (by decide) (by decide) (by decide))).trans
          (stop_bind (identifier_eq_none (by decide)))
      rw [Option.elim_none, List.nil_append, skipBlank_separator]
      exact pass_optional absent
  | some s =>
      obtain ⟨isInit, proper⟩ := proper s rfl
      rw [Option.elim_some, (proper.start_layout _).1]
      exact run_optional (Simple.outcome_init proper isInit _)

theorem outcome_layoutCondition {e : Option Expr} (phrases : ∀ x ∈ e, IsPhrase render x)
    (k : List Char) :
    (optional expression).outcome (skipBlank (e.elim [] render ++ ("; ".toList ++ k))) =
      some (e, "; ".toList ++ k) := by
  cases e with
  | none =>
      have absent : expression.outcome ("; ".toList ++ k) = none := expressionAt_eq_none (by decide)
      rw [Option.elim_none, List.nil_append, skipBlank_separator]
      exact pass_optional absent
  | some e => exact run_optional ((phrases e rfl).outcome_expression (c := ';') (by decide) _)

theorem outcome_layoutStep {step : Option Simple}
    (proper : ∀ s ∈ step, s.isStep = true ∧ s.IsProper (IsPhrase render)) (k : List Char) :
    (optional (update <|> assignment)).outcome
        (skipBlank (step.elim [] (·.layout render) ++ (") \x7b".toList ++ k))) =
      some (step, ") \x7b".toList ++ k) := by
  cases step with
  | none =>
      have noName : identifier.outcome (") \x7b".toList ++ k) = none :=
        identifier_eq_none (by decide)
      have absent : (update <|> assignment).outcome (") \x7b".toList ++ k) = none :=
        (next_choice (update_eq_none noName (by decide) (by decide))).trans (stop_bind noName)
      have solid : skipBlank (") \x7b".toList ++ k) = ") \x7b".toList ++ k :=
        skipBlank_solid (by decide) (by decide)
      rw [Option.elim_none, List.nil_append, solid]
      exact pass_optional absent
  | some s =>
      obtain ⟨isStep, proper⟩ := proper s rfl
      rw [Option.elim_some, (proper.start_layout _).1]
      exact run_optional (Simple.outcome_step proper isStep _)

end Parts

/-! ## Statements -/

/-- Where a list of statements ends: with the script or at the brace of its block. -/
inductive Closes : List Char → Prop where
  | script : Closes []
  | brace (k) : Closes ('\x7d' :: k)

namespace Closes

variable {k : List Char}

theorem skipBlank_eq (closes : Closes k) : skipBlank k = k := by
  cases closes with
  | script => exact skipBlank_nil
  | brace k => exact skipBlank_solid (by decide) (by decide)

theorem noElse (closes : Closes k) : (keyword .elseWord).outcome k = none := by
  cases closes with
  | script => exact stop_bind (miss_token_nil _)
  | brace k => exact miss_keyword rfl (by decide)

theorem noStatement (closes : Closes k) : statement.outcome k = none := by
  cases closes with
  | script => exact statement_nil
  | brace k => exact statement_closeBrace k

end Closes

section Statements

variable {render : Expr → List Char}

/-- A statement starts with no blank, and not with the word `else`. -/
theorem Stmt.IsProper.start_layout {x : Stmt} (proper : x.IsProper (IsPhrase render))
    (k : List Char) :
    skipBlank (x.layout render ++ k) = x.layout render ++ k ∧
      (keyword .elseWord).outcome (x.layout render ++ k) = none := by
  cases x with
  | simple s =>
      rw [Stmt.IsProper] at proper
      rw [Stmt.layout, List.append_assoc]
      exact proper.start_layout _
  | branch e yes no =>
      cases no <;> exact ⟨skipBlank_solid (by decide) (by decide), miss_keyword rfl (by decide)⟩
  | console | forLoop | whileLoop | block | expr | empty =>
      exact ⟨skipBlank_solid (by decide) (by decide), miss_keyword rfl (by decide)⟩

theorem start_layoutAll {xs : List Stmt} (proper : AreProper (IsPhrase render) xs) {k : List Char}
    (closes : Closes k) :
    skipBlank (layoutAll render xs ++ k) = layoutAll render xs ++ k ∧
      (keyword .elseWord).outcome (layoutAll render xs ++ k) = none := by
  cases xs with
  | nil => exact ⟨closes.skipBlank_eq, closes.noElse⟩
  | cons x xs =>
      rw [layoutAll, List.append_assoc]
      exact proper.1.start_layout _

theorem layoutCall_append (method : String) (args : List Expr) (k : List Char) :
    layoutCall render method args ++ k = Token.consoleWord.spelling ++ '.' :: (method.toList ++
      '(' :: (layoutArguments render args ++ ')' :: ';' :: k)) := by
  simp [layoutCall]

theorem braced_append (s k : List Char) : braced s ++ k = '\x7b' :: '\n' :: (s ++ '\x7d' :: k) := by
  simp [braced]

theorem headed_append (word : Token) (header s k : List Char) :
    headed word header s ++ k = word.spelling ++ (" (".toList ++ (header ++
      (") \x7b".toList ++ '\n' :: (s ++ '\x7d' :: k)))) := by
  simp [headed, braced]

theorem withElse_append (s s' k : List Char) :
    withElse s s' ++ k = s ++ (" else \x7b".toList ++ '\n' :: (s' ++ '\x7d' :: k)) := by
  simp [withElse, braced]

theorem outcome_braced {xs : List Stmt}
    (inner : ∀ {k}, Closes k → items.outcome (skipBlank (layoutAll render xs ++ k)) = some (xs, k))
    (k : List Char) :
    (block ruled).outcome ('\x7b' :: '\n' :: (layoutAll render xs ++ '\x7d' :: k)) =
      some (xs, k) := by
  apply run_block
  rw [skipBlank_space (by decide)]
  exact inner (.brace k)

theorem outcome_layoutTest {e : Expr} (phrase : IsPhrase render e) (k : List Char) :
    expression.outcome (skipBlank (render e ++ (") \x7b".toList ++ k))) =
      some (e, ") \x7b".toList ++ k) :=
  phrase.outcome_expression (c := ')') (by decide) _

mutual

/-- A statement is read in front of all that is no `else`. -/
theorem Stmt.IsProper.outcome_layout {x : Stmt} (proper : x.IsProper (IsPhrase render))
    {k : List Char} (noElse : (keyword .elseWord).outcome (skipBlank k) = none) :
    statement.outcome (x.layout render ++ k) = some (x, k) := by
  cases x with
  | simple s =>
      rw [Stmt.IsProper] at proper
      rw [Stmt.layout, List.append_assoc]
      exact Simple.outcome_statement proper k
  | console method args =>
      rw [Stmt.IsProper] at proper
      have read := outcome_layoutArguments proper.2 (';' :: k)
      rw [Stmt.layout, layoutCall_append]
      exact outcome_statement_console (outcome_console proper.1 read)
  | branch e yes no =>
      cases no with
      | none =>
          rw [Stmt.IsProper] at proper
          have inner := outcome_braced (fun closes => proper.2.items_layoutAll closes) k
          rw [Stmt.layout, headed_append]
          exact run_if (outcome_layoutTest proper.1 _) inner noElse
      | some no =>
          rw [Stmt.IsProper] at proper
          have inner := outcome_braced (fun closes => proper.2.1.items_layoutAll closes)
          have inner' := outcome_braced (fun closes => proper.2.2.items_layoutAll closes) k
          rw [Stmt.layout, withElse_append, headed_append]
          exact run_ifElse (outcome_layoutTest proper.1 _) (inner _) inner'
  | forLoop init e step body =>
      rw [Stmt.IsProper] at proper
      obtain ⟨init', e', step', body'⟩ := proper
      have inner := outcome_braced (fun closes => body'.items_layoutAll closes) k
      simp only [Stmt.layout, headed_append, layoutHeader, List.append_assoc]
      exact run_for (outcome_layoutInit init' _) (outcome_layoutCondition e' _)
        (outcome_layoutStep step' _) inner
  | whileLoop e body =>
      rw [Stmt.IsProper] at proper
      have inner := outcome_braced (fun closes => proper.2.items_layoutAll closes) k
      rw [Stmt.layout, headed_append]
      exact run_while (outcome_layoutTest proper.1 _) inner
  | block body =>
      rw [Stmt.IsProper] at proper
      have inner := outcome_braced (fun closes => proper.items_layoutAll closes) k
      rw [Stmt.layout, braced_append]
      exact outcome_statement_block inner
  | expr e =>
      rw [Stmt.IsProper] at proper
      have wrapped := Phrase.paren (l := 0) .nil proper .nil
      have read := wrapped.outcome_expression (c := ';') (by decide) k
      rw [wrapped.skipBlank_append] at read
      simp only [List.cons_append, List.append_assoc, List.nil_append] at read
      simp only [Stmt.layout, List.cons_append, List.append_assoc, List.nil_append]
      exact outcome_statement_paren read
  | empty => exact outcome_statement_empty k

/-- Statements are read up to where their list ends. -/
theorem AreProper.items_layoutAll {xs : List Stmt} (proper : AreProper (IsPhrase render) xs)
    {k : List Char} (closes : Closes k) :
    items.outcome (skipBlank (layoutAll render xs ++ k)) = some (xs, k) := by
  cases xs with
  | nil =>
      rw [layoutAll, List.nil_append, closes.skipBlank_eq]
      exact outcome_items_of_none closes.noStatement
  | cons x xs =>
      rw [AreProper] at proper
      obtain ⟨first, rest⟩ := proper
      obtain ⟨solid, noElse⟩ := start_layoutAll rest closes
      have read := first.outcome_layout (k := '\n' :: (layoutAll render xs ++ k)) (by
        rw [skipBlank_space (by decide), solid, noElse])
      rw [layoutAll, List.append_assoc, (first.start_layout _).1, List.cons_append,
        outcome_items_of_some read, skipBlank_space (by decide), rest.items_layoutAll closes]
      rfl

end

end Statements

/-- A script whose names can be read and whose numbers can be spelled can be laid out, and each
    layout of a script is read as that script, to the end of the text. -/
theorem read_program_layout :
    (∃ spell, ∀ xs, AreProper IsSpellable xs → AreProper (IsSpelled spell) xs) ∧
      ∀ (spell : Float → List Char) (xs : List Stmt), AreProper (IsSpelled spell) xs →
        read program (layoutAll (Expr.enclosed spell) xs) = .ok xs := by
  constructor
  · obtain ⟨spell, spells⟩ := exists_isSpelled
    exact ⟨spell, fun xs proper => proper.mono spells⟩
  · intro spell xs proper
    have phrases : AreProper (IsPhrase (Expr.enclosed spell)) xs :=
      proper.mono fun e spelled => IsSpelled.phrase spelled 0
    have whole := phrases.items_layoutAll .script
    rw [List.append_nil, ← outcome_program] at whole
    exact read_eq_ok_iff.mpr whole

/-- An `else` behind a branch that has none, a method named like a keyword, a variable whose name
    starts like the console, an operator that starts like a comment, and headers without parts. -/
theorem read_program_layout_lookalikes :
    let a := Expr.name "a"
    let e := Expr.binary .add a (.unary .negate (.number 1))
    let spell := fun _ : Float => ['1']
    let xs : List Stmt :=
      [.simple (.declare .letDecl "a" (some (.number 1))),
        .simple (.declare .varDecl "consoled" none), .simple (.assign "consoled" (some .div) e),
        .console "if" [a, .text "\"\n"], .console "log" [],
        .branch a [.branch e [.simple (.update "a" .down)] none] (some [.empty]),
        .forLoop (some (.assign "a" none a)) none (some (.update "a" .up)) [.block [.expr a]],
        .forLoop none (some e) none [.whileLoop a []]]
    layoutAll (Expr.enclosed spell) xs =
        ("let a = 1;\nvar consoled;\nconsoled /= (a + (-1));\n" ++
          "console.if(a, \"\\\"\\n\");\nconsole.log();\n" ++
          "if (a) \x7b\nif ((a + (-1))) \x7b\na--;\n\x7d\n\x7d else \x7b\n;\n\x7d\n" ++
          "for (a = a; ; a++) \x7b\n\x7b\n(a);\n\x7d\n\x7d\n" ++
          "for (; (a + (-1)); ) \x7b\nwhile (a) \x7b\n\x7d\n\x7d\n").toList ∧
      read program (layoutAll (Expr.enclosed spell) xs) = .ok xs := by
  intro a e spell xs
  have isA : IsName "a" := isName_of_isValid (by decide) (by decide)
  have isConsoled : IsName "consoled" := isName_of_isValid (by decide) (by decide)
  have isIf : IsMethod "if" := ⟨'i', ['f'], rfl, by decide, List.all_eq_true.mp rfl⟩
  have isLog : IsMethod "log" := ⟨'l', ['o', 'g'], rfl, by decide, List.all_eq_true.mp rfl⟩
  have one : IsSpelled spell (.number 1) := by
    have digit : IsDigits ['1'] := ⟨by simp, by simp⟩
    have value : (Number.Decimal.mk false 1 0).toFloat = 1 := by decide +kernel
    rw [← value]
    exact Atomic.number (.whole digit .none) (by decide +kernel)
  have name : IsSpelled spell a := isA
  have sum : IsSpelled spell e := ⟨isA, one⟩
  have text : IsSpelled spell (.text "\"\n") := trivial
  have proper : AreProper (IsSpelled spell) xs := by
    simp [xs, AreProper, Stmt.IsProper, Simple.IsProper, Simple.isInit, Simple.isStep, isA,
      isConsoled, isIf, isLog, one, name, sum, text]
  exact ⟨by decide +kernel, read_program_layout.2 spell xs proper⟩

end LineScript
