import LineScript.Proofs.Grammar.Statement
import LineScript.Proofs.Nesting.Trace
import LineScript.Proofs.Parse.Described

/-! # The rules of scripts

Scripts are read by rules that call each other, blanks and comments among them. Their recipes are
found from the definitions of the parsers: where the parser of a rule stands inside another one, its
rule is called, and all else is read in the place where it stands. The rules are ordered such that
each calls only rules before it until it has read a character. So there is no text on which the
evaluation of a rule goes on forever, and the calls that are open at a time are bounded by the
length of the text.
-/

namespace LineScript.Grammar

open Parse Parser

/-- The rules for scripts, each behind those that it calls before it has read a character. -/
inductive Nonterminal : Type → Type where
  | lineComment : Nonterminal Unit
  | blockComment : Nonterminal Unit
  | blank : Nonterminal Unit
  | inlineBlank : Nonterminal Unit
  | keyword (t : Token) : Nonterminal Unit
  | identifier : Nonterminal String
  | methodName : Nonterminal String
  | digits : Nonterminal Unit
  | exponent : Nonterminal Unit
  | number : Nonterminal Float
  | escape : Nonterminal Char
  | quotedChar (t : Terminal) (quote : Char) : Nonterminal Char
  | text : Nonterminal String
  | atom : Nonterminal Expr
  | expression (least : Nat) : Nonterminal Expr
  | semicolon : Nonterminal Unit
  | declKind : Nonterminal DeclKind
  | declaration : Nonterminal Simple
  | assignmentOp : Nonterminal (Option CompoundOp)
  | assignment : Nonterminal Simple
  | delta : Nonterminal Delta
  | update : Nonterminal Simple
  | console : Nonterminal Stmt
  | block : Nonterminal (List Stmt)
  | branch : Nonterminal Stmt
  | forLoop : Nonterminal Stmt
  | whileLoop : Nonterminal Stmt
  | statement : Nonterminal Stmt
  | body : Nonterminal (List Stmt)
  | program : Nonterminal (List Stmt)

/-- The parser of a rule. -/
def Nonterminal.parser : {α : Type} → Nonterminal α → Parser α
  | _, lineComment => Grammar.lineComment
  | _, blockComment => Grammar.blockComment
  | _, blank => Grammar.blank
  | _, inlineBlank => Grammar.inlineBlank
  | _, keyword t => Grammar.keyword t
  | _, identifier => Grammar.identifier
  | _, methodName => Grammar.methodName
  | _, digits => Grammar.digits
  | _, exponent => Grammar.exponent
  | _, number => Grammar.number
  | _, escape => Grammar.escape
  | _, quotedChar t quote => Grammar.quotedChar t quote
  | _, text => Grammar.text
  | _, atom => Grammar.atom Grammar.expression
  | _, expression least => expressionAt least
  | _, semicolon => Grammar.semicolon
  | _, declKind => Grammar.declKind
  | _, declaration => Grammar.declaration
  | _, assignmentOp => Grammar.assignmentOp
  | _, assignment => Grammar.assignment
  | _, delta => Grammar.delta
  | _, update => Grammar.update
  | _, console => Grammar.console
  | _, block => Grammar.block ruled
  | _, branch => Grammar.branch ruled
  | _, forLoop => Grammar.forLoop ruled
  | _, whileLoop => Grammar.whileLoop ruled
  | _, statement => Grammar.statement
  | _, body => Grammar.body ruled
  | _, program => Grammar.program

instance : Named Nonterminal :=
  ⟨Nonterminal.parser, Nonterminal.ctorIdx⟩

/-- What a parser reads is what a rule reads. -/
class IsRule {α : Type} (p : Parser α) (r : outParam (Nonterminal α)) : Prop where
  outcome_eq : ∀ s, r.parser.outcome s = p.outcome s

/-- A parser that reads what a rule reads is a call of it. -/
instance {α : Type} {p : Parser α} {r : Nonterminal α} [same : IsRule p r] :
    Described Nonterminal p (Named.rank r + 1) :=
  (Described.call r).congr same.outcome_eq

/-! ## Where rules are called -/

section Calls

instance : IsRule lineComment .lineComment := ⟨fun _ => rfl⟩

instance : IsRule blockComment .blockComment := ⟨fun _ => rfl⟩

instance : IsRule blank .blank := ⟨fun _ => rfl⟩

instance : IsRule inlineBlank .inlineBlank := ⟨fun _ => rfl⟩

instance (t : Token) : IsRule (keyword t) (.keyword t) := ⟨fun _ => rfl⟩

instance : IsRule identifier .identifier := ⟨fun _ => rfl⟩

instance : IsRule methodName .methodName := ⟨fun _ => rfl⟩

instance : IsRule digits .digits := ⟨fun _ => rfl⟩

instance : IsRule exponent .exponent := ⟨fun _ => rfl⟩

instance : IsRule number .number := ⟨fun _ => rfl⟩

instance : IsRule escape .escape := ⟨fun _ => rfl⟩

instance (t : Terminal) (quote : Char) : IsRule (quotedChar t quote) (.quotedChar t quote) :=
  ⟨fun _ => rfl⟩

instance : IsRule text .text := ⟨fun _ => rfl⟩

instance : IsRule (atom (expressionAt 0)) .atom := ⟨fun _ => rfl⟩

instance : IsRule expression (.expression 0) := ⟨fun _ => rfl⟩

instance (least : Nat) : IsRule (expressionAt least) (.expression least) := ⟨fun _ => rfl⟩

instance : IsRule semicolon .semicolon := ⟨fun _ => rfl⟩

instance : IsRule declKind .declKind := ⟨fun _ => rfl⟩

instance : IsRule declaration .declaration := ⟨fun _ => rfl⟩

instance : IsRule assignmentOp .assignmentOp := ⟨fun _ => rfl⟩

instance : IsRule assignment .assignment := ⟨fun _ => rfl⟩

instance : IsRule delta .delta := ⟨fun _ => rfl⟩

instance : IsRule update .update := ⟨fun _ => rfl⟩

instance : IsRule console .console := ⟨fun _ => rfl⟩

instance : IsRule (block ruled) .block := ⟨fun _ => rfl⟩

instance : IsRule (branch ruled) .branch := ⟨fun _ => rfl⟩

instance : IsRule (ruled .ifStatement) .branch :=
  ⟨fun s => (guarded_statementRules.outcome_recursive .ifStatement s).symm⟩

instance : IsRule (forLoop ruled) .forLoop := ⟨fun _ => rfl⟩

instance : IsRule (whileLoop ruled) .whileLoop := ⟨fun _ => rfl⟩

instance : IsRule statement .statement := ⟨fun _ => rfl⟩

instance : IsRule (ruled .statement) .statement := ⟨fun _ => rfl⟩

instance : IsRule (body ruled) .body := ⟨fun _ => rfl⟩

instance : IsRule program .program := ⟨fun _ => rfl⟩

end Calls

/-! ## What is read in the place where it stands -/

section Parts

-- Every part of a sequence counts among the instances of what comes before it.
set_option synthInstance.maxSize 100000

instance (t : Token) : Described Nonterminal (token t) 0 :=
  inferInstanceAs (Described Nonterminal (expecting _ (word _)) 0)

instance (t : Terminal) (p : Char → Bool) : Described Nonterminal (oneOf t p) 0 :=
  inferInstanceAs (Described Nonterminal (expecting _ (char p)) 0)

instance : Described Nonterminal endOfName 0 :=
  inferInstanceAs (Described Nonterminal (absent (char _)) 0)

/-- No rule is called before a character is read that stands behind the last one that may be. -/
abbrev within {α : Type} {p : Parser α} {n m : Nat} (d : Described Nonterminal p n)
    (le : n.ble m = true) : Described Nonterminal p m :=
  d.mono (Nat.le_of_ble_eq_true le)

instance (space : Char → Bool) :
    Described Nonterminal (gap space) (Named.rank Nonterminal.blank) := by
  delta gap
  exact within inferInstance rfl

instance : Described Nonterminal numeral (Named.rank Nonterminal.number) := by
  delta numeral
  have : Advances (word ".".toList) := advances_word (by decide)
  exact within inferInstance rfl

/-- The number that a text was read as, if it was. -/
def numberOf : Option Float → Parser Float
  | some x => return x
  | none => Parser.fail

instance : (x : Option Float) → Described Nonterminal (numberOf x) 0
  | some _ => inferInstanceAs (Described Nonterminal (pure _) 0)
  | none => inferInstanceAs (Described Nonterminal Parser.fail 0)

/-- The character that digits were read as, if they were. -/
def charOf : Option Char → Parser Char
  | some c => return c
  | none => expecting Terminal.unicodeEscape.alone Parser.fail

instance : (c : Option Char) → Described Nonterminal (charOf c) 0
  | some _ => inferInstanceAs (Described Nonterminal (pure _) 0)
  | none => inferInstanceAs (Described Nonterminal (expecting _ Parser.fail) 0)

instance : Described Nonterminal unicodeEscape 0 :=
  inferInstanceAs (Described Nonterminal (token _ >>= fun _ => exactly 4 (oneOf _ _) >>=
    fun digits => charOf (hexChar? digits)) 0)

instance (sign : Token) (op : UnaryOp) {p : Parser Expr} {n : Nat} [Described Nonterminal p n] :
    Described Nonterminal (signed sign op p) 0 := by
  delta signed
  infer_instance

instance :
    Described Nonterminal (operand expressionAt) (Named.rank (Nonterminal.expression 0)) := by
  delta operand
  exact within inferInstance rfl

instance (left : Expr) (c : Connective) : Described Nonterminal (continued expressionAt left c)
    (Named.rank Nonterminal.blank + 1) := by
  delta continued
  exact within inferInstance rfl

instance (least : Nat) (left : Expr) : Described Nonterminal (longer expressionAt least left)
    (Named.rank Nonterminal.blank + 1) :=
  inferInstanceAs (Described Nonterminal (firstOf (List.map (continued expressionAt left) _)) _)

instance : Described Nonterminal equalsSign 0 :=
  inferInstanceAs (Described Nonterminal (token _ >>= fun _ => absent (char _)) 0)

instance : Described Nonterminal condition 0 := by
  delta condition
  infer_instance

instance : (first : Option Expr) →
    Described Nonterminal (moreArguments first) (Named.rank Nonterminal.blank + 1)
  | none => within (inferInstance : Described Nonterminal (pure []) 0) rfl
  | some _ => by
      delta moreArguments
      exact within inferInstance rfl

instance : Described Nonterminal arguments (Named.rank (Nonterminal.expression 0) + 1) :=
  have parts : Described Nonterminal (optional expression >>= moreArguments) _ := inferInstance
  within parts rfl

instance {p : Parser Stmt} {n : Nat} [Advances p] [Described Nonterminal p n] :
    Described Nonterminal (ended p) n := by
  delta ended
  infer_instance

instance : Described Nonterminal (anyStatement ruled) (Named.rank Nonterminal.statement) := by
  delta anyStatement
  exact within inferInstance rfl

/-- What the definition of a rule tells of it. -/
abbrev Nonterminal.described {α : Type} (r : Nonterminal α) :
    Described Nonterminal r.parser r.ctorIdx := by
  have : Advances (ruled .statement) := inferInstanceAs (Advances Grammar.statement)
  -- only the rule itself is opened: the rules that stand in it are found as calls
  cases r <;> dsimp only [parser]
  case lineComment => delta Grammar.lineComment; exact within inferInstance rfl
  case blockComment => delta Grammar.blockComment; exact within inferInstance rfl
  case blank => delta Grammar.blank; exact within inferInstance rfl
  case inlineBlank => delta Grammar.inlineBlank; exact within inferInstance rfl
  case keyword t => delta Grammar.keyword; exact within inferInstance rfl
  case identifier => delta Grammar.identifier; exact within inferInstance rfl
  case methodName => delta Grammar.methodName; exact within inferInstance rfl
  case digits => delta Grammar.digits; exact within inferInstance rfl
  case exponent => delta Grammar.exponent; exact within inferInstance rfl
  case number =>
    have parts : Described Nonterminal (expecting Terminal.number.alone (slice numeral >>=
      fun text => absent (char Name.isStart) >>= fun _ => numberOf (Number.read? text)))
      (Named.rank Nonterminal.number) := within inferInstance rfl
    exact parts
  case escape => delta Grammar.escape; exact within inferInstance rfl
  case quotedChar t quote =>
    delta Grammar.quotedChar textChar
    exact within inferInstance rfl
  case text => delta Grammar.text; exact within inferInstance rfl
  case atom => delta Grammar.atom; exact within inferInstance rfl
  case expression least =>
    have parts : Described Nonterminal (operand expressionAt >>=
      extend (longer expressionAt least)) (Named.rank (expression least)) :=
      within inferInstance rfl
    exact parts.congr fun s => (outcome_expressionAt least s).symm
  case semicolon => delta Grammar.semicolon; exact within inferInstance rfl
  case declKind => delta Grammar.declKind; exact within inferInstance rfl
  case declaration => delta Grammar.declaration; exact within inferInstance rfl
  case assignmentOp => delta Grammar.assignmentOp; exact within inferInstance rfl
  case assignment => delta Grammar.assignment; exact within inferInstance rfl
  case delta => delta Grammar.delta; exact within inferInstance rfl
  case update => delta Grammar.update; exact within inferInstance rfl
  case console => delta Grammar.console; exact within inferInstance rfl
  case block => delta Grammar.block; exact within inferInstance rfl
  case branch => delta Grammar.branch; exact within inferInstance rfl
  case forLoop => delta Grammar.forLoop; exact within inferInstance rfl
  case whileLoop => delta Grammar.whileLoop; exact within inferInstance rfl
  case statement =>
    have parts : Described Nonterminal (anyStatement ruled) (Named.rank statement) :=
      inferInstance
    exact parts.congr fun s => (guarded_statementRules.outcome_recursive .statement s).symm
  case body => delta Grammar.body; exact within inferInstance rfl
  case program => delta Grammar.program; exact within inferInstance rfl

end Parts

instance : Rulebook Nonterminal where
  recipe r := r.described.recipe
  agrees r := r.described.agrees
  productive r := r.described.productive
  guarded r := r.described.guarded
  ranks := 30
  rank_lt r := by cases r <;> exact Nat.le_of_ble_eq_true rfl

example : Rulebook.recipe Nonterminal.block =
    .andThen (.word Token.openBrace.spelling) fun _ => .andThen (.call .blank) fun _ =>
      .andThen (.andThen (.extend (fun found => .andThen (.andThen (.call .statement) fun s =>
        .andThen (.call .blank) fun _ => .ret s) fun s => .ret (s :: found)) [])
        fun found => .ret found.reverse) fun body =>
      .andThen (.word Token.closeBrace.spelling) fun _ => .ret body := rfl

/-! ## Every text is answered -/

/-- Behind a sign the rule for expressions is entered again. -/
theorem makes_signed (least : Nat) (s : List Char) :
    (⟨Nonterminal.expression least, '!' :: s⟩ : Frame Nonterminal).Makes
      ⟨.expression operandLevel, skipBlank s⟩ := by
  have sign : Evaluates (.word Token.bang.spelling : Recipe Nonterminal Unit) ('!' :: s)
      (some ((), s)) := by
    have read : (word Token.bang.spelling).outcome ('!' :: s) = some ((), s) := outcome_word _ _
    exact read ▸ .word _ _
  have gap : Evaluates (.call Nonterminal.blank) s (some ((), skipBlank s)) :=
    evaluates_call_iff.mpr (outcome_blank s).symm
  exact .start (.first (.next sign (.next gap (.start .here))))

/-- As many calls can be open at a time as there are signs. -/
theorem exists_chain_signed (n least : Nat) : ∃ stack : List (Frame Nonterminal),
    stack.length = n ∧
      (⟨.expression least, List.replicate n '!'⟩ :: stack).IsChain Frame.Makes := by
  induction n generalizing least with
  | zero => exact ⟨[], rfl, .singleton _⟩
  | succ n ih =>
      obtain ⟨stack, length, chain⟩ := ih operandLevel
      have solid : skipBlank (List.replicate n '!') = List.replicate n '!' := by
        cases n with
        | zero => rfl
        | succ n => exact skipBlank_solid (by decide) (by decide)
      have makes := makes_signed least (List.replicate n '!')
      rw [solid] at makes
      exact ⟨_ :: stack, congrArg (· + 1) length, .cons_cons makes chain⟩

theorem read_eq_ok_iff_evaluates {α : Type} {p : Parser α} {r : Nonterminal α} [same : IsRule p r]
    {s : List Char} {a : α} :
    read p s = .ok a ↔ Evaluates (.call r) s (some (a, [])) := by
  rw [read_eq_ok_iff, evaluates_call_iff, ← same.outcome_eq]
  exact eq_comm

/-- Every rule answers on every text: its evaluation, in which neither rounds nor calls are bounded,
    comes to an end with what the parser answers. What is read up to the end of a text is what the
    evaluation of a rule reads. A step of a repetition that succeeds has read a character, a rule is
    entered again inside a call of it only with less text, and so the calls that are open at a time
    are at most 30 for each text that may be left. No constant would bound them. -/
theorem rules_always_answer :
    (∀ {α : Type} (r : Nonterminal α) (s : List Char) (answer : Option (α × List Char)),
      Evaluates (.call r) s answer ↔ answer = r.parser.outcome s) ∧
    (∀ s stmts, read program s = .ok stmts ↔
      Evaluates (.call Nonterminal.program) s (some (stmts, []))) ∧
    (∀ s e, read expression s = .ok e ↔
      Evaluates (.call (Nonterminal.expression 0)) s (some (e, []))) ∧
    (∀ {α : Type} (r : Nonterminal α), (Rulebook.recipe r).EachStep fun _ step =>
      ∀ s b rest, Evaluates step s (some (b, rest)) → rest <:+ s ∧ rest.length < s.length) ∧
    (∀ f g : Frame Nonterminal, Relation.TransGen Frame.Makes f g → g.text <:+ f.text ∧
      (g.rule.ctorIdx = f.rule.ctorIdx → g.text.length < f.text.length)) ∧
    (∀ (f : Frame Nonterminal) (stack : List (Frame Nonterminal)),
      (f :: stack).IsChain Frame.Makes → (f :: stack).length ≤ 30 * (f.text.length + 1)) ∧
    ∀ n, ∃ stack : List (Frame Nonterminal), stack.length = n ∧
      (⟨.expression 0, List.replicate n '!'⟩ :: stack).IsChain Frame.Makes :=
  ⟨fun _ _ _ => evaluates_call_iff, fun _ _ => read_eq_ok_iff_evaluates,
    fun _ _ => read_eq_ok_iff_evaluates, fun r => (Rulebook.productive r).eachStep_reads,
    fun _ _ inside => ⟨Frame.suffix_of_transGen inside, Frame.shorter_of_transGen inside⟩,
    fun _ _ => Frame.length_le_of_isChain, fun n => exists_chain_signed n 0⟩

end LineScript.Grammar
