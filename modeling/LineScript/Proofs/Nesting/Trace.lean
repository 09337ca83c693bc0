import LineScript.Proofs.Parse.Progress
import LineScript.Script.Grammar.Statement

/-! # What parsers take the characters for

A parser that succeeds has read the front of a text, and along the way its rules have told what
each part of it is: the rule for texts has read the literals, the rules for blanks have read the
comments, and all else are characters of code. The trace of a parser is what it has read, cut into
these pieces. Only the rules for literals and comments decide on the cut. A parser that is put
together from others has the traces of those that succeeded, one behind the other.
-/

namespace LineScript

/-- A piece of a text. -/
inductive Piece where
  /-- One character of code, spaces among them. -/
  | plain (c : Char)
  /-- A text literal, from quote to quote. -/
  | literal (text : List Char)
  /-- A comment, from its first mark to its last character. -/
  | comment (text : List Char)
  deriving Repr, DecidableEq

/-- The characters of a piece. -/
def Piece.text : Piece → List Char
  | .plain c => [c]
  | .literal text | .comment text => text

namespace Parse.Parser

variable {α β γ ι : Type}

/-- A parser that tells what it takes for what. -/
class Traced (p : Parser α) where
  /-- The pieces that the parser reads from the front of a text. -/
  pieces : List Char → List Piece

/-- The pieces that `p` reads from the front of a text. -/
def trace (p : Parser α) [Traced p] : List Char → List Piece :=
  Traced.pieces p

/-- The characters that `p` reads from the front of a text. -/
def extent (p : Parser α) (s : List Char) : List Char :=
  match p.outcome s with
  | some (_, rest) => s.take (s.length - rest.length)
  | none => []

section Instances

variable {p q : Parser α} {f : α → Parser β}

instance (a : α) : Traced (pure a : Parser α) :=
  ⟨fun _ => []⟩

instance : Traced (fail : Parser α) :=
  ⟨fun _ => []⟩

instance [Traced p] [∀ a, Traced (f a)] : Traced (p >>= f) :=
  ⟨fun s =>
    match p.outcome s with
    | some (a, mid) => trace p s ++ trace (f a) mid
    | none => []⟩

/-- Long sequences are taken apart by hand, one part at a time. -/
abbrev Traced.bind [Traced p] (rest : ∀ a, Traced (f a)) : Traced (p >>= f) :=
  inferInstance

instance [Traced p] [Traced q] : Traced (p <|> q) :=
  ⟨fun s => if (p.outcome s).isSome then trace p s else trace q s⟩

instance [Traced p] : Traced (quiet p) :=
  ⟨trace p⟩

-- What lies ahead is looked at and not read.
instance : Traced (ahead p) :=
  ⟨fun _ => []⟩

instance : Traced (absent p) :=
  ⟨fun _ => []⟩

instance (c : Char → Bool) : Traced (char c) :=
  ⟨fun s => (extent (char c) s).map .plain⟩

instance [Traced p] : Traced (optional p) :=
  ⟨fun s => if (p.outcome s).isSome then trace p s else []⟩

/-- The pieces of at most `rounds` steps. -/
def stepsTrace (step : α → Parser α) [∀ a, Traced (step a)] : Nat → α → List Char → List Piece
  | 0, _, _ => []
  | rounds + 1, a, s =>
      match (step a).outcome s with
      | some (b, rest) => trace (step a) s ++ stepsTrace step rounds b rest
      | none => []

instance {step : α → Parser α} [∀ a, Traced (step a)] (a : α) : Traced (extend step a) :=
  ⟨fun s => stepsTrace step (s.length + 1) a s⟩

instance [Traced p] : Traced (many p) :=
  inferInstanceAs (Traced (extend (fun found => p >>= fun a => pure (a :: found)) [] >>= fun found =>
    pure found.reverse))

/-- The pieces of the first parser that succeeds. -/
def firstTrace (g : γ → Parser α) [∀ c, Traced (g c)] (s : List Char) : List γ → List Piece
  | [] => []
  | c :: cs => if ((g c).outcome s).isSome then trace (g c) s else firstTrace g s cs

instance {g : γ → Parser α} [∀ c, Traced (g c)] (cs : List γ) : Traced (firstOf (cs.map g)) :=
  ⟨fun s => firstTrace g s cs⟩

/-- Rules that have traces where the rules that they call have. -/
class TracedRules (rules : (ι → Parser α) → ι → Parser α) where
  traced : ∀ self, (∀ i, Traced (self i)) → ∀ i, Traced (rules self i)

variable {rules : (ι → Parser α) → ι → Parser α}

instance withinTraced [traced : TracedRules rules] :
    (depth : Nat) → (i : ι) → Traced (recursiveWithin rules depth i)
  | 0, _ => ⟨fun _ => []⟩
  | depth + 1, i => ⟨(traced.traced _ (withinTraced depth) i).pieces⟩

instance [TracedRules rules] (i : ι) : Traced (recursive rules i) :=
  ⟨fun s => trace (recursiveWithin rules (s.length + 1) i) s⟩

end Instances

/-! ## The trace of a parser that succeeded -/

section Traces

variable {p q : Parser α} {f : α → Parser β} [Traced p] [Traced q] [∀ a, Traced (f a)]
  {s rest : List Char}

theorem trace_bind {a : α} (read : p.outcome s = some (a, rest)) :
    trace (p >>= f) s = trace p s ++ trace (f a) rest := by
  change (match p.outcome s with
    | some (a, mid) => trace p s ++ trace (f a) mid
    | none => []) = _
  rw [read]

theorem trace_choice {x : α × List Char} (read : p.outcome s = some x) :
    trace (p <|> q) s = trace p s := by
  change (if (p.outcome s).isSome then trace p s else trace q s) = _
  rw [read]
  rfl

theorem trace_choice_of_none (missed : p.outcome s = none) :
    trace (p <|> q) s = trace q s := by
  change (if (p.outcome s).isSome then trace p s else trace q s) = _
  rw [missed]
  rfl

theorem trace_optional {x : α × List Char} (read : p.outcome s = some x) :
    trace (optional p) s = trace p s := by
  change (if (p.outcome s).isSome then trace p s else []) = _
  rw [read]
  rfl

theorem trace_optional_of_none (missed : p.outcome s = none) : trace (optional p) s = [] := by
  change (if (p.outcome s).isSome then trace p s else []) = _
  rw [missed]
  rfl

end Traces

end Parse.Parser

/-! ## The rules of scripts -/

namespace Grammar

open Parse Parser

variable {self : Rule → Parser Stmt} {inner : Nat → Parser Expr}

instance (t : Token) : Traced (token t) :=
  ⟨fun s => (extent (token t) s).map .plain⟩

instance : Traced identifier :=
  ⟨fun s => (extent identifier s).map .plain⟩

instance : Traced methodName :=
  ⟨fun s => (extent methodName s).map .plain⟩

instance : Traced number :=
  ⟨fun s => (extent number s).map .plain⟩

instance : Traced text :=
  ⟨fun s => [.literal (extent text s)]⟩

instance : Traced lineComment :=
  ⟨fun s => [.comment (extent lineComment s)]⟩

instance : Traced blockComment :=
  ⟨fun s => [.comment (extent blockComment s)]⟩

instance (space : Char → Bool) : Traced (gap space) :=
  inferInstanceAs (Traced (quiet (extend _ ())))

instance : Traced blank :=
  inferInstanceAs (Traced (gap _))

instance : Traced inlineBlank :=
  inferInstanceAs (Traced (gap _))

instance : Traced endOfName :=
  inferInstanceAs (Traced (absent _))

instance (t : Token) : Traced (keyword t) :=
  inferInstanceAs (Traced (token t >>= _))

instance {e : Parser Expr} [Traced e] : Traced (atom e) := by
  delta atom
  infer_instance

instance {e : Parser Expr} [Traced e] (sign : Token) (op : UnaryOp) : Traced (signed sign op e) := by
  delta signed
  infer_instance

instance [∀ l, Traced (inner l)] : Traced (operand inner) := by
  delta operand
  infer_instance

instance [∀ l, Traced (inner l)] (left : Expr) (c : Connective) :
    Traced (continued inner left c) := by
  delta continued
  infer_instance

instance [∀ l, Traced (inner l)] (least : Nat) (left : Expr) : Traced (longer inner least left) :=
  inferInstanceAs (Traced (firstOf (List.map (continued inner left) _)))

instance : TracedRules expressionRules where
  traced self _ least := inferInstanceAs (Traced (operand self >>= extend (longer self least)))

instance : Traced expression :=
  inferInstanceAs (Traced (recursive expressionRules 0))

instance : Traced semicolon := by
  delta semicolon
  infer_instance

instance : Traced declKind := by
  delta declKind
  infer_instance

instance : Traced equalsSign :=
  inferInstanceAs (Traced (token _ >>= _))

instance : Traced declaration := by
  delta declaration
  infer_instance

instance : Traced assignmentOp := by
  delta assignmentOp
  infer_instance

instance : Traced assignment := by
  delta assignment
  infer_instance

instance : Traced delta := by
  delta delta
  infer_instance

instance : Traced update := by
  delta update
  infer_instance

/-- The expressions behind the first of the arguments. -/
def moreArguments : Option Expr → Parser (List Expr)
  | none => return []
  | some first => do
      let rest ← many do
        blank
        token .comma
        blank
        expression
      return first :: rest

instance : (first : Option Expr) → Traced (moreArguments first)
  | none => inferInstanceAs (Traced (pure []))
  | some _ => inferInstanceAs (Traced (many _ >>= _))

instance : Traced arguments :=
  inferInstanceAs (Traced (optional expression >>= moreArguments))

instance : Traced console := by
  delta console
  iterate 8 refine Traced.bind fun _ => ?_
  infer_instance

instance [∀ r, Traced (self r)] : Traced (block self) := by
  delta block
  infer_instance

instance [∀ r, Traced (self r)] : Traced (body self) := by
  delta body
  infer_instance

instance : Traced condition := by
  delta condition
  infer_instance

instance [∀ r, Traced (self r)] : Traced (branch self) := by
  delta branch
  iterate 4 refine Traced.bind fun _ => ?_
  infer_instance

instance [∀ r, Traced (self r)] : Traced (forLoop self) := by
  delta forLoop
  iterate 15 refine Traced.bind fun _ => ?_
  infer_instance

instance [∀ r, Traced (self r)] : Traced (whileLoop self) := by
  delta whileLoop
  infer_instance

instance {p : Parser Stmt} [Traced p] : Traced (ended p) := by
  delta ended
  infer_instance

instance [∀ r, Traced (self r)] : Traced (anyStatement self) := by
  delta anyStatement
  infer_instance

instance : TracedRules statementRules where
  traced self _
    | .statement => inferInstanceAs (Traced (anyStatement self))
    | .ifStatement => inferInstanceAs (Traced (branch self))

instance : Traced statement :=
  inferInstanceAs (Traced (recursive statementRules .statement))

instance : Traced program := by
  delta program
  infer_instance

end Grammar

end LineScript
