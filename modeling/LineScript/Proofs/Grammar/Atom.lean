import LineScript.Proofs.Grammar.Literal
import LineScript.Script.Grammar.Expression

/-! # Atoms

The rules for expressions are guarded, so that they satisfy their own equation.
The least expressions are literals, constants and names, which are read in front
of any text apart from them, and expressions in parentheses.
-/

namespace LineScript.Grammar

open Parse Parser

/-! ## The rules are guarded -/

section Guarded

variable {p : Parser Expr} {self : Nat → Parser Expr}

instance [Keeps p] : Advances (atom p) :=
  inferInstanceAs (Advances ((number >>= _) <|> (text >>= _) <|> (keyword _ >>= _) <|>
    (keyword _ >>= _) <|> (keyword _ >>= _) <|> (keyword _ >>= _) <|> (keyword _ >>= _) <|>
    (keyword _ >>= _) <|> (identifier >>= _) <|> (token _ >>= _)))

instance (t : Token) (op : UnaryOp) [Keeps p] : Advances (signed t op p) :=
  inferInstanceAs (Advances (token t >>= _))

instance [∀ l, Keeps (self l)] : Advances (operand self) :=
  inferInstanceAs (Advances (signed _ _ _ <|> signed _ _ _ <|> signed _ _ _ <|> atom _))

instance [∀ l, Keeps (self l)] (x : Expr) (c : Connective) : Advances (continued self x c) :=
  inferInstanceAs (Advances (blank >>= fun _ => token c.token >>= _))

instance [∀ l, Keeps (self l)] (least : Nat) (x : Expr) : Advances (longer self least x) := by
  apply advances_firstOf
  intro p member
  obtain ⟨c, -, rfl⟩ := List.mem_map.mp member
  infer_instance

instance [∀ l, Keeps (self l)] (least : Nat) : Advances (expressionRules self least) :=
  inferInstanceAs (Advances (operand self >>= _))

end Guarded

section Agree

open AgreeBelow

variable {n : Nat} {f g : Nat → Parser Expr}

private theorem agree_atom (same : ∀ l, AgreeBelow n (f l) (g l)) [∀ l, Keeps (f l)] :
    AgreeBelow (n + 1) (atom (f 0)) (atom (g 0)) := by
  unfold atom
  iterate 9 refine choice (refl _ _) ?_
  exact bind_advancing _ fun _ => bind (refl _ _) fun _ => bind (same 0) fun _ => refl _ _

private theorem agree_operand (same : ∀ l, AgreeBelow n (f l) (g l)) [∀ l, Keeps (f l)] :
    AgreeBelow (n + 1) (operand f) (operand g) := by
  have sign : ∀ t op, AgreeBelow (n + 1) (signed t op (f operandLevel)) (signed t op (g operandLevel)) :=
    fun t op => bind_advancing _ fun _ => bind (refl _ _) fun _ =>
      bind (same operandLevel) fun _ => refl _ _
  exact choice (sign _ _) (choice (sign _ _) (choice (sign _ _) (agree_atom same)))

private theorem agree_continued (same : ∀ l, AgreeBelow n (f l) (g l)) [∀ l, Keeps (f l)]
    (x : Expr) (c : Connective) : AgreeBelow (n + 1) (continued f x c) (continued g x c) :=
  bind (refl _ _) fun _ => bind_advancing _ fun _ => bind (refl _ _) fun _ =>
    bind (refl _ _) fun _ => bind (same _) fun _ => refl _ _

private theorem agree_longer (same : ∀ l, AgreeBelow n (f l) (g l)) [∀ l, Keeps (f l)]
    (least : Nat) (x : Expr) : AgreeBelow (n + 1) (longer f least x) (longer g least x) :=
  firstOf_map _ fun c _ => agree_continued same x c

theorem guarded_expressionRules : Guarded expressionRules where
  keeps f _ _ := inferInstanceAs (Keeps (operand f >>= _))
  agree _ _ _ _ same least :=
    bind (agree_operand same) fun left => AgreeBelow.extend (agree_longer same least) left

end Agree

/-- An expression whose connectives outside parentheses have at least a given level. -/
def expressionAt (least : Nat) : Parser Expr :=
  recursive expressionRules least

theorem outcome_expressionAt (least : Nat) (s : List Char) :
    (expressionAt least).outcome s =
      (operand expressionAt >>= extend (longer expressionAt least)).outcome s :=
  guarded_expressionRules.outcome_recursive least s

instance (least : Nat) : Keeps (expressionAt least) :=
  guarded_expressionRules.keeps_recursive least

instance (least : Nat) : Advances (expressionAt least) where
  suffix read := Keeps.suffix read
  shorter read := by
    rw [outcome_expressionAt] at read
    exact Advances.shorter read

/-! ## Atoms -/

/-- The words that stand for a value. -/
def constants : List (Token × Expr) :=
  [(.trueWord, .bool true), (.falseWord, .bool false), (.nullWord, .null),
    (.undefinedWord, .undefined), (.nanWord, .number Number.nan),
    (.infinityWord, .number (Number.infinity false))]

/-- The texts of literals and names. -/
inductive Atomic : List Char → Expr → Prop where
  | number {u d} : Numeral u → Number.Decimal.read? u = some d → Atomic u (.number d.toFloat)
  | text {u cs} : TextLiteral u cs → Atomic u (.text (String.ofList cs))
  | constant {t e} : (t, e) ∈ constants → Atomic t.spelling e
  | name {c w} : Name.isStart c = true → (∀ d ∈ w, Name.isPart d = true) →
      reservedWords.contains (c :: w) = false → Atomic (c :: w) (.name (String.ofList (c :: w)))

private theorem isDigit_of_isStart {c : Char} (start : Name.isStart c = true) :
    c.isDigit = false := by
  cases digit : c.isDigit with
  | false => rfl
  | true =>
      simp only [Char.isDigit, Bool.and_eq_true, decide_eq_true_eq] at digit
      simp only [Name.isStart, Char.isAlpha, Char.isUpper, Char.isLower, Bool.or_eq_true,
        Bool.and_eq_true, decide_eq_true_eq, beq_iff_eq] at start
      have top : c.val.toNat ≤ 57 := digit.2
      rcases start with ((⟨low, -⟩ | ⟨low, -⟩) | rfl) | rfl
      · have : 65 ≤ c.val.toNat := low
        omega
      · have : 97 ≤ c.val.toNat := low
        omega
      · exact absurd top (by decide)
      · exact absurd digit.1 (by decide)

/-- A word that may be a name is not split by what stands behind it. -/
theorem takeWhile_word {w k : List Char} (parts : ∀ d ∈ w, Name.isPart d = true) (apart : Apart k) :
    (w ++ k).takeWhile Name.isPart = w ∧ (w ++ k).dropWhile Name.isPart = k := by
  rw [List.takeWhile_append_of_pos parts, List.dropWhile_append_of_pos parts]
  cases k with
  | nil => simp
  | cons c k => simp [(apart_cons.mp apart).1]

theorem run_keyword {t : Token} {k : List Char} (isWord : t.spelling.all Name.isPart = true)
    (apart : Apart k) : (keyword t).outcome (t.spelling ++ k) = some ((), k) := by
  obtain ⟨word, rest⟩ := takeWhile_word (List.all_eq_true.mp isWord) apart
  rw [outcome_keyword isWord, word, rest, if_pos rfl]

theorem isWord_constant : ∀ x ∈ constants,
    x.1.spelling.head?.any Name.isStart = true ∧ x.1.spelling.all Name.isPart = true := by
  decide +kernel

section Atom

variable {p : Parser Expr}

private theorem outcome_scan {w k : List Char} (parts : ∀ d ∈ w, Name.isPart d = true)
    (apart : Apart k) (q : Parser Expr) {cs : List (Token × Expr)} (some_ : cs ⊆ constants) :
    (cs.foldr (fun x q => (do keyword x.1; return x.2) <|> q) q).outcome (w ++ k) =
      ((cs.find? fun x => w = x.1.spelling).map fun x => (x.2, k)).or (q.outcome (w ++ k)) := by
  obtain ⟨word, rest⟩ := takeWhile_word parts apart
  induction cs with
  | nil => rfl
  | cons x cs ih =>
      obtain ⟨member, more⟩ := List.cons_subset.mp some_
      rw [List.foldr_cons, outcome_choice, outcome_bind, outcome_keyword (isWord_constant x member).2,
        word, rest, List.find?_cons]
      by_cases same : w = x.1.spelling
      · simp [same]
      · simp [same, ih more]

/-- An atom that starts like a name is a constant, or a name if its word is not reserved. -/
theorem outcome_atom_word {c : Char} {w k : List Char} (start : Name.isStart c = true)
    (parts : ∀ d ∈ w, Name.isPart d = true) (apart : Apart k) :
    (atom p).outcome (c :: w ++ k) =
      ((constants.find? fun x => c :: w = x.1.spelling).map fun x => (x.2, k)).or
        (if reservedWords.contains (c :: w) = false then
          some (.name (String.ofList (c :: w)), k) else none) := by
  have all : ∀ d ∈ c :: w, Name.isPart d = true := by
    intro d member
    rcases List.mem_cons.mp member with rfl | member
    · exact isPart_of_isStart start
    · exact parts d member
  have other : ∀ d, Name.isStart d = false → c ≠ d := by
    rintro d noStart rfl
    simp [start] at noStart
  have name : (do return .name (← identifier) : Parser Expr).outcome (c :: w ++ k) =
      if reservedWords.contains (c :: w) = false then
        some (.name (String.ofList (c :: w)), k) else none := by
    obtain ⟨word, rest⟩ := takeWhile_word all apart
    rw [outcome_bind, List.cons_append, outcome_identifier_cons, ← List.cons_append, word, rest]
    simp only [start, true_and]
    split <;> rfl
  have noNumber : number.outcome (c :: w ++ k) = none :=
    number_eq_none (isDigit_of_isStart start) (other _ (by decide))
  have noText : text.outcome (c :: w ++ k) = none :=
    text_eq_none (other _ (by decide)) (other _ (by decide))
  have noParen : (token .openParen).outcome (c :: w ++ k) = none :=
    miss_token rfl (other '(' (by decide))
  rw [atom, next_choice (stop_bind noNumber), next_choice (stop_bind noText)]
  refine (outcome_scan all apart _ (List.Subset.refl constants)).trans ?_
  rw [outcome_choice, name, stop_bind noParen, Option.or_none]

/-- An atom is read in front of any text apart from it. -/
theorem outcome_atom {u k : List Char} {e : Expr} (isAtomic : Atomic u e) (apart : Apart k) :
    (atom p).outcome (u ++ k) = some (e, k) := by
  cases isAtomic with
  | number isNumeral value =>
      exact run_choice (run_bind (outcome_number isNumeral value apart))
  | text isText =>
      have noNumber : number.outcome (u ++ k) = none := by
        cases isText <;> exact number_eq_none (by decide) (by decide)
      rw [atom, next_choice (stop_bind noNumber)]
      exact run_choice (run_bind (outcome_text isText k))
  | @constant t e member =>
      obtain ⟨start, parts⟩ := isWord_constant _ member
      have found : ∀ x ∈ constants, constants.find? (fun y => x.1.spelling = y.1.spelling) = some x := by
        decide +kernel
      cases spelled : t.spelling with
      | nil => exact absurd spelled (spelling_ne_nil t)
      | cons c w =>
          have here := found _ member
          simp only [spelled, List.head?_cons, Option.any_some, List.all_cons,
            Bool.and_eq_true, List.all_eq_true] at start parts here
          rw [outcome_atom_word start parts.2 apart, here]
          rfl
  | @name c w start parts free =>
      have noConstant : constants.find? (fun x => c :: w = x.1.spelling) = none := by
        have reserved : ∀ x ∈ constants, reservedWords.contains x.1.spelling = true := by
          decide +kernel
        rw [List.find?_eq_none]
        intro x member same
        rw [of_decide_eq_true same, reserved x member] at free
        cases free
      rw [outcome_atom_word start parts apart, noConstant, if_pos free]
      rfl

/-- An atom in parentheses is what stands between them. -/
theorem outcome_atom_paren {s s' k : List Char} {e : Expr}
    (inner : p.outcome (skipBlank s) = some (e, s')) (end_ : skipBlank s' = ')' :: k) :
    (atom p).outcome ('(' :: s) = some (e, k) := by
  have noName : identifier.outcome ('(' :: s) = none := by
    rw [outcome_identifier_cons, if_neg]
    rintro ⟨start, -⟩
    revert start
    decide
  have start : (token .openParen).outcome ('(' :: s) = some ((), s) := run_token .openParen s
  have close : (token .closeParen).outcome (skipBlank s') = some ((), k) := by
    rw [end_]
    exact run_token .closeParen k
  rw [atom, next_choice (stop_bind (number_eq_none (by decide) (by decide))),
    next_choice (stop_bind (text_eq_none (by decide) (by decide)))]
  iterate 6 rw [next_choice (stop_bind (miss_keyword rfl (by decide)))]
  rw [next_choice (stop_bind noName), run_bind start, run_bind (outcome_blank _), run_bind inner,
    run_bind (outcome_blank _), run_bind close]
  rfl

/-- All that is read as an atom is a literal or a name, or stands in parentheses. -/
theorem atom_cases {s rest : List Char} {e : Expr} (read : (atom p).outcome s = some (e, rest)) :
    (∃ u, Atomic u e ∧ s = u ++ rest) ∨
      ∃ s₁ s₂, s = '(' :: s₁ ∧ p.outcome (skipBlank s₁) = some (e, s₂) ∧
        skipBlank s₂ = ')' :: rest := by
  have constant : ∀ {t : Token} {x : Expr}, (t, x) ∈ constants →
      (do keyword t; return x : Parser Expr).outcome s = some (e, rest) →
      ∃ u, Atomic u e ∧ s = u ++ rest := by
    intro t x member first
    obtain ⟨⟨⟩, s₁, word, same⟩ := bind_success first
    obtain ⟨⟨⟩, s₂, mark, ends⟩ := bind_success word
    obtain ⟨rfl, -⟩ := absent_success ends
    cases same
    exact ⟨t.spelling, .constant member, token_success mark⟩
  rcases choice_success read with first | ⟨-, read⟩
  · obtain ⟨x, s₁, one, same⟩ := bind_success first
    cases same
    obtain ⟨u, d, isNumeral, value, rfl, rfl⟩ := number_of_outcome one
    exact .inl ⟨u, .number isNumeral value, rfl⟩
  rcases choice_success read with first | ⟨-, read⟩
  · obtain ⟨x, s₁, one, same⟩ := bind_success first
    cases same
    obtain ⟨u, cs, isText, rfl, rfl⟩ := text_of_outcome one
    exact .inl ⟨u, .text isText, rfl⟩
  iterate 6
    rcases choice_success read with first | ⟨-, read⟩
    · exact .inl (constant (by simp [constants]) first)
  rcases choice_success read with first | ⟨-, last⟩
  · obtain ⟨x, s₁, one, same⟩ := bind_success first
    obtain ⟨rfl, rfl⟩ := pure_success same
    obtain ⟨c, w, start, parts, free, rfl, rfl⟩ := identifier_of_outcome one
    exact .inl ⟨c :: w, .name start parts free, rfl⟩
  · obtain ⟨⟨⟩, s₁, start, read₁⟩ := bind_success last
    obtain ⟨⟨⟩, s₂, gap, read₂⟩ := bind_success read₁
    obtain ⟨x, s₃, inner, read₃⟩ := bind_success read₂
    obtain ⟨⟨⟩, s₄, gap', read₄⟩ := bind_success read₃
    obtain ⟨⟨⟩, s₅, end_, same⟩ := bind_success read₄
    obtain ⟨rfl, rfl⟩ := pure_success same
    obtain rfl := blank_success gap
    refine .inr ⟨s₁, s₃, token_success start, inner, ?_⟩
    rw [← blank_success gap', token_success end_]
    rfl

end Atom

end LineScript.Grammar
