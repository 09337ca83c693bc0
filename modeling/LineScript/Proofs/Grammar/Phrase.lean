import LineScript.Proofs.Grammar.Atom

/-! # Phrases

A phrase is the text of an expression, with the least level of the connectives
that are not inside parentheses. Reading gives the tree of a phrase whatever
stands behind it, as long as that is no connective it could go on with, and all
that is ever read is a phrase. Reading is therefore independent of where a text
has been pasted, up to the level that the place asks for.
-/

namespace LineScript

open Parse Parser

/-! ## Connectives -/

namespace Connective

open Grammar

/-- What stands right behind a connective leaves it the connective it is. -/
def Fits (c : Connective) (follow : List Char) : Prop :=
  ∃ d ∈ follow.head?, d ≠ '=' ∧ c.isCutBy d = false ∧ (c = .binary .div → d ≠ '/' ∧ d ≠ '*')

theorem mem_all (c : Connective) : c ∈ all := by
  rcases c with op | op <;> cases op <;> decide

/-- Of two connectives that one text starts with, the longer one goes on with an equals sign. -/
private theorem drop_spelling : ∀ c ∈ all, ∀ d ∈ all, d.token.spelling <+: c.token.spelling →
    d = c ∨ (d.level = c.level ∧ c.token.spelling.drop d.token.spelling.length = ['=']) := by
  decide +kernel

theorem level_eq_of_start {c d : Connective} (start : d.token.spelling <+: c.token.spelling) :
    d.level = c.level := by
  rcases drop_spelling c c.mem_all d d.mem_all start with rfl | ⟨same, -⟩
  · rfl
  · exact same

/-- No connective is tried after one that is spelled like its start. -/
theorem exists_before (c : Connective) : ∃ before behind, all = before ++ c :: behind ∧
    ∀ d ∈ before, ¬ d.token.spelling <+: c.token.spelling := by
  have order : ∀ c ∈ all, all = all.take (all.idxOf c) ++ c :: all.drop (all.idxOf c + 1) ∧
      ∀ d ∈ all.take (all.idxOf c), ¬ d.token.spelling <+: c.token.spelling := by
    decide +kernel
  exact ⟨_, _, order c c.mem_all⟩

namespace Fits

variable {c d : Connective} {follow : List Char}

/-- A connective that could be read in the place of another is spelled like its start. -/
theorem spelling_starts (fits : c.Fits follow)
    (start : d.token.spelling <+: c.token.spelling ++ follow) :
    d.token.spelling <+: c.token.spelling := by
  rcases Nat.le_total d.token.spelling.length c.token.spelling.length with short | long
  · exact List.prefix_of_prefix_length_le start (List.prefix_append _ _) short
  · -- The other one would go on with the equals sign that does not stand there.
    have inner := List.prefix_of_prefix_length_le (List.prefix_append _ follow) start long
    rcases drop_spelling d d.mem_all c c.mem_all inner with rfl | ⟨-, more⟩
    · exact List.prefix_rfl
    · obtain ⟨tail, eq⟩ := inner
      obtain ⟨rest, whole⟩ := start
      obtain ⟨e, here, other, -⟩ := fits
      rw [← eq, List.drop_left] at more
      rw [← eq, more, List.append_assoc, List.append_cancel_left_eq] at whole
      rw [← whole] at here
      exact absurd (Option.some.inj here).symm other

/-- A connective is not taken for the start of a comment. -/
theorem skipBlank_eq (fits : c.Fits follow) :
    skipBlank (c.token.spelling ++ follow) = c.token.spelling ++ follow := by
  obtain ⟨e, here, -, -, apart⟩ := fits
  by_cases isDiv : c = .binary .div
  · subst isDiv
    obtain ⟨line, block⟩ := apart rfl
    cases follow with
    | nil => cases here
    | cons f follow =>
        cases here
        exact skipBlank_slash line block
  · have solid : ∀ c ∈ all, c ≠ .binary .div →
        c.token.spelling.head?.all (fun e => !isSpace e && e != '/') = true := by
      decide +kernel
    have first := solid c c.mem_all isDiv
    cases spelled : c.token.spelling with
    | nil => exact absurd spelled (spelling_ne_nil _)
    | cons e word =>
        simp only [spelled, List.head?_cons, Option.all_some, Bool.and_eq_true, Bool.not_eq_true',
          bne_iff_ne] at first
        exact skipBlank_solid first.1 first.2

theorem append (fits : c.Fits follow) (k : List Char) : c.Fits (follow ++ k) := by
  obtain ⟨e, here, rest⟩ := fits
  cases follow with
  | nil => cases here
  | cons f follow => exact ⟨e, here, rest⟩

end Fits

theorem fits_space (c : Connective) (k : List Char) : c.Fits (' ' :: k) := by
  refine ⟨' ', rfl, by decide, ?_, fun _ => by decide⟩
  rcases c with op | op <;> cases op <;> rfl

/-- A connective ends the literal in front of it. -/
theorem apart (c : Connective) (k : List Char) : Apart (c.token.spelling ++ k) := by
  have heads : ∀ c ∈ all, c.token.spelling.head?.all
      (fun e => !Name.isPart e && e != '.') = true := by
    decide +kernel
  have head := heads c c.mem_all
  cases spelled : c.token.spelling with
  | nil => exact absurd spelled (spelling_ne_nil _)
  | cons e word =>
      rw [List.cons_append, apart_cons]
      simpa [spelled] using head

end Connective

namespace Grammar

section Connective

variable {self : Nat → Parser Expr} {c d : Connective} {b follow k : List Char} {x y : Expr}

/-- A connective is read together with its right operand. -/
theorem outcome_continued (fits : c.Fits follow) (blanks : Blanks b)
    (right : (self (c.level + 1)).outcome (skipBlank follow) = some (y, k)) (x : Expr) :
    (continued self x c).outcome (b ++ (c.token.spelling ++ follow)) = some (c.join x y, k) := by
  have uncut : (absent (char c.isCutBy)).outcome follow = some ((), follow) := by
    apply run_absent
    obtain ⟨e, here, -, uncut, -⟩ := fits
    cases follow with
    | nil => rfl
    | cons f follow =>
        cases here
        simp [uncut]
  rw [continued, run_bind (outcome_blank _), blanks.skipBlank_append, fits.skipBlank_eq,
    run_bind (run_token _ _), run_bind uncut, run_bind (outcome_blank _), run_bind right]
  rfl

theorem continued_eq_none (fits : c.Fits follow) (blanks : Blanks b)
    (other : ¬ d.token.spelling <+: c.token.spelling) (x : Expr) :
    (continued self x d).outcome (b ++ (c.token.spelling ++ follow)) = none := by
  rw [continued, run_bind (outcome_blank _), blanks.skipBlank_append, fits.skipBlank_eq]
  apply stop_bind
  cases read : (token d.token).outcome (c.token.spelling ++ follow) with
  | none => rfl
  | some z => exact absurd (fits.spelling_starts ⟨z.2, (token_success read).symm⟩) other

/-- The first connective that can be read is the one that stands there. -/
theorem outcome_longer {least : Nat} (fits : c.Fits follow) (blanks : Blanks b)
    (level : least ≤ c.level)
    (right : (self (c.level + 1)).outcome (skipBlank follow) = some (y, k)) (x : Expr) :
    (longer self least x).outcome (b ++ (c.token.spelling ++ follow)) = some (c.join x y, k) := by
  have here := outcome_continued fits blanks right x
  obtain ⟨before, behind, order, others⟩ := c.exists_before
  have first : (before.filter (least ≤ ·.level)).findSome?
      (fun d => (continued self x d).outcome (b ++ (c.token.spelling ++ follow))) = none := by
    rw [List.findSome?_eq_none_iff]
    intro d member
    exact continued_eq_none fits blanks (others d (List.mem_of_mem_filter member)) x
  rw [longer, outcome_firstOf, List.findSome?_map, order, List.filter_append,
    List.filter_cons_of_pos (by simpa using level), List.findSome?_append]
  simp only [Function.comp_def, first, Option.none_or, List.findSome?_cons, here]

end Connective

/-- Behind `k` no connective of at least the given level is read. -/
def Stops (least : Nat) (k : List Char) : Prop :=
  ∀ (c : Connective) (x : Expr), least ≤ c.level → (continued expressionAt x c).outcome k = none

namespace Stops

variable {least : Nat} {k : List Char}

theorem mono (stops : Stops least k) {more : Nat} (le : least ≤ more) : Stops more k :=
  fun c x level => stops c x (le.trans level)

theorem longer_eq_none (stops : Stops least k) (x : Expr) :
    (longer expressionAt least x).outcome k = none := by
  rw [longer, outcome_firstOf, List.findSome?_map, List.findSome?_eq_none_iff]
  intro c member
  exact stops c x (by simpa using (List.mem_filter.mp member).2)

/-- No operand ends where a connective can still be read. -/
theorem of_longer {x : Expr} (missed : (longer expressionAt least x).outcome k = none) :
    Stops least k := by
  rw [longer, outcome_firstOf, List.findSome?_map, List.findSome?_eq_none_iff] at missed
  intro c y level
  have none_ : (continued expressionAt x c).outcome k = none :=
    missed c (List.mem_filter.mpr ⟨c.mem_all, by simpa using level⟩)
  -- What is read does not depend on the operand in front.
  cases read : (continued expressionAt y c).outcome k with
  | none => rfl
  | some z =>
      obtain ⟨⟨⟩, s₁, gap, read₁⟩ := bind_success read
      obtain ⟨⟨⟩, s₂, mark, read₂⟩ := bind_success read₁
      obtain ⟨⟨⟩, s₃, uncut, read₃⟩ := bind_success read₂
      obtain ⟨⟨⟩, s₄, gap', read₄⟩ := bind_success read₃
      obtain ⟨e, s₅, right, -⟩ := bind_success read₄
      rw [continued, run_bind gap, run_bind mark, run_bind uncut, run_bind gap', run_bind right]
        at none_
      cases none_

/-- A text stops an expression if no connective starts it. -/
theorem of_head {c : Char} {s : List Char} (start : skipBlank k = c :: s)
    (other : c ∉ ['|', '&', '=', '!', '<', '>', '+', '-', '*', '/', '%']) : Stops least k := by
  intro d x _
  have heads : ∀ d ∈ Connective.all, d.token.spelling.head?.all
      (['|', '&', '=', '!', '<', '>', '+', '-', '*', '/', '%'].contains ·) = true := by
    decide +kernel
  have head := heads d d.mem_all
  rw [continued, run_bind (outcome_blank _), start]
  apply stop_bind
  cases spelled : d.token.spelling with
  | nil => exact absurd spelled (spelling_ne_nil _)
  | cons e word =>
      refine miss_token (by rw [spelled]; rfl) ?_
      rintro rfl
      rw [spelled] at head
      exact other (by simpa using head)

theorem closeParen (s : List Char) : Stops least (')' :: s) :=
  of_head (skipBlank_solid (by decide) (by decide)) (by decide)

theorem semicolon (s : List Char) : Stops least (';' :: s) :=
  of_head (skipBlank_solid (by decide) (by decide)) (by decide)

theorem extend_eq (stops : Stops least k) (x : Expr) :
    (extend (longer expressionAt least) x).outcome k = some (x, k) :=
  outcome_extend_of_none (stops.longer_eq_none x)

/-- No connective has the level of operands. -/
theorem of_operandLevel (k : List Char) : Stops operandLevel k := by
  intro c x level
  have levels : ∀ c ∈ Connective.all, c.level < operandLevel := by decide
  have := levels c c.mem_all
  omega

/-- Behind a connective's left operand, only connectives of a lower level go on. -/
theorem of_fits {c : Connective} {b follow : List Char} (fits : c.Fits follow) (blanks : Blanks b) :
    Stops (c.level + 1) (b ++ (c.token.spelling ++ follow)) := by
  intro d x level
  refine continued_eq_none fits blanks (fun start => ?_) x
  have := Connective.level_eq_of_start start
  omega

end Stops

/-! ## Phrases -/

/-- The signs that may stand in front of an operand. -/
def signs : List (Token × UnaryOp) :=
  [(.bang, .not), (.minus, .negate), (.plus, .plus)]

/-- The texts of expressions whose connectives outside parentheses have at least a given level. -/
inductive Phrase : Nat → List Char → Expr → Prop where
  | atomic {l u e} : Atomic u e → Phrase l u e
  | paren {l b u b' e} : Blanks b → Phrase 0 u e → Blanks b' →
      Phrase l ('(' :: (b ++ (u ++ (b' ++ [')'])))) e
  | signed {l t op b u e} : (t, op) ∈ signs → Blanks b → Phrase operandLevel u e →
      Phrase l (t.spelling ++ (b ++ u)) (.unary op e)
  | join {l b b' u v x y} (c : Connective) : l ≤ c.level → Phrase c.level u x → Blanks b →
      Blanks b' → c.Fits (b' ++ v) → Phrase (c.level + 1) v y →
      Phrase l (u ++ (b ++ (c.token.spelling ++ (b' ++ v)))) (c.join x y)

namespace Phrase

variable {l m : Nat} {u : List Char} {e : Expr}

theorem anti (phrase : Phrase m u e) (le : l ≤ m) : Phrase l u e := by
  cases phrase with
  | atomic isAtomic => exact .atomic isAtomic
  | paren blanks inner blanks' => exact .paren blanks inner blanks'
  | signed sign blanks inner => exact .signed sign blanks inner
  | join c level left blanks blanks' fits right =>
      exact .join c (le.trans level) left blanks blanks' fits right

end Phrase

/-- The characters that a literal or a name may start with. -/
def startsAtom (c : Char) : Bool :=
  Name.isPart c || ['.', '"', '\''].contains c

/-- The characters that an expression may start with. -/
def startsPhrase (c : Char) : Bool :=
  startsAtom c || ['(', '!', '-', '+'].contains c

theorem startsPhrase_of_startsAtom {c : Char} (start : startsAtom c = true) :
    startsPhrase c = true := by
  simp [startsPhrase, start]

theorem startsPhrase_solid {c : Char} (start : startsPhrase c = true) :
    isSpace c = false ∧ c ≠ '/' ∧ c ≠ '*' ∧ c ≠ '=' ∧ c ≠ ')' ∧ c ≠ ';' := by
  refine ⟨?_, ?_, ?_, ?_, ?_, ?_⟩
  · cases space : isSpace c with
    | false => rfl
    | true =>
        simp only [isSpace, Bool.or_eq_true, beq_iff_eq] at space
        rcases space with ((((rfl | rfl) | rfl) | rfl) | rfl) | rfl <;> revert start <;> decide
  all_goals
    rintro rfl
    revert start
    decide

private theorem startsAtom_of_isStart {c : Char} (start : Name.isStart c = true) :
    startsAtom c = true := by
  simp [startsAtom, isPart_of_isStart start]

private theorem IsDigits.start {d : List Char} (isDigits : IsDigits d) :
    ∃ c s, d = c :: s ∧ startsAtom c = true := by
  obtain ⟨nonempty, all⟩ := isDigits
  cases d with
  | nil => exact absurd rfl nonempty
  | cons c d => exact ⟨c, d, rfl, by simp [startsAtom, Name.isPart, all c]⟩

theorem Atomic.start {u : List Char} {e : Expr} (isAtomic : Atomic u e) :
    ∃ c s, u = c :: s ∧ startsAtom c = true := by
  cases isAtomic with
  | number isNumeral _ =>
      cases isNumeral with
      | whole isDigits _ =>
          obtain ⟨c, s, rfl, start⟩ := isDigits.start
          exact ⟨c, _, rfl, start⟩
      | pointed isDigits _ _ =>
          obtain ⟨c, s, rfl, start⟩ := isDigits.start
          exact ⟨c, _, rfl, start⟩
      | fraction _ _ => exact ⟨'.', _, rfl, by decide⟩
  | text isText =>
      cases isText with
      | double _ => exact ⟨'"', _, rfl, by decide⟩
      | single _ => exact ⟨'\'', _, rfl, by decide⟩
  | @constant t e member =>
      have start := (isWord_constant _ member).1
      cases spelled : t.spelling with
      | nil => exact absurd spelled (spelling_ne_nil t)
      | cons c w =>
          simp only [spelled, List.head?_cons, Option.any_some] at start
          exact ⟨c, w, rfl, startsAtom_of_isStart start⟩
  | name start _ _ => exact ⟨_, _, rfl, startsAtom_of_isStart start⟩

namespace Phrase

variable {l m : Nat} {u : List Char} {e : Expr}

theorem start (phrase : Phrase l u e) : ∃ c s, u = c :: s ∧ startsPhrase c = true := by
  induction phrase with
  | atomic isAtomic =>
      obtain ⟨c, s, rfl, start⟩ := isAtomic.start
      exact ⟨c, s, rfl, startsPhrase_of_startsAtom start⟩
  | paren _ _ _ _ => exact ⟨'(', _, rfl, by decide⟩
  | signed sign _ _ _ =>
      simp only [signs, List.mem_cons, Prod.mk.injEq, List.not_mem_nil, or_false] at sign
      rcases sign with ⟨rfl, -⟩ | ⟨rfl, -⟩ | ⟨rfl, -⟩ <;> exact ⟨_, _, rfl, by decide⟩
  | join c _ _ _ _ _ _ ih _ =>
      obtain ⟨d, s, rfl, start⟩ := ih
      exact ⟨d, _, rfl, start⟩

theorem skipBlank_append (phrase : Phrase l u e) (k : List Char) : skipBlank (u ++ k) = u ++ k := by
  obtain ⟨c, s, rfl, start⟩ := phrase.start
  obtain ⟨solid, slash, -⟩ := startsPhrase_solid start
  exact skipBlank_solid solid slash

end Phrase

/-! ## Names -/

theorem skipBlank_isPart {c : Char} (part : Name.isPart c = true) (s : List Char) :
    skipBlank (c :: s) = c :: s := by
  have start : startsPhrase c = true := by simp [startsPhrase, startsAtom, part]
  obtain ⟨solid, slash, -⟩ := startsPhrase_solid start
  exact skipBlank_solid solid slash

/-- A name that a variable can have. -/
def IsName (n : String) : Prop :=
  ∃ c w, n.toList = c :: w ∧ Name.isStart c = true ∧ (∀ d ∈ w, Name.isPart d = true) ∧
    reservedWords.contains (c :: w) = false

/-- The names of variables are the names that scripts do not reserve. -/
theorem isName_iff {n : String} :
    IsName n ↔ Name.isValid n = true ∧ n.toList ∉ reservedWords := by
  rw [IsName, Name.isValid]
  cases n.toList with
  | nil => simp
  | cons c w => simp [and_assoc]

theorem isName_of_isValid {n : String} (valid : Name.isValid n = true)
    (free : Name.isReserved n = false) : IsName n := by
  have reserved : ∀ w ∈ reservedWords, Name.isReserved (String.ofList w) = true := by
    decide +kernel
  refine isName_iff.mpr ⟨valid, fun member => ?_⟩
  have isReserved := reserved _ member
  rw [String.ofList_toList, free] at isReserved
  cases isReserved

namespace IsName

variable {n : String} {k : List Char}

theorem skipBlank_append (isName : IsName n) (k : List Char) :
    skipBlank (n.toList ++ k) = n.toList ++ k := by
  obtain ⟨c, w, spelled, start, -⟩ := isName
  rw [spelled, List.cons_append, skipBlank_isPart (isPart_of_isStart start)]

theorem outcome_identifier (isName : IsName n) (apart : Apart k) :
    identifier.outcome (n.toList ++ k) = some (n, k) := by
  obtain ⟨c, w, spelled, start, parts, free⟩ := isName
  have all : ∀ d ∈ c :: w, Name.isPart d = true := by
    simpa [isPart_of_isStart start] using parts
  obtain ⟨word, rest⟩ := takeWhile_word all apart
  rw [spelled, List.cons_append, outcome_identifier_cons, ← List.cons_append, word, rest,
    if_pos ⟨start, free⟩, ← spelled, String.ofList_toList]

theorem atomic (isName : IsName n) : Atomic n.toList (.name n) := by
  obtain ⟨c, w, spelled, start, parts, free⟩ := isName
  have atomic : Atomic (c :: w) (.name (String.ofList (c :: w))) := .name start parts free
  rwa [← spelled, String.ofList_toList] at atomic

end IsName

/-! ## Reading phrases -/

theorem outcome_operand_unsigned {self : Nat → Parser Expr} {c : Char} {s : List Char}
    (unsigned : c ∉ ['!', '-', '+']) :
    (operand self).outcome (c :: s) = (atom (self 0)).outcome (c :: s) := by
  simp only [List.mem_cons, List.not_mem_nil, or_false, not_or] at unsigned
  obtain ⟨bang, minus, plus⟩ := unsigned
  rw [operand, signed, next_choice (stop_bind (miss_token rfl bang)), signed,
    next_choice (stop_bind (miss_token rfl minus)), signed,
    next_choice (stop_bind (miss_token rfl plus))]

theorem outcome_operand_signed {self : Nat → Parser Expr} {t : Token} {op : UnaryOp}
    {s k : List Char} {e : Expr} (sign : (t, op) ∈ signs)
    (inner : (self operandLevel).outcome (skipBlank s) = some (e, k)) :
    (operand self).outcome (t.spelling ++ s) = some (.unary op e, k) := by
  have read : (signed t op (self operandLevel)).outcome (t.spelling ++ s) =
      some (.unary op e, k) := by
    rw [signed, run_bind (run_token t s), run_bind (outcome_blank _), run_bind inner]
    rfl
  simp only [signs, List.mem_cons, Prod.mk.injEq, List.not_mem_nil, or_false] at sign
  rcases sign with ⟨rfl, rfl⟩ | ⟨rfl, rfl⟩ | ⟨rfl, rfl⟩
  · exact run_choice read
  · exact (next_choice (stop_bind (miss_token rfl (by decide)))).trans (run_choice read)
  · exact (next_choice (stop_bind (miss_token rfl (by decide)))).trans
      ((next_choice (stop_bind (miss_token rfl (by decide)))).trans (run_choice read))

theorem Blanks.apart {b k : List Char} (blanks : Blanks b) (apart : Apart k) : Apart (b ++ k) := by
  cases blanks with
  | nil => exact apart
  | @space c s space _ =>
      rw [List.cons_append, apart_cons]
      simp only [isSpace, Bool.or_eq_true, beq_iff_eq] at space
      rcases space with ((((rfl | rfl) | rfl) | rfl) | rfl) | rfl <;> decide
  | line _ _ => exact apart_cons.mpr (by decide)
  | block _ _ => exact apart_cons.mpr (by decide)

/-- A phrase is read in front of any text apart from it, up to the connectives that follow. -/
theorem outcome_phrase {l : Nat} {u : List Char} {e : Expr} (phrase : Phrase l u e) {least : Nat}
    {k : List Char} (le : least ≤ l) (apart : Apart k) (stops : Stops (l + 1) k) :
    (expressionAt least).outcome (u ++ k) = (extend (longer expressionAt least) e).outcome k := by
  induction phrase generalizing least k with
  | @atomic l u e isAtomic =>
      have read : (operand expressionAt).outcome (u ++ k) = some (e, k) := by
        obtain ⟨c, s, rfl, start⟩ := isAtomic.start
        rw [List.cons_append, outcome_operand_unsigned, ← List.cons_append,
          outcome_atom isAtomic apart]
        simp only [List.mem_cons, List.not_mem_nil, or_false, not_or]
        refine ⟨?_, ?_, ?_⟩ <;> rintro rfl <;> revert start <;> decide
      rw [outcome_expressionAt, run_bind read]
  | @paren l b u b' e blanks inner blanks' ih =>
      have end_ : skipBlank (b' ++ ')' :: k) = ')' :: k := by
        rw [blanks'.skipBlank_append, skipBlank_solid (by decide) (by decide)]
      have stop : ∀ least, Stops least (b' ++ ')' :: k) := fun least => .of_head end_ (by decide)
      have apart' : Apart (b' ++ ')' :: k) := blanks'.apart (apart_cons.mpr (by decide))
      have read : (expressionAt 0).outcome (skipBlank (b ++ (u ++ (b' ++ ')' :: k)))) =
          some (e, b' ++ ')' :: k) := by
        rw [blanks.skipBlank_append, inner.skipBlank_append, ih le_rfl apart' (stop _),
          (stop 0).extend_eq]
      simp only [List.cons_append, List.append_assoc, List.nil_append]
      rw [outcome_expressionAt, outcome_bind, outcome_operand_unsigned (by decide),
        outcome_atom_paren read end_]
      rfl
  | @signed l t op b u e sign blanks inner ih =>
      have stop := Stops.of_operandLevel k
      have read : (expressionAt operandLevel).outcome (skipBlank (b ++ (u ++ k))) = some (e, k) := by
        rw [blanks.skipBlank_append, inner.skipBlank_append,
          ih le_rfl apart (stop.mono (Nat.le_succ _)), stop.extend_eq]
      rw [List.append_assoc, List.append_assoc, outcome_expressionAt,
        run_bind (outcome_operand_signed sign read)]
  | @join l b b' u v x y c level left blanks blanks' fits right ihLeft ihRight =>
      have fits' : c.Fits (b' ++ (v ++ k)) := by
        rw [← List.append_assoc]
        exact fits.append k
      have stop : Stops (c.level + 1) k := stops.mono (by omega)
      have read : (expressionAt (c.level + 1)).outcome (skipBlank (b' ++ (v ++ k))) =
          some (y, k) := by
        rw [blanks'.skipBlank_append, right.skipBlank_append,
          ihRight le_rfl apart (stop.mono (Nat.le_succ _)), stop.extend_eq]
      simp only [List.append_assoc]
      rw [ihLeft (le.trans level) (blanks.apart (c.apart _)) (.of_fits fits' blanks)]
      exact outcome_extend_of_some (outcome_longer fits' blanks (le.trans level) read x)

/-! ## All that is read is a phrase -/

/-- What is read of texts with less than `n` characters are phrases. -/
private def PhrasesBelow (n : Nat) : Prop :=
  ∀ {s : List Char} {l : Nat} {e : Expr} {r : List Char}, s.length < n →
    (expressionAt l).outcome s = some (e, r) → ∃ u, s = u ++ r ∧ Phrase l u e ∧ Stops l r

private theorem signed_of_outcome {n : Nat} (below : PhrasesBelow n) {t : Token} {op : UnaryOp}
    {s r : List Char} {e : Expr} (sign : (t, op) ∈ signs) (short : s.length ≤ n)
    (read : (signed t op (expressionAt operandLevel)).outcome s = some (e, r)) :
    ∃ u, s = u ++ r ∧ ∀ m, Phrase m u e := by
  obtain ⟨⟨⟩, s₁, mark, read₁⟩ := bind_success read
  obtain ⟨⟨⟩, s₂, gap, read₂⟩ := bind_success read₁
  obtain ⟨x, s₃, inner, same⟩ := bind_success read₂
  obtain ⟨rfl, rfl⟩ := pure_success same
  have less := Advances.shorter mark
  have gapLe := Keeps.length_le gap
  obtain ⟨u, rfl, phrase, -⟩ := below (by omega) inner
  have solid := blank_success gap
  obtain ⟨c, w, rfl, -⟩ := phrase.start
  obtain ⟨b, blanks, eq⟩ := exists_blanks (s := s₁) (by simp [← solid])
  refine ⟨t.spelling ++ (b ++ (c :: w)), ?_, fun m => .signed sign blanks phrase⟩
  rw [token_success mark, eq, ← solid]
  simp

private theorem operand_of_outcome {n : Nat} (below : PhrasesBelow n) {s r : List Char} {e : Expr}
    (short : s.length ≤ n) (read : (operand expressionAt).outcome s = some (e, r)) :
    ∃ u, s = u ++ r ∧ ∀ m, Phrase m u e := by
  rcases choice_success read with first | ⟨-, read⟩
  · exact signed_of_outcome below (by simp [signs]) short first
  rcases choice_success read with first | ⟨-, read⟩
  · exact signed_of_outcome below (by simp [signs]) short first
  rcases choice_success read with first | ⟨-, read⟩
  · exact signed_of_outcome below (by simp [signs]) short first
  rcases atom_cases read with ⟨u, isAtomic, rfl⟩ | ⟨s₁, s₂, rfl, inner, end_⟩
  · exact ⟨u, rfl, fun m => .atomic isAtomic⟩
  · have gapLe := (skipBlank_suffix s₁).length_le
    obtain ⟨u, split, phrase, -⟩ := below (by simp only [List.length_cons] at short; omega) inner
    obtain ⟨c, w, rfl, -⟩ := phrase.start
    obtain ⟨b, blanks, eq⟩ := exists_blanks (s := s₁) (by simp [split])
    obtain ⟨b', blanks', eq'⟩ := exists_blanks (s := s₂) (by simp [end_])
    refine ⟨'(' :: (b ++ (c :: w ++ (b' ++ [')']))), ?_, fun m => .paren blanks phrase blanks'⟩
    rw [eq, split, eq', end_]
    simp

/-- What may stand between a connective and its right operand leaves it the connective it is. -/
private theorem fits_of_follow {c : Connective} {b v : List Char} {d : Char} (follow : List Char)
    (blanks : Blanks b) (start : startsPhrase d = true)
    (uncut : (char c.isCutBy).outcome (b ++ d :: v ++ follow) = none)
    (comment : (gapUnit isSpace).outcome (c.token.spelling ++ (b ++ d :: v ++ follow)) = none) :
    c.Fits (b ++ d :: v) := by
  obtain ⟨-, slash, star, equals, -⟩ := startsPhrase_solid start
  have noLine : ∀ {f : Char} {w : List Char}, b ++ d :: v = f :: w → c = .binary .div → f ≠ '/' := by
    rintro f w eq rfl rfl
    rw [eq] at comment
    have line := skipBlank_of_none comment
    have here : skipBlank ('/' :: '/' :: (w ++ follow)) = '/' :: '/' :: (w ++ follow) := line
    rw [skipBlank_line] at here
    have shorter := ((skipBlank_suffix _).trans
      (List.dropWhile_suffix (l := w ++ follow) (· != '\n'))).length_le
    rw [here] at shorter
    simp only [List.length_cons] at shorter
    omega
  have cut : ∀ {f : Char} {w : List Char}, b ++ d :: v = f :: w → c.isCutBy f = false := by
    intro f w eq
    rw [eq, List.cons_append, outcome_char_cons] at uncut
    by_contra isCut
    simp [isCut] at uncut
  cases blanks with
  | nil => exact ⟨d, by simp, equals, cut rfl, fun isDiv => ⟨slash, star⟩⟩
  | @space f s space _ =>
      refine ⟨f, by simp, ?_, cut rfl, fun isDiv => ⟨noLine rfl isDiv, ?_⟩⟩ <;>
        rintro rfl <;> revert space <;> decide
  | line _ _ => exact ⟨'/', by simp, by decide, cut rfl, fun isDiv => ⟨noLine rfl isDiv, by decide⟩⟩
  | block _ _ => exact ⟨'/', by simp, by decide, cut rfl, fun isDiv => ⟨noLine rfl isDiv, by decide⟩⟩

private theorem continued_of_outcome {n : Nat} (below : PhrasesBelow n) {c : Connective} {x z : Expr}
    {s r : List Char} (short : s.length ≤ n)
    (read : (continued expressionAt x c).outcome s = some (z, r)) :
    ∃ b b' v y, s = b ++ (c.token.spelling ++ (b' ++ v)) ++ r ∧ Blanks b ∧ Blanks b' ∧
      c.Fits (b' ++ v) ∧ Phrase (c.level + 1) v y ∧ z = c.join x y ∧ Stops (c.level + 1) r := by
  obtain ⟨⟨⟩, s₁, gap, read₁⟩ := bind_success read
  obtain ⟨⟨⟩, s₂, mark, read₂⟩ := bind_success read₁
  obtain ⟨⟨⟩, s₃, uncut, read₃⟩ := bind_success read₂
  obtain ⟨⟨⟩, s₄, gap', read₄⟩ := bind_success read₃
  obtain ⟨y, s₅, right, same⟩ := bind_success read₄
  obtain ⟨rfl, rfl⟩ := pure_success same
  obtain ⟨rfl, uncut⟩ := absent_success uncut
  have gapLe := Keeps.length_le gap
  have less := Advances.shorter mark
  have gapLe' := Keeps.length_le gap'
  obtain ⟨v, rfl, phrase, stops⟩ := below (by omega) right
  obtain ⟨d, w, rfl, start⟩ := phrase.start
  have solid := blank_success gap
  have solid' := blank_success gap'
  have spelled := token_success mark
  obtain ⟨b', blanks', eq'⟩ := exists_blanks (s := s₃) (by simp [← solid'])
  obtain ⟨b, blanks, eq⟩ := exists_blanks (s := s) (by
    rw [← solid, spelled]
    simp [spelling_ne_nil])
  rw [← solid'] at eq'
  rw [← solid] at eq
  subst spelled eq'
  refine ⟨b, b', d :: w, y, by simp [eq], blanks, blanks', ?_, phrase, rfl, stops⟩
  have comment := gapUnit_skipBlank s
  rw [← solid] at comment
  exact fits_of_follow r blanks' start (by simpa using uncut) (by simpa using comment)

/-- All that is read as an expression is a phrase, and no connective could be read behind it. -/
theorem phrase_of_outcome {l : Nat} {s r : List Char} {e : Expr}
    (read : (expressionAt l).outcome s = some (e, r)) :
    ∃ u, s = u ++ r ∧ Phrase l u e ∧ Stops l r := by
  suffices below : ∀ n, PhrasesBelow n from below _ (Nat.lt_succ_self _) read
  intro n
  induction n with
  | zero =>
      intro s l e r short
      omega
  | succ n below =>
      intro s l e r short read
      have shortEnough : s.length ≤ n := by omega
      rw [outcome_expressionAt] at read
      obtain ⟨x, s', first, more⟩ := bind_success read
      obtain ⟨u, split, operand⟩ := operand_of_outcome below shortEnough first
      -- The level of the last connective bounds those that can still follow it.
      obtain ⟨⟨m, v, split', le, phrase, -⟩, last⟩ := extend_induction
        (motive := fun x s' => ∃ m v, s = v ++ s' ∧ l ≤ m ∧ Phrase m v x ∧ Stops (m + 1) s') more
        ⟨l + operandLevel, u, split, by omega, operand _,
          (Stops.of_operandLevel s').mono (by omega)⟩ (by
            rintro x s' z r ⟨m, v, rfl, le, phrase, stops⟩ step
            rw [longer, outcome_firstOf, List.findSome?_map] at step
            obtain ⟨c, member, one⟩ := List.exists_of_findSome?_eq_some step
            have level : l ≤ c.level := by simpa using (List.mem_filter.mp member).2
            have tighter : c.level ≤ m := by
              by_contra looser
              have missed := stops c x (by omega)
              rw [Function.comp_apply, missed] at one
              cases one
            rw [List.length_append] at shortEnough
            obtain ⟨b, b', w, y, rfl, blanks, blanks', fits, right, rfl, stops'⟩ :=
              continued_of_outcome below (by omega) one
            refine ⟨c.level, v ++ (b ++ (c.token.spelling ++ (b' ++ w))), by simp, level, ?_, stops'⟩
            exact .join c le_rfl (phrase.anti tighter) blanks blanks' fits right)
      exact ⟨v, split', phrase.anti le, .of_longer last⟩

/-! ## Texts that are expressions -/

/-- A text is read to its end when nothing is left of it. -/
theorem read_eq_ok_iff {α : Type} {p : Parser α} {s : List Char} {a : α} :
    read p s = .ok a ↔ p.outcome s = some (a, []) :=
  readAll_eq_ok_iff

/-- The tree of a text that is an expression, blanks in front of it aside, and whose connectives
    outside parentheses have at least the given level. -/
def phrase? (least : Nat) (text : String) : Option Expr :=
  (read (do blank; expressionAt least) text.toList).toOption

theorem Stops.nil (least : Nat) : Stops least [] := by
  intro c x _
  rw [continued, run_bind (outcome_blank _), skipBlank_nil]
  exact stop_bind (miss_token_nil _)

/-- Reading a text that is an expression does not depend on where it stands. -/
theorem outcome_pasted {l : Nat} {b u k : List Char} {e : Expr} (blanks : Blanks b)
    (phrase : Phrase l u e) (apart : Apart k) (stops : Stops l k) :
    (expressionAt l).outcome (skipBlank (b ++ u ++ k)) = some (e, k) := by
  rw [List.append_assoc, blanks.skipBlank_append, phrase.skipBlank_append,
    outcome_phrase phrase le_rfl apart (stops.mono (Nat.le_succ _)), stops.extend_eq]

/-- A phrase is read up to a mark that ends it. -/
theorem Phrase.outcome_expression {u : List Char} {e : Expr} (phrase : Phrase 0 u e) {c : Char}
    (mark : c ∈ [')', ';', ',']) (k : List Char) :
    expression.outcome (skipBlank (u ++ c :: k)) = some (e, c :: k) := by
  have ends : Apart (c :: k) ∧ Stops 0 (c :: k) := by
    simp only [List.mem_cons, List.not_mem_nil, or_false] at mark
    rcases mark with rfl | rfl | rfl <;>
      exact ⟨apart_cons.mpr (by decide),
        .of_head (skipBlank_solid (by decide) (by decide)) (by decide)⟩
  have read := outcome_pasted .nil phrase ends.1 ends.2
  rwa [List.nil_append] at read

/-- The texts that are expressions are the phrases, with blanks in front. -/
theorem phrase?_eq_some_iff {l : Nat} {text : String} {e : Expr} :
    phrase? l text = some e ↔ ∃ b u, Blanks b ∧ Phrase l u e ∧ text.toList = b ++ u := by
  have toRead : phrase? l text = some e ↔
      (expressionAt l).outcome (skipBlank text.toList) = some (e, []) := by
    rw [← run_bind (f := fun _ => expressionAt l) (outcome_blank text.toList), ← read_eq_ok_iff,
      phrase?]
    cases read (do blank; expressionAt l) text.toList <;> simp [Except.toOption]
  rw [toRead]
  constructor
  · intro read
    obtain ⟨u, split, phrase, -⟩ := phrase_of_outcome read
    rw [List.append_nil] at split
    obtain ⟨c, w, rfl, -⟩ := phrase.start
    obtain ⟨b, blanks, eq⟩ := exists_blanks (s := text.toList) (by simp [split])
    exact ⟨b, c :: w, blanks, phrase, by rw [eq, split]⟩
  · rintro ⟨b, u, blanks, phrase, eq⟩
    have read := outcome_pasted blanks phrase apart_nil (.nil l)
    rwa [List.append_nil, ← eq] at read

theorem outcome_accepted {l : Nat} {text : String} {e : Expr} {k : List Char}
    (accepted : phrase? l text = some e) (apart : Apart k) (stops : Stops l k) :
    (expressionAt l).outcome (skipBlank (text.toList ++ k)) = some (e, k) := by
  obtain ⟨b, u, blanks, phrase, eq⟩ := phrase?_eq_some_iff.mp accepted
  rw [eq, outcome_pasted blanks phrase apart stops]

/-- A text that is an expression with tight connectives is the same one without that demand. -/
theorem phrase?_anti {l m : Nat} {text : String} {e : Expr} (accepted : phrase? m text = some e)
    (le : l ≤ m) : phrase? l text = some e := by
  obtain ⟨b, u, blanks, phrase, eq⟩ := phrase?_eq_some_iff.mp accepted
  exact phrase?_eq_some_iff.mpr ⟨b, u, blanks, phrase.anti le, eq⟩

end Grammar

end LineScript
