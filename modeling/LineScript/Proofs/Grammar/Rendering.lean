import LineScript.Proofs.Grammar.Phrase

/-! # Rendering expressions

An expression is rendered with parentheses only where its tree asks for them: a
left operand that binds looser than its connective, a right operand that does not
bind tighter, and what a sign stands in front of if that is not an operand by
itself. Every such text is a phrase, whatever blanks stand around its connectives,
so it is read as the tree it was rendered from.
-/

namespace LineScript

open Parse Parser Grammar

namespace Grammar

/-! ## Texts -/

/-- How a character is written between double quotes. -/
def quotedSpelling (c : Char) : List Char :=
  if c = '\n' then ['\\', 'n'] else if c = '"' ∨ c = '\\' then ['\\', c] else [c]

theorem quoted_spelling (cs : List Char) : Quoted '"' (cs.flatMap quotedSpelling) cs := by
  induction cs with
  | nil => exact .nil
  | cons c cs ih =>
      rw [List.flatMap_cons, quotedSpelling]
      split
      · next line =>
          subst line
          exact .escaped (.control (by simp)) ih
      · next noLine =>
          split
          · next mark =>
              rcases mark with rfl | rfl
              · exact .escaped (.self (by decide) (absurd · (by decide))) ih
              · exact .escaped (.self (by decide) (absurd · (by decide))) ih
          · next plain =>
              rw [not_or] at plain
              exact .plain (by simp [noLine, plain.1, plain.2]) ih

theorem atomic_text (s : String) :
    Atomic ('"' :: (s.toList.flatMap quotedSpelling ++ ['"'])) (.text s) := by
  have literal := Atomic.text (.double (quoted_spelling s.toList))
  rwa [String.ofList_toList] at literal

end Grammar

/-! ## Rendering -/

/-- The level of the connective that an expression is split by, or that of operands. -/
def Expr.level : Expr → Nat
  | .binary op _ _ => (Connective.binary op).level
  | .logical op _ _ => (Connective.logical op).level
  | .number _ | .text _ | .bool _ | .null | .undefined | .name _ | .unary _ _ => operandLevel

theorem Connective.level_join (c : Connective) (x y : Expr) : (c.join x y).level = c.level := by
  cases c <;> rfl

namespace Grammar

def parenthesizedIf (needed : Bool) (u : List Char) : List Char :=
  if needed then '(' :: (u ++ [')']) else u

/-- The texts of an expression that have no parentheses but those that its tree asks for. A
    connective has a space on either side and may have more blanks there. -/
inductive Rendering : Expr → List Char → Prop where
  | number {u d} : Numeral u → Number.Decimal.read? u = some d → Rendering (.number d.toFloat) u
  | constant {t e} : (t, e) ∈ constants → Rendering e t.spelling
  | text (s : String) : Rendering (.text s) ('"' :: (s.toList.flatMap quotedSpelling ++ ['"']))
  | name {n} : IsName n → Rendering (.name n) n.toList
  | signed {t op e u} : (t, op) ∈ signs → Rendering e u →
      Rendering (.unary op e) (t.spelling ++ parenthesizedIf (e.level < operandLevel) u)
  | join {x y u v b b'} (c : Connective) : Rendering x u → Rendering y v → Blanks b → Blanks b' →
      Rendering (c.join x y) (parenthesizedIf (x.level < c.level) u ++ (' ' :: b ++
        (c.token.spelling ++ (' ' :: b' ++ parenthesizedIf (y.level ≤ c.level) v))))

theorem Phrase.parenthesizedIf {l m : Nat} {u : List Char} {e : Expr} {needed : Bool}
    (phrase : Phrase l u e) (enough : needed = false → m ≤ l) :
    Phrase m (parenthesizedIf needed u) e := by
  cases needed with
  | true => exact .paren .nil (phrase.anti (Nat.zero_le l)) .nil
  | false => exact phrase.anti (enough rfl)

theorem Rendering.phrase {e : Expr} {u : List Char} (rendering : Rendering e u) :
    Phrase e.level u e := by
  induction rendering with
  | number isNumeral value => exact .atomic (.number isNumeral value)
  | constant member => exact .atomic (.constant member)
  | text s => exact .atomic (atomic_text s)
  | name isName => exact .atomic isName.atomic
  | signed sign _ ih => exact .signed sign .nil (ih.parenthesizedIf (by simp))
  | join c _ _ blanks blanks' ihLeft ihRight =>
      rw [Connective.level_join]
      exact .join c le_rfl (ihLeft.parenthesizedIf (by simp)) (.space (by decide) blanks)
        (.space (by decide) blanks') (c.fits_space _) (ihRight.parenthesizedIf (by simp))

/-- The names of the expression are names, and its numbers are those of numerals, `NaN` or
    `Infinity`. -/
def IsSpellable : Expr → Prop
  | .number x => (∃ u d, Numeral u ∧ Number.Decimal.read? u = some d ∧ x = d.toFloat) ∨
      x = Number.nan ∨ x = Number.infinity false
  | .name n => IsName n
  | .unary _ e => IsSpellable e
  | .binary _ x y | .logical _ x y => IsSpellable x ∧ IsSpellable y
  | .text _ | .bool _ | .null | .undefined => True

theorem isSpellable_join {c : Connective} {x y : Expr} :
    IsSpellable (c.join x y) ↔ IsSpellable x ∧ IsSpellable y := by
  cases c <;> rfl

theorem exists_rendering {e : Expr} (spellable : IsSpellable e) : ∃ u, Rendering e u := by
  have join : ∀ (c : Connective) {x y : Expr}, (∃ u, Rendering x u) → (∃ v, Rendering y v) →
      ∃ u, Rendering (c.join x y) u := by
    rintro c x y ⟨u, left⟩ ⟨v, right⟩
    exact ⟨_, .join c left right .nil .nil⟩
  induction e with
  | number x =>
      rcases spellable with ⟨u, d, isNumeral, value, rfl⟩ | rfl | rfl
      · exact ⟨u, .number isNumeral value⟩
      · exact ⟨_, .constant (t := .nanWord) (by simp [constants])⟩
      · exact ⟨_, .constant (t := .infinityWord) (by simp [constants])⟩
  | text s => exact ⟨_, .text s⟩
  | bool b =>
      cases b with
      | true => exact ⟨_, .constant (t := .trueWord) (by simp [constants])⟩
      | false => exact ⟨_, .constant (t := .falseWord) (by simp [constants])⟩
  | null => exact ⟨_, .constant (t := .nullWord) (by simp [constants])⟩
  | undefined => exact ⟨_, .constant (t := .undefinedWord) (by simp [constants])⟩
  | name n => exact ⟨_, .name spellable⟩
  | unary op e ih =>
      obtain ⟨u, rendering⟩ := ih spellable
      have sign : ∃ t, (t, op) ∈ signs := by cases op <;> simp [signs]
      obtain ⟨t, sign⟩ := sign
      exact ⟨_, .signed sign rendering⟩
  | binary op x y ihLeft ihRight =>
      exact join (.binary op) (ihLeft spellable.1) (ihRight spellable.2)
  | logical op x y ihLeft ihRight =>
      exact join (.logical op) (ihLeft spellable.1) (ihRight spellable.2)

theorem Rendering.isSpellable {e : Expr} {u : List Char} (rendering : Rendering e u) :
    IsSpellable e := by
  induction rendering with
  | number isNumeral value => exact .inl ⟨_, _, isNumeral, value, rfl⟩
  | constant member =>
      simp only [constants, List.mem_cons, Prod.mk.injEq, List.not_mem_nil, or_false] at member
      rcases member with ⟨-, rfl⟩ | ⟨-, rfl⟩ | ⟨-, rfl⟩ | ⟨-, rfl⟩ | ⟨-, rfl⟩ | ⟨-, rfl⟩
      · trivial
      · trivial
      · trivial
      · trivial
      · exact .inr (.inl rfl)
      · exact .inr (.inr rfl)
  | text => trivial
  | name isName => exact isName
  | signed _ _ ih => exact ih
  | join c _ _ _ _ ihLeft ihRight => exact isSpellable_join.mpr ⟨ihLeft, ihRight⟩

end Grammar

/-- The expressions that have a rendering are those with proper names and numbers that can be
    spelled, every numeral being one spelling of a number, and each rendering of an expression is
    read as that expression. -/
theorem read_of_rendering :
    (∀ u, Numeral u → ∃ x, Rendering (.number x) u) ∧
      (∀ e, IsSpellable e ↔ ∃ u, Rendering e u) ∧
      ∀ e u, Rendering e u → read expression u = .ok e := by
  refine ⟨fun u isNumeral => ?_, fun e => ⟨exists_rendering, ?_⟩, fun e u rendering => ?_⟩
  · obtain ⟨d, value⟩ := isNumeral.exists_value
    exact ⟨_, .number isNumeral value⟩
  · rintro ⟨u, rendering⟩
    exact rendering.isSpellable
  · have phrase := rendering.phrase.anti (Nat.zero_le _)
    have whole := outcome_phrase phrase le_rfl apart_nil (.nil 1)
    rw [List.append_nil, (Stops.nil 0).extend_eq] at whole
    exact read_eq_ok_iff.mpr whole

/-- Operands on the left and on the right that need parentheses, a sign, a numeral with an exponent,
    escapes, and a comment with a parenthesis in it. -/
theorem read_of_rendering_grouped :
    let a := Expr.name "a"
    let e := Expr.binary .sub
      (.binary .mul (.binary .sub a (.number (Number.Decimal.mk false 5 0).toFloat))
        (.unary .negate (.text "\"\n")))
      (.binary .sub a a)
    let u := "(a - .5e1) * -\"\\\"\\n\" /* ) */ - (a - a)".toList
    Rendering e u ∧ read expression u = .ok e := by
  intro a e u
  have name : Rendering a "a".toList :=
    .name (isName_of_isValid (by decide) (by decide))
  have digits : ∀ c : Char, c.isDigit = true → IsDigits [c] := by
    intro c digit
    exact ⟨by simp, by simpa using digit⟩
  have number : Rendering (.number (Number.Decimal.mk false 5 0).toFloat) ".5e1".toList :=
    .number (.fraction (digits '5' (by decide))
      (@ExponentPart.some 'e' [] ['1'] (by decide) (by decide) (digits '1' (by decide))))
      (by decide +kernel)
  have text : Rendering (.text "\"\n") "\"\\\"\\n\"".toList := .text "\"\n"
  have comment : Blanks "/* ) */ ".toList :=
    .block (t := " ) */".toList) (by decide) (.space (by decide) .nil)
  have rendering : Rendering e u :=
    .join (.binary .sub)
      (.join (.binary .mul) (.join (.binary .sub) name number .nil .nil)
        (.signed (t := .minus) (by simp [signs]) text) .nil .nil)
      (.join (.binary .sub) name name .nil .nil) comment .nil
  exact ⟨rendering, read_of_rendering.2.2 e u rendering⟩

end LineScript
