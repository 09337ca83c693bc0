import LineScript.Proofs.Parse.Recursion
import LineScript.Script.Grammar.Lexeme

/-! # Blanks between tokens

Reading blanks never fails, so it is a function on texts: `skipBlank` drops the
spaces and comments that a text starts with. `Blanks` says which texts may stand
between two tokens.
-/

namespace LineScript.Grammar

open Parse Parser

/-- One space or comment. -/
def gapUnit (space : Char → Bool) : Parser Unit :=
  (do let _ ← char space) <|> lineComment <|> blockComment

instance : Advances lineComment :=
  have : Advances (word "//".toList) := advances_word (by decide)
  inferInstanceAs (Advances (word _ >>= _))

instance : Advances blockComment :=
  have : Advances (word "/*".toList) := advances_word (by decide)
  inferInstanceAs (Advances (word _ >>= _))

instance (space : Char → Bool) : Advances (gapUnit space) :=
  inferInstanceAs (Advances ((char space >>= _) <|> lineComment <|> blockComment))

instance (space : Char → Bool) : Keeps (gap space) :=
  inferInstanceAs (Keeps (quiet (extend (fun _ => gapUnit space) ())))

instance : Keeps blank := inferInstanceAs (Keeps (gap _))

instance : Keeps inlineBlank := inferInstanceAs (Keeps (gap _))

/-- The text without the spaces and comments that it starts with. -/
def skipBlank (s : List Char) : List Char :=
  (stepsWithin (fun _ => gapUnit isSpace) (s.length + 1) () s).2

@[simp]
theorem outcome_blank (s : List Char) : blank.outcome s = some ((), skipBlank s) :=
  outcome_extend_eq_steps (fun _ => gapUnit isSpace) () s

theorem blank_success {s rest : List Char} {a : Unit} (read : blank.outcome s = some (a, rest)) :
    rest = skipBlank s := by
  rw [outcome_blank] at read
  cases read
  rfl

theorem skipBlank_suffix (s : List Char) : skipBlank s <:+ s :=
  Keeps.suffix (outcome_blank s)

theorem skipBlank_of_unit {s rest : List Char}
    (read : (gapUnit isSpace).outcome s = some ((), rest)) : skipBlank s = skipBlank rest := by
  have unrolled := @outcome_extend_of_some Unit (fun _ => gapUnit isSpace) _ () () s rest read
  rw [outcome_extend_eq_steps, outcome_extend_eq_steps] at unrolled
  exact congrArg Prod.snd (Option.some.inj unrolled)

theorem skipBlank_of_none {s : List Char} (missed : (gapUnit isSpace).outcome s = none) :
    skipBlank s = s := by
  rw [skipBlank, stepsWithin, missed]

/-- Behind the blanks no further blank can be read. -/
theorem gapUnit_skipBlank (s : List Char) : (gapUnit isSpace).outcome (skipBlank s) = none := by
  have whole := outcome_blank s
  exact (extend_induction (motive := fun _ _ => True) whole trivial
    (fun _ _ _ _ _ _ => trivial)).2

section Units

variable {c d : Char} {s rest : List Char}

@[simp]
theorem skipBlank_nil : skipBlank [] = [] := rfl

theorem skipBlank_space (space : isSpace c = true) : skipBlank (c :: s) = skipBlank s := by
  apply skipBlank_of_unit
  simp [gapUnit, space]

theorem skipBlank_line : skipBlank ('/' :: '/' :: s) = skipBlank (s.dropWhile (· != '\n')) := by
  apply skipBlank_of_unit
  simp [gapUnit, lineComment, isSpace, Text.after?]

theorem skipBlank_block (closed : Text.behind? "*/".toList s = some rest) :
    skipBlank ('/' :: '*' :: s) = skipBlank rest := by
  apply skipBlank_of_unit
  simp [gapUnit, lineComment, blockComment, isSpace, Text.after?] at closed ⊢
  exact closed

theorem skipBlank_solid (solid : isSpace c = false) (slash : c ≠ '/') :
    skipBlank (c :: s) = c :: s := by
  apply skipBlank_of_none
  simp [gapUnit, lineComment, blockComment, Text.after?, solid, Ne.symm slash]

/-- A text that starts with a word has no blanks to drop. -/
theorem skipBlank_front {w : List Char} (first : w.head? = some c) (solid : isSpace c = false)
    (slash : c ≠ '/') (k : List Char) : skipBlank (w ++ k) = w ++ k := by
  cases w with
  | nil => cases first
  | cons d w =>
      cases first
      exact skipBlank_solid solid slash

theorem skipBlank_slash (line : d ≠ '/') (block : d ≠ '*') :
    skipBlank ('/' :: d :: s) = '/' :: d :: s := by
  apply skipBlank_of_none
  simp [gapUnit, lineComment, blockComment, isSpace, Text.after?, Ne.symm line, Ne.symm block]

end Units

/-- The texts that may stand between two tokens. A comment up to the end of a line holds that
    end, so that nothing can become part of it. -/
inductive Blanks : List Char → Prop where
  | nil : Blanks []
  | space {c s} : isSpace c = true → Blanks s → Blanks (c :: s)
  | line {t s} : '\n' ∉ t → Blanks s → Blanks ('/' :: '/' :: (t ++ '\n' :: s))
  | block {t s} : Text.behind? "*/".toList t = some [] → Blanks s → Blanks ('/' :: '*' :: (t ++ s))

namespace Blanks

theorem skipBlank_append {b : List Char} (blanks : Blanks b) (k : List Char) :
    skipBlank (b ++ k) = skipBlank k := by
  induction blanks with
  | nil => rfl
  | space space _ ih => rw [List.cons_append, skipBlank_space space, ih]
  | @line t s clean _ ih =>
      have rest : (t ++ '\n' :: (s ++ k)).dropWhile (· != '\n') = '\n' :: (s ++ k) := by
        rw [List.dropWhile_append_of_pos]
        · simp
        · intro c member
          simp only [bne_iff_ne]
          rintro rfl
          exact clean member
      simp only [List.cons_append, List.append_assoc]
      rw [skipBlank_line, rest, skipBlank_space (by decide), ih]
  | @block t s closed _ ih =>
      have found := Text.behind?_append closed (s ++ k)
      simp only [List.cons_append, List.append_assoc]
      rw [skipBlank_block found]
      exact ih

end Blanks

/-- A closed comment is cut off where it ends. -/
private theorem exists_closed {word s rest : List Char}
    (found : Text.behind? word s = some rest) :
    ∃ t, s = t ++ rest ∧ Text.behind? word t = some [] := by
  induction s with
  | nil =>
      obtain ⟨rfl, rfl⟩ := List.append_eq_nil_iff.mp (Text.after?_eq_some_iff.mp found).symm
      exact ⟨[], rfl, rfl⟩
  | cons c s ih =>
      rw [Text.behind?] at found
      cases here : Text.after? word (c :: s) with
      | some behind =>
          rw [here, Option.some_or] at found
          cases found
          refine ⟨word, Text.after?_eq_some_iff.mp here, ?_⟩
          have self := Text.after?_append word []
          rw [List.append_nil] at self
          cases word <;> simp [Text.behind?, self]
      | none =>
          rw [here, Option.none_or] at found
          obtain ⟨t, rfl, closed⟩ := ih found
          refine ⟨c :: t, rfl, ?_⟩
          cases early : Text.after? word (c :: t) with
          | none => rw [Text.behind?, early, Option.none_or, closed]
          | some behind =>
              have start := Text.after?_eq_some_iff.mp early
              rw [← List.cons_append, start, List.append_assoc, Text.after?_append] at here
              cases here

/-- A blank unit is a space, a comment up to the end of its line, or a closed comment. -/
theorem gapUnit_cases {s rest : List Char} (read : (gapUnit isSpace).outcome s = some ((), rest)) :
    (∃ c, isSpace c = true ∧ s = c :: rest) ∨
    (∃ t, s = '/' :: '/' :: t ∧ rest = t.dropWhile (· != '\n')) ∨
    (∃ t, s = '/' :: '*' :: t ∧ Text.behind? "*/".toList t = some rest) := by
  simp only [gapUnit, outcome_choice, Option.or_eq_some_iff] at read
  rcases read with space | ⟨-, line | ⟨-, block⟩⟩
  · cases s with
    | nil => simp at space
    | cons c s =>
        simp only [outcome_bind, outcome_char_cons] at space
        split at space
        · cases space
          exact .inl ⟨c, by assumption, rfl⟩
        · cases space
  · simp only [lineComment, outcome_bind, outcome_word, outcome_skipWhile,
      Option.bind_eq_some_iff, Option.map_eq_some_iff] at line
    obtain ⟨x, ⟨t, found, rfl⟩, same⟩ := line
    cases same
    exact .inr (.inl ⟨t, Text.after?_eq_some_iff.mp found, rfl⟩)
  · simp only [blockComment, outcome_bind, outcome_word, outcome_skipPast,
      Option.bind_eq_some_iff, Option.map_eq_some_iff] at block
    obtain ⟨x, ⟨t, found, rfl⟩, behind, closed, same⟩ := block
    cases same
    exact .inr (.inr ⟨t, Text.after?_eq_some_iff.mp found, closed⟩)

/-- What is dropped in front of a text that goes on is a text of blanks. -/
theorem exists_blanks {s : List Char} (more : skipBlank s ≠ []) :
    ∃ b, Blanks b ∧ s = b ++ skipBlank s := by
  induction length : s.length using Nat.strong_induction_on generalizing s with
  | _ n ih =>
      subst length
      cases read : (gapUnit isSpace).outcome s with
      | none => exact ⟨[], .nil, (skipBlank_of_none read).symm⟩
      | some x =>
          have same := skipBlank_of_unit read
          have less := Advances.shorter read
          rw [same] at more ⊢
          rcases gapUnit_cases read with ⟨c, space, rfl⟩ | ⟨t, rfl, eq⟩ | ⟨t, rfl, closed⟩
          · obtain ⟨b, blanks, eq⟩ := ih _ less more rfl
            exact ⟨c :: b, .space space blanks, congrArg (c :: ·) eq⟩
          · -- The text goes on, so the comment has an end of line behind it.
            have parts := List.takeWhile_append_dropWhile (p := (· != '\n')) (l := t)
            cases rest : t.dropWhile (· != '\n') with
            | nil =>
                rw [eq, rest] at more
                exact absurd rfl more
            | cons c rest' =>
                have isEnd : c = '\n' := by
                  have some_ : t.dropWhile (· != '\n') ≠ [] := by simp [rest]
                  have head := List.head_dropWhile_not _ some_
                  simpa [rest] using head
                subst isEnd
                rw [eq, rest, skipBlank_space (by decide)] at more
                have shorter : rest'.length < ('/' :: '/' :: t).length := by
                  rw [eq, rest, List.length_cons] at less
                  omega
                obtain ⟨b, blanks, behind⟩ := ih _ shorter more rfl
                refine ⟨_, .line (t := t.takeWhile (· != '\n')) ?_ blanks, ?_⟩
                · intro member
                  simpa using List.mem_takeWhile_imp member
                · rw [eq, rest, skipBlank_space (by decide)]
                  simp only [List.cons_append, List.append_assoc]
                  rw [← behind, ← rest, parts]
          · obtain ⟨u, rfl, ends⟩ := exists_closed closed
            obtain ⟨b, blanks, eq⟩ := ih _ less more rfl
            refine ⟨_, .block ends blanks, ?_⟩
            simp only [List.cons_append, List.append_assoc]
            rw [← eq]

end LineScript.Grammar
