import LineScript.Proofs.Parse.Recipe

/-! # Parsers with recipes

The combinators hand recipes on: a parser that is put together from parsers with recipes has one
itself. Where a part is sure to read a character, what comes behind it may call any rule. So the
recipe of a rule is found from its definition, and with it the ranks of the rules that are called
before a character is read.
-/

namespace LineScript.Parse.Parser

variable {ρ : Type → Type} [Named ρ] {α β γ : Type}

/-- A parser with a recipe, in which only rules of a rank below `n` are called before a character is
    read. -/
class Described (ρ : Type → Type) [Named ρ] {α : Type} (p : Parser α) (n : outParam Nat) where
  recipe : Recipe ρ α
  agrees : ∀ s, recipe.parser.outcome s = p.outcome s
  productive : recipe.Productive
  guarded : recipe.Guarded n

theorem Advances.of_agrees {p q : Parser α} (agrees : ∀ s, q.outcome s = p.outcome s)
    [Advances p] : Advances q where
  suffix read := Keeps.suffix ((agrees _).symm.trans read)
  shorter read := Advances.shorter ((agrees _).symm.trans read)

namespace Described

variable {p q : Parser α} {n : Nat}

theorem advances [d : Described ρ p n] [Advances p] : Advances d.recipe.parser :=
  .of_agrees d.agrees

/-- More rules may be called. -/
abbrev mono {m : Nat} (d : Described ρ p n) (le : n ≤ m) : Described ρ p m :=
  ⟨d.recipe, d.agrees, d.productive, d.guarded.mono le⟩

/-- Only what is read counts. -/
abbrev congr (d : Described ρ p n) (same : ∀ s, p.outcome s = q.outcome s) : Described ρ q n :=
  ⟨d.recipe, fun s => (d.agrees s).trans (same s), d.productive, d.guarded⟩

/-- A rule is called by its name. -/
abbrev call (r : ρ α) : Described ρ (Named.parser r) (Named.rank r + 1) :=
  ⟨.call r, fun _ => rfl, trivial, Nat.lt_succ_self _⟩

end Described

section Instances

variable {p q : Parser α} {f : α → Parser β} {m n : Nat}

instance (a : α) : Described ρ (pure a : Parser α) 0 :=
  ⟨.ret a, fun _ => rfl, trivial, trivial⟩

instance : Described ρ (fail : Parser α) 0 :=
  ⟨.fail, fun _ => rfl, trivial, trivial⟩

instance (c : Char → Bool) : Described ρ (char c) 0 :=
  ⟨.char c, fun _ => rfl, trivial, trivial⟩

instance (text : List Char) : Described ρ (word text) 0 :=
  ⟨.word text, fun _ => rfl, trivial, trivial⟩

theorem outcome_bind_congr {p' : Parser α} {f' : α → Parser β}
    (first : ∀ s, p'.outcome s = p.outcome s) (next : ∀ a s, (f' a).outcome s = (f a).outcome s)
    (s : List Char) : (p' >>= f').outcome s = (p >>= f).outcome s := by
  rw [outcome_bind, outcome_bind, first]
  cases p.outcome s with
  | none => rfl
  | some x => exact next x.1 x.2

instance (priority := low) [d : Described ρ p m] [d' : ∀ a, Described ρ (f a) n] :
    Described ρ (p >>= f) (max m n) where
  recipe := .andThen d.recipe fun a => (d' a).recipe
  agrees := outcome_bind_congr d.agrees fun a => (d' a).agrees
  productive := ⟨d.productive, fun a => (d' a).productive⟩
  guarded := ⟨d.guarded.mono (Nat.le_max_left m n),
    .inr fun a => (d' a).guarded.mono (Nat.le_max_right m n)⟩

/-- Behind a character any rule may be called. -/
instance [Advances p] [d : Described ρ p m] [d' : ∀ a, Described ρ (f a) n] :
    Described ρ (p >>= f) m where
  recipe := .andThen d.recipe fun a => (d' a).recipe
  agrees := outcome_bind_congr d.agrees fun a => (d' a).agrees
  productive := ⟨d.productive, fun a => (d' a).productive⟩
  guarded := ⟨d.guarded, .inl d.advances⟩

instance [d : Described ρ p m] [d' : Described ρ q n] : Described ρ (p <|> q) (max m n) where
  recipe := .orElse d.recipe d'.recipe
  agrees s := by rw [Recipe.parser, outcome_choice, outcome_choice, d.agrees, d'.agrees]
  productive := ⟨d.productive, d'.productive⟩
  guarded := ⟨d.guarded.mono (Nat.le_max_left m n), d'.guarded.mono (Nat.le_max_right m n)⟩

instance (c : Prop) [Decidable c] [d : Described ρ p m] [d' : Described ρ q n] :
    Described ρ (if c then p else q) (max m n) where
  recipe := if c then d.recipe else d'.recipe
  agrees s := by split <;> simp [d.agrees, d'.agrees]
  productive := by split <;> simp [d.productive, d'.productive]
  guarded := by
    split
    · exact d.guarded.mono (Nat.le_max_left m n)
    · exact d'.guarded.mono (Nat.le_max_right m n)

instance [d : Described ρ p n] : Described ρ (quiet p) n :=
  d.congr fun _ => rfl

instance (wanted : Wanted) [d : Described ρ p n] : Described ρ (expecting wanted p) n :=
  d.congr fun s => (outcome_expecting wanted p s).symm

instance [d : Described ρ p n] : Described ρ (absent p) n where
  recipe := .absent d.recipe
  agrees s := by rw [Recipe.parser, outcome_absent, outcome_absent, d.agrees]
  productive := d.productive
  guarded := d.guarded

/-- What is not absent lies ahead. -/
instance [d : Described ρ p n] : Described ρ (ahead p) n where
  recipe := .absent (.absent d.recipe)
  agrees s := by
    rw [Recipe.parser, Recipe.parser, outcome_absent, outcome_absent, outcome_ahead, d.agrees]
    cases p.outcome s <;> rfl
  productive := d.productive
  guarded := d.guarded

instance : Described ρ atEnd 0 :=
  inferInstanceAs (Described ρ (absent (char fun _ => true)) 0)

instance [d : Described ρ p n] : Described ρ (slice p) n where
  recipe := .slice d.recipe
  agrees s := by rw [Recipe.parser, outcome_slice, outcome_slice, d.agrees]
  productive := d.productive
  guarded := d.guarded

instance [d : Described ρ p n] : Described ρ (optional p) n where
  recipe := .orElse (.andThen d.recipe fun a => .ret (some a)) (.ret none)
  agrees s := by
    simp only [Recipe.parser, outcome_choice, outcome_bind, outcome_optional, d.agrees]
    cases p.outcome s <;> rfl
  productive := ⟨⟨d.productive, fun _ => trivial⟩, trivial⟩
  guarded := ⟨⟨d.guarded, .inr fun _ => trivial⟩, trivial⟩

/-! ## Repetitions -/

instance {step : α → Parser α} [∀ a, Advances (step a)] [d : ∀ a, Described ρ (step a) n] (a : α) :
    Described ρ (extend step a) n where
  recipe := .extend (fun a => (d a).recipe) a
  agrees s := by
    have steps : ∀ rounds a s, stepsWithin (fun a => (d a).recipe.parser) rounds a s =
        stepsWithin step rounds a s := by
      intro rounds
      induction rounds with
      | zero => exact fun _ _ => rfl
      | succ rounds ih =>
          intro a s
          simp only [stepsWithin, (d a).agrees, ih]
    rw [Recipe.parser, outcome_extend_eq_steps, outcome_extend_eq_steps, steps]
  productive a := ⟨(d a).advances, (d a).productive⟩
  guarded a := (d a).guarded

instance [Advances p] [Described ρ p n] : Described ρ (many p) n :=
  have unbounded : Described ρ (extend (fun found => p >>= fun a => pure (a :: found)) [] >>=
      fun found => pure found.reverse) (max n 0) := inferInstance
  unbounded.mono (by simp)

/-- One character after another is skipped. -/
instance (c : Char → Bool) : Described ρ (skipWhile c) 0 :=
  have steps : Described ρ (extend (fun _ => char c >>= fun _ => pure ()) ()) 0 := inferInstance
  steps.congr fun s => by
    rw [outcome_skipWhile]
    induction s with
    | nil => exact outcome_extend_of_none rfl
    | cons d s ih =>
        by_cases inside : c d = true
        · have read : (char c >>= fun _ => pure ()).outcome (d :: s) = some ((), s) := by
            simp [inside]
          rw [outcome_extend_of_some read, ih, List.dropWhile_cons_of_pos inside]
        · have missed : (char c >>= fun _ => pure ()).outcome (d :: s) = none := by
            simp [inside]
          rw [outcome_extend_of_none missed, List.dropWhile_cons_of_neg inside]

/-- One character of a text that does not go on with `text`. -/
private def stepTo (text : List Char) : Parser Unit := do
  absent (word text)
  let _ ← char fun _ => true

private instance (text : List Char) : Advances (stepTo text) :=
  inferInstanceAs (Advances (absent _ >>= fun _ => char _ >>= fun _ => pure ()))

/-- Characters are skipped up to where the word stands. -/
instance (text : List Char) : Described ρ (skipPast text) 0 :=
  have : Described ρ (stepTo text) 0 :=
    inferInstanceAs (Described ρ (absent _ >>= fun _ => char _ >>= fun _ => pure ()) 0)
  have steps : Described ρ (extend (fun _ => stepTo text) () >>= fun _ => word text) 0 :=
    inferInstance
  steps.congr fun s => by
    rw [outcome_skipPast]
    induction s with
    | nil =>
        have missed : (stepTo text).outcome [] = none := by
          rw [stepTo, outcome_bind, outcome_absent]
          split <;> rfl
        rw [run_bind (outcome_extend_of_none missed), outcome_word, Text.behind?]
    | cons c s ih =>
        rw [Text.behind?]
        cases here : Text.after? text (c :: s) with
        | none =>
            have read : (stepTo text).outcome (c :: s) = some ((), s) := by simp [stepTo, here]
            rw [outcome_bind] at ih ⊢
            rw [outcome_extend_of_some read, ih, Option.none_or]
        | some rest =>
            have missed : (stepTo text).outcome (c :: s) = none := by simp [stepTo, here]
            rw [run_bind (outcome_extend_of_none missed), outcome_word, here, Option.some_or]

instance exactlyDescribed [Described ρ p n] : (k : Nat) → Described ρ (exactly k p) n
  | 0 => (inferInstance : Described ρ (pure [] : Parser (List α)) 0).mono (Nat.zero_le n)
  | k + 1 =>
      have : Described ρ (exactly k p) n := exactlyDescribed k
      have sequence : Described ρ (p >>= fun first => exactly k p >>= fun rest =>
        pure (first :: rest)) (max n (max n 0)) := inferInstance
      sequence.mono (by simp)

instance firstOfDescribed {g : γ → Parser α} [∀ c, Described ρ (g c) n] :
    (cs : List γ) → Described ρ (firstOf (cs.map g)) n
  | [] => (inferInstance : Described ρ (fail : Parser α) 0).mono (Nat.zero_le n)
  | c :: cs =>
      have : Described ρ (firstOf (cs.map g)) n := firstOfDescribed cs
      have alternatives : Described ρ (g c <|> firstOf (cs.map g)) (max n n) := inferInstance
      alternatives.mono (by simp)

end Instances

end LineScript.Parse.Parser
