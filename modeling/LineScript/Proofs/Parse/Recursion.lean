import LineScript.Proofs.Parse.Progress

/-! # Rules that call each other

Rules are guarded when what they read of a text depends only on what they read of
shorter texts. Guarded rules satisfy their own equations, with no trace of the
depth up to which they are entered.
-/

namespace LineScript.Parse.Parser

variable {α β ι : Type}

/-- Two parsers read the same of every text with less than `n` characters. -/
def AgreeBelow (n : Nat) (p q : Parser α) : Prop :=
  ∀ s : List Char, s.length < n → p.outcome s = q.outcome s

namespace AgreeBelow

variable {n : Nat} {p q : Parser α} {f g : α → Parser β}

theorem refl (n : Nat) (p : Parser α) : AgreeBelow n p p :=
  fun _ _ => rfl

theorem mono {m : Nat} (same : AgreeBelow n p q) (le : m ≤ n) : AgreeBelow m p q :=
  fun s short => same s (short.trans_le le)

theorem bind [Keeps p] (first : AgreeBelow n p q) (second : ∀ a, AgreeBelow n (f a) (g a)) :
    AgreeBelow n (p >>= f) (q >>= g) := by
  intro s short
  rw [outcome_bind, outcome_bind, ← first s short]
  cases read : p.outcome s with
  | none => rfl
  | some x => exact second x.1 x.2 ((Keeps.length_le read).trans_lt short)

/-- Behind a character that was read, one character less has to be agreed on. -/
theorem bind_advancing (p : Parser α) [Advances p] (second : ∀ a, AgreeBelow n (f a) (g a)) :
    AgreeBelow (n + 1) (p >>= f) (p >>= g) := by
  intro s short
  rw [outcome_bind, outcome_bind]
  cases read : p.outcome s with
  | none => rfl
  | some x =>
      have less := Advances.shorter read
      exact second x.1 x.2 (by omega)

theorem choice {p' q' : Parser α} (first : AgreeBelow n p q) (second : AgreeBelow n p' q') :
    AgreeBelow n (p <|> p') (q <|> q') := by
  intro s short
  rw [outcome_choice, outcome_choice, first s short, second s short]

theorem optional (same : AgreeBelow n p q) :
    AgreeBelow n (Parser.optional p) (Parser.optional q) := by
  intro s short
  rw [outcome_optional, outcome_optional, same s short]

theorem firstOf_map {γ : Type} (cs : List γ) {p q : γ → Parser α}
    (each : ∀ c ∈ cs, AgreeBelow n (p c) (q c)) :
    AgreeBelow n (firstOf (cs.map p)) (firstOf (cs.map q)) := by
  induction cs with
  | nil => exact refl n _
  | cons c cs ih =>
      exact choice (each c (by simp)) (ih fun c member => each c (by simp [member]))

theorem extend {step next : α → Parser α} [keeps : ∀ a, Keeps (step a)]
    (same : ∀ a, AgreeBelow n (step a) (next a)) (a : α) :
    AgreeBelow n (Parser.extend step a) (Parser.extend next a) := by
  have steps : ∀ (rounds : Nat) (a : α) (s : List Char), s.length < n →
      stepsWithin step rounds a s = stepsWithin next rounds a s := by
    intro rounds
    induction rounds with
    | zero => intro a s _; rfl
    | succ rounds ih =>
        intro a s short
        simp only [stepsWithin, ← same a s short]
        cases read : (step a).outcome s with
        | none => rfl
        | some x => exact ih x.1 x.2 ((Keeps.length_le read).trans_lt short)
  intro s short
  rw [outcome_extend_eq_steps, outcome_extend_eq_steps, steps _ a s short]

theorem many [Keeps p] (same : AgreeBelow n p q) :
    AgreeBelow n (Parser.many p) (Parser.many q) := by
  unfold Parser.many
  refine bind (extend (fun found => bind same fun a => refl n _) []) fun found => refl n _

end AgreeBelow

/-- Rules that read at least one character before they call each other. -/
structure Guarded (rules : (ι → Parser α) → ι → Parser α) : Prop where
  keeps : ∀ f, (∀ i, Keeps (f i)) → ∀ i, Keeps (rules f i)
  agree : ∀ n f g, (∀ i, Keeps (f i)) → (∀ i, AgreeBelow n (f i) (g i)) →
    ∀ i, AgreeBelow (n + 1) (rules f i) (rules g i)

section Keeps

variable {rules : (ι → Parser α) → ι → Parser α}
  (keeps : ∀ f, (∀ i, Keeps (f i)) → ∀ i, Keeps (rules f i))

include keeps

private theorem keeps_within (depth : Nat) (i : ι) :
    Keeps (recursiveWithin rules depth i : Parser α) := by
  induction depth generalizing i with
  | zero => exact inferInstanceAs (Keeps (fail : Parser α))
  | succ depth ih => exact keeps (recursiveWithin rules depth) ih i

/-- Rules that keep what they do not read keep it also where they call each other. -/
theorem keeps_recursive_of_keeps (i : ι) : Keeps (recursive rules i) where
  suffix {s _ _} h := (keeps_within keeps (s.length + 1) i).suffix h

end Keeps

namespace Guarded

variable {rules : (ι → Parser α) → ι → Parser α}

private theorem agree_within (guarded : Guarded rules) (n : Nat) {depth deeper : Nat}
    (enough : n ≤ depth) (enough' : n ≤ deeper) (i : ι) :
    AgreeBelow n (recursiveWithin rules depth i) (recursiveWithin rules deeper i) := by
  induction n generalizing depth deeper i with
  | zero => intro s short; omega
  | succ n ih =>
      obtain ⟨depth, rfl⟩ : ∃ d, depth = d + 1 := ⟨depth - 1, by omega⟩
      obtain ⟨deeper, rfl⟩ : ∃ d, deeper = d + 1 := ⟨deeper - 1, by omega⟩
      exact guarded.agree n _ _ (keeps_within guarded.keeps depth)
        (fun i => ih (by omega) (by omega) i) i

theorem outcome_within (guarded : Guarded rules) {depth : Nat} {s : List Char}
    (enough : s.length < depth) (i : ι) :
    outcome (recursiveWithin rules depth i) s = (recursive rules i).outcome s :=
  guarded.agree_within (s.length + 1) enough (Nat.le_refl _) i s (Nat.lt_succ_self _)

theorem keeps_recursive (guarded : Guarded rules) (i : ι) : Keeps (recursive rules i) :=
  keeps_recursive_of_keeps guarded.keeps i

/-- Guarded rules satisfy their own equations. -/
theorem outcome_recursive (guarded : Guarded rules) (i : ι) (s : List Char) :
    (recursive rules i).outcome s = (rules (recursive rules) i).outcome s := by
  rw [← guarded.outcome_within (Nat.lt_succ_self s.length)]
  refine guarded.agree s.length _ _ (keeps_within guarded.keeps s.length) ?_ i s
    (Nat.lt_succ_self _)
  intro i t short
  exact guarded.outcome_within short i

end Guarded

end LineScript.Parse.Parser
