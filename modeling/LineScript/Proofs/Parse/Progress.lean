import LineScript.Proofs.Parse.Outcome

/-! # Progress of parsers

A parser never gives back text that it was not given, and most parsers read at
least one character. That is why a repetition may be unrolled one round at a time
and why rules that call each other satisfy their own equations: the bounds on
rounds and on depth, which make both into total functions, are never met.
-/

namespace LineScript.Parse.Parser

variable {α β ι : Type}

/-- What is left behind a parser is an end of what it was given. -/
class Keeps (p : Parser α) : Prop where
  suffix : ∀ {s a rest}, p.outcome s = some (a, rest) → rest <:+ s

/-- A parser that succeeds has read something. -/
class Advances (p : Parser α) : Prop extends Keeps p where
  shorter : ∀ {s a rest}, p.outcome s = some (a, rest) → rest.length < s.length

theorem Keeps.length_le {p : Parser α} [Keeps p] {s a rest} (h : p.outcome s = some (a, rest)) :
    rest.length ≤ s.length :=
  (Keeps.suffix h).length_le

section Instances

variable {p q : Parser α} {f : α → Parser β}

instance (a : α) : Keeps (pure a : Parser α) where
  suffix h := by
    cases h
    exact List.suffix_rfl

instance : Keeps (fail : Parser α) where
  suffix h := by cases h

instance [Keeps p] [∀ a, Keeps (f a)] : Keeps (p >>= f) where
  suffix h := by
    obtain ⟨a, mid, first, second⟩ := bind_success h
    exact (Keeps.suffix second).trans (Keeps.suffix first)

instance [Keeps p] [Keeps q] : Keeps (p <|> q) where
  suffix h := by
    rcases choice_success h with first | ⟨_, second⟩
    · exact Keeps.suffix first
    · exact Keeps.suffix second

instance [Keeps p] : Keeps (quiet p) where
  suffix h := Keeps.suffix (p := p) h

instance (wanted : Wanted) [Keeps p] : Keeps (expecting wanted p) where
  suffix h := Keeps.suffix ((outcome_expecting wanted p _).symm.trans h)

instance : Keeps (ahead p) where
  suffix h := by
    rw [outcome_ahead, Option.map_eq_some_iff] at h
    obtain ⟨_, _, same⟩ := h
    cases same
    exact List.suffix_rfl

instance : Keeps (absent p) where
  suffix h := by
    rw [(absent_success h).1]

instance (c : Char → Bool) : Advances (char c) where
  suffix h := by
    rw [(char_success h).2]
    exact List.suffix_cons _ _
  shorter h := by
    rw [(char_success h).2]
    exact Nat.lt_succ_self _

instance (text : List Char) : Keeps (word text) where
  suffix h := by
    rw [word_success h]
    exact List.suffix_append text _

/-- Only the empty word is read without reading a character. -/
theorem advances_word {text : List Char} (nonempty : text ≠ []) : Advances (word text) where
  suffix h := Keeps.suffix h
  shorter h := by
    rw [word_success h, List.length_append]
    have := List.length_pos_iff.mpr nonempty
    omega

instance (text : List Char) : Keeps (skipPast text) where
  suffix h := by
    rw [outcome_skipPast, Option.map_eq_some_iff] at h
    obtain ⟨behind, found, same⟩ := h
    cases same
    obtain ⟨before, rfl⟩ := Text.split_of_behind? found
    rw [← List.append_assoc]
    exact List.suffix_append _ _

instance (c : Char → Bool) : Keeps (skipWhile c) where
  suffix h := by
    rw [outcome_skipWhile] at h
    cases h
    exact List.dropWhile_suffix c

instance : Keeps atEnd :=
  inferInstanceAs (Keeps (absent _))

instance [Keeps p] : Keeps (slice p) where
  suffix h := by
    obtain ⟨a, read, -⟩ := slice_success h
    exact Keeps.suffix read

instance [Keeps p] : Keeps (optional p) where
  suffix h := by
    rcases optional_success h with ⟨a, -, read⟩ | ⟨-, rfl, -⟩
    · exact Keeps.suffix read
    · exact List.suffix_rfl

instance (n : Nat) [Keeps p] : Keeps (exactly n p) := by
  induction n with
  | zero => exact inferInstanceAs (Keeps (pure []))
  | succ n ih => exact inferInstanceAs (Keeps (p >>= fun first => exactly n p >>= fun rest => _))

instance (c : Prop) [Decidable c] [Keeps p] [Keeps q] : Keeps (if c then p else q) := by
  split <;> infer_instance

theorem keeps_firstOf {ps : List (Parser α)} (each : ∀ p ∈ ps, Keeps p) : Keeps (firstOf ps) where
  suffix h := by
    rw [outcome_firstOf] at h
    obtain ⟨p, member, read⟩ := List.exists_of_findSome?_eq_some h
    exact (each p member).suffix read

theorem advances_firstOf {ps : List (Parser α)} (each : ∀ p ∈ ps, Advances p) :
    Advances (firstOf ps) where
  suffix h := (keeps_firstOf fun p member => (each p member).toKeeps).suffix h
  shorter h := by
    rw [outcome_firstOf] at h
    obtain ⟨p, member, read⟩ := List.exists_of_findSome?_eq_some h
    exact (each p member).shorter read

instance (priority := low) [Keeps p] [∀ a, Advances (f a)] : Advances (p >>= f) where
  suffix h := Keeps.suffix h
  shorter h := by
    obtain ⟨a, mid, first, second⟩ := bind_success h
    exact (Advances.shorter second).trans_le (Keeps.length_le first)

instance [Advances p] [∀ a, Keeps (f a)] : Advances (p >>= f) where
  suffix h := Keeps.suffix h
  shorter h := by
    obtain ⟨a, mid, first, second⟩ := bind_success h
    exact (Keeps.length_le second).trans_lt (Advances.shorter first)

/-- Long sequences are taken apart by hand, one part at a time. -/
theorem Keeps.bind [Keeps p] (rest : ∀ a, Keeps (f a)) : Keeps (p >>= f) :=
  inferInstance

theorem Advances.bind [Advances p] (rest : ∀ a, Keeps (f a)) : Advances (p >>= f) :=
  inferInstance

instance [Advances p] [Advances q] : Advances (p <|> q) where
  suffix h := Keeps.suffix h
  shorter h := by
    rcases choice_success h with first | ⟨_, second⟩
    · exact Advances.shorter first
    · exact Advances.shorter second

instance (wanted : Wanted) [Advances p] : Advances (expecting wanted p) where
  suffix h := Keeps.suffix h
  shorter h := Advances.shorter ((outcome_expecting wanted p _).symm.trans h)

instance [Advances p] : Advances (slice p) where
  suffix h := Keeps.suffix h
  shorter h := by
    obtain ⟨a, read, -⟩ := slice_success h
    exact Advances.shorter read

end Instances

/-! ## Repetition -/

/-- The value and the text after at most `rounds` steps. -/
def stepsWithin (step : α → Parser α) : Nat → α → List Char → α × List Char
  | 0, a, s => (a, s)
  | rounds + 1, a, s =>
      match (step a).outcome s with
      | some (b, rest) => stepsWithin step rounds b rest
      | none => (a, s)

private theorem extendWithin_result (step : α → Parser α) (rounds : Nat) (a : α)
    (misses : Option Miss) (s : List Char) :
    (extendWithin step rounds a misses (Cursor.ofList s)).result =
      some ((stepsWithin step rounds a s).1, Cursor.ofList (stepsWithin step rounds a s).2) := by
  induction rounds generalizing a misses s with
  | zero => rfl
  | succ rounds ih =>
      have answer := result_ofList (step a) s
      cases reply : step a (Cursor.ofList s) with
      | mk result more =>
          rw [reply] at answer
          dsimp only at answer
          subst answer
          cases read : (step a).outcome s with
          | none => simp only [extendWithin, stepsWithin, reply, read, Option.map_none]
          | some x => simp only [extendWithin, stepsWithin, reply, read, Option.map_some, ih]

theorem outcome_extend_eq_steps (step : α → Parser α) (a : α) (s : List Char) :
    (extend step a).outcome s = some (stepsWithin step (s.length + 1) a s) := by
  have answer := extendWithin_result step (s.length + 1) a none s
  simp only [outcome, extend, Cursor.ofList] at answer ⊢
  rw [answer]
  rfl

private theorem stepsWithin_suffix {step : α → Parser α} (keeps : ∀ a, Keeps (step a))
    (rounds : Nat) (a : α) (s : List Char) : (stepsWithin step rounds a s).2 <:+ s := by
  induction rounds generalizing a s with
  | zero => exact List.suffix_rfl
  | succ rounds ih =>
      cases read : (step a).outcome s with
      | none => simp only [stepsWithin, read, List.suffix_rfl]
      | some x =>
          simp only [stepsWithin, read]
          exact (ih x.1 x.2).trans ((keeps a).suffix read)

/-- More rounds than there are characters are as good as any number of them. -/
private theorem stepsWithin_eq {step : α → Parser α} (advances : ∀ a, Advances (step a))
    {rounds more : Nat} {s : List Char} (enough : s.length < rounds) (enough' : s.length < more)
    (a : α) : stepsWithin step rounds a s = stepsWithin step more a s := by
  induction rounds generalizing more a s with
  | zero => omega
  | succ rounds ih =>
      obtain ⟨more, rfl⟩ : ∃ n, more = n + 1 := ⟨more - 1, by omega⟩
      cases read : (step a).outcome s with
      | none => simp only [stepsWithin, read]
      | some x =>
          have less := (advances a).shorter read
          simp only [stepsWithin, read]
          exact ih (by omega) (by omega) x.1

instance {step : α → Parser α} [keeps : ∀ a, Keeps (step a)] (a : α) : Keeps (extend step a) where
  suffix {s b rest} h := by
    rw [outcome_extend_eq_steps] at h
    have whole := stepsWithin_suffix keeps (s.length + 1) a s
    rw [Option.some.inj h] at whole
    exact whole

section Unrolling

variable {step : α → Parser α} [advances : ∀ a, Advances (step a)] {p : Parser α}

/-- A step that succeeds is the first of the repetition. -/
theorem outcome_extend_of_some {a b : α} {s rest : List Char}
    (read : (step a).outcome s = some (b, rest)) :
    (extend step a).outcome s = (extend step b).outcome rest := by
  have less := (advances a).shorter read
  rw [outcome_extend_eq_steps, outcome_extend_eq_steps, stepsWithin, read]
  exact congrArg some (stepsWithin_eq advances less (Nat.lt_succ_self _) b)

/-- A step that fails ends the repetition. -/
theorem outcome_extend_of_none {step : α → Parser α} {a : α} {s : List Char}
    (missed : (step a).outcome s = none) : (extend step a).outcome s = some (a, s) := by
  rw [outcome_extend_eq_steps, stepsWithin, missed]

/-- What holds of the start of a repetition and is kept by its steps holds of its end, where no
    further step succeeds. -/
theorem extend_induction {motive : α → List Char → Prop} {a b : α} {s rest : List Char}
    (read : (extend step a).outcome s = some (b, rest)) (start : motive a s)
    (next : ∀ a s b rest, motive a s → (step a).outcome s = some (b, rest) → motive b rest) :
    motive b rest ∧ (step b).outcome rest = none := by
  induction length : s.length using Nat.strong_induction_on generalizing a s with
  | _ n ih =>
      subst length
      cases one : (step a).outcome s with
      | none =>
          rw [outcome_extend_of_none one] at read
          cases read
          exact ⟨start, one⟩
      | some x =>
          rw [outcome_extend_of_some one] at read
          exact ih _ ((advances a).shorter one) read (next a s x.1 x.2 start one) rfl

end Unrolling

section Many

variable {p : Parser α}

/-- Read one more item, the last in front. -/
private def gather (p : Parser α) (found : List α) : Parser (List α) := do
  return (← p) :: found

private theorem many_eq (p : Parser α) :
    many p = (extend (gather p) [] >>= fun found => pure found.reverse) := rfl

private theorem gather_outcome (p : Parser α) (found : List α) (s : List Char) :
    (gather p found).outcome s = (p.outcome s).map fun x => (x.1 :: found, x.2) := by
  cases read : p.outcome s <;> simp [gather, read]

private instance [Keeps p] (found : List α) : Keeps (gather p found) :=
  inferInstanceAs (Keeps (p >>= _))

private instance [Advances p] (found : List α) : Advances (gather p found) :=
  inferInstanceAs (Advances (p >>= _))

instance [Keeps p] : Keeps (many p) := by
  rw [many_eq]
  infer_instance

private theorem extend_gather_outcome [Advances p] (found : List α) (s : List Char) :
    (extend (gather p) found).outcome s =
      ((many p).outcome s).map fun x => (x.1.reverse ++ found, x.2) := by
  induction length : s.length using Nat.strong_induction_on generalizing found s with
  | _ n ih =>
      subst length
      rw [many_eq, outcome_bind]
      cases read : p.outcome s with
      | none =>
          have missed : ∀ found, (gather p found).outcome s = none := by simp [gather_outcome, read]
          rw [outcome_extend_of_none (missed found), outcome_extend_of_none (missed [])]
          simp
      | some x =>
          have first : ∀ found, (gather p found).outcome s = some (x.1 :: found, x.2) := by
            simp [gather_outcome, read]
          have less := Advances.shorter read
          rw [outcome_extend_of_some (first found), outcome_extend_of_some (first []),
            ih _ less _ _ rfl, ih _ less _ _ rfl]
          cases (many p).outcome x.2 <;> simp

/-- One item and then as many as follow. -/
theorem outcome_many_of_some [Advances p] {a : α} {s rest : List Char}
    (read : p.outcome s = some (a, rest)) :
    (many p).outcome s = ((many p).outcome rest).map fun x => (a :: x.1, x.2) := by
  have first : (gather p []).outcome s = some ([a], rest) := by simp [gather_outcome, read]
  conv_lhs => rw [many_eq]
  rw [outcome_bind, outcome_extend_of_some first, extend_gather_outcome]
  cases (many p).outcome rest <;> simp

/-- No item at all. -/
theorem outcome_many_of_none {s : List Char} (missed : p.outcome s = none) :
    (many p).outcome s = some ([], s) := by
  have first : (gather p []).outcome s = none := by simp [gather_outcome, missed]
  rw [many_eq, outcome_bind, outcome_extend_of_none first]
  rfl

end Many

end LineScript.Parse.Parser
