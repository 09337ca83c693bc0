import Mathlib
import LineScript.Parse.Mistake
import LineScript.Text.Lines

/-! # Outcomes of parsers

What a combinator reads is told by what its parts read. The rules below are
equations between outcomes, so that a grammar can be run on a text known only in
part. Misses never appear in them.
-/

namespace LineScript.Text

/-- What follows the first `word` of a text, wherever that stands. -/
def behind? (word : List Char) : List Char → Option (List Char)
  | [] => after? word []
  | c :: s => (after? word (c :: s)).or (behind? word s)

@[simp]
theorem after?_append (word s : List Char) : after? word (word ++ s) = some s :=
  after?_eq_some_iff.mpr rfl

theorem split_of_behind? {word s rest : List Char} (found : behind? word s = some rest) :
    ∃ before, s = before ++ (word ++ rest) := by
  induction s with
  | nil => exact ⟨[], by simpa using after?_eq_some_iff.mp found⟩
  | cons c s ih =>
      rw [behind?] at found
      cases here : after? word (c :: s) with
      | some behind =>
          rw [here, Option.some_or] at found
          cases found
          exact ⟨[], by simpa using after?_eq_some_iff.mp here⟩
      | none =>
          rw [here, Option.none_or] at found
          obtain ⟨before, rfl⟩ := ih found
          exact ⟨c :: before, rfl⟩

/-- A found word stays the first one when more text follows. -/
theorem behind?_append {word s rest : List Char} (found : behind? word s = some rest)
    (more : List Char) : behind? word (s ++ more) = some (rest ++ more) := by
  induction s with
  | nil =>
      obtain ⟨rfl, rfl⟩ := List.append_eq_nil_iff.mp (after?_eq_some_iff.mp found).symm
      cases more <;> rfl
  | cons c s ih =>
      rw [behind?] at found
      rw [List.cons_append, behind?]
      cases here : after? word (c :: s) with
      | some behind =>
          rw [here, Option.some_or] at found
          cases found
          rw [← List.cons_append, after?_eq_some_iff.mp here, List.append_assoc, after?_append,
            Option.some_or]
      | none =>
          rw [here, Option.none_or] at found
          rw [ih found]
          cases early : after? word (c :: (s ++ more)) with
          | none => rfl
          | some behind =>
              -- The word is found later in `s`, so it is short enough to be found here in `c :: s`.
              obtain ⟨before, later⟩ := split_of_behind? found
              have whole : word <+: c :: (s ++ more) := ⟨behind, (after?_eq_some_iff.mp early).symm⟩
              have part : c :: s <+: c :: (s ++ more) := List.prefix_append (c :: s) more
              have short : word.length ≤ (c :: s).length := by
                simp only [later, List.length_cons, List.length_append]
                omega
              obtain ⟨tail, eq⟩ := List.prefix_of_prefix_length_le whole part short
              rw [← eq, after?_append] at here
              cases here

end LineScript.Text

namespace LineScript.Parse.Parser

variable {α β ι : Type}

/-- The answer at a cursor is the outcome on the text that is left there. -/
theorem result_eq_outcome (p : Parser α) (cur : Cursor) :
    (p cur).result = (p.outcome cur.rest).map fun x => (x.1, Cursor.ofList x.2) := by
  simp only [outcome, Cursor.ofList_rest, Option.map_map, Function.comp_def, Prod.mk.eta,
    Option.map_id_fun', id_eq]

theorem result_ofList (p : Parser α) (s : List Char) :
    (p (Cursor.ofList s)).result = (p.outcome s).map fun x => (x.1, Cursor.ofList x.2) :=
  result_eq_outcome p (Cursor.ofList s)

@[simp]
theorem outcome_pure (a : α) (s : List Char) : (pure a : Parser α).outcome s = some (a, s) := rfl

@[simp]
theorem outcome_bind (p : Parser α) (f : α → Parser β) (s : List Char) :
    (p >>= f).outcome s = (p.outcome s).bind fun x => (f x.1).outcome x.2 :=
  outcome_andThen p f s

@[simp]
theorem outcome_choice (p q : Parser α) (s : List Char) :
    (p <|> q).outcome s = (p.outcome s).or (q.outcome s) :=
  outcome_orElse p q s

@[simp]
theorem outcome_fail (s : List Char) : (fail : Parser α).outcome s = none := rfl

@[simp]
theorem outcome_quiet (p : Parser α) (s : List Char) : (quiet p).outcome s = p.outcome s := rfl

@[simp]
theorem outcome_expecting (wanted : Wanted) (p : Parser α) (s : List Char) :
    (expecting wanted p).outcome s = p.outcome s := by
  unfold outcome expecting
  cases (p (Cursor.ofList s)).result <;> rfl

@[simp]
theorem outcome_ahead (p : Parser α) (s : List Char) :
    (ahead p).outcome s = (p.outcome s).map fun _ => ((), s) := by
  unfold outcome ahead
  cases (p (Cursor.ofList s)).result <;> rfl

@[simp]
theorem outcome_absent (p : Parser α) (s : List Char) :
    (absent p).outcome s = if (p.outcome s).isSome then none else some ((), s) := by
  unfold outcome absent
  cases (p (Cursor.ofList s)).result <;> rfl

@[simp]
theorem outcome_char_nil (p : Char → Bool) : (char p).outcome [] = none := rfl

@[simp]
theorem outcome_char_cons (p : Char → Bool) (c : Char) (s : List Char) :
    (char p).outcome (c :: s) = if p c then some (c, s) else none := by
  simp only [outcome, char, Cursor.next?_ofList_cons]
  split <;> rfl

private theorem skip?_ofList (text s : List Char) :
    (Cursor.ofList s).skip? text = (Text.after? text s).map Cursor.ofList := by
  induction text generalizing s with
  | nil => rfl
  | cons w text ih =>
      cases s with
      | nil => rfl
      | cons c s =>
          by_cases same : c = w
          · simp [Cursor.skip?, Text.after?, same, ih]
          · simp [Cursor.skip?, Text.after?, same, Ne.symm same]

@[simp]
theorem outcome_word (text s : List Char) :
    (word text).outcome s = (Text.after? text s).map fun rest => ((), rest) := by
  unfold outcome word
  rw [skip?_ofList]
  cases Text.after? text s <;> rfl

private theorem skipPast?_ofList (text s : List Char) :
    (Cursor.ofList s).skipPast? text = (Text.behind? text s).map Cursor.ofList := by
  suffices at_ : ∀ (s : List Char) (n : Nat) (h : n = s.length),
      Cursor.skipPast?.go text s n h = (Text.behind? text s).map Cursor.ofList by
    exact at_ s s.length rfl
  intro s
  induction s with
  | nil =>
      intro n h
      subst h
      exact skip?_ofList text []
  | cons c s ih =>
      intro n h
      subst h
      simp only [Cursor.skipPast?.go, Text.behind?, ih]
      have here := skip?_ofList text (c :: s)
      simp only [Cursor.ofList] at here
      rw [here]
      cases Text.after? text (c :: s) <;> rfl

@[simp]
theorem outcome_skipPast (text s : List Char) :
    (skipPast text).outcome s = (Text.behind? text s).map fun rest => ((), rest) := by
  unfold outcome skipPast
  rw [skipPast?_ofList]
  cases Text.behind? text s <;> rfl

private theorem skipWhile_ofList (p : Char → Bool) (s : List Char) :
    (Cursor.ofList s).skipWhile p = Cursor.ofList (s.dropWhile p) := by
  suffices at_ : ∀ (s : List Char) (n : Nat) (h : n = s.length),
      Cursor.skipWhile.go p s n h = Cursor.ofList (s.dropWhile p) by
    exact at_ s s.length rfl
  intro s
  induction s with
  | nil => intro n h; subst h; rfl
  | cons c s ih =>
      intro n h
      subst h
      by_cases inside : p c
      · simp only [Cursor.skipWhile.go, inside, if_true, ih, List.dropWhile_cons]
      · simp only [Cursor.skipWhile.go, inside, List.dropWhile_cons]
        rfl

@[simp]
theorem outcome_skipWhile (p : Char → Bool) (s : List Char) :
    (skipWhile p).outcome s = some ((), s.dropWhile p) := by
  unfold outcome skipWhile
  rw [skipWhile_ofList]
  rfl

@[simp]
theorem outcome_atEnd_nil : atEnd.outcome [] = some ((), []) := rfl

@[simp]
theorem outcome_atEnd_cons (c : Char) (s : List Char) : atEnd.outcome (c :: s) = none := by
  simp [atEnd]

@[simp]
theorem outcome_slice (p : Parser α) (s : List Char) :
    (slice p).outcome s =
      (p.outcome s).map fun x => (s.take (s.length - x.2.length), x.2) := by
  unfold outcome slice
  cases reply : p (Cursor.ofList s) with
  | mk result misses =>
      cases result with
      | none => rfl
      | some x => simp [Cursor.upTo, Cursor.ofList, x.2.left_eq]

/-- What a slice gives is what was read. -/
theorem outcome_slice_append {p : Parser α} {a : α} {u rest : List Char}
    (read : p.outcome (u ++ rest) = some (a, rest)) :
    (slice p).outcome (u ++ rest) = some (u, rest) := by
  rw [outcome_slice, read, Option.map_some, List.length_append, Nat.add_sub_cancel, List.take_left]

@[simp]
theorem outcome_optional (p : Parser α) (s : List Char) :
    (optional p).outcome s = some (((p.outcome s).map fun x => (some x.1, x.2)).getD (none, s)) := by
  unfold outcome optional
  cases reply : p (Cursor.ofList s) with
  | mk result misses => cases result <;> rfl

@[simp]
theorem outcome_firstOf (ps : List (Parser α)) (s : List Char) :
    (firstOf ps).outcome s = ps.findSome? (·.outcome s) := by
  induction ps with
  | nil => rfl
  | cons p ps ih =>
      rw [firstOf, outcome_orElse, ih, List.findSome?_cons]
      cases p.outcome s <;> rfl

/-! ## Running a parser step by step -/

section Run

variable {p q : Parser α} {f : α → Parser β} {s rest : List Char} {a : α}

theorem run_bind (first : p.outcome s = some (a, rest)) :
    (p >>= f).outcome s = (f a).outcome rest := by
  rw [outcome_bind, first, Option.bind_some]

theorem stop_bind (first : p.outcome s = none) : (p >>= f).outcome s = none := by
  rw [outcome_bind, first, Option.bind_none]

theorem run_choice (first : p.outcome s = some (a, rest)) :
    (p <|> q).outcome s = some (a, rest) := by
  rw [outcome_choice, first, Option.some_or]

theorem next_choice (first : p.outcome s = none) : (p <|> q).outcome s = q.outcome s := by
  rw [outcome_choice, first, Option.none_or]

theorem run_optional (read : p.outcome s = some (a, rest)) :
    (optional p).outcome s = some (some a, rest) := by
  rw [outcome_optional, read]
  rfl

theorem pass_optional (missed : p.outcome s = none) : (optional p).outcome s = some (none, s) := by
  rw [outcome_optional, missed]
  rfl

theorem run_absent (missed : p.outcome s = none) : (absent p).outcome s = some ((), s) := by
  rw [outcome_absent, missed]
  rfl

end Run

/-! ## Taking a success apart -/

section Success

variable {p q : Parser α} {f : α → Parser β} {s rest : List Char}

theorem bind_success {b : β} (h : (p >>= f).outcome s = some (b, rest)) :
    ∃ a mid, p.outcome s = some (a, mid) ∧ (f a).outcome mid = some (b, rest) := by
  rw [outcome_bind] at h
  obtain ⟨⟨a, mid⟩, first, second⟩ := Option.bind_eq_some_iff.mp h
  exact ⟨a, mid, first, second⟩

theorem choice_success {a : α} (h : (p <|> q).outcome s = some (a, rest)) :
    p.outcome s = some (a, rest) ∨ (p.outcome s = none ∧ q.outcome s = some (a, rest)) := by
  rwa [outcome_choice, Option.or_eq_some_iff] at h

theorem pure_success {a b : α} (h : (pure a : Parser α).outcome s = some (b, rest)) :
    b = a ∧ rest = s := by
  cases h
  exact ⟨rfl, rfl⟩

theorem optional_success {found : Option α} (h : (optional p).outcome s = some (found, rest)) :
    (∃ a, found = some a ∧ p.outcome s = some (a, rest)) ∨
      (found = none ∧ rest = s ∧ p.outcome s = none) := by
  rw [outcome_optional] at h
  cases read : p.outcome s with
  | none =>
      rw [read] at h
      cases h
      exact .inr ⟨rfl, rfl, rfl⟩
  | some x =>
      rw [read] at h
      cases h
      exact .inl ⟨x.1, rfl, rfl⟩

theorem word_success {text : List Char} {a : Unit} (h : (word text).outcome s = some (a, rest)) :
    s = text ++ rest := by
  rw [outcome_word, Option.map_eq_some_iff] at h
  obtain ⟨behind, found, same⟩ := h
  cases same
  exact Text.after?_eq_some_iff.mp found

theorem char_success {c : Char → Bool} {d : Char} (h : (char c).outcome s = some (d, rest)) :
    c d = true ∧ s = d :: rest := by
  cases s with
  | nil => cases h
  | cons e s =>
      rw [outcome_char_cons] at h
      split at h
      · cases h
        exact ⟨by assumption, rfl⟩
      · cases h

theorem absent_success {a : Unit} (h : (absent p).outcome s = some (a, rest)) :
    rest = s ∧ p.outcome s = none := by
  rw [outcome_absent] at h
  split at h
  · cases h
  · next missed =>
      cases h
      exact ⟨rfl, by simpa using missed⟩

theorem slice_success {u : List Char} (h : (slice p).outcome s = some (u, rest)) :
    ∃ a, p.outcome s = some (a, rest) ∧ u = s.take (s.length - rest.length) := by
  rw [outcome_slice, Option.map_eq_some_iff] at h
  obtain ⟨⟨a, mid⟩, read, same⟩ := h
  cases same
  exact ⟨a, read, rfl⟩

end Success

/-! ## Reading a whole text -/

theorem readAll_eq_ok_iff {ending : Wanted} {p : Parser α} {s : List Char} {a : α} :
    p.readAll ending s = .ok a ↔ p.outcome s = some (a, []) := by
  have finished : ∀ x : α × List Char,
      (do expecting ending atEnd; return x.1 : Parser α).outcome x.2 =
        if x.2 = [] then some (x.1, []) else none := by
    rintro ⟨b, rest⟩
    cases rest <;> simp
  have answer := result_ofList (do let b ← p; expecting ending atEnd; return b) s
  rw [outcome_bind] at answer
  simp only [finished] at answer
  simp only [readAll]
  rw [answer]
  cases whole : p.outcome s with
  | none => simp
  | some x =>
      obtain ⟨b, rest⟩ := x
      by_cases done : rest = []
      · simp [done]
      · simp [done]

end LineScript.Parse.Parser
