import LineScript.Proofs.Grammar.Blank

/-! # Words

Keywords, names and the constants of scripts are told apart by the longest word
at the front of a text: all the characters up to the first that cannot stand in
a name.
-/

namespace LineScript.Grammar

open Parse Parser

theorem spelling_ne_nil (t : Token) : t.spelling ≠ [] := by
  cases t <;> decide

instance (t : Token) : Advances (token t) :=
  have : Advances (word t.spelling) := advances_word (spelling_ne_nil t)
  inferInstanceAs (Advances (expecting _ (word t.spelling)))

instance (t : Terminal) (p : Char → Bool) : Advances (oneOf t p) :=
  inferInstanceAs (Advances (expecting _ (char p)))

instance : Keeps endOfName := inferInstanceAs (Keeps (absent _))

instance (t : Token) : Advances (keyword t) :=
  inferInstanceAs (Advances (token t >>= fun _ => endOfName))

instance : Advances identifier :=
  inferInstanceAs (Advances (expecting _ (slice _ >>= _)))

instance : Advances methodName :=
  inferInstanceAs (Advances (slice _ >>= _))

@[simp]
theorem outcome_token (t : Token) (s : List Char) :
    (token t).outcome s = (Text.after? t.spelling s).map fun rest => ((), rest) := by
  rw [token, outcome_expecting, outcome_word]

theorem run_token (t : Token) (s : List Char) :
    (token t).outcome (t.spelling ++ s) = some ((), s) := by
  rw [outcome_token, Text.after?_append, Option.map_some]

theorem token_success {t : Token} {s rest : List Char} {a : Unit}
    (read : (token t).outcome s = some (a, rest)) : s = t.spelling ++ rest := by
  rw [token, outcome_expecting] at read
  exact word_success read

/-- A token that starts with another character is not read. -/
theorem miss_token {t : Token} {w c : Char} {s : List Char} (first : t.spelling.head? = some w)
    (other : c ≠ w) : (token t).outcome (c :: s) = none := by
  cases read : (token t).outcome (c :: s) with
  | none => rfl
  | some x =>
      have split := token_success read
      cases spelled : t.spelling with
      | nil => exact absurd spelled (spelling_ne_nil t)
      | cons d word =>
          rw [spelled] at first split
          cases first
          cases split
          exact absurd rfl other

theorem miss_token_nil (t : Token) : (token t).outcome [] = none := by
  cases read : (token t).outcome [] with
  | none => rfl
  | some x =>
      have less := Advances.shorter read
      cases less

theorem miss_keyword {t : Token} {w c : Char} {s : List Char} (first : t.spelling.head? = some w)
    (other : c ≠ w) : (keyword t).outcome (c :: s) = none :=
  stop_bind (miss_token first other)

@[simp]
theorem outcome_oneOf_nil (t : Terminal) (p : Char → Bool) : (oneOf t p).outcome [] = none := rfl

@[simp]
theorem outcome_oneOf_cons (t : Terminal) (p : Char → Bool) (c : Char) (s : List Char) :
    (oneOf t p).outcome (c :: s) = if p c then some (c, s) else none := by
  rw [oneOf, outcome_expecting, outcome_char_cons]

/-- A word is read where it is the whole word at the front. -/
theorem outcome_keyword {t : Token} (isWord : t.spelling.all Name.isPart = true) (s : List Char) :
    (keyword t).outcome s =
      if s.takeWhile Name.isPart = t.spelling then some ((), s.dropWhile Name.isPart) else none := by
  rw [List.all_eq_true] at isWord
  rw [keyword, outcome_bind, outcome_token]
  cases found : Text.after? t.spelling s with
  | none =>
      rw [if_neg]
      · rfl
      · intro same
        have parts := List.takeWhile_append_dropWhile (p := Name.isPart) (l := s)
        rw [same] at parts
        rw [← parts, Text.after?_append] at found
        cases found
  | some rest =>
      have split := Text.after?_eq_some_iff.mp found
      subst split
      rw [List.takeWhile_append_of_pos isWord, List.dropWhile_append_of_pos isWord]
      cases rest with
      | nil => simp [endOfName]
      | cons c rest =>
          by_cases part : Name.isPart c = true
          · simp [endOfName, part]
          · simp [endOfName, part]

theorem isPart_of_isStart {c : Char} (start : Name.isStart c = true) : Name.isPart c = true := by
  simp [Name.isPart, start]

@[simp]
theorem outcome_identifier_nil : identifier.outcome [] = none := rfl

/-- A name is the whole word at the front, unless that is reserved. -/
theorem outcome_identifier_cons (c : Char) (s : List Char) :
    identifier.outcome (c :: s) =
      if Name.isStart c = true ∧
          reservedWords.contains ((c :: s).takeWhile Name.isPart) = false then
        some (String.ofList ((c :: s).takeWhile Name.isPart), (c :: s).dropWhile Name.isPart)
      else none := by
  rw [identifier, outcome_expecting, outcome_bind]
  by_cases start : Name.isStart c = true
  · have part := isPart_of_isStart start
    have parts := List.takeWhile_append_dropWhile (p := Name.isPart) (l := c :: s)
    have read : (slice (do let _ ← char Name.isStart; skipWhile Name.isPart)).outcome (c :: s) =
        some ((c :: s).takeWhile Name.isPart, (c :: s).dropWhile Name.isPart) := by
      have word := @outcome_slice_append _ (do let _ ← char Name.isStart; skipWhile Name.isPart)
        () ((c :: s).takeWhile Name.isPart) ((c :: s).dropWhile Name.isPart)
      rw [parts] at word
      apply word
      simp [start, part]
    rw [read, Option.bind_some]
    by_cases reserved : reservedWords.contains ((c :: s).takeWhile Name.isPart) = true
    · rw [if_pos reserved, if_neg (by simp only [reserved]; simp)]
      rfl
    · rw [if_neg reserved, if_pos ⟨start, by simpa using reserved⟩]
      rfl
  · have missed : (slice (do let _ ← char Name.isStart; skipWhile Name.isPart)).outcome (c :: s) =
        none := by simp [start]
    rw [missed, if_neg fun both => start both.1]
    rfl

/-- All that is read as a name has the form of one and is not reserved. -/
theorem identifier_of_outcome {s rest : List Char} {n : String}
    (read : identifier.outcome s = some (n, rest)) :
    ∃ c w, Name.isStart c = true ∧ (∀ d ∈ w, Name.isPart d = true) ∧
      reservedWords.contains (c :: w) = false ∧ n = String.ofList (c :: w) ∧ s = c :: w ++ rest := by
  cases s with
  | nil => cases read
  | cons c s =>
      rw [outcome_identifier_cons] at read
      split at read
      · next free =>
          cases read
          have part := isPart_of_isStart free.1
          rw [List.takeWhile_cons_of_pos part] at free ⊢
          refine ⟨c, _, free.1, fun d member => List.mem_takeWhile_imp member, free.2, rfl, ?_⟩
          rw [List.dropWhile_cons_of_pos part, List.cons_append, List.takeWhile_append_dropWhile]
      · cases read

end LineScript.Grammar
