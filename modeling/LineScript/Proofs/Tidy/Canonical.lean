import Mathlib.Data.List.Chain
import LineScript.Proofs.Tidy.Meaning

/-! # Tidy texts are canonical

A tidy text is laid out as it is already, so tidying it again changes nothing.
Its blank lines are single and stand between statements only, and they stand
where the text that was tidied has blank lines too.
-/

namespace LineScript.Tidy

theorem classify?_nil : Line.classify? [] = none := rfl

/-- A blank line stands behind the first `n` statements and before another one. -/
def GapAfter (n : Nat) (lines : List (List Char)) : Prop :=
  ∃ before raw behind, lines = before ++ raw :: behind ∧ Text.trim raw = [] ∧
    (before.filterMap Line.classify?).length = n ∧ behind.filterMap Line.classify? ≠ []

/-- Blank lines stand neither first nor last, and never two in a row. -/
structure Spaced (lines : List (List Char)) : Prop where
  first : ∀ raw ∈ lines.head?, Text.trim raw ≠ []
  last : ∀ raw ∈ lines.getLast?, Text.trim raw ≠ []
  apart : lines.IsChain fun raw next => Text.trim raw = [] → Text.trim next ≠ []

/-! ## Gaps from line to line -/

section Gaps

variable {n : Nat} {raw : List Char} {line : Line} {rest : List (List Char)}

theorem not_gapAfter_nil : ¬ GapAfter n [] := by
  rintro ⟨before, raw, behind, split, -⟩
  simp at split

theorem not_gapAfter_end : ¬ GapAfter n [[]] := by
  rintro ⟨before, raw, behind, split, -, -, more⟩
  cases before with
  | nil =>
      cases split
      exact more rfl
  | cons _ before => simp at split

theorem gapAfter_blank (blank : Line.classify? raw = none) :
    GapAfter n (raw :: rest) ↔
      (n = 0 ∧ rest.filterMap Line.classify? ≠ []) ∨ GapAfter n rest := by
  constructor
  · rintro ⟨before, raw', behind, split, blank', count, more⟩
    cases before with
    | nil =>
        cases split
        exact .inl ⟨count.symm, more⟩
    | cons _ before =>
        cases split
        exact .inr ⟨before, raw', behind, rfl, blank', by simpa [blank] using count, more⟩
  · rintro (⟨rfl, more⟩ | ⟨before, raw', behind, rfl, blank', count, more⟩)
    · exact ⟨[], raw, rest, rfl, Line.classify?_eq_none_iff.mp blank, rfl, more⟩
    · exact ⟨raw :: before, raw', behind, rfl, blank', by simpa [blank] using count, more⟩

theorem gapAfter_statement (classified : Line.classify? raw = some line) :
    GapAfter n (raw :: rest) ↔ ∃ k, n = k + 1 ∧ GapAfter k rest := by
  constructor
  · rintro ⟨before, raw', behind, split, blank, count, more⟩
    cases before with
    | nil =>
        cases split
        simp [Line.classify?_eq_none_iff.mpr blank] at classified
    | cons _ before =>
        cases split
        refine ⟨_, ?_, before, raw', behind, rfl, blank, rfl, more⟩
        simpa [classified] using count.symm
  · rintro ⟨k, rfl, before, raw', behind, rfl, blank, count, more⟩
    exact ⟨raw :: before, raw', behind, rfl, blank, by simpa [classified] using count, more⟩

end Gaps

/-! ## The lines of a tidy text -/

/-- A statement is laid out as a text that is that statement, whatever it looked like before. -/
theorem exists_text {raw : List Char} {line : Line} (classified : Line.classify? raw = some line)
    (depth : Nat) :
    ∃ (text : String) (following : Nat), Line.classify? text.toList = some line ∧
      ∀ raw, Line.classify? raw = some line → ∀ started gap rest,
        layout depth started gap (raw :: rest) =
          (if gap then [""] else []) ++ text :: layout following true false rest := by
  let indent := if line.closes then depth - 1 else depth
  refine ⟨indentation indent ++ line.spelling, if line.opens then indent + 1 else indent,
    Line.classify?_spelling classified indent, ?_⟩
  intro raw same started gap rest
  exact layout_statement same depth started gap rest

theorem layout_eq_nil_iff (depth : Nat) (started gap : Bool) (raws : List (List Char)) :
    layout depth started gap raws = [] ↔ raws.filterMap Line.classify? = [] := by
  induction raws generalizing depth started gap with
  | nil => simp [layout]
  | cons raw rest ih =>
      cases classified : Line.classify? raw with
      | none => simp [layout_blank classified, classified, ih]
      | some line => simp [layout_statement classified, classified]

/-- Lines that are laid out are left as they are. Where a gap is still to be laid out, its empty
    line is laid out first. -/
theorem layout_layout {depth : Nat} {started gap : Bool} (later : gap = true → started = true)
    (raws : List (List Char)) :
    layout depth started false ((layout depth started gap raws).map String.toList ++ [[]]) =
      layout depth started gap raws := by
  induction raws generalizing depth started gap with
  | nil => simp [layout, classify?_nil]
  | cons raw rest ih =>
      cases classified : Line.classify? raw with
      | none =>
          rw [layout_blank classified]
          exact ih id
      | some line =>
          obtain ⟨text, following, again, laid⟩ := exists_text classified depth
          have behind := @ih following true false (by simp)
          cases gap with
          | false => simp [laid raw classified, laid _ again, behind]
          | true =>
              obtain rfl := later rfl
              simp [laid raw classified, layout_blank classify?_nil, laid _ again, behind]

theorem spaced_layout (depth : Nat) (started gap : Bool) (raws : List (List Char)) :
    let lines := (layout depth started gap raws).map String.toList
    (∀ raw ∈ lines.getLast?, Text.trim raw ≠ []) ∧
      lines.IsChain fun raw next => Text.trim raw = [] → Text.trim next ≠ [] := by
  induction raws generalizing depth started gap with
  | nil => simp [layout]
  | cons raw rest ih =>
      cases classified : Line.classify? raw with
      | none =>
          rw [layout_blank classified]
          exact ih depth started started
      | some line =>
          obtain ⟨text, following, again, laid⟩ := exists_text classified depth
          obtain ⟨last, apart⟩ := ih following true false
          have solid := (Line.classify?_eq_some_iff.mp again).1
          rw [laid raw classified]
          constructor
          · cases end_ : ((layout following true false rest).map String.toList).getLast? with
            | none => simpa [List.getLast?_append, List.getLast?_cons, end_] using solid
            | some raw =>
                simpa [List.getLast?_append, List.getLast?_cons, end_] using last raw end_
          · cases gap <;> simp [List.isChain_cons, solid, apart]

theorem layout_first (depth : Nat) (raws : List (List Char)) :
    ∀ raw ∈ ((layout depth false false raws).map String.toList).head?, Text.trim raw ≠ [] := by
  induction raws with
  | nil => simp [layout]
  | cons raw rest ih =>
      cases classified : Line.classify? raw with
      | none =>
          rw [layout_blank classified]
          exact ih
      | some line =>
          obtain ⟨text, following, again, laid⟩ := exists_text classified depth
          have solid := (Line.classify?_eq_some_iff.mp again).1
          simpa [laid raw classified] using solid

/-- Behind a statement gaps are kept, and one that is still to be laid out is added in front. -/
theorem gapAfter_layout {n : Nat} (depth : Nat) (gap : Bool) (raws : List (List Char)) :
    GapAfter n ((layout depth true gap raws).map String.toList ++ [[]]) ↔
      GapAfter n raws ∨ (n = 0 ∧ gap = true ∧ raws.filterMap Line.classify? ≠ []) := by
  induction raws generalizing depth gap n with
  | nil => simp [layout, not_gapAfter_end, not_gapAfter_nil]
  | cons raw rest ih =>
      cases classified : Line.classify? raw with
      | none =>
          rw [layout_blank classified, ih, gapAfter_blank classified]
          simp only [List.filterMap_cons_none classified]
          tauto
      | some line =>
          obtain ⟨text, following, again, laid⟩ := exists_text classified depth
          have inner : ∀ n, GapAfter n (text.toList ::
              ((layout following true false rest).map String.toList ++ [[]])) ↔
                GapAfter n (raw :: rest) := by
            intro n
            simp [gapAfter_statement again, gapAfter_statement classified, ih]
          rw [laid raw classified]
          cases gap with
          | false => simpa using inner n
          | true => simp [gapAfter_blank classify?_nil, inner, again, classified, or_comm]

/-- Gaps in front of the first statement are lost, and all others are kept. -/
theorem gapAfter_layout_start {n : Nat} (depth : Nat) (raws : List (List Char)) :
    GapAfter (n + 1) ((layout depth false false raws).map String.toList ++ [[]]) ↔
      GapAfter (n + 1) raws := by
  induction raws with
  | nil => simp [layout, not_gapAfter_end, not_gapAfter_nil]
  | cons raw rest ih =>
      cases classified : Line.classify? raw with
      | none => simp [layout_blank classified, ih, gapAfter_blank classified]
      | some line =>
          obtain ⟨text, following, again, laid⟩ := exists_text classified depth
          simp [laid raw classified, gapAfter_statement again, gapAfter_statement classified,
            gapAfter_layout]

/-! ## The tidy text -/

/-- The lines that a source text is laid out in. -/
def linesOf (source : String) : List String :=
  layout 0 false false (Text.splitLines source.toList)

theorem linesOf_eq_nil_iff (source : String) :
    linesOf source = [] ↔ Listing.ofSource source = [] := by
  rw [linesOf, layout_eq_nil_iff, ← Listing.ofLines_lines 1, List.map_eq_nil_iff]
  rfl

theorem splitLines_joinLines_linesOf {source : String} (some_ : linesOf source ≠ []) :
    Text.splitLines (Text.joinLines (linesOf source)).toList =
      (linesOf source).map String.toList := by
  refine Text.splitLines_joinLines (layout_oneLine 0 false false ?_) some_
  intro raw member
  exact Text.not_mem_of_mem_split member

theorem spaced_linesOf (source : String) : Spaced ((linesOf source).map String.toList) where
  first := layout_first 0 _
  last := (spaced_layout 0 false false _).1
  apart := (spaced_layout 0 false false _).2

/-- The lines that are laid out make up a text which ends with no line feed of its own. -/
theorem exists_joinLines_linesOf {source : String} (some_ : linesOf source ≠ []) :
    ∃ text c, (Text.joinLines (linesOf source)).toList = text ++ [c] ∧ c ≠ '\n' := by
  have joined := splitLines_joinLines_linesOf some_
  have last := (spaced_linesOf source).last
  rcases List.eq_nil_or_concat (Text.joinLines (linesOf source)).toList with empty | ⟨text, c, ends⟩
  · rw [empty] at joined
    have alone : (linesOf source).map String.toList = [[]] := joined.symm
    simp [alone] at last
  · refine ⟨text, c, by simpa using ends, ?_⟩
    rintro rfl
    -- A line feed at the end would be followed by an empty last line.
    rw [ends, List.concat_eq_append, Text.splitLines_append] at joined
    simp [← joined, Text.splitLines] at last

theorem tidy_eq_append {source : String} (some_ : linesOf source ≠ []) :
    tidy source = Text.joinLines (linesOf source) ++ "\n" := by
  obtain ⟨text, c, ends, -⟩ := exists_joinLines_linesOf some_
  have full : ¬ (Text.joinLines (linesOf source)).isEmpty = true := by
    rw [String.isEmpty_iff]
    intro empty
    simp [empty] at ends
  exact if_neg full

theorem tidy_eq_empty {source : String} (none_ : linesOf source = []) : tidy source = "" := by
  rw [linesOf] at none_
  rw [tidy, none_]
  rfl

/-- The lines of the tidy text are those laid out, with nothing behind the line feed at its end. -/
theorem splitLines_tidy (source : String) :
    Text.splitLines (tidy source).toList = (linesOf source).map String.toList ++ [[]] := by
  by_cases none_ : linesOf source = []
  · rw [tidy_eq_empty none_, none_]
    rfl
  · have ended : ("\n" : String).toList = '\n' :: [] := rfl
    rw [tidy_eq_append none_, String.toList_append, ended, Text.splitLines_append,
      splitLines_joinLines_linesOf none_]
    rfl

theorem linesOf_tidy (source : String) : linesOf (tidy source) = linesOf source := by
  rw [linesOf, splitLines_tidy]
  exact layout_layout (by simp) _

/-- Tidying a tidy text changes nothing. The tidy text is empty exactly if there is no statement.
    Otherwise it ends with exactly one line feed, its first and its last line are not blank, and no
    two blank lines follow each other. It has the statements of the source in their order, and a
    blank line between two that follow each other exactly if there is one in the source. -/
theorem tidy_canonical (source : String) :
    tidy (tidy source) = tidy source ∧
      (tidy source = "" ↔ Listing.ofSource source = []) ∧
      (Listing.ofSource source ≠ [] →
        (∃ text c, (tidy source).toList = text ++ [c, '\n'] ∧ c ≠ '\n') ∧
        ∃ lines, lines ≠ [] ∧ Text.splitLines (tidy source).toList = lines ++ [[]] ∧
          Spaced lines) ∧
      (Text.splitLines (tidy source).toList).filterMap Line.classify? =
        (Text.splitLines source.toList).filterMap Line.classify? ∧
      ∀ n, GapAfter (n + 1) (Text.splitLines (tidy source).toList) ↔
        GapAfter (n + 1) (Text.splitLines source.toList) := by
  refine ⟨?_, ?_, ?_, tidy_statements source, ?_⟩
  · have same := linesOf_tidy source
    rw [linesOf, linesOf] at same
    rw [tidy, same]
    rfl
  · rw [← linesOf_eq_nil_iff]
    refine ⟨?_, tidy_eq_empty⟩
    intro empty
    have lines := splitLines_tidy source
    simpa [empty, Text.splitLines] using lines
  · rw [ne_eq, ← linesOf_eq_nil_iff]
    intro some_
    obtain ⟨text, c, ends, other⟩ := exists_joinLines_linesOf some_
    refine ⟨⟨text, c, ?_, other⟩, _, ?_, splitLines_tidy source, spaced_linesOf source⟩
    · simp [tidy_eq_append some_, ends]
    · simpa using some_
  · intro n
    rw [splitLines_tidy]
    exact gapAfter_layout_start 0 _

end LineScript.Tidy
