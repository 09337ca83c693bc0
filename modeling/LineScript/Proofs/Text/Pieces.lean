import Mathlib.Data.List.DropRight
import LineScript.Text.Blank
import LineScript.Text.Lines

/-! # Pieces of a text

Trimming takes nothing but blanks off the two ends, so that a text which neither
starts nor ends with a blank is left as it is. Cutting a text into lines undoes
joining them.
-/

namespace LineScript.Text

/-! ## Trimming -/

theorem trimEnd_eq_rdropWhile (s : List Char) : trimEnd s = s.rdropWhile isBlank := rfl

theorem trim_sublist (s : List Char) : (trim s).Sublist s := by
  have start : (trimStart s).Sublist s := (List.dropWhile_suffix _).sublist
  have end_ : (trimEnd (trimStart s)).Sublist (trimStart s) :=
    (List.rdropWhile_prefix isBlank _).sublist
  exact end_.trans start

theorem trim_append_of_blank {b : List Char} (blank : ∀ c ∈ b, isBlank c = true) (s : List Char) :
    trim (b ++ s) = trim s := by
  rw [trim, trimStart, List.dropWhile_append_of_pos blank, trim, trimStart]

/-- What does not end with a blank is kept, together with all that stands before it. -/
theorem trimEnd_append {s t : List Char} (solid : trimEnd t ≠ []) :
    trimEnd (s ++ t) = s ++ trimEnd t := by
  have some_ : (t.reverse.dropWhile isBlank).isEmpty = false := by
    simpa [trimEnd] using solid
  simp [trimEnd, List.dropWhile_append, some_]

theorem trimEnd_append_of_blank {b : List Char} (blank : ∀ c ∈ b, isBlank c = true)
    (s : List Char) : trimEnd (s ++ b) = trimEnd s := by
  have reversed : ∀ c ∈ b.reverse, isBlank c = true := by simpa using blank
  rw [trimEnd, List.reverse_append, List.dropWhile_append_of_pos reversed, trimEnd]

theorem trim_cons {c : Char} (solid : isBlank c = false) (s : List Char) :
    trim (c :: s) = trimEnd (c :: s) := by
  rw [trim, trimStart, List.dropWhile_cons_of_neg (by simp [solid])]

theorem trimEnd_singleton {c : Char} (solid : isBlank c = false) : trimEnd [c] = [c] := by
  rw [trimEnd_eq_rdropWhile, List.rdropWhile_singleton, if_neg (by simp [solid])]

theorem trimEnd_trim (s : List Char) : trimEnd (trim s) = trim s :=
  List.rdropWhile_idempotent isBlank _

theorem isBlank_of_trim_eq_cons {s t : List Char} {c : Char} (trimmed : trim s = c :: t) :
    isBlank c = false := by
  -- The first character is also the first that trimming the start has left.
  obtain ⟨u, whole⟩ : trim s <+: trimStart s := List.rdropWhile_prefix isBlank _
  rw [trimmed] at whole
  have some_ : trimStart s ≠ [] := by simp [← whole]
  have first : (trimStart s).head some_ = c := by simp [← whole]
  rw [← first]
  exact List.head_dropWhile_not isBlank some_

@[simp]
theorem trim_trim (s : List Char) : trim (trim s) = trim s := by
  cases trimmed : trim s with
  | nil => rfl
  | cons c t => rw [trim_cons (isBlank_of_trim_eq_cons trimmed), ← trimmed, trimEnd_trim]

theorem trim_eq_nil_iff {s : List Char} : trim s = [] ↔ ∀ c ∈ s, isBlank c = true := by
  constructor
  · intro none_
    have start : ∀ c ∈ trimStart s, isBlank c = true :=
      (List.rdropWhile_eq_nil_iff (p := isBlank)).mp none_
    have first : ∀ c ∈ s.takeWhile isBlank, isBlank c = true := fun c => List.mem_takeWhile_imp
    have parts := List.takeWhile_append_dropWhile (p := isBlank) (l := s)
    intro c member
    rw [← parts, List.mem_append] at member
    exact member.elim (first c) (start c)
  · intro blank
    simpa using trim_append_of_blank blank []

theorem trim_append_blank {s b : List Char} (trimmed : trim s = s)
    (blank : ∀ c ∈ b, isBlank c = true) : trim (s ++ b) = s := by
  cases s with
  | nil => simpa using trim_append_of_blank blank []
  | cons c s =>
      have solid := isBlank_of_trim_eq_cons trimmed
      rw [List.cons_append, trim_cons solid, ← List.cons_append, trimEnd_append_of_blank blank,
        ← trim_cons solid, trimmed]

theorem trim_of_solid {s : List Char} (solid : ∀ c ∈ s, isBlank c = false) : trim s = s := by
  have start : trimStart s = s :=
    List.dropWhile_eq_self_iff.mpr fun some_ => by simp [solid _ (List.getElem_mem some_)]
  rw [trim, start, trimEnd_eq_rdropWhile, List.rdropWhile_eq_self_iff]
  intro some_
  simp [solid _ (List.getLast_mem some_)]

theorem exists_trim (s : List Char) : ∃ before behind, s = before ++ (trim s ++ behind) ∧
    (∀ c ∈ before, isBlank c = true) ∧ ∀ c ∈ behind, isBlank c = true := by
  refine ⟨s.takeWhile isBlank, (trimStart s).rtakeWhile isBlank, ?_,
    fun c => List.mem_takeWhile_imp, fun c => List.mem_rtakeWhile_imp⟩
  rw [trim, trimEnd_eq_rdropWhile, List.rdropWhile_append_rtakeWhile, trimStart,
    List.takeWhile_append_dropWhile]

theorem trim_between {before word behind : List Char} (blank : ∀ c ∈ before, isBlank c = true)
    (solid : ∀ c ∈ word, isBlank c = false) (blank' : ∀ c ∈ behind, isBlank c = true) :
    trim (before ++ (word ++ behind)) = word := by
  rw [trim_append_of_blank blank, trim_append_blank (trim_of_solid solid) blank']

/-! ## Cutting at a mark -/

theorem cut?_eq_some_iff {mark : Char} {s before behind : List Char} :
    cut? mark s = some (before, behind) ↔ s = before ++ mark :: behind ∧ mark ∉ before := by
  induction s generalizing before with
  | nil => simp [cut?]
  | cons c s ih =>
      by_cases same : c = mark
      · subst same
        cases before with
        | nil => simp [cut?]
        | cons d before => simp +contextual [cut?]
      · rw [cut?, if_neg same, Option.map_eq_some_iff]
        constructor
        · rintro ⟨⟨front, back⟩, found, eq⟩
          cases eq
          obtain ⟨rfl, clean⟩ := ih.mp found
          exact ⟨rfl, by simp [clean, Ne.symm same]⟩
        · rintro ⟨whole, clean⟩
          cases before with
          | nil => simp_all
          | cons d before =>
              rw [List.cons_append, List.cons.injEq] at whole
              obtain ⟨rfl, whole⟩ := whole
              rw [List.mem_cons, not_or] at clean
              exact ⟨(before, behind), ih.mpr ⟨whole, clean.2⟩, rfl⟩

/-! ## Lines -/

theorem split_cons (mark c : Char) (s : List Char) : split mark (c :: s) =
    if c = mark then [] :: split mark s else (split mark s).modifyHead (c :: ·) := by
  obtain ⟨first, rest, pieces⟩ := List.exists_cons_of_ne_nil (split_ne_nil mark s)
  rw [pieces]
  rw [split] at pieces
  rw [split, List.foldr_cons, pieces]
  rfl

theorem split_eq_splitOn (mark : Char) (s : List Char) : split mark s = s.splitOn mark := by
  induction s with
  | nil => rfl
  | cons c s ih =>
      rw [split_cons, ih]
      simp only [List.splitOn, List.splitOnP_cons_eq_if_modifyHead, beq_iff_eq]

theorem not_mem_of_mem_split {mark : Char} {s piece : List Char} (member : piece ∈ split mark s) :
    mark ∉ piece := by
  induction s generalizing piece with
  | nil =>
      obtain rfl := List.mem_singleton.mp member
      exact List.not_mem_nil
  | cons c s ih =>
      obtain ⟨first, rest, pieces⟩ := List.exists_cons_of_ne_nil (split_ne_nil mark s)
      rw [split_cons] at member
      rw [pieces] at member ih
      split at member
      · rcases List.mem_cons.mp member with rfl | member
        · exact List.not_mem_nil
        · exact ih member
      · next other =>
          rcases List.mem_cons.mp member with rfl | member
          · rw [List.mem_cons]
            exact not_or.mpr ⟨Ne.symm other, ih (List.mem_cons_self ..)⟩
          · exact ih (List.mem_cons_of_mem _ member)

theorem splitLines_append (s t : List Char) :
    splitLines (s ++ '\n' :: t) = splitLines s ++ splitLines t := by
  simp only [splitLines, split_eq_splitOn, List.splitOn]
  exact List.splitOnP_append_cons s t rfl

/-- Lines that are joined are cut apart again. -/
theorem splitLines_joinLines {lines : List String} (clean : ∀ l ∈ lines, '\n' ∉ l.toList)
    (some_ : lines ≠ []) : splitLines (joinLines lines).toList = lines.map String.toList := by
  rw [splitLines, split_eq_splitOn, joinLines, String.toList_intercalate]
  apply List.splitOn_intercalate '\n'
  · simpa using clean
  · simpa using some_

end LineScript.Text
