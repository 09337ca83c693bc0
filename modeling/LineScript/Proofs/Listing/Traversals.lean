import LineScript.Proofs.Listing.Shape
import LineScript.Proofs.Tidy.Canonical

/-! # One block structure for all

Generation, the search for findings and the tidy layout each walk through the statements on their
own. The first keeps the lines of the open blocks, the second their lines and words, and the third
only how many there are. All three are the stack of open blocks seen in different ways, so they
agree on which blocks are never closed, which closers close nothing and how far in a statement is.
-/

namespace LineScript

/-- The word that an opener starts with. -/
inductive Line.OpensWith : Line → String → Prop where
  | loop (count) : OpensWith (.loop count) "repeat"
  | test (condition) : OpensWith (.test condition) "check"

namespace Finding

def isStrayEnd : Finding → Bool
  | .strayEnd _ => true
  | _ => false

def isUnclosedBlock : Finding → Bool
  | .unclosedBlock _ _ => true
  | _ => false

/-- A finding says of an opener that its block is never closed. -/
def Reports (finding : Finding) (opener : Numbered) : Prop :=
  ∃ keyword, opener.line.OpensWith keyword ∧ finding = .unclosedBlock opener.number keyword

theorem Reports.line_eq {finding : Finding} {opener : Numbered}
    (reports : finding.Reports opener) : finding.line = opener.number := by
  obtain ⟨keyword, -, rfl⟩ := reports
  rfl

theorem map_line {blocks : List (Nat × Numbered)} {findings : List Finding}
    (reported : List.Forall₂ (fun block finding => Reports finding block.2) blocks findings) :
    findings.map line = blocks.map (·.2.number) := by
  induction reported with
  | nil => rfl
  | cons reports _ ih => rw [List.map_cons, List.map_cons, reports.line_eq, ih]

end Finding

/-- The target of a `set` is reported for its name only. -/
theorem Name.filter_finding? {kind : Finding → Bool} {number : Nat} {name : String}
    (invalid : kind (.invalidName number name) = false)
    (reserved : kind (.reservedName number name) = false) (findings : List Finding) :
    ((Name.finding? number name).toList ++ findings).filter kind = findings.filter kind := by
  unfold Name.finding?
  split
  · exact List.filter_cons_of_neg (by simp [invalid])
  · split
    · exact List.filter_cons_of_neg (by simp [reserved])
    · rfl

namespace Listing

/-! ## The stacks of the walks -/

/-- An open block as the search for findings keeps it. -/
def Marks (block : Nat × Numbered) (word : Nat × String) : Prop :=
  word.1 = block.2.number ∧ block.2.line.OpensWith word.2

/-- The blocks that are reported are those on the stack at the end. -/
theorem unclosed_findingsFrom (first : Nat) {stack : List (Nat × Numbered)}
    {words : List (Nat × String)} (marks : List.Forall₂ Marks stack words) (listing : Listing) :
    List.Forall₂ (fun block finding => Finding.Reports finding block.2)
      (openedFrom first stack listing).reverse
      ((findingsFrom words listing).filter Finding.isUnclosedBlock) := by
  induction listing generalizing first stack words with
  | nil =>
      have all : (findingsFrom words []).filter Finding.isUnclosedBlock =
          words.reverse.map fun word => .unclosedBlock word.1 word.2 := by
        apply List.filter_eq_self.mpr
        intro finding member
        obtain ⟨word, -, rfl⟩ := List.mem_map.mp member
        rfl
      rw [all, List.forall₂_map_right_iff, openedFrom, List.forall₂_reverse_iff]
      apply marks.imp
      rintro block ⟨number, keyword⟩ ⟨rfl, opens⟩
      exact ⟨keyword, opens, rfl⟩
  | cons entry rest ih =>
      obtain ⟨number, line⟩ := entry
      -- Both walks push and pop at the same lines, so the stacks stay related.
      cases line with
      | note | say | danglingSet | unknown => exact ih (first + 1) marks
      | assign name =>
          rw [findingsFrom, Name.filter_finding? rfl rfl]
          exact ih (first + 1) marks
      | loop count => exact ih (first + 1) (.cons ⟨rfl, .loop count⟩ marks)
      | test condition => exact ih (first + 1) (.cons ⟨rfl, .test condition⟩ marks)
      | close =>
          cases marks with
          | nil => exact ih (first + 1) .nil
          | cons _ marks => exact ih (first + 1) marks

theorem unclosed_emissionFrom (first : Nat) (stack : List (Nat × Numbered)) (listing : Listing) :
    (emissionFrom stack.length (stack.map (·.2.number)) listing).unclosed =
      (openedFrom first stack listing).reverse.map (·.2.number) := by
  induction listing generalizing first stack with
  | nil => simp [emissionFrom, openedFrom]
  | cons entry rest ih =>
      rw [openedFrom]
      rcases entry.line.roles with ⟨opens, closes⟩ | ⟨opens, closes⟩ | ⟨opens, closes⟩
      · rw [emissionFrom_opens opens, Emission.emit_unclosed, if_pos opens]
        exact ih (first + 1) ((first, entry) :: stack)
      · rw [if_neg (by simp [opens]), if_pos closes]
        cases stack with
        | nil =>
            rw [List.length_nil, emissionFrom_stray opens closes, Emission.emit_unclosed,
              Emission.addStray_unclosed]
            exact ih (first + 1) []
        | cons block stack =>
            rw [List.length_cons, emissionFrom_closes opens closes, Emission.emit_unclosed]
            exact ih (first + 1) stack
      · rw [emissionFrom_plain opens closes, Emission.emit_unclosed, if_neg (by simp [opens]),
          if_neg (by simp [closes])]
        exact ih (first + 1) stack

theorem stray_emissionFrom (opened : List Nat) (words : List (Nat × String)) (listing : Listing) :
    (emissionFrom words.length opened listing).stray =
      ((findingsFrom words listing).filter Finding.isStrayEnd).map Finding.line := by
  induction listing generalizing opened words with
  | nil =>
      have none_ : (findingsFrom words []).filter Finding.isStrayEnd = [] := by
        apply List.filter_eq_nil_iff.mpr
        intro finding member
        obtain ⟨word, -, rfl⟩ := List.mem_map.mp member
        exact Bool.false_ne_true
      rw [none_]
      rfl
  | cons entry rest ih =>
      obtain ⟨number, line⟩ := entry
      cases line with
      | note | say | danglingSet | unknown =>
          rw [emissionFrom_plain rfl rfl, Emission.emit_stray]
          exact ih opened words
      | assign name =>
          rw [emissionFrom_plain rfl rfl, Emission.emit_stray, findingsFrom,
            Name.filter_finding? rfl rfl]
          exact ih opened words
      | loop count =>
          rw [emissionFrom_opens rfl, Emission.emit_stray]
          exact ih (number :: opened) ((number, "repeat") :: words)
      | test condition =>
          rw [emissionFrom_opens rfl, Emission.emit_stray]
          exact ih (number :: opened) ((number, "check") :: words)
      | close =>
          cases words with
          | nil =>
              rw [List.length_nil, emissionFrom_stray rfl rfl, Emission.emit_stray,
                Emission.addStray_stray]
              exact congrArg (number :: ·) (ih opened [])
          | cons word words =>
              rw [List.length_cons, emissionFrom_closes rfl rfl, Emission.emit_stray]
              exact ih opened.tail words

/-- The lines that hold statements. -/
def statementLines (raws : List (List Char)) : List (List Char) :=
  raws.filter fun raw => (Line.classify? raw).isSome

theorem statementLines_append (raws raws' : List (List Char)) :
    statementLines (raws ++ raws') = statementLines raws ++ statementLines raws' :=
  List.filter_append raws raws'

/-- The statements of a text stand on its lines that hold statements, in their order. -/
theorem getElem?_ofLines {first p n : Nat} {raws : List (List Char)} {line : Line}
    (found : (ofLines first raws)[p]? = some ⟨n, line⟩) :
    ∃ raw, raws[n - first]? = some raw ∧ (statementLines raws)[p]? = some raw := by
  induction raws generalizing first p with
  | nil => simp [ofLines] at found
  | cons raw rest ih =>
      have later : ∀ {p : Nat}, (ofLines (first + 1) rest)[p]? = some ⟨n, line⟩ →
          ∃ raw', (raw :: rest)[n - first]? = some raw' ∧
            (statementLines rest)[p]? = some raw' := by
        intro p found
        have behind := (mem_ofLines_iff.mp (List.mem_of_getElem? found)).1
        have shift : n - first = n - (first + 1) + 1 := by omega
        rw [shift, List.getElem?_cons_succ]
        exact ih found
      cases classified : Line.classify? raw with
      | none =>
          rw [ofLines, classified] at found
          rw [statementLines, List.filter_cons_of_neg (by simp [classified])]
          exact later found
      | some line' =>
          rw [ofLines, classified] at found
          rw [statementLines, List.filter_cons_of_pos (by simp [classified])]
          cases p with
          | zero =>
              cases found
              exact ⟨raw, by simp, rfl⟩
          | succ p => exact later found

end Listing

/-! ## The tidy layout -/

/-- The spelling of a statement starts with no blank. -/
theorem Line.spelling_solid {raw : List Char} {line : Line}
    (classified : classify? raw = some line) :
    ∃ c ∈ line.spelling.toList.head?, Text.isBlank c = false := by
  obtain ⟨some_, read⟩ := classify?_eq_some_iff.mp classified
  have origin := origin_ofTrimmed (Text.trim raw)
  rw [read] at origin
  cases trimmed : Text.trim raw with
  | nil => exact absurd trimmed some_
  | cons c rest =>
      rw [trimmed] at origin
      generalize whole : c :: rest = t at origin
      cases origin with
      | verbatim spelled =>
          rw [spelled, ← whole]
          exact ⟨c, rfl, Text.isBlank_of_trim_eq_cons trimmed⟩
      | assign => exact ⟨'s', by simp [spelling], by decide⟩
      | loop => exact ⟨'r', by simp [spelling], by decide⟩
      | test => exact ⟨'c', by simp [spelling], by decide⟩

namespace Tidy

open Listing

theorem statementLines_layout (depth first : Nat) (started gap : Bool) (raws : List (List Char)) :
    statementLines ((layout depth started gap raws).map String.toList) =
      List.zipWith (fun entry here => (indentation here ++ entry.line.spelling).toList)
        (ofLines first raws) (depthsFrom depth (ofLines first raws)) := by
  induction raws generalizing depth first started gap with
  | nil => rfl
  | cons raw rest ih =>
      cases classified : Line.classify? raw with
      | none =>
          rw [layout_blank classified, ofLines, classified]
          exact ih depth (first + 1) started started
      | some line =>
          have here := Line.classify?_spelling classified (if line.closes then depth - 1 else depth)
          have kept : ∀ lines, statementLines ((indentation _ ++ line.spelling).toList :: lines) =
              (indentation _ ++ line.spelling).toList :: statementLines lines :=
            fun _ => List.filter_cons_of_pos (by rw [here]; rfl)
          rw [layout_statement classified, ofLines, classified, depthsFrom, List.zipWith_cons_cons,
            ← ih _ (first + 1) true false, List.map_append, List.map_cons, statementLines_append,
            kept]
          cases gap <;> rfl

/-- A statement of the tidy text is as far in as there are blocks around it. -/
theorem exists_line {source : String} {p n : Nat} {line : Line}
    (found : (ofSource source)[p]? = some ⟨n, line⟩) :
    ∃ n' raw, (ofSource (tidy source))[p]? = some ⟨n', line⟩ ∧
      (Text.splitLines (tidy source).toList)[n' - 1]? = some raw ∧
        Text.indent raw = List.replicate (2 * (ofSource source).depthAt p) ' ' := by
  obtain ⟨same, -⟩ := ofSource_tidy source
  obtain ⟨⟨n', line'⟩, found', rfl⟩ : ∃ entry, (ofSource (tidy source))[p]? = some entry ∧
      entry.line = line := by
    rw [← Option.map_eq_some_iff, ← List.getElem?_map, same, List.getElem?_map, found]
    rfl
  obtain ⟨raw, atRaw, laid⟩ := getElem?_ofLines found'
  obtain ⟨-, raw', -, classified⟩ := mem_ofLines_iff.mp (List.mem_of_getElem? found)
  refine ⟨n', raw, found', atRaw, ?_⟩
  have ended : statementLines [[]] = [] := rfl
  rw [splitLines_tidy, statementLines_append, ended, List.append_nil, linesOf,
    statementLines_layout 0 1, ← ofSource] at laid
  obtain ⟨entry, depth, atP, deep, rfl⟩ := List.getElem?_zipWith_eq_some.mp laid
  obtain rfl := Option.some.inj (found.symm.trans atP)
  obtain rfl := Option.some.inj ((getElem?_depthsFrom found).symm.trans deep)
  rw [String.toList_append, indentation, String.toList_ofList]
  exact Text.indent_replicate _ (Line.spelling_solid classified)

end Tidy

/-- The line number of a statement tells its position. -/
theorem Listing.eq_of_number {source : String} {p p' n : Nat} {line line' : Line}
    (found : (ofSource source)[p]? = some ⟨n, line⟩)
    (found' : (ofSource source)[p']? = some ⟨n, line'⟩) : p = p' := by
  have distinct : ((ofSource source).map Numbered.number).Nodup :=
    (numbers_ofSource source).imp Nat.ne_of_lt
  have inside := (List.getElem?_eq_some_iff.mp found).1
  apply (List.getElem?_inj (by simpa using inside) distinct).mp
  rw [List.getElem?_map, List.getElem?_map, found, found']
  rfl

/-- For all statements, the closers that generation notes as having nothing to close are those that
    are reported, and the openers that it notes as never closed are those that are reported, each
    by its word. They are the openers that no closer matches. The line of a statement in the tidy
    text is as far in as its line in the code. -/
theorem traversals_agree :
    (∀ listing : Listing,
      listing.generate.stray = (listing.findings.filter Finding.isStrayEnd).map Finding.line ∧
      listing.generate.unclosed =
        (listing.findings.filter Finding.isUnclosedBlock).map Finding.line ∧
      ∃ openers : List (Nat × Numbered), openers.Pairwise (·.1 < ·.1) ∧
        (∀ i opener, (i, opener) ∈ openers ↔ listing[i]? = some opener ∧
          opener.line.opens = true ∧ ∀ k, ¬ listing.Matched i k) ∧
        List.Forall₂ (fun block finding => Finding.Reports finding block.2) openers
          (listing.findings.filter Finding.isUnclosedBlock)) ∧
    ∀ (source : String) (p n : Nat) (line : Line) (text : List Char),
      (Listing.ofSource source)[p]? = some ⟨n, line⟩ →
      (Listing.ofSource source).generate.HasLine n text →
      ∃ n' raw, (Listing.ofSource (Tidy.tidy source))[p]? = some ⟨n', line⟩ ∧
        (Text.splitLines (Tidy.tidy source).toList)[n' - 1]? = some raw ∧
        Text.indent raw = Text.indent text := by
  constructor
  · intro listing
    have reported := Listing.unclosed_findingsFrom 0 .nil listing
    have lines : (listing.findings.filter Finding.isUnclosedBlock).map Finding.line =
        (Listing.opened listing).reverse.map (·.2.number) := Finding.map_line reported
    rw [Listing.generate_eq]
    refine ⟨Listing.stray_emissionFrom [] [] listing, ?_, _, ?_, ?_, reported⟩
    · rw [lines]
      exact Listing.unclosed_emissionFrom 0 [] listing
    · exact List.pairwise_reverse.mpr (Listing.pairwise_opened listing)
    · intro i opener
      rw [List.mem_reverse]
      exact Listing.mem_opened_iff_unclosed
  · intro source p n line text found hasLine
    obtain ⟨p', line', template, found', emits, rfl⟩ := hasLine_ofSource_iff.mp hasLine
    obtain rfl := Listing.eq_of_number found found'
    obtain ⟨n', raw, foundTidy, atRaw, indent⟩ := Tidy.exists_line found
    refine ⟨n', raw, foundTidy, atRaw, ?_⟩
    rw [indent, Text.indent_replicate _ emits.solid]

end LineScript
