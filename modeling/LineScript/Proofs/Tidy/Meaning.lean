import Mathlib.Data.List.Pairwise
import Mathlib.Order.Monotone.Defs
import LineScript.Listing.Finding
import LineScript.Listing.Tidy
import LineScript.Proofs.Listing.Generation
import LineScript.Proofs.Text.Pieces

/-! # Tidying keeps the meaning

A statement is laid out in its canonical spelling behind some indentation, and
that spelling is read as the same statement again. All that tidying changes are
the numbers of the lines, and these keep their order. The generated script does
not depend on the numbers, and a finding only carries one of them along.
-/

namespace LineScript

/-! ## Spellings are read back -/

namespace Line

theorem classify?_eq_some_iff {raw : List Char} {line : Line} :
    classify? raw = some line ↔ Text.trim raw ≠ [] ∧ ofTrimmed (Text.trim raw) = line := by
  unfold classify?
  split <;> simp_all

/-- How a trimmed line relates to its statement: it is the spelling of the statement already, or
    blanks around the parts of the statement are lost. -/
inductive Origin : List Char → Line → Prop where
  | verbatim {trimmed line} : line.spelling.toList = trimmed → Origin trimmed line
  | assign {name expr} : '=' ∉ name → Origin ("set ".toList ++ (name ++ '=' :: expr))
      (.assign (String.ofList (Text.trim name)) (String.ofList (Text.trim expr)))
  | loop {count} : Origin ("repeat".toList ++ ' ' :: count)
      (.loop (String.ofList (Text.trim count)))
  | test {condition} : Origin ("check".toList ++ ' ' :: condition)
      (.test (String.ofList (Text.trim condition)))

theorem origin_ofTrimmed (trimmed : List Char) : Origin trimmed (ofTrimmed trimmed) := by
  rw [ofTrimmed]
  split
  · next found => exact .verbatim (by simp [spelling, Text.after?_eq_some_iff.mp found])
  split
  · next found => exact .verbatim (by simp [spelling, Text.after?_eq_some_iff.mp found])
  split
  · next rest found =>
      rw [ofSet]
      split
      · next cut =>
          obtain ⟨rfl, clean⟩ := Text.cut?_eq_some_iff.mp cut
          rw [Text.after?_eq_some_iff.mp found]
          exact .assign clean
      · exact .verbatim (by simp [spelling])
  split
  · next found =>
      rw [Text.after?_eq_some_iff.mp found]
      exact .loop
  split
  · next found =>
      rw [Text.after?_eq_some_iff.mp found]
      exact .test
  split
  · next isEnd => exact .verbatim (by simp [spelling, isEnd])
  · exact .verbatim (by simp [spelling])

/-- A word with nothing but blanks behind it would have lost them. -/
theorem trim_argument_ne_nil {word rest : List Char} (trimmedWord : Text.trim word = word)
    (trimmed : Text.trim (word ++ ' ' :: rest) = word ++ ' ' :: rest) : Text.trim rest ≠ [] := by
  intro none_
  have blank : ∀ c ∈ ' ' :: rest, Text.isBlank c = true := by
    simpa [show Text.isBlank ' ' = true by decide] using Text.trim_eq_nil_iff.mp none_
  rw [Text.trim_append_blank trimmedWord blank] at trimmed
  have length := congrArg List.length trimmed
  simp at length

/-- A word and its argument are kept as they are. -/
theorem trim_word_append {c : Char} {w argument : List Char} (solid : Text.isBlank c = false)
    (trimmed : Text.trim argument = argument) (some_ : argument ≠ []) :
    Text.trim (c :: w ++ argument) = c :: w ++ argument := by
  have kept : Text.trimEnd argument = argument := by
    rw [← trimmed, Text.trimEnd_trim]
  have solidEnd : Text.trimEnd argument ≠ [] := by rwa [kept]
  rw [List.cons_append, Text.trim_cons solid, ← List.cons_append, Text.trimEnd_append solidEnd, kept]

private theorem isBlank_of_mem_space : ∀ c ∈ [' '], Text.isBlank c = true :=
  List.forall_mem_singleton.mpr (by decide)

/-- Trimming the spelling of an assignment takes at most the blank behind the equals sign. -/
theorem trim_assign_spelling (name : List Char) {expr : List Char}
    (trimmed : Text.trim expr = expr) :
    ∃ behind, Text.trim ('s' :: ("et ".toList ++ (name ++ (" = ".toList ++ expr)))) =
        "set ".toList ++ ((name ++ [' ']) ++ '=' :: behind) ∧ Text.trim behind = expr := by
  cases expr with
  | nil =>
      have whole : 's' :: ("et ".toList ++ (name ++ (" = ".toList ++ []))) =
          ("set ".toList ++ (name ++ [' '])) ++ ['='] ++ [' '] := by simp
      have solid : Text.trimEnd ['='] = ['='] := Text.trimEnd_singleton (by decide)
      refine ⟨[], ?_, rfl⟩
      rw [Text.trim_cons (by decide), whole, Text.trimEnd_append_of_blank isBlank_of_mem_space,
        Text.trimEnd_append (by simp [solid]), solid]
      simp
  | cons c expr =>
      have kept := trim_word_append (c := 's') (w := "et ".toList ++ (name ++ " = ".toList))
        (by decide) trimmed (by simp)
      refine ⟨' ' :: c :: expr, by simpa using kept, ?_⟩
      exact (Text.trim_append_of_blank isBlank_of_mem_space (c :: expr)).trans trimmed

theorem classify?_assign {name : List Char} (clean : '=' ∉ name) (expr : List Char) :
    let line := Line.assign (String.ofList (Text.trim name)) (String.ofList (Text.trim expr))
    classify? line.spelling.toList = some line := by
  intro line
  obtain ⟨behind, whole, value⟩ := trim_assign_spelling (Text.trim name) (Text.trim_trim expr)
  have spelled : line.spelling.toList =
      's' :: ("et ".toList ++ (Text.trim name ++ (" = ".toList ++ Text.trim expr))) := by
    simp [line, spelling]
  have clean' : '=' ∉ Text.trim name ++ [' '] := by
    have inside := (Text.trim_sublist name).subset
    simp only [List.mem_append, List.mem_singleton, not_or]
    exact ⟨fun member => clean (inside member), by decide⟩
  have cut : Text.cut? '=' ((Text.trim name ++ [' ']) ++ '=' :: behind) =
      some (Text.trim name ++ [' '], behind) := Text.cut?_eq_some_iff.mpr ⟨rfl, clean'⟩
  have set : ∀ rest, ofTrimmed ("set ".toList ++ rest) = ofSet ("set ".toList ++ rest) rest := by
    intro rest
    simp [ofTrimmed, Text.after?]
  rw [classify?_eq_some_iff, spelled, whole, set, ofSet, cut]
  refine ⟨by simp, ?_⟩
  simp only [Text.trim_append_blank (Text.trim_trim name) isBlank_of_mem_space, value, line]

theorem classify?_loop {count : List Char} (some_ : Text.trim count ≠ []) :
    let line := Line.loop (String.ofList (Text.trim count))
    classify? line.spelling.toList = some line := by
  intro line
  have spelled : line.spelling.toList = 'r' :: "epeat ".toList ++ Text.trim count := by
    simp [line, spelling]
  rw [classify?_eq_some_iff, spelled, trim_word_append (by decide) (Text.trim_trim count) some_]
  refine ⟨by simp, ?_⟩
  simp [ofTrimmed, Text.after?, line]

theorem classify?_test {condition : List Char} (some_ : Text.trim condition ≠ []) :
    let line := Line.test (String.ofList (Text.trim condition))
    classify? line.spelling.toList = some line := by
  intro line
  have spelled : line.spelling.toList = 'c' :: "heck ".toList ++ Text.trim condition := by
    simp [line, spelling]
  rw [classify?_eq_some_iff, spelled, trim_word_append (by decide) (Text.trim_trim condition) some_]
  refine ⟨by simp, ?_⟩
  simp [ofTrimmed, Text.after?, line]

theorem trim_indentation (depth : Nat) (s : List Char) :
    Text.trim ((indentation depth).toList ++ s) = Text.trim s := by
  have blank : ∀ c ∈ (indentation depth).toList, Text.isBlank c = true := by
    intro c member
    rw [indentation, String.toList_ofList] at member
    rw [List.eq_of_mem_replicate member]
    decide
  exact Text.trim_append_of_blank blank s

theorem classify?_indentation (depth : Nat) (s : List Char) :
    classify? ((indentation depth).toList ++ s) = classify? s := by
  rw [classify?, trim_indentation, classify?]

/-- The spelling of a statement that was read is read as that statement, however far it is
    indented. -/
theorem classify?_spelling {raw : List Char} {line : Line} (classified : classify? raw = some line)
    (depth : Nat) : classify? (indentation depth ++ line.spelling).toList = some line := by
  obtain ⟨some_, read⟩ := classify?_eq_some_iff.mp classified
  have origin := origin_ofTrimmed (Text.trim raw)
  have trimmed := Text.trim_trim raw
  rw [String.toList_append, classify?_indentation]
  rw [read] at origin
  generalize Text.trim raw = t at origin trimmed some_ read
  cases origin with
  | verbatim spelled =>
      rw [spelled, classify?_eq_some_iff, trimmed]
      exact ⟨some_, read⟩
  | assign clean => exact classify?_assign clean _
  | loop => exact classify?_loop (trim_argument_ne_nil (by decide) trimmed)
  | test => exact classify?_test (trim_argument_ne_nil (by decide) trimmed)

/-- The spelling of a statement on one line is on one line. -/
theorem newline_not_mem_spelling {raw : List Char} {line : Line}
    (classified : classify? raw = some line) (clean : '\n' ∉ raw) :
    '\n' ∉ line.spelling.toList := by
  obtain ⟨-, read⟩ := classify?_eq_some_iff.mp classified
  have origin := origin_ofTrimmed (Text.trim raw)
  have inside : '\n' ∉ Text.trim raw := fun member => clean ((Text.trim_sublist raw).subset member)
  have trimmed : ∀ {s : List Char}, '\n' ∉ s → '\n' ∉ Text.trim s :=
    fun absent member => absent ((Text.trim_sublist _).subset member)
  rw [read] at origin
  generalize Text.trim raw = t at origin inside
  cases origin with
  | verbatim spelled => rwa [spelled]
  | assign _ =>
      simp only [List.mem_append, List.mem_cons, not_or] at inside
      simp [spelling, trimmed inside.2.1, trimmed inside.2.2.2]
  | loop | test =>
      simp only [List.mem_append, List.mem_cons, not_or] at inside
      simp [spelling, trimmed inside.2.2]

end Line

/-! ## The tidy text has the same statements -/

namespace Tidy

theorem layout_blank {raw : List Char} (blank : Line.classify? raw = none) (depth : Nat)
    (started gap : Bool) (rest : List (List Char)) :
    layout depth started gap (raw :: rest) = layout depth started started rest := by
  rw [layout, blank]

/-- The line of a statement comes first, but for an empty line if blank lines stood there. -/
theorem layout_statement {raw : List Char} {line : Line} (classified : Line.classify? raw = some line)
    (depth : Nat) (started gap : Bool) (rest : List (List Char)) :
    let indent := if line.closes then depth - 1 else depth
    layout depth started gap (raw :: rest) = (if gap then [""] else []) ++
      (indentation indent ++ line.spelling) ::
        layout (if line.opens then indent + 1 else indent) true false rest := by
  rw [layout, classified]
  cases gap <;> rfl

theorem layout_statements (depth : Nat) (started gap : Bool) (raws : List (List Char)) :
    ((layout depth started gap raws).map String.toList).filterMap Line.classify? =
      raws.filterMap Line.classify? := by
  induction raws generalizing depth started gap with
  | nil => rfl
  | cons raw rest ih =>
      cases classified : Line.classify? raw with
      | none => rw [layout_blank classified, ih, List.filterMap_cons_none classified]
      | some line =>
          have here := Line.classify?_spelling classified (if line.closes then depth - 1 else depth)
          have empty : Line.classify? [] = none := rfl
          rw [layout_statement classified, List.map_append, List.filterMap_append, List.map_cons,
            List.filterMap_cons_some here, ih, List.filterMap_cons_some classified]
          cases gap <;> simp [empty]

theorem layout_oneLine (depth : Nat) (started gap : Bool) {raws : List (List Char)}
    (clean : ∀ raw ∈ raws, '\n' ∉ raw) :
    ∀ text ∈ layout depth started gap raws, '\n' ∉ text.toList := by
  induction raws generalizing depth started gap with
  | nil => simp [layout]
  | cons raw rest ih =>
      rw [List.forall_mem_cons] at clean
      cases classified : Line.classify? raw with
      | none => rw [layout_blank classified]; exact ih depth started started clean.2
      | some line =>
          have spelled := Line.newline_not_mem_spelling classified clean.1
          rw [layout_statement classified, List.forall_mem_append, List.forall_mem_cons]
          refine ⟨?_, ?_, ih _ true false clean.2⟩
          · cases gap <;> simp
          · simp [indentation, spelled]

/-- The lines of the tidy text hold the statements of the text in their order. -/
theorem tidy_statements (source : String) :
    (Text.splitLines (tidy source).toList).filterMap Line.classify? =
      (Text.splitLines source.toList).filterMap Line.classify? := by
  have kept := layout_statements 0 false false (Text.splitLines source.toList)
  have clean : ∀ text ∈ layout 0 false false (Text.splitLines source.toList), '\n' ∉ text.toList :=
    layout_oneLine 0 false false fun _ member => Text.not_mem_of_mem_split member
  rw [tidy]
  generalize layout 0 false false (Text.splitLines source.toList) = lines at kept clean
  have joined : (Text.splitLines (Text.joinLines lines).toList).filterMap Line.classify? =
      (Text.splitLines source.toList).filterMap Line.classify? := by
    rw [← kept]
    cases lines with
    | nil => rfl
    | cons text lines => rw [Text.splitLines_joinLines clean (by simp)]
  split
  · exact joined
  · have ended : ("\n" : String).toList = '\n' :: [] := rfl
    rw [String.toList_append, ended, Text.splitLines_append, List.filterMap_append, joined]
    exact List.append_nil _

end Tidy

/-! ## Findings on other lines -/

/-- The same finding on another line. -/
def Finding.renumber (f : Nat → Nat) : Finding → Finding
  | .missingAssignment line => .missingAssignment (f line)
  | .invalidName line name => .invalidName (f line) name
  | .reservedName line name => .reservedName (f line) name
  | .unknownStatement line text => .unknownStatement (f line) text
  | .strayEnd line => .strayEnd (f line)
  | .unclosedBlock line keyword => .unclosedBlock (f line) keyword

namespace Listing

/-- What is found does not depend on the line numbers but for carrying them along. -/
theorem findingsFrom_renumber (f : Nat → Nat) (opened : List (Nat × String)) (listing : Listing) :
    findingsFrom (opened.map (Prod.map f id)) (listing.map (·.renumber f)) =
      (findingsFrom opened listing).map (·.renumber f) := by
  induction listing generalizing opened with
  | nil => simp [findingsFrom, Finding.renumber, Function.comp_def]
  | cons entry rest ih =>
      obtain ⟨number, line⟩ := entry
      rw [List.map_cons]
      cases line with
      | note | say => exact ih opened
      | danglingSet | unknown => exact congrArg (_ :: ·) (ih opened)
      | loop | test => exact ih ((number, _) :: opened)
      | assign name =>
          have named : Name.finding? (f number) name =
              (Name.finding? number name).map (·.renumber f) := by
            unfold Name.finding?
            split
            · rfl
            · split <;> rfl
          rw [findingsFrom, List.map_append, ← ih, ← Option.toList_map, ← named]
          rfl
      | close =>
          cases opened with
          | nil => exact congrArg (_ :: ·) (ih [])
          | cons _ opened => exact ih opened

/-! ## Numbers and statements -/

theorem ofLines_lines (first : Nat) (raws : List (List Char)) :
    (ofLines first raws).map Numbered.line = raws.filterMap Line.classify? := by
  induction raws generalizing first with
  | nil => rfl
  | cons raw rest ih =>
      cases classified : Line.classify? raw with
      | none => rw [ofLines, classified, ih, List.filterMap_cons_none classified]
      | some line =>
          rw [ofLines, classified, List.filterMap_cons_some classified, ← ih (first + 1)]
          rfl

theorem ofLines_numbers (first : Nat) (raws : List (List Char)) :
    (ofLines first raws).Pairwise (·.number < ·.number) ∧
      ∀ entry ∈ ofLines first raws, first ≤ entry.number := by
  induction raws generalizing first with
  | nil => simp [ofLines]
  | cons raw rest ih =>
      obtain ⟨sorted, least⟩ := ih (first + 1)
      rw [ofLines]
      split
      · rw [List.pairwise_cons, List.forall_mem_cons]
        refine ⟨⟨fun entry member => least entry member, sorted⟩, le_rfl, fun entry member => ?_⟩
        exact (Nat.le_succ first).trans (least entry member)
      · exact ⟨sorted, fun entry member => (Nat.le_succ first).trans (least entry member)⟩

/-- Two listings of the same statements differ by the numbers of the lines. -/
theorem exists_renumber {xs ys : Listing} (sorted : xs.Pairwise (·.number < ·.number))
    (same : ys.map Numbered.line = xs.map Numbered.line) :
    ∃ f, ys = xs.map (·.renumber f) := by
  induction xs generalizing ys with
  | nil => exact ⟨id, by simpa using same⟩
  | cons x xs ih =>
      cases ys with
      | nil => cases same
      | cons y ys =>
          rw [List.map_cons, List.map_cons, List.cons.injEq] at same
          obtain ⟨later, sorted⟩ := List.pairwise_cons.mp sorted
          obtain ⟨f, rfl⟩ := ih sorted same.2
          refine ⟨Function.update f x.number y.number, ?_⟩
          have here : y = x.renumber (Function.update f x.number y.number) := by
            simp [Numbered.renumber, ← same.1]
          have rest : xs.map (·.renumber f) =
              xs.map (·.renumber (Function.update f x.number y.number)) := by
            apply List.map_congr_left
            intro entry member
            have other := (later entry member).ne'
            simp [Numbered.renumber, Function.update_of_ne other]
          rw [List.map_cons, ← here, rest]

theorem strictMonoOn_renumber {f : Nat → Nat} {listing : Listing}
    (sorted : listing.Pairwise (·.number < ·.number))
    (sorted' : (listing.map (·.renumber f)).Pairwise (·.number < ·.number)) :
    StrictMonoOn f {n | ∃ entry ∈ listing, entry.number = n} := by
  have forwards : listing.Pairwise fun x y => x.number < y.number → f x.number < f y.number := by
    rw [List.pairwise_map] at sorted'
    exact sorted'.imp (by intro x y less _; exact less)
  have backwards : listing.Pairwise fun x y => y.number < x.number → f y.number < f x.number :=
    sorted.imp fun less greater => absurd less greater.asymm
  have anyTwo := forwards.forall_of_forall_of_flip
    (fun x _ less => absurd less (lt_irrefl _)) backwards
  rintro _ ⟨x, inListing, rfl⟩ _ ⟨y, inListing', rfl⟩ less
  exact anyTwo inListing inListing' less

end Listing

/-- The tidy text of a source has the statements of the source, on other lines but in the same
    order. Its script is the same, and so are its findings but for the line that each names, which
    is the line of the same statement. -/
theorem ofSource_tidy (source : String) :
    (Listing.ofSource (Tidy.tidy source)).map Numbered.line =
        (Listing.ofSource source).map Numbered.line ∧
      scriptOf (Tidy.tidy source) = scriptOf source ∧
      ∃ f : Nat → Nat, StrictMonoOn f {n | ∃ entry ∈ Listing.ofSource source, entry.number = n} ∧
        Listing.ofSource (Tidy.tidy source) = (Listing.ofSource source).map (·.renumber f) ∧
        (Listing.ofSource (Tidy.tidy source)).findings =
          (Listing.ofSource source).findings.map (·.renumber f) := by
  have same : (Listing.ofSource (Tidy.tidy source)).map Numbered.line =
      (Listing.ofSource source).map Numbered.line := by
    rw [Listing.ofSource, Listing.ofLines_lines, Tidy.tidy_statements, Listing.ofSource,
      Listing.ofLines_lines]
  have sorted := (Listing.ofLines_numbers 1 (Text.splitLines source.toList)).1
  have sorted' := (Listing.ofLines_numbers 1 (Text.splitLines (Tidy.tidy source).toList)).1
  obtain ⟨f, renumbered⟩ := Listing.exists_renumber sorted same
  refine ⟨same, ?_, f, ?_, renumbered, ?_⟩
  · rw [scriptOf, renumbered, Listing.generate_eq, Listing.emission_renumber, scriptOf,
      Listing.generate_eq]
    exact Emission.code_renumber f _
  · exact Listing.strictMonoOn_renumber sorted (renumbered ▸ sorted')
  · rw [renumbered]
    exact Listing.findingsFrom_renumber f [] _

end LineScript
