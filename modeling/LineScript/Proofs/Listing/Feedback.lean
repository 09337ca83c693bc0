import LineScript.Proofs.Listing.Shape
import LineScript.Proofs.Listing.Source
import LineScript.Proofs.Nesting.Scan
import LineScript.Run.Report

/-! # Scripts taken for sources

No line of a script starts with a word that introduces a statement of the beginners' language. So a
script that is taken for a source holds unknown statements only, one for each of its lines. What is
generated from it are comments, which hold no bracket for the scan and no statement for the grammar,
and running them does nothing.
-/

namespace LineScript

/-! ## Lines of scripts are unknown statements -/

namespace Line

/-- The texts at the front of a line that tell its statement. -/
def introductions : List (List Char) :=
  ["note ".toList, "say ".toList, "set ".toList, "repeat ".toList, "check ".toList, "end".toList]

theorem ofTrimmed_eq_unknown {s : List Char} (other : ∀ word ∈ introductions, ¬ word <+: s) :
    ofTrimmed s = .unknown (String.ofList s) := by
  have missed : ∀ word ∈ introductions, Text.after? word s = none := by
    intro word member
    refine Option.eq_none_iff_forall_ne_some.mpr fun rest found => other word member ?_
    exact ⟨rest, (Text.after?_eq_some_iff.mp found).symm⟩
  have noEnd : s ≠ "end".toList := by
    rintro rfl
    exact other _ (by simp [introductions]) List.prefix_rfl
  simp only [introductions, List.forall_mem_cons] at missed
  obtain ⟨note, say, set, loop, test, -⟩ := missed
  simp only [ofTrimmed, note, say, set, loop, test, if_neg noEnd]

/-- What stands for a statement starts with no word of the beginners' language. -/
theorem Emits.not_introduced {depth : Nat} {line : Line} {text : String}
    (emits : line.Emits depth text) : ∀ word ∈ introductions, ¬ word <+: text.toList := by
  simp only [introductions, List.forall_mem_cons]
  cases emits with
  | note | say | assign | loop | test | close | unknown => simp [ToString.toString]

/-- A line of a script is an unknown statement. -/
theorem Emits.classify?_eq {depth : Nat} {line : Line} {text : String}
    (emits : line.Emits depth text) :
    classify? text.toList = some (.unknown (String.ofList (Text.trim text.toList))) := by
  obtain ⟨c, first, solid⟩ := emits.solid
  obtain ⟨s, spelled⟩ := List.head?_eq_some_iff.mp first
  have trimmed : Text.trim text.toList = Text.trimEnd text.toList := by
    rw [spelled, Text.trim_cons solid]
  have front : Text.trim text.toList <+: text.toList := by
    rw [trimmed]
    exact List.rdropWhile_prefix Text.isBlank _
  have some_ : Text.trim text.toList ≠ [] := by
    rw [ne_eq, Text.trim_eq_nil_iff, spelled]
    intro blank
    rw [blank c (List.mem_cons_self ..)] at solid
    cases solid
  refine classify?_eq_some_iff.mpr ⟨some_, ofTrimmed_eq_unknown fun word member start => ?_⟩
  exact emits.not_introduced word member (start.trans front)

end Line

/-- The lines of the code, one by one. -/
def Emission.texts (g : Emission) : List (List Char) :=
  g.lines.map (·.text.toList)

namespace Listing

theorem classify?_of_mem_lines {listing : Listing} {line : Emitted}
    (member : line ∈ listing.emission.lines) :
    Line.classify? line.text.toList =
      some (.unknown (String.ofList (Text.trim line.text.toList))) := by
  obtain ⟨p, entry, -, emitted⟩ := mem_lines_emission.mp member
  obtain ⟨text, script, rfl⟩ := Option.map_eq_some_iff.mp emitted
  rw [String.toList_append, Line.classify?_indentation, Line.trim_indentation]
  exact (Line.script?_eq_some_iff.mp script).classify?_eq

/-- Lines that are all unknown statements, numbered from `first` on. -/
def unknowns (first : Nat) (raws : List (List Char)) : Listing :=
  (raws.zipIdx first).map fun raw => ⟨raw.2, .unknown (String.ofList (Text.trim raw.1))⟩

theorem ofLines_eq_unknowns {raws : List (List Char)}
    (each : ∀ raw ∈ raws, Line.classify? raw = some (.unknown (String.ofList (Text.trim raw))))
    (first : Nat) : ofLines first raws = unknowns first raws := by
  induction raws generalizing first with
  | nil => rfl
  | cons raw raws ih =>
      obtain ⟨here, later⟩ := List.forall_mem_cons.mp each
      rw [ofLines, here, ih later]
      rfl

theorem texts_unknowns (first : Nat) (raws : List (List Char)) :
    (unknowns first raws).emission.texts =
      raws.map fun raw => "// Unknown syntax: ".toList ++ Text.trim raw := by
  induction raws generalizing first with
  | nil => rfl
  | cons raw raws ih =>
      simp only [Emission.texts, emission] at ih ⊢
      rw [unknowns, List.zipIdx_cons, List.map_cons, emissionFrom_plain rfl rfl,
        Emission.emit_lines, List.map_append, List.map_cons, ← ih (first + 1)]
      simp [Numbered.emitted?, Line.script?, indentation, unknowns]

/-- The lines of the script of a source, taken for a source again. -/
theorem ofSource_scriptOf (source : String) :
    ofSource (scriptOf source) = unknowns 1 (ofSource source).emission.texts := by
  by_cases none_ : (ofSource source).emission.lines = []
  · rw [scriptOf, code_generate, Emission.texts, none_]
    rfl
  · rw [ofSource, scriptOf, splitLines_code (oneLine_emission source) none_]
    refine ofLines_eq_unknowns ?_ 1
    intro raw member
    obtain ⟨line, inLines, rfl⟩ := List.mem_map.mp member
    exact classify?_of_mem_lines inLines

theorem translates_unknowns {first : Nat} {raws : List (List Char)}
    (oneLine : ∀ raw ∈ raws, '\n' ∉ raw) : Translates 0 (unknowns first raws) [] := by
  induction raws generalizing first with
  | nil => exact .nil
  | cons raw raws ih =>
      obtain ⟨here, later⟩ := List.forall_mem_cons.mp oneLine
      refine .plain (.unknown ?_) (ih later)
      rw [String.toList_ofList]
      exact fun member => here ((Text.trim_sublist raw).subset member)

end Listing

/-! ## Comments do nothing -/

namespace Nesting

/-- Lines that are comments hold no bracket for the scan. -/
theorem isWithin_comments {lines : List (List Char)}
    (comments : ∀ line ∈ lines, ∃ s, line = '/' :: '/' :: s ∧ '\n' ∉ s) :
    isWithin (['\n'].intercalate lines) = true := by
  rw [isWithin_iff]
  induction lines with
  | nil => exact within_nil.mpr (Nat.zero_le _)
  | cons line lines ih =>
      obtain ⟨⟨s, rfl, clean⟩, later⟩ := List.forall_mem_cons.mp comments
      have inside : ∀ c ∈ s, (c != '\n') = true := by
        intro c member
        rw [bne_iff_ne]
        rintro rfl
        exact clean member
      have comment : ∀ k, k.dropWhile (· != '\n') = k → Within 0 (cut k) →
          Within 0 (cut ('/' :: '/' :: (s ++ k))) := by
        intro k ended within
        rw [cut_lineComment, List.dropWhile_append_of_pos inside, ended]
        exact within_cons.mpr ⟨Nat.zero_le _, within⟩
      have within := ih later
      cases lines with
      | nil =>
          rw [List.intercalate_singleton, ← List.append_nil ('/' :: '/' :: s)]
          exact comment [] rfl within
      | cons next lines =>
          rw [List.intercalate_cons_cons, List.append_assoc]
          refine comment ('\n' :: ['\n'].intercalate (next :: lines)) rfl ?_
          rw [cut_plain rfl]
          exact within_cons.mpr ⟨Nat.zero_le _, within⟩

end Nesting

/-- Comments are a script without statements. -/
theorem Listing.compile_unknowns {first : Nat} {raws : List (List Char)}
    (oneLine : ∀ raw ∈ raws, '\n' ∉ raw) :
    Script.compile (unknowns first raws).generate.code = .ok ⟨[]⟩ := by
  have within : Nesting.isWithin (unknowns first raws).generate.code.toList = true := by
    rw [code_generate, Text.joinLines, String.toList_intercalate, List.map_map]
    refine Nesting.isWithin_comments fun line member => ?_
    change line ∈ (unknowns first raws).emission.texts at member
    rw [texts_unknowns] at member
    obtain ⟨raw, inRaws, rfl⟩ := List.mem_map.mp member
    refine ⟨" Unknown syntax: ".toList ++ Text.trim raw, rfl, ?_⟩
    have clean := fun inside => oneLine raw inRaws ((Text.trim_sublist raw).subset inside)
    simpa using clean
  rw [Script.compile, within, (translates_unknowns oneLine).read_code]
  rfl

/-- What it is for a script to do nothing when it is taken for a source. -/
structure IsInert (code : String) : Prop where
  statements : ∀ entry ∈ Listing.ofSource code, ∃ raw, entry.line = .unknown raw
  empty : code = "" → scriptOf code = ""
  /-- Each line becomes a comment. -/
  lines : code ≠ "" → Text.splitLines (scriptOf code).toList =
    (Text.splitLines code.toList).map fun raw => "// Unknown syntax: ".toList ++ Text.trim raw
  run : ∀ limits clock, Sandbox.run limits clock (scriptOf code) = ⟨[], .completed, 0⟩

/-- The script of any source, taken for a source, is a list of unknown statements, and its script
    runs to its end without a step and without a line. -/
theorem scriptOf_isInert (source : String) : IsInert (scriptOf source) := by
  have listing := Listing.ofSource_scriptOf source
  have oneLine : ∀ raw ∈ (Listing.ofSource source).emission.texts, '\n' ∉ raw := by
    intro raw member
    obtain ⟨line, inLines, rfl⟩ := List.mem_map.mp member
    exact Listing.oneLine_emission source line inLines
  constructor
  case statements =>
    intro entry member
    rw [listing] at member
    obtain ⟨raw, -, rfl⟩ := List.mem_map.mp member
    exact ⟨_, rfl⟩
  case empty =>
    intro none_
    rw [none_]
    rfl
  case lines =>
    intro some_
    have written : (Listing.ofSource source).emission.lines ≠ [] := by
      intro none_
      rw [scriptOf, Listing.code_generate, none_] at some_
      exact some_ rfl
    have texts := Listing.texts_unknowns 1 (Listing.ofSource source).emission.texts
    rw [← listing] at texts
    have written' : (Listing.ofSource (scriptOf source)).emission.lines ≠ [] := by
      intro none_
      rw [Emission.texts, none_] at texts
      simp [Emission.texts, written] at texts
    rw [scriptOf, Listing.splitLines_code (Listing.oneLine_emission _) written', scriptOf,
      Listing.splitLines_code (Listing.oneLine_emission source) written]
    exact texts
  case run =>
    intro limits clock
    rw [Sandbox.run, scriptOf, listing, Listing.compile_unknowns oneLine]
    rfl

end LineScript
