import LineScript.Proofs.Grammar.Headers
import LineScript.Proofs.Listing.Source

/-! # Names that scripts refuse

A text can have the form of a name and be a reserved word of scripts. The script of a source that
sets such a name cannot be read: whatever comes before, reading stops at the line at the latest. So
if the script of a source is read, and the texts of the source are expressions and its names have
the form of names, then the source stands for the statements that are read.
-/

namespace LineScript

open Parse Parser Grammar

/-- Whether a line sets a name that is a reserved word of scripts. -/
def Line.isRefused : Line → Bool
  | .assign name _ => reservedWords.contains name.toList
  | _ => false

/-- Whether the name that a line sets, if it sets one, has the form of a name. -/
def Line.isWellNamed : Line → Bool
  | .assign name _ => Name.isValid name
  | _ => true

/-! ## Where reading stops -/

namespace Grammar

/-- A reserved word is not read as a name. -/
theorem identifier_reserved {w k : List Char} (reserved : w ∈ reservedWords) (apart : Apart k) :
    identifier.outcome (w ++ k) = none := by
  have facts : ∀ w ∈ reservedWords, w ≠ [] ∧ w.all Name.isPart = true := by decide +kernel
  obtain ⟨nonempty, parts⟩ := facts w reserved
  cases w with
  | nil => exact absurd rfl nonempty
  | cons c w =>
      have word := (takeWhile_word (List.all_eq_true.mp parts) apart).1
      rw [List.cons_append] at word ⊢
      rw [outcome_identifier_cons, word, if_neg]
      rintro ⟨-, free⟩
      simp [reserved] at free

/-- A statement that starts with the word `let` is a declaration. -/
theorem outcome_statement_let {k : List Char} (apart : Apart k) :
    statement.outcome (Token.letWord.spelling ++ k) =
      (ended (do return .simple (← declaration))).outcome (Token.letWord.spelling ++ k) := by
  obtain ⟨noName, noExpression⟩ := outcome_reservedWord (t := .letWord) (by decide) (by decide)
    (by decide) (by decide +kernel) apart
  have start : Token.letWord.spelling ++ k = 'l' :: 'e' :: 't' :: k := rfl
  rw [start] at noName noExpression ⊢
  have noUpdate : update.outcome ('l' :: 'e' :: 't' :: k) = none :=
    update_eq_none noName (by decide) (by decide)
  have noAssignment : assignment.outcome ('l' :: 'e' :: 't' :: k) = none := stop_bind noName
  have noBranch := branch_eq_none (c := 'l') (s := 'e' :: 't' :: k) (by decide)
  have noFor := forLoop_eq_none (c := 'l') (s := 'e' :: 't' :: k) (by decide)
  have noWhile := whileLoop_eq_none (c := 'l') (s := 'e' :: 't' :: k) (by decide)
  have noBlock := block_eq_none (c := 'l') (s := 'e' :: 't' :: k) (by decide)
  have noConsole := console_eq_none (c := 'l') (s := 'e' :: 't' :: k) (by decide)
  have noEmpty : (token .semicolon).outcome ('l' :: 'e' :: 't' :: k) = none :=
    miss_token rfl (by decide)
  rw [outcome_statement, anyStatement]
  simp only [outcome_choice, noBranch, noFor, noWhile, stop_bind noBlock, stop_bind noEmpty,
    stop_ended noConsole, stop_ended (stop_bind noUpdate), stop_ended (stop_bind noAssignment),
    stop_ended (stop_bind noExpression), Option.or_none]

/-- A declaration of a reserved word is no statement. -/
theorem statement_refused {w : List Char} (reserved : w ∈ reservedWords) (s : List Char) :
    statement.outcome ("let ".toList ++ (w ++ (" = ".toList ++ s))) = none := by
  have facts : ∀ w ∈ reservedWords, w.head?.any Name.isPart = true := by decide +kernel
  have solid : skipBlank (w ++ (" = ".toList ++ s)) = w ++ (" = ".toList ++ s) := by
    have part := facts w reserved
    cases w with
    | nil => cases part
    | cons c w => exact skipBlank_isPart part _
  have space : Apart (' ' :: (w ++ (" = ".toList ++ s))) := apart_cons.mpr (by decide)
  have noName := identifier_reserved reserved (k := " = ".toList ++ s) (apart_cons.mpr (by decide))
  have noDeclaration : declaration.outcome
      (Token.letWord.spelling ++ ' ' :: (w ++ (" = ".toList ++ s))) = none := by
    have kind : declKind.outcome (Token.letWord.spelling ++ ' ' :: (w ++ (" = ".toList ++ s))) =
        some (.letDecl, ' ' :: (w ++ (" = ".toList ++ s))) := outcome_declKind .letDecl space
    rw [declaration, run_bind kind, run_bind (outcome_blank _), skipBlank_space (by decide), solid]
    exact stop_bind noName
  exact (outcome_statement_let space).trans (stop_ended (stop_bind noDeclaration))

end Grammar

theorem Listing.written_assign (depth number : Nat) (name text : String) (rest : Listing) :
    written depth (⟨number, .assign name text⟩ :: rest) =
      (Line.assign name text).written depth ++ written depth rest := by
  simp [written, Line.opens, Line.closes]

/-- At a line that sets a reserved word no statement is read. -/
theorem outcome_items_refused {entry : Numbered} (refused : entry.line.isRefused = true)
    (depth : Nat) (rest : Listing) :
    ∃ s, items.outcome (skipBlank (Listing.written depth (entry :: rest))) =
      some ([], 'l' :: s) := by
  obtain ⟨number, line⟩ := entry
  cases line with
  | assign name text =>
      have reserved : name.toList ∈ reservedWords := List.contains_iff_mem.mp refused
      rw [Listing.written_assign, Line.skipBlank_assign]
      exact ⟨_, outcome_items_of_none (statement_refused reserved _)⟩
  | _ => cases refused

theorem stops_refused {entry : Numbered} (refused : entry.line.isRefused = true) (rest : Listing) :
    Stops (entry :: rest) where
  lineEnd depth := by
    obtain ⟨number, line⟩ := entry
    cases line with
    | assign name text =>
        rw [Listing.written_assign]
        exact Line.lineEnd_assign name text depth _
    | _ => cases refused
  stuck depth := by
    obtain ⟨s, stuck⟩ := outcome_items_refused refused depth rest
    exact ⟨_, stuck, by simp⟩

/-- Behind lines that are sound, a line that sets a reserved word leaves the script unread, whether
    it stands in a block or not. -/
theorem read_refused {front rest : Listing} {entry : Numbered}
    (sound : ∀ e ∈ front, e.line.Sound) (refused : entry.line.isRefused = true) (ys : List Stmt) :
    read program (front ++ entry :: rest : Listing).generate.code.toList ≠ .ok ys := by
  have stops := stops_refused refused rest
  cases shape_of_sound front sound 0 with
  | closed translates =>
      obtain ⟨s, stuck⟩ := outcome_items_refused refused 0 rest
      have whole := translates.outcome_items (stops.lineEnd 0)
      rw [stuck, ← translates.written_append] at whole
      rw [Ne, read_eq_ok_iff, outcome_program, Listing.skipBlank_code, whole]
      simp
  | stray translates =>
      rw [List.append_assoc, List.cons_append]
      exact read_stray translates
  | unclosed unclosed => exact unclosed.read_append_ne_ok stops ys

/-! ## Sources whose scripts are read -/

theorem Line.sound_of_isWellNamed {line : Line} (named : line.isWellNamed = true)
    (unrefused : line.isRefused = false) (readable : line.isReadable = true)
    (oneLine : ∀ text, line.remark? = some text → '\n' ∉ text.toList) : line.Sound := by
  cases line with
  | note text => exact oneLine text rfl
  | unknown text => exact oneLine text rfl
  | assign name text =>
      refine ⟨isName_iff.mpr ⟨named, ?_⟩, readable⟩
      simpa [isRefused] using unrefused
  | danglingSet | close => exact trivial
  | say | loop | test => exact readable

namespace Listing

variable {source : String} {xs : List Stmt}

/-- If the script of a source is read, then what has the form of a name and of an expression in the
    source is a name and an expression. -/
theorem sound_of_read (named : ∀ entry ∈ ofSource source, entry.line.isWellNamed = true)
    (readable : ∀ entry ∈ ofSource source, entry.line.isReadable = true)
    (whole : read program (scriptOf source).toList = .ok xs) :
    ∀ entry ∈ ofSource source, entry.line.Sound := by
  have sound : ∀ entry ∈ ofSource source, entry.line.isRefused = false → entry.line.Sound :=
    fun entry member unrefused => Line.sound_of_isWellNamed (named entry member) unrefused
      (readable entry member) fun text => remark_oneLine member
  rw [scriptOf] at whole
  generalize ofSource source = listing at sound whole
  cases found : listing.find? (·.line.isRefused) with
  | some entry =>
      obtain ⟨refused, front, rest, rfl, unrefused⟩ := List.find?_eq_some_iff_append.mp found
      have soundFront : ∀ e ∈ front, e.line.Sound := by
        intro e member
        exact sound e (List.mem_append_left _ member) (by simpa using unrefused e member)
      exact absurd whole (read_refused soundFront refused xs)
  | none =>
      have unrefused := List.find?_eq_none.mp found
      intro e member
      exact sound e member (by simpa using unrefused e member)

/-- A source of sound lines stands for the statements that its script is read as. -/
theorem translates_of_read (sound : ∀ entry ∈ ofSource source, entry.line.Sound)
    (whole : read program (scriptOf source).toList = .ok xs) :
    Translates 0 (ofSource source) xs := by
  rw [scriptOf] at whole
  generalize ofSource source = listing at sound whole
  cases shape_of_sound listing sound 0 with
  | closed translates =>
      cases translates.read_code.symm.trans whole
      exact translates
  | stray before => exact absurd whole (read_stray before)
  | unclosed unclosed => exact absurd whole (unclosed.read_ne_ok xs)

end Listing

end LineScript
