import LineScript.Listing.Finding
import LineScript.Proofs.Listing.Blocks
import LineScript.Proofs.Text.Pieces

/-! # Sources that can be read

What a source text must be like for its script to be read: the names it sets are
names that a variable can have, and its texts are expressions. Then the script
can be read exactly if the blocks match.
-/

namespace LineScript

open Parse Parser Grammar

/-! ## Lines of a source text -/

/-- The text of a remark. -/
def Line.remark? : Line → Option String
  | .note text | .unknown text => some text
  | _ => none

theorem Line.remark_sublist {trimmed : List Char} {text : String}
    (remark : (ofTrimmed trimmed).remark? = some text) : text.toList.Sublist trimmed := by
  rw [ofTrimmed] at remark
  split at remark
  · next found =>
      cases remark
      rw [Text.after?_eq_some_iff.mp found, String.toList_ofList]
      exact List.sublist_append_right _ _
  split at remark
  · cases remark
  split at remark
  · rw [ofSet] at remark
    split at remark <;> cases remark
  split at remark
  · cases remark
  split at remark
  · cases remark
  split at remark
  · cases remark
  · cases remark
    rw [String.toList_ofList]

namespace Listing

private theorem exists_of_mem_ofLines {ls : List (List Char)} {first : Nat} {entry : Numbered}
    (member : entry ∈ ofLines first ls) : ∃ raw ∈ ls, Line.classify? raw = some entry.line := by
  induction ls generalizing first with
  | nil => cases member
  | cons raw ls ih =>
      rw [ofLines] at member
      split at member
      · next line classified =>
          rcases List.mem_cons.mp member with rfl | member
          · exact ⟨raw, List.mem_cons_self .., classified⟩
          · obtain ⟨raw', member, classified'⟩ := ih member
            exact ⟨raw', List.mem_cons_of_mem _ member, classified'⟩
      · obtain ⟨raw', member, classified'⟩ := ih member
        exact ⟨raw', List.mem_cons_of_mem _ member, classified'⟩

/-- A remark of a source text has no line feed in it. -/
theorem remark_oneLine {source : String} {entry : Numbered} (member : entry ∈ ofSource source)
    {text : String} (remark : entry.line.remark? = some text) : '\n' ∉ text.toList := by
  obtain ⟨raw, rawMember, classified⟩ := exists_of_mem_ofLines member
  have clean := Text.not_mem_of_mem_split rawMember
  rw [Line.classify?] at classified
  split at classified
  · cases classified
  · next trimmed =>
      rw [← Option.some.inj classified] at remark
      have inside := (Line.remark_sublist remark).trans (trimmed ▸ Text.trim_sublist raw)
      exact fun member => clean (inside.subset member)

end Listing

/-! ## Readable lines -/

namespace Line

/-- Whether the name that a line sets, if it sets one, is a name and not reserved. -/
def isNamed : Line → Bool
  | .assign name _ => Name.isValid name && !Name.isReserved name
  | _ => true

/-- Whether the text of a line, if it has one, is an expression. -/
def isReadable : Line → Bool
  | .say text | .assign _ text | .loop text | .test text => (phrase? 0 text).isSome
  | .note _ | .close | .danglingSet _ | .unknown _ => true

/-- Whether the count of a line, if it has one, is an expression whose outermost operator binds
    tighter than a comparison: it adds, multiplies or is a sign, or the count is a single operand. -/
def isTight : Line → Bool
  | .loop count => (phrase? tightLevel count).isSome
  | _ => true

theorem sound_of_isReadable {line : Line} (named : line.isNamed = true)
    (readable : line.isReadable = true)
    (oneLine : ∀ text, line.remark? = some text → '\n' ∉ text.toList) : line.Sound := by
  cases line with
  | note text => exact oneLine text rfl
  | unknown text => exact oneLine text rfl
  | assign name text =>
      simp only [isNamed, Bool.and_eq_true, Bool.not_eq_true'] at named
      exact ⟨isName_of_isValid named.1 named.2, readable⟩
  | danglingSet | close => exact trivial
  | say | loop | test => exact readable

end Line

namespace Listing

/-- Whether the script of a listing consists of readable lines. -/
def isReadable (listing : Listing) : Bool :=
  listing.all fun entry => entry.line.isNamed && entry.line.isReadable

/-- Whether the counts of a listing bind tighter than a comparison. -/
def isTight (listing : Listing) : Bool :=
  listing.all fun entry => entry.line.isTight

variable {source : String}

theorem shape_ofSource (readable : (ofSource source).isReadable = true) :
    Shape 0 (ofSource source) := by
  refine shape_of_sound _ (fun entry member => ?_) 0
  have both := List.all_eq_true.mp readable entry member
  rw [Bool.and_eq_true] at both
  exact Line.sound_of_isReadable both.1 both.2 fun text => remark_oneLine member

/-- A readable source whose blocks match stands for statements. -/
theorem exists_translates (readable : (ofSource source).isReadable = true)
    (balanced : (ofSource source).generate.isBalanced = true) :
    ∃ xs, Translates 0 (ofSource source) xs := by
  generalize eq : ofSource source = listing at balanced
  have shape := shape_ofSource readable
  rw [eq] at shape
  cases shape with
  | closed translates => exact ⟨_, translates⟩
  | stray before => simp [not_isBalanced_stray before] at balanced
  | unclosed unclosed => simp [unclosed.not_isBalanced] at balanced

/-- The script of a readable source is read exactly if the blocks of the source match. -/
theorem exists_read_iff (readable : (ofSource source).isReadable = true) :
    (∃ xs, read program (scriptOf source).toList = .ok xs) ↔
      (ofSource source).generate.isBalanced = true := by
  rw [scriptOf]
  have shape := shape_ofSource readable
  generalize ofSource source = listing at shape
  cases shape with
  | closed translates => exact iff_of_true ⟨_, translates.read_code⟩ translates.isBalanced
  | stray before =>
      exact iff_of_false (fun ⟨xs, whole⟩ => read_stray before whole)
        (by simp [not_isBalanced_stray before])
  | unclosed unclosed =>
      exact iff_of_false (fun ⟨xs, whole⟩ => unclosed.read_ne_ok xs whole)
        (by simp [unclosed.not_isBalanced])

/-! ## Sources without findings -/

theorem isNamed_of_finding? {number : Nat} {name text : String}
    (clean : Name.finding? number name = none) : (Line.assign name text).isNamed = true := by
  rw [Name.finding?] at clean
  split at clean
  · cases clean
  · next valid =>
      split at clean
      · cases clean
      · next free =>
          simp only [Bool.not_eq_true', Bool.not_eq_false] at valid
          simp [Line.isNamed, valid, free]

theorem isBalanced_emit (g : Emission) (depth : Nat) (entry : Numbered) :
    (g.emit depth entry).generated.isBalanced = g.generated.isBalanced := by
  simp only [Emission.generated, Generated.isBalanced, Emission.emit_unclosed, Emission.emit_stray]

/-- In a listing without findings names are names and blocks match. -/
theorem clean_from {opened : List (Nat × String)} {listing : Listing}
    (clean : findingsFrom opened listing = []) :
    (∀ entry ∈ listing, entry.line.isNamed = true) ∧
      (emissionFrom opened.length (opened.map Prod.fst) listing).generated.isBalanced = true := by
  induction listing generalizing opened with
  | nil =>
      obtain rfl : opened = [] := by simpa [findingsFrom] using clean
      exact ⟨nofun, rfl⟩
  | cons entry rest ih =>
      obtain ⟨number, line⟩ := entry
      rw [List.forall_mem_cons]
      cases line with
      | note | say =>
          obtain ⟨named, balanced⟩ := ih clean
          rw [emissionFrom_plain rfl rfl, isBalanced_emit]
          exact ⟨⟨rfl, named⟩, balanced⟩
      | danglingSet | unknown => cases clean
      | assign name text =>
          rw [findingsFrom, List.append_eq_nil_iff, Option.toList_eq_nil_iff] at clean
          obtain ⟨named, balanced⟩ := ih clean.2
          rw [emissionFrom_plain rfl rfl, isBalanced_emit]
          exact ⟨⟨isNamed_of_finding? clean.1, named⟩, balanced⟩
      | loop | test =>
          obtain ⟨named, balanced⟩ := ih clean
          rw [emissionFrom_opens rfl, isBalanced_emit]
          exact ⟨⟨rfl, named⟩, balanced⟩
      | close =>
          cases opened with
          | nil => cases clean
          | cons _ opened =>
              obtain ⟨named, balanced⟩ := ih clean
              rw [List.length_cons, emissionFrom_closes rfl rfl, isBalanced_emit]
              exact ⟨⟨rfl, named⟩, balanced⟩

/-- A source without findings whose texts are expressions stands for statements. -/
theorem exists_translates_of_clean (clean : (ofSource source).findings = [])
    (readable : ∀ entry ∈ ofSource source, entry.line.isReadable = true) :
    ∃ xs, Translates 0 (ofSource source) xs := by
  obtain ⟨named, balanced⟩ := clean_from clean
  have matched : (ofSource source).generate.isBalanced = true := by
    rw [generate_eq]
    exact balanced
  refine exists_translates (List.all_eq_true.mpr fun entry member => ?_) matched
  rw [named entry member, readable entry member]
  rfl

end Listing

end LineScript
