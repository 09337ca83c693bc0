import LineScript.Proofs.Listing.Concatenation
import LineScript.Proofs.Nesting.Agreement
import LineScript.Proofs.Tidy.Meaning
import LineScript.Run.Report
import LineScript.Template

/-! # New programs

A new program is a template behind a remark with the name of the program. As long as the name is one
line, all of it stays in the remark, whatever it is, and the program does what its template does. A
line feed in the name ends the remark, and the rest of the name becomes statements.
-/

namespace LineScript

/-! ## Comments in front -/

namespace Script

open Parse Parser Grammar Nesting

variable {code : String} {script : Script} {text : List Char}

theorem dropWhile_comment (oneLine : '\n' ∉ text) (k : List Char) :
    (text ++ '\n' :: k).dropWhile (· != '\n') = '\n' :: k := by
  have inside : ∀ c ∈ text, (c != '\n') = true := by
    intro c member
    rw [bne_iff_ne]
    rintro rfl
    exact oneLine member
  rw [List.dropWhile_append_of_pos inside]
  rfl

/-- A comment on a line of its own in front of a script is passed over. -/
theorem compile_comment (oneLine : '\n' ∉ text) (compiled : compile code = .ok script) :
    compile (String.ofList ('/' :: '/' :: text ++ '\n' :: code.toList)) = .ok script := by
  obtain ⟨within, accepted, checked⟩ := compile_eq_ok_iff.mp compiled
  rw [compile_eq_ok_iff, String.toList_ofList, List.cons_append, List.cons_append]
  refine ⟨?_, ?_, checked⟩
  · rw [isWithin_iff] at within ⊢
    rw [cut_lineComment, dropWhile_comment oneLine, cut_plain rfl]
    exact within_cons.mpr ⟨Nat.zero_le _, within_cons.mpr ⟨Nat.zero_le _, within⟩⟩
  · rw [read_eq_ok_iff, outcome_program] at accepted ⊢
    rw [skipBlank_line, dropWhile_comment oneLine, skipBlank_space rfl, accepted]

end Script

/-! ## Remarks in front -/

namespace Listing

theorem splitLines_of_oneLine {s : List Char} (oneLine : '\n' ∉ s) : Text.splitLines s = [s] := by
  have joined := @Text.splitLines_joinLines [String.ofList s] (by simpa using oneLine) (by simp)
  simpa [Text.joinLines] using joined

/-- A remark of one line is read as it is, unless it ends with blanks. -/
theorem ofSource_remark {text : String} (oneLine : '\n' ∉ text.toList) (some_ : text.toList ≠ [])
    (tight : Text.trimEnd text.toList = text.toList) :
    ofSource ("note " ++ text) = [⟨1, .note text⟩] := by
  have split : Text.splitLines ("note " ++ text).toList = [("note " ++ text).toList] := by
    apply splitLines_of_oneLine
    simpa using oneLine
  have trimmed : Text.trim ("note " ++ text).toList = "note ".toList ++ text.toList := by
    have word : ("note " ++ text).toList = 'n' :: ("ote ".toList ++ text.toList) := by simp
    rw [word, Text.trim_cons (by decide), ← List.cons_append,
      Text.trimEnd_append (by rwa [tight]), tight]
    rfl
  have classified : Line.classify? ("note " ++ text).toList = some (.note text) := by
    rw [Line.classify?_eq_some_iff, trimmed]
    exact ⟨by simp, by simp [Line.ofTrimmed, Text.after?]⟩
  rw [ofSource, split, ofLines, classified]
  rfl

theorem exists_mem_splitLines {c : Char} {s : List Char} (member : c ∈ s) (other : c ≠ '\n') :
    ∃ line ∈ Text.splitLines s, c ∈ line := by
  unfold Text.splitLines
  induction s with
  | nil => cases member
  | cons d s ih =>
      obtain ⟨first, rest, pieces⟩ := List.exists_cons_of_ne_nil (Text.split_ne_nil '\n' s)
      rw [pieces] at ih
      rw [Text.split_cons, pieces]
      split
      · next isMark =>
          have later : c ∈ s := (List.mem_cons.mp member).resolve_left (isMark ▸ other)
          obtain ⟨line, inRest, inside⟩ := ih later
          exact ⟨line, List.mem_cons_of_mem [] inRest, inside⟩
      · rw [List.modifyHead_cons]
        rcases List.mem_cons.mp member with rfl | later
        · exact ⟨c :: first, List.mem_cons_self, List.mem_cons_self⟩
        · obtain ⟨line, inRest, inside⟩ := ih later
          rcases List.mem_cons.mp inRest with rfl | inRest
          · exact ⟨d :: line, List.mem_cons_self, List.mem_cons_of_mem d inside⟩
          · exact ⟨line, List.mem_cons_of_mem _ inRest, inside⟩

theorem ofLines_ne_nil {first : Nat} {raws : List (List Char)} {raw : List Char}
    (member : raw ∈ raws) (solid : Text.trim raw ≠ []) : ofLines first raws ≠ [] := by
  intro none_
  have lines := ofLines_lines first raws
  rw [none_, List.map_nil, eq_comm, List.filterMap_eq_nil_iff] at lines
  exact solid (Line.classify?_eq_none_iff.mp (lines raw member))

/-- A source with a character that is not blank has a statement. -/
theorem ofSource_ne_nil {source : String} {c : Char} (member : c ∈ source.toList)
    (solid : Text.isBlank c = false) : ofSource source ≠ [] := by
  have other : c ≠ '\n' := by
    rintro rfl
    cases solid
  obtain ⟨line, inLines, inside⟩ := exists_mem_splitLines member other
  refine ofLines_ne_nil inLines fun blank => ?_
  rw [Text.trim_eq_nil_iff.mp blank c inside] at solid
  cases solid

end Listing

/-! ## Templates -/

namespace Template

/-- The title is one line, and the source has no findings and becomes a script, with at least one
    line. -/
structure IsProper (t : Template) : Prop where
  title : '\n' ∉ t.title.toList
  clean : (Listing.ofSource t.source).findings = []
  accepted : (Script.compile (scriptOf t.source)).isOk = true
  written : (Listing.ofSource t.source).generate.lines ≠ []

theorem isProper_of_mem {t : Template} (bundled : t ∈ all) : t.IsProper := by
  have proper : ∀ t ∈ all, '\n' ∉ t.title.toList ∧ (Listing.ofSource t.source).findings = [] ∧
      (Script.compile (scriptOf t.source)).isOk = true ∧
        (Listing.ofSource t.source).generate.lines ≠ [] := by
    decide +kernel
  obtain ⟨title, clean, accepted, written⟩ := proper t bundled
  exact ⟨title, clean, accepted, written⟩

/-- What a new program says of itself. -/
def remark (t : Template) (name : String) : String :=
  name ++ " (" ++ t.title ++ ")"

variable {t : Template} {name : String}

theorem instantiate_eq (t : Template) (name : String) :
    t.instantiate name = "note " ++ t.remark name ++ "\n" ++ t.source := by
  simp [instantiate, remark, String.append_assoc]

theorem oneLine_remark (proper : t.IsProper) (oneLine : '\n' ∉ name.toList) :
    '\n' ∉ (t.remark name).toList := by
  simp [remark, oneLine, proper.title]

theorem ofSource_instantiate (proper : t.IsProper) (oneLine : '\n' ∉ name.toList) :
    Listing.ofSource (t.instantiate name) =
      ⟨1, .note (t.remark name)⟩ :: (Listing.ofSource t.source).map (·.renumber (· + 1)) := by
  have oneLine' := oneLine_remark proper oneLine
  have tight : Text.trimEnd (t.remark name).toList = (t.remark name).toList := by
    have closed : (t.remark name).toList = (name ++ " (" ++ t.title).toList ++ [')'] := by
      simp [remark]
    have solid : Text.trimEnd [')'] = [')'] := Text.trimEnd_singleton (by decide)
    rw [closed, Text.trimEnd_append (by simp [solid]), solid]
  have some_ : (t.remark name).toList ≠ [] := by simp [remark]
  have count : lineCount ("note " ++ t.remark name) = 1 := by
    rw [lineCount, Listing.splitLines_of_oneLine (by simpa using oneLine')]
    rfl
  rw [instantiate_eq, Listing.ofSource_append, Listing.ofSource_remark oneLine' some_ tight, count]
  rfl

theorem findings_instantiate (proper : t.IsProper) (oneLine : '\n' ∉ name.toList) :
    (Listing.ofSource (t.instantiate name)).findings = [] := by
  have moved := Listing.findingsFrom_renumber (· + 1) [] (Listing.ofSource t.source)
  rw [ofSource_instantiate proper oneLine]
  show Listing.findingsFrom [] ((Listing.ofSource t.source).map (·.renumber (· + 1))) = []
  rw [List.map_nil] at moved
  rw [moved, show Listing.findingsFrom [] (Listing.ofSource t.source) = [] from proper.clean]
  rfl

/-- The script of a new program is that of its template behind a comment. -/
theorem scriptOf_instantiate (proper : t.IsProper) (oneLine : '\n' ∉ name.toList) :
    scriptOf (t.instantiate name) = String.ofList ('/' :: '/' :: (' ' :: (t.remark name).toList) ++
      '\n' :: (scriptOf t.source).toList) := by
  have first : Listing.emission [⟨1, .note (t.remark name)⟩] =
      ⟨[⟨1, indentation 0 ++ ("// " ++ t.remark name)⟩], [], []⟩ := rfl
  have written : ((Listing.ofSource t.source).emission.renumber (· + 1)).lines ≠ [] := by
    have some_ := proper.written
    rw [Generated.lines, Listing.sources_generate] at some_
    simpa [Emission.renumber] using some_
  rw [scriptOf, ofSource_instantiate proper oneLine, ← List.singleton_append, Listing.generate_eq,
    Listing.emission_append rfl, Listing.emission_renumber, Emission.code_generated,
    Emission.code_append, if_neg (by simp [first]), if_neg written, Emission.code_renumber, first,
    scriptOf, Listing.generate_eq, Emission.code_generated]
  apply String.toList_injective
  simp [Emission.code, Text.joinLines, indentation]

theorem compile_instantiate (proper : t.IsProper) (oneLine : '\n' ∉ name.toList) :
    Script.compile (scriptOf (t.instantiate name)) = Script.compile (scriptOf t.source) := by
  have accepted := proper.accepted
  cases compiled : Script.compile (scriptOf t.source) with
  | error fault => rw [compiled] at accepted; cases accepted
  | ok script =>
      rw [scriptOf_instantiate proper oneLine]
      apply Script.compile_comment _ compiled
      simpa using oneLine_remark proper oneLine

/-- A line feed in the name makes one statement too many, at least. -/
theorem length_instantiate (linefeed : '\n' ∈ name.toList) :
    (Listing.ofSource t.source).length + 1 < (Listing.ofSource (t.instantiate name)).length := by
  obtain ⟨before, behind, split⟩ := List.append_of_mem linefeed
  have text : t.instantiate name = "note " ++ String.ofList before ++ "\n" ++
      (t.remark (String.ofList behind) ++ "\n" ++ t.source) := by
    apply String.toList_injective
    simp [instantiate, remark, split]
  have first : Listing.ofSource ("note " ++ String.ofList before) ≠ [] :=
    Listing.ofSource_ne_nil (c := 'n') (by simp) (by decide)
  have second : Listing.ofSource (t.remark (String.ofList behind)) ≠ [] :=
    Listing.ofSource_ne_nil (c := ')') (by simp [remark]) (by decide)
  rw [← List.length_pos_iff] at first second
  rw [text, Listing.ofSource_append, Listing.ofSource_append]
  simp only [List.length_append, List.length_map]
  omega

end Template

/-- A new program is read as one remark and the statements of its template exactly if its name is
    one line. Then the remark holds the name, whatever characters it has, the program has no
    findings, and any run of it gives the report of a run of the template. -/
theorem instantiate_like_template {t : Template} (bundled : t ∈ Template.all) (name : String) :
    ((∃ text, (Listing.ofSource (t.instantiate name)).map Numbered.line =
        .note text :: (Listing.ofSource t.source).map Numbered.line) ↔ '\n' ∉ name.toList) ∧
      ('\n' ∉ name.toList →
        Listing.ofSource (t.instantiate name) =
            ⟨1, .note (name ++ " (" ++ t.title ++ ")")⟩ ::
              (Listing.ofSource t.source).map (·.renumber (· + 1)) ∧
          (Listing.ofSource (t.instantiate name)).findings = [] ∧
          Sandbox.executeSource (t.instantiate name) = Sandbox.executeSource t.source ∧
          ∀ limits clock, Sandbox.run limits clock (scriptOf (t.instantiate name)) =
            Sandbox.run limits clock (scriptOf t.source)) := by
  have proper := Template.isProper_of_mem bundled
  refine ⟨⟨?_, fun oneLine => ?_⟩, fun oneLine => ?_⟩
  · rintro ⟨text, same⟩ linefeed
    have more := Template.length_instantiate (t := t) linefeed
    have length := congrArg List.length same
    simp only [List.length_map, List.length_cons] at length
    omega
  · refine ⟨t.remark name, ?_⟩
    rw [Template.ofSource_instantiate proper oneLine]
    simp [Function.comp_def]
  · have runs : ∀ limits clock, Sandbox.run limits clock (scriptOf (t.instantiate name)) =
        Sandbox.run limits clock (scriptOf t.source) := by
      intro limits clock
      rw [Sandbox.run, Sandbox.run, Template.compile_instantiate proper oneLine]
    refine ⟨Template.ofSource_instantiate proper oneLine,
      Template.findings_instantiate proper oneLine, ?_, runs⟩
    exact congrArg Report.log (runs default Sandbox.stillClock)

/-- A name with quotes, a carriage return, words of the language and blanks at its end. -/
theorem instantiate_like_template_wild :
    let t : Template := ⟨"loops", "Loops",
      "say \"Counting down...\"\nrepeat 5\n  say \"Loop iteration\"\nend\nsay \"Done!\"\n"⟩
    let name := "*/ end\r say \"x\" \x7b("
    '\n' ∉ name.toList ∧ (Listing.ofSource (t.instantiate name)).findings = [] ∧
      Sandbox.executeSource (t.instantiate name) = Sandbox.executeSource t.source := by
  intro t name
  have oneLine : '\n' ∉ name.toList := by decide +kernel
  obtain ⟨-, holds⟩ := instantiate_like_template (t := t) (by decide +kernel) name
  obtain ⟨-, clean, run, -⟩ := holds oneLine
  exact ⟨oneLine, clean, run⟩

/-- A name of three lines, of which the second is a statement. The last one is none, and is found
    in the program. -/
theorem instantiate_threeLines :
    let t : Template := ⟨"hello", "Hello World",
      "note Welcome to NanoLang!\nsay \"Hello World!\"\nsay \"Coding is fun.\"\n"⟩
    let program := t.instantiate "My\nsay 0\nprogram"
    t ∈ Template.all ∧
      (Listing.ofSource program).map Numbered.line =
        .note "My" :: .say "0" :: .unknown "program (Hello World)" ::
          (Listing.ofSource t.source).map Numbered.line ∧
      (Listing.ofSource program).findings = [.unknownStatement 3 "program (Hello World)"] ∧
      Sandbox.executeSource t.source = ["Hello World!", "Coding is fun."] ∧
      Sandbox.executeSource program = ["0", "Hello World!", "Coding is fun."] :=
  ⟨by decide +kernel, by decide +kernel, by decide +kernel, by decide +kernel, by decide +kernel⟩

end LineScript
