import LineScript.Proofs.Listing.Generation
import LineScript.Proofs.Listing.Matching
import LineScript.Proofs.Tidy.Meaning

/-! # The shape of a script

A script has one line for each statement of its source but the `set` without an equals sign, in the
same order. The line is the text that stands for the statement, behind two spaces for each block
around it. So the closer of a block is as far in as its opener.
-/

namespace LineScript

/-- What each statement inside `depth` blocks is written as. A `set` without an equals sign is not
    written at all. -/
inductive Line.Emits (depth : Nat) : Line → String → Prop where
  | note (text) : Emits depth (.note text) s!"// {text}"
  | say (expr) : Emits depth (.say expr) s!"console.log({expr});"
  | assign (name expr) : Emits depth (.assign name expr) s!"let {name} = {expr};"
  | loop (count) : Emits depth (.loop count)
      s!"for (let i_{depth} = 0; i_{depth} < {count}; i_{depth}++) \x7b"
  | test (condition) : Emits depth (.test condition) s!"if ({condition}) \x7b"
  | close : Emits depth .close "\x7d"
  | unknown (raw) : Emits depth (.unknown raw) s!"// Unknown syntax: {raw}"

namespace Line

variable {depth : Nat} {line : Line} {text : String}

theorem script?_loop (depth : Nat) (count : String) : (Line.loop count).script? depth =
    some s!"for (let i_{depth} = 0; i_{depth} < {count}; i_{depth}++) \x7b" := by
  rw [script?, loopCounter]
  refine congrArg some (String.toList_injective ?_)
  simp [ToString.toString]

theorem script?_eq_some_iff : line.script? depth = some text ↔ line.Emits depth text := by
  constructor
  · intro script
    cases line with
    | danglingSet => cases script
    | loop count =>
        rw [script?_loop] at script
        cases script
        exact .loop count
    | note | say | assign | test | close | unknown =>
        cases script
        constructor
  · intro emits
    cases emits with
    | loop count => exact script?_loop depth count
    | note | say | assign | test | close | unknown => rfl

/-- Whether a statement has a line in the script. -/
def isEmitted : Line → Bool
  | .danglingSet _ => false
  | _ => true

theorem isSome_script? (depth : Nat) (line : Line) :
    (line.script? depth).isSome = line.isEmitted := by
  cases line <;> rfl

theorem exists_emits (isEmitted : line.isEmitted = true) (depth : Nat) :
    ∃ template, line.Emits depth template := by
  rw [← isSome_script? depth, Option.isSome_iff_exists] at isEmitted
  obtain ⟨template, script⟩ := isEmitted
  exact ⟨template, script?_eq_some_iff.mp script⟩

theorem isEmitted_of_opens (isOpener : line.opens = true) : line.isEmitted = true := by
  cases line with
  | danglingSet => cases isOpener
  | _ => rfl

theorem isEmitted_of_closes (isCloser : line.closes = true) : line.isEmitted = true := by
  rw [eq_close isCloser]
  rfl

end Line

/-! ## From statements to lines -/

namespace Listing

theorem emissionFrom_lines (depth : Nat) (opened : List Nat) (listing : Listing) :
    (emissionFrom depth opened listing).lines =
      (listing.zip (depthsFrom depth listing)).filterMap fun at_ => at_.1.emitted? at_.2 := by
  induction listing generalizing depth opened with
  | nil => rfl
  | cons entry rest ih =>
      have head : ∀ here depths, ((entry :: rest).zip (here :: depths)).filterMap
          (fun at_ => at_.1.emitted? at_.2) = (entry.emitted? here).toList ++
            (rest.zip depths).filterMap fun at_ => at_.1.emitted? at_.2 := by
        intro here depths
        cases emitted : entry.emitted? here <;> simp [emitted]
      rw [depthsFrom, head]
      rcases entry.line.roles with ⟨opens, closes⟩ | ⟨opens, closes⟩ | ⟨opens, closes⟩
      · rw [emissionFrom_opens opens, Emission.emit_lines, ih]
        simp [opens, closes]
      · cases depth with
        | zero =>
            rw [emissionFrom_stray opens closes, Emission.emit_lines, Emission.addStray, ih]
            simp [opens, closes]
        | succ outer =>
            rw [emissionFrom_closes opens closes, Emission.emit_lines, ih]
            simp [opens, closes]
      · rw [emissionFrom_plain opens closes, Emission.emit_lines, ih]
        simp [opens, closes]

/-- Every line of a script is that of a statement at its depth. -/
theorem mem_lines_emission {listing : Listing} {line : Emitted} :
    line ∈ listing.emission.lines ↔ ∃ (p : Nat) (entry : Numbered), listing[p]? = some entry ∧
      entry.emitted? (listing.depthAt p) = some line := by
  rw [emission, emissionFrom_lines, List.mem_filterMap]
  constructor
  · rintro ⟨⟨entry, depth⟩, member, emitted⟩
    obtain ⟨p, found⟩ := List.mem_iff_getElem?.mp member
    obtain ⟨atP, deep⟩ := List.getElem?_zip_eq_some.mp found
    obtain rfl := Option.some.inj (deep.symm.trans (getElem?_depthsFrom atP))
    exact ⟨p, entry, atP, emitted⟩
  · rintro ⟨p, entry, atP, emitted⟩
    refine ⟨(entry, listing.depthAt p), List.mem_iff_getElem?.mpr ⟨p, ?_⟩, emitted⟩
    exact List.getElem?_zip_eq_some.mpr ⟨atP, getElem?_depthsFrom atP⟩

/-- The source map lists the statements that have a line. -/
theorem sourceMap_generate (listing : Listing) :
    listing.generate.sourceMap = (listing.filter (·.line.isEmitted)).map Numbered.number := by
  let source? (entry : Numbered) := if entry.line.isEmitted then some entry.number else none
  have source : ∀ at_ : Numbered × Nat, (at_.1.emitted? at_.2).map Emitted.source =
      source? at_.1 := by
    intro at_
    simp only [source?, ← Line.isSome_script? at_.2, Numbered.emitted?]
    cases at_.1.line.script? at_.2 <;> rfl
  have length : listing.length ≤ (depthsFrom 0 listing).length := by simp [depthsFrom_zero]
  calc listing.generate.sourceMap
      _ = (listing.zip (depthsFrom 0 listing)).filterMap (source? ∘ Prod.fst) := by
        rw [sources_generate, emission, emissionFrom_lines, List.map_filterMap]
        simp only [source, Function.comp_def]
      _ = listing.filterMap source? := by rw [← List.filterMap_map, List.map_fst_zip length]
      _ = (listing.filter (·.line.isEmitted)).map Numbered.number := by
        rw [← List.filterMap_eq_map, List.filterMap_filter]
        simp [source?]

end Listing

/-! ## The lines of the code -/

/-- Some line of the code is `text`, and the source map says that it comes from line `n`. -/
def Generated.HasLine (g : Generated) (n : Nat) (text : List Char) : Prop :=
  ∃ j : Nat, g.sourceMap[j]? = some n ∧ (Text.splitLines g.code.toList)[j]? = some text

namespace Listing

variable {listing : Listing}

theorem splitLines_code (clean : ∀ line ∈ listing.emission.lines, '\n' ∉ line.text.toList)
    (some_ : listing.emission.lines ≠ []) :
    Text.splitLines listing.generate.code.toList =
      listing.emission.lines.map (·.text.toList) := by
  rw [code_generate, Text.splitLines_joinLines (by simpa using clean) (by simpa using some_),
    List.map_map]
  rfl

theorem hasLine_iff (clean : ∀ line ∈ listing.emission.lines, '\n' ∉ line.text.toList) {n : Nat}
    {text : List Char} : listing.generate.HasLine n text ↔
      ∃ line ∈ listing.emission.lines, line.source = n ∧ line.text.toList = text := by
  by_cases none_ : listing.emission.lines = []
  · simp [Generated.HasLine, sources_generate, none_]
  · rw [Generated.HasLine, splitLines_code clean none_, sources_generate]
    simp only [List.getElem?_map, Option.map_eq_some_iff, List.mem_iff_getElem?]
    constructor
    · rintro ⟨j, ⟨line, found, rfl⟩, line', found', rfl⟩
      obtain rfl := Option.some.inj (found.symm.trans found')
      exact ⟨line, ⟨j, found⟩, rfl, rfl⟩
    · rintro ⟨line, ⟨j, found⟩, rfl, rfl⟩
      exact ⟨j, ⟨line, found, rfl⟩, line, found, rfl⟩

end Listing

theorem not_mem_loopCounter {c : Char} (other : c ∉ "i_".toList) (noDigit : c.isDigit = false)
    (depth : Nat) : c ∉ (loopCounter depth).toList := by
  have digits : (toString depth).toList = Nat.toDigits 10 depth := by
    simp [ToString.toString, Nat.repr]
  rw [loopCounter, String.toList_append, digits, List.mem_append, not_or]
  refine ⟨other, fun member => ?_⟩
  rw [Nat.isDigit_of_mem_toDigits (by decide) (by decide) member] at noDigit
  cases noDigit

/-- The line of a statement is one line. -/
theorem Line.newline_not_mem_script {depth : Nat} {raw : List Char} {line : Line} {text : String}
    (classified : classify? raw = some line) (clean : '\n' ∉ raw)
    (script : line.script? depth = some text) : '\n' ∉ text.toList := by
  have spelled := newline_not_mem_spelling classified clean
  have counter := not_mem_loopCounter (c := '\n') (by decide) (by decide) depth
  cases line with
  | danglingSet => cases script
  | note | say | assign | loop | test | close | unknown =>
      cases script
      simp_all [spelling]

namespace Listing

theorem mem_ofLines_iff {first n : Nat} {raws : List (List Char)} {line : Line} :
    ⟨n, line⟩ ∈ ofLines first raws ↔
      first ≤ n ∧ ∃ raw, raws[n - first]? = some raw ∧ Line.classify? raw = some line := by
  induction raws generalizing first with
  | nil => simp [ofLines]
  | cons raw rest ih =>
      have step : (first ≤ n ∧ ∃ raw', (raw :: rest)[n - first]? = some raw' ∧
          Line.classify? raw' = some line) ↔
            (n = first ∧ Line.classify? raw = some line) ∨
              ⟨n, line⟩ ∈ ofLines (first + 1) rest := by
        rw [ih]
        rcases Nat.lt_trichotomy n first with before | rfl | behind
        · simp [before.ne]
          omega
        · simp
        · have shift : n - first = n - (first + 1) + 1 := by omega
          simp [shift, behind.ne', behind.le]
          omega
      rw [step, ofLines]
      split
      · next line' classified =>
          rw [List.mem_cons, Numbered.mk.injEq, classified, Option.some.injEq, @eq_comm _ line]
      · next blank => simp [blank]

theorem numbers_ofSource (source : String) :
    ((ofSource source).map Numbered.number).Pairwise (· < ·) :=
  List.pairwise_map.mpr (ofLines_numbers 1 (Text.splitLines source.toList)).1

/-- The code of a source has no line feeds but those between its lines. -/
theorem oneLine_emission (source : String) :
    ∀ line ∈ (ofSource source).emission.lines, '\n' ∉ line.text.toList := by
  intro line member
  obtain ⟨p, entry, atP, emitted⟩ := mem_lines_emission.mp member
  obtain ⟨text, script, rfl⟩ := Option.map_eq_some_iff.mp emitted
  obtain ⟨-, raw, atRaw, classified⟩ := mem_ofLines_iff.mp (List.mem_of_getElem? atP)
  have clean : '\n' ∉ raw := Text.not_mem_of_mem_split (List.mem_of_getElem? atRaw)
  have text_ := Line.newline_not_mem_script classified clean script
  simp [indentation, text_]

end Listing

/-! ## Lines without code -/

theorem Text.cut?_eq_none_iff {mark : Char} {s : List Char} : cut? mark s = none ↔ mark ∉ s := by
  induction s with
  | nil => simp [cut?]
  | cons c s ih =>
      rw [cut?]
      split
      · next same => simp [same]
      · next other => simp [ih, Ne.symm other]

namespace Line

/-- A line holds `set` and something behind it, but no equals sign. -/
def Dangles (raw : List Char) : Prop :=
  ∃ rest, Text.trim raw = "set ".toList ++ rest ∧ '=' ∉ rest

theorem isEmitted_ofTrimmed (trimmed : List Char) : (ofTrimmed trimmed).isEmitted = false ↔
    ∃ rest, trimmed = "set ".toList ++ rest ∧ '=' ∉ rest := by
  constructor
  · intro silent
    rw [ofTrimmed] at silent
    split at silent
    · cases silent
    split at silent
    · cases silent
    split at silent
    · next rest found =>
        rw [ofSet] at silent
        split at silent
        · cases silent
        · next uncut =>
            exact ⟨rest, Text.after?_eq_some_iff.mp found, Text.cut?_eq_none_iff.mp uncut⟩
    split at silent
    · cases silent
    split at silent
    · cases silent
    split at silent
    · cases silent
    · cases silent
  · rintro ⟨rest, rfl, clean⟩
    have cut := Text.cut?_eq_none_iff.mpr clean
    simp [ofTrimmed, Text.after?, ofSet, cut, isEmitted]

/-- The lines that are written are those that are neither blank nor a `set` without an equals
    sign. -/
theorem exists_isEmitted_iff {raw : List Char} :
    (∃ line, classify? raw = some line ∧ line.isEmitted = true) ↔
      Text.trim raw ≠ [] ∧ ¬ Dangles raw := by
  simp only [classify?_eq_some_iff, Dangles, ← isEmitted_ofTrimmed]
  simp

end Line

/-! ## Indentation -/

/-- The blanks that a line starts with. -/
def Text.indent (line : List Char) : List Char :=
  line.takeWhile isBlank

theorem Text.indent_replicate (depth : Nat) {s : List Char}
    (solid : ∃ c ∈ s.head?, isBlank c = false) :
    indent (List.replicate (2 * depth) ' ' ++ s) = List.replicate (2 * depth) ' ' := by
  have blank : ∀ b ∈ List.replicate (2 * depth) ' ', isBlank b = true := by
    intro b member
    rw [List.eq_of_mem_replicate member]
    decide
  obtain ⟨c, first, isSolid⟩ := solid
  obtain ⟨t, rfl⟩ := List.head?_eq_some_iff.mp first
  rw [indent, List.takeWhile_append_of_pos blank,
    List.takeWhile_cons_of_neg (by simp [isSolid]), List.append_nil]

/-- What stands for a statement starts with no blank. -/
theorem Line.Emits.solid {depth : Nat} {line : Line} {text : String}
    (emits : line.Emits depth text) : ∃ c ∈ text.toList.head?, Text.isBlank c = false := by
  cases emits with
  | note | unknown => exact ⟨'/', by simp [ToString.toString], by decide⟩
  | say => exact ⟨'c', by simp [ToString.toString], by decide⟩
  | assign => exact ⟨'l', by simp [ToString.toString], by decide⟩
  | loop => exact ⟨'f', by simp [ToString.toString], by decide⟩
  | test => exact ⟨'i', by simp [ToString.toString], by decide⟩
  | close => exact ⟨'\x7d', by simp, by decide⟩

theorem mem_sourceMap_iff {source : String} {n : Nat} :
    n ∈ (Listing.ofSource source).generate.sourceMap ↔
      1 ≤ n ∧ ∃ raw, (Text.splitLines source.toList)[n - 1]? = some raw ∧ Text.trim raw ≠ [] ∧
        ¬ Line.Dangles raw := by
  rw [Listing.sourceMap_generate, List.mem_map]
  constructor
  · rintro ⟨⟨n, line⟩, member, rfl⟩
    obtain ⟨inListing, emitted⟩ := List.mem_filter.mp member
    obtain ⟨le, raw, atRaw, classified⟩ := Listing.mem_ofLines_iff.mp inListing
    exact ⟨le, raw, atRaw, Line.exists_isEmitted_iff.mp ⟨line, classified, emitted⟩⟩
  · rintro ⟨le, raw, atRaw, written⟩
    obtain ⟨line, classified, emitted⟩ := Line.exists_isEmitted_iff.mpr written
    have inListing := Listing.mem_ofLines_iff.mpr ⟨le, raw, atRaw, classified⟩
    exact ⟨⟨n, line⟩, List.mem_filter.mpr ⟨inListing, emitted⟩, rfl⟩

/-- The lines of the code are those that stand for the statements, each at its depth. -/
theorem hasLine_ofSource_iff {source : String} {n : Nat} {text : List Char} :
    (Listing.ofSource source).generate.HasLine n text ↔
      ∃ (p : Nat) (line : Line) (template : String),
        (Listing.ofSource source)[p]? = some ⟨n, line⟩ ∧
          line.Emits ((Listing.ofSource source).depthAt p) template ∧
          text = List.replicate (2 * (Listing.ofSource source).depthAt p) ' ' ++
            template.toList := by
  rw [Listing.hasLine_iff (Listing.oneLine_emission source)]
  constructor
  · rintro ⟨emitted, member, rfl, rfl⟩
    obtain ⟨p, ⟨number, line⟩, found, written⟩ := Listing.mem_lines_emission.mp member
    obtain ⟨template, script, rfl⟩ := Option.map_eq_some_iff.mp written
    exact ⟨p, line, template, found, Line.script?_eq_some_iff.mp script, by simp [indentation]⟩
  · rintro ⟨p, line, template, found, emits, rfl⟩
    refine ⟨⟨n, indentation ((Listing.ofSource source).depthAt p) ++ template⟩,
      Listing.mem_lines_emission.mpr ⟨p, _, found, ?_⟩, rfl, by simp [indentation]⟩
    rw [Numbered.emitted?, Line.script?_eq_some_iff.mpr emits, Option.map_some]

/-- The line of a statement is as far in as there are blocks around the statement. -/
theorem exists_hasLine {source : String} {p n : Nat} {line : Line}
    (found : (Listing.ofSource source)[p]? = some ⟨n, line⟩) (isEmitted : line.isEmitted = true) :
    ∃ text, (Listing.ofSource source).generate.HasLine n text ∧
      Text.indent text = List.replicate (2 * (Listing.ofSource source).depthAt p) ' ' := by
  obtain ⟨template, emits⟩ := Line.exists_emits isEmitted ((Listing.ofSource source).depthAt p)
  exact ⟨_, hasLine_ofSource_iff.mpr ⟨p, line, template, found, emits, rfl⟩,
    Text.indent_replicate _ emits.solid⟩

/-- What the code of a source looks like. -/
structure Generated.Renders (g : Generated) (source : String) : Prop where
  sorted : g.sourceMap.Pairwise (· < ·)
  /-- Every line has code but the blank ones and a `set` without an equals sign. -/
  sources : ∀ n, n ∈ g.sourceMap ↔ 1 ≤ n ∧ ∃ raw,
    (Text.splitLines source.toList)[n - 1]? = some raw ∧ Text.trim raw ≠ [] ∧ ¬ Line.Dangles raw
  empty : g.sourceMap = [] → g.code = ""
  length : g.sourceMap ≠ [] → (Text.splitLines g.code.toList).length = g.sourceMap.length
  /-- A line is what its statement is written as, behind two spaces for each block around it. -/
  line : ∀ n text, g.HasLine n text → ∃ p line template,
    (Listing.ofSource source)[p]? = some ⟨n, line⟩ ∧
      line.Emits ((Listing.ofSource source).depthAt p) template ∧
      text = List.replicate (2 * (Listing.ofSource source).depthAt p) ' ' ++ template.toList
  /-- The closer of a block is as far in as its opener. -/
  closer : ∀ i k opener closer, (Listing.ofSource source)[i]? = some opener →
    (Listing.ofSource source)[k]? = some closer → (Listing.ofSource source).Matched i k →
      ∃ text text', g.HasLine opener.number text ∧ g.HasLine closer.number text' ∧
        Text.indent text' = Text.indent text
  /-- A closer of no block is not indented. -/
  stray : ∀ k closer, (Listing.ofSource source)[k]? = some closer → closer.line.closes = true →
    (∀ i, ¬ (Listing.ofSource source).Matched i k) → g.HasLine closer.number ['\x7d']

/-- The code of a source has one line for each statement that is written at all, in the order of
    the source and indented as its blocks ask for. -/
theorem generate_renders (source : String) :
    (Listing.ofSource source).generate.Renders source := by
  have lines : (Listing.ofSource source).generate.sourceMap = [] ↔
      (Listing.ofSource source).emission.lines = [] := by
    rw [Listing.sources_generate, List.map_eq_nil_iff]
  constructor
  case sorted =>
    rw [Listing.sourceMap_generate]
    exact (Listing.numbers_ofSource source).sublist (List.filter_sublist.map _)
  case sources => exact fun n => mem_sourceMap_iff
  case empty =>
    intro isNil
    rw [Listing.code_generate, lines.mp isNil]
    rfl
  case length =>
    intro notNil
    rw [Listing.splitLines_code (Listing.oneLine_emission source) (lines.not.mp notNil),
      List.length_map, Listing.sources_generate, List.length_map]
  case line => exact fun n text => hasLine_ofSource_iff.mp
  case closer =>
    intro i k opener closer atI atK matched
    obtain ⟨_, found, opens⟩ := matched.opens
    obtain rfl := Option.some.inj (found.symm.trans atI)
    obtain ⟨_, found', closes⟩ := matched.closes
    obtain rfl := Option.some.inj (found'.symm.trans atK)
    obtain ⟨text, hasText, indent⟩ := exists_hasLine atI (Line.isEmitted_of_opens opens)
    obtain ⟨text', hasText', indent'⟩ := exists_hasLine atK (Line.isEmitted_of_closes closes)
    refine ⟨text, text', hasText, hasText', ?_⟩
    rw [indent, indent', matched.depthAt_eq]
  case stray =>
    intro k closer found closes stray
    have emits : closer.line.Emits ((Listing.ofSource source).depthAt k) "\x7d" := by
      rw [Line.eq_close closes]
      exact .close
    refine hasLine_ofSource_iff.mpr ⟨k, closer.line, _, found, emits, ?_⟩
    rw [Listing.depthAt_eq_zero found closes stray]
    rfl

end LineScript
