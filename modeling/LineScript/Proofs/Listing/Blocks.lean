import LineScript.Proofs.Listing.Count
import LineScript.Proofs.Listing.Generation
import LineScript.Proofs.Listing.Written

/-! # Blocks of a listing

A listing whose blocks all close stands for statements, and reading its script
gives them back whatever follows. Every other listing has a closer with nothing
to close behind such a listing, or an opener whose block never ends; its script
cannot be read, and generation has noted as much.
-/

namespace LineScript

open Parse Parser Grammar

/-- A listing inside `depth` blocks whose blocks all close, and what it stands for. -/
inductive Translates : Nat → Listing → List Stmt → Prop where
  | nil {depth} : Translates depth [] []
  | plain {depth number line xs rest ys} : Plain line xs → Translates depth rest ys →
      Translates depth (⟨number, line⟩ :: rest) (xs ++ ys)
  | block {depth number line make inner xs last rest ys} : Header depth line make →
      Translates (depth + 1) inner xs → Translates depth rest ys →
      Translates depth (⟨number, line⟩ :: (inner ++ ⟨last, .close⟩ :: rest)) (make xs :: ys)

/-- A listing inside `depth` blocks that opens a block and never closes it. -/
inductive Unclosed : Nat → Listing → Prop where
  | last {depth before xs number line make rest ys} : Translates depth before xs →
      Header depth line make → Translates (depth + 1) rest ys →
      Unclosed depth (before ++ ⟨number, line⟩ :: rest)
  | deeper {depth before xs number line make rest} : Translates depth before xs →
      Header depth line make → Unclosed (depth + 1) rest →
      Unclosed depth (before ++ ⟨number, line⟩ :: rest)

namespace Plain

variable {line : Line} {xs : List Stmt}

theorem opens_eq (plain : Plain line xs) : line.opens = false := by
  cases plain <;> rfl

theorem closes_eq (plain : Plain line xs) : line.closes = false := by
  cases plain <;> rfl

end Plain

theorem Header.opens_eq {depth : Nat} {line : Line} {make : List Stmt → Stmt}
    (header : Header depth line make) : line.opens = true := by
  cases header <;> rfl

/-! ## The text of a listing -/

namespace Listing

/-- The text of a listing inside `depth` blocks. -/
def written (depth : Nat) : Listing → List Char
  | [] => []
  | entry :: rest =>
      if entry.line.opens then entry.line.written depth ++ written (depth + 1) rest
      else if entry.line.closes then entry.line.written (depth - 1) ++ written (depth - 1) rest
      else entry.line.written depth ++ written depth rest

section Written

variable {depth number : Nat} {line : Line} {rest : Listing}

theorem written_plain {xs : List Stmt} (plain : Plain line xs) :
    written depth (⟨number, line⟩ :: rest) = line.written depth ++ written depth rest := by
  simp [written, plain.opens_eq, plain.closes_eq]

theorem written_header {make : List Stmt → Stmt} (header : Header depth line make) :
    written depth (⟨number, line⟩ :: rest) = line.written depth ++ written (depth + 1) rest := by
  simp [written, header.opens_eq]

theorem written_close : written depth (⟨number, .close⟩ :: rest) =
    Line.close.written (depth - 1) ++ written (depth - 1) rest := by
  simp [written, Line.opens, Line.closes]

end Written

theorem lines_emit (g : Emission) (depth : Nat) (entry : Numbered) :
    (g.emit depth entry).lines.flatMap (fun l => '\n' :: l.text.toList) =
      entry.line.written depth ++ g.lines.flatMap (fun l => '\n' :: l.text.toList) := by
  cases script : entry.line.script? depth with
  | none => simp [Emission.emit, Line.written, script]
  | some text => simp [Emission.emit, Line.written, script]

theorem lines_emissionFrom (depth : Nat) (opened : List Nat) (listing : Listing) :
    (emissionFrom depth opened listing).lines.flatMap (fun l => '\n' :: l.text.toList) =
      written depth listing := by
  induction listing generalizing depth opened with
  | nil => rfl
  | cons entry rest ih =>
      rw [written]
      cases opens : entry.line.opens with
      | true => rw [emissionFrom_opens opens, lines_emit, ih, if_pos rfl]
      | false =>
          cases closes : entry.line.closes with
          | true =>
              cases depth with
              | zero => rw [emissionFrom_stray opens closes, lines_emit, Emission.addStray, ih]; rfl
              | succ outer => rw [emissionFrom_closes opens closes, lines_emit, ih]; rfl
          | false => rw [emissionFrom_plain opens closes, lines_emit, ih]; rfl

private theorem intercalate_lines (ls : List (List Char)) :
    skipBlank (['\n'].intercalate ls) = skipBlank (ls.flatMap ('\n' :: ·)) := by
  have joined : ∀ (l : List Char) (ls : List (List Char)),
      ['\n'].intercalate (l :: ls) = l ++ ls.flatMap ('\n' :: ·) := by
    intro l ls
    induction ls generalizing l with
    | nil => simp
    | cons m ls ih => rw [List.intercalate_cons_cons, ih, List.flatMap_cons]; simp
  cases ls with
  | nil => rfl
  | cons l ls => rw [joined, List.flatMap_cons, List.cons_append, skipBlank_space (by decide)]

/-- Blanks in front aside, a script is the text of its listing. -/
theorem skipBlank_code (listing : Listing) :
    skipBlank listing.generate.code.toList = skipBlank (written 0 listing) := by
  rw [code_generate, Text.joinLines, String.toList_intercalate, List.map_map]
  have lines := lines_emissionFrom 0 [] listing
  have text := intercalate_lines (listing.emission.lines.map fun l => l.text.toList)
  rw [List.flatMap_map] at text
  exact text.trans (congrArg skipBlank lines)

end Listing

/-! ## Listings whose blocks close -/

namespace Translates

variable {depth : Nat} {listing : Listing} {xs : List Stmt}

/-- Closed blocks leave the depth as it was. -/
theorem written_append (translates : Translates depth listing xs) (more : Listing) :
    Listing.written depth (listing ++ more) =
      Listing.written depth listing ++ Listing.written depth more := by
  induction translates generalizing more with
  | nil => rfl
  | plain plain _ ih =>
      rw [List.cons_append, Listing.written_plain plain, Listing.written_plain plain, ih,
        List.append_assoc]
  | block header _ _ ihInner ihRest =>
      rw [List.cons_append, List.append_assoc, List.cons_append, Listing.written_header header,
        Listing.written_header header, ihInner, ihInner, Listing.written_close,
        Listing.written_close, Nat.add_sub_cancel, ihRest]
      simp only [List.append_assoc]

/-- Closed blocks leave nothing to note. -/
theorem emissionFrom_append (translates : Translates depth listing xs) (opened : List Nat)
    (more : Listing) :
    (Listing.emissionFrom depth opened (listing ++ more)).unclosed =
        (Listing.emissionFrom depth opened more).unclosed ∧
      (Listing.emissionFrom depth opened (listing ++ more)).stray =
        (Listing.emissionFrom depth opened more).stray := by
  induction translates generalizing opened more with
  | nil => exact ⟨rfl, rfl⟩
  | plain plain _ ih =>
      rw [List.cons_append, Listing.emissionFrom_plain plain.opens_eq plain.closes_eq,
        Emission.emit_unclosed, Emission.emit_stray]
      exact ih opened more
  | block header _ _ ihInner ihRest =>
      rw [List.cons_append, List.append_assoc, List.cons_append,
        Listing.emissionFrom_opens header.opens_eq, Emission.emit_unclosed, Emission.emit_stray,
        (ihInner _ _).1, (ihInner _ _).2, Listing.emissionFrom_closes rfl rfl,
        Emission.emit_unclosed, Emission.emit_stray]
      exact ihRest opened more

theorem emissionFrom_self (translates : Translates depth listing xs) (opened : List Nat) :
    (Listing.emissionFrom depth opened listing).unclosed = opened.reverse ∧
      (Listing.emissionFrom depth opened listing).stray = [] := by
  have same := translates.emissionFrom_append opened []
  rwa [List.append_nil] at same

/-- In front of a listing whose blocks close another line ends. -/
theorem lineEnd (translates : Translates depth listing xs) {k : List Char} (end_ : LineEnd k) :
    LineEnd (Listing.written depth listing ++ k) := by
  induction translates with
  | nil => exact end_
  | plain plain _ ih =>
      rw [Listing.written_plain plain, List.append_assoc]
      exact plain.lineEnd _ ih
  | block header _ _ _ _ =>
      rw [Listing.written_header header, List.append_assoc]
      exact header.lineEnd _

/-- A block that closes is read up to its closer. -/
private theorem outcome_block {inner : Listing} {depth : Nat} {xs : List Stmt}
    (read : ∀ k, LineEnd k → items.outcome (skipBlank (Listing.written (depth + 1) inner ++ k)) =
      (items.outcome (skipBlank k)).map fun y => (xs ++ y.1, y.2)) (k : List Char) :
    (Grammar.block ruled).outcome ('\x7b' :: (Listing.written (depth + 1) inner ++
      (Line.close.written depth ++ k))) = some (xs, k) := by
  apply run_block
  rw [read _ (lineEnd_close depth k), outcome_items_close]
  simp

/-- Reading the text of a listing gives what it stands for, and goes on behind it. -/
theorem outcome_items (translates : Translates depth listing xs) {k : List Char}
    (end_ : LineEnd k) :
    items.outcome (skipBlank (Listing.written depth listing ++ k)) =
      (items.outcome (skipBlank k)).map fun y => (xs ++ y.1, y.2) := by
  induction translates generalizing k with
  | nil => simp [Listing.written]
  | plain plain rest ih =>
      rw [Listing.written_plain plain, List.append_assoc,
        plain.outcome_items _ (rest.lineEnd end_), ih end_]
      cases items.outcome (skipBlank k) <;> simp
  | @block depth number line make inner xs last rest ys header translates rest' ihInner ihRest =>
      have closed := outcome_block (fun k end_ => ihInner end_)
        (Listing.written depth rest ++ k)
      have read := header.run closed (rest'.lineEnd end_)
      rw [Listing.written_header header, translates.written_append, Listing.written_close,
        Nat.add_sub_cancel]
      simp only [List.append_assoc]
      rw [outcome_items_of_some read, ihRest end_]
      cases items.outcome (skipBlank k) <;> simp

theorem append {more : Listing} {ys : List Stmt} (first : Translates depth listing xs)
    (second : Translates depth more ys) : Translates depth (listing ++ more) (xs ++ ys) := by
  induction first with
  | nil => exact second
  | plain plain _ ih =>
      rw [List.cons_append, List.append_assoc]
      exact .plain plain (ih second)
  | block header inner _ _ ih =>
      rw [List.cons_append, List.append_assoc, List.cons_append, List.cons_append]
      exact .block header inner (ih second)

/-- The script of a listing whose blocks close is read as what the listing stands for. -/
theorem read_code (translates : Translates 0 listing xs) :
    read program listing.generate.code.toList = .ok xs := by
  have whole := translates.outcome_items .nil
  rw [List.append_nil, skipBlank_nil, outcome_items_of_none statement_nil] at whole
  rw [read_eq_ok_iff, outcome_program, Listing.skipBlank_code, whole]
  simp

theorem isBalanced (translates : Translates 0 listing xs) :
    listing.generate.isBalanced = true := by
  obtain ⟨unclosed, stray⟩ := translates.emissionFrom_self []
  rw [Listing.isBalanced_generate, Listing.emission, unclosed, stray]
  rfl

end Translates

/-! ## Listings whose blocks do not match -/

/-- The script of a listing with a closer too many is not read. -/
theorem read_stray {before rest : Listing} {xs ys : List Stmt} {number : Nat}
    (translates : Translates 0 before xs) :
    read program (before ++ ⟨number, .close⟩ :: rest : Listing).generate.code.toList ≠ .ok ys := by
  have stuck := translates.outcome_items (lineEnd_close 0 (Listing.written 0 rest))
  rw [outcome_items_close] at stuck
  rw [Ne, read_eq_ok_iff, outcome_program, Listing.skipBlank_code, translates.written_append,
    Listing.written_close, stuck]
  simp

theorem not_isBalanced_stray {before rest : Listing} {xs : List Stmt} {number : Nat}
    (translates : Translates 0 before xs) :
    (before ++ ⟨number, .close⟩ :: rest : Listing).generate.isBalanced = false := by
  obtain ⟨-, stray⟩ := translates.emissionFrom_append [] (⟨number, .close⟩ :: rest)
  rw [Listing.emissionFrom_stray rfl rfl, Emission.emit_stray, Emission.addStray_stray] at stray
  rw [Listing.isBalanced_generate, Listing.emission, stray]
  simp

/-- A listing of which nothing is read, wherever it stands: it is empty, or reading stops at its
    first line, which is no closer. -/
structure Stops (tail : Listing) : Prop where
  lineEnd : ∀ depth, LineEnd (Listing.written depth tail)
  stuck : ∀ depth, ∃ r, items.outcome (skipBlank (Listing.written depth tail)) = some ([], r) ∧
    r.head? ≠ some '\x7d'

theorem Stops.nil : Stops [] where
  lineEnd _ := .nil
  stuck _ := ⟨[], outcome_items_of_none statement_nil, by simp⟩

namespace Unclosed

variable {depth : Nat} {listing tail : Listing}

/-- Reading stops at the header of a block that does not close. -/
private theorem outcome_header {before rest : Listing} {xs : List Stmt} {number : Nat} {line : Line}
    {make : List Stmt → Stmt} (translates : Translates depth before xs)
    (header : Header depth line make)
    (open_ : (Grammar.block ruled).outcome ('\x7b' :: Listing.written (depth + 1) rest) = none) :
    ∃ ys c s, items.outcome (skipBlank (Listing.written depth (before ++ ⟨number, line⟩ :: rest))) =
      some (ys, c :: s) ∧ c ∈ ['f', 'i'] := by
  have stuck := translates.outcome_items (header.lineEnd (Listing.written (depth + 1) rest))
  rw [outcome_items_of_none (header.stop open_)] at stuck
  obtain ⟨text, c, script, word, start⟩ := header.head_written (Listing.written (depth + 1) rest)
  rw [← Line.skipBlank_written script] at start
  rw [translates.written_append, Listing.written_header header, stuck]
  cases here : skipBlank (line.written depth ++ Listing.written (depth + 1) rest) with
  | nil =>
      rw [here] at start
      cases start
  | cons d s =>
      rw [here] at start
      cases start
      exact ⟨_, _, s, rfl, word⟩

/-- Reading a listing that never closes a block stops at a header, if it stops behind the
    listing. -/
theorem outcome_items (unclosed : Unclosed depth listing) (stops : Stops tail) :
    ∃ ys c s, items.outcome (skipBlank (Listing.written depth (listing ++ tail))) =
      some (ys, c :: s) ∧ c ∈ ['f', 'i'] := by
  induction unclosed with
  | @last depth before xs number line make rest ys translates header inner =>
      rw [List.append_assoc, List.cons_append]
      refine outcome_header translates header ?_
      have whole := inner.outcome_items (stops.lineEnd (depth + 1))
      obtain ⟨r, stuck, other⟩ := stops.stuck (depth + 1)
      rw [stuck, ← inner.written_append] at whole
      exact stop_block whole other
  | deeper translates header _ ih =>
      rw [List.append_assoc, List.cons_append]
      refine outcome_header translates header ?_
      obtain ⟨ys, c, s, stuck, word⟩ := ih
      refine stop_block stuck ?_
      rintro same
      cases same
      revert word
      decide

theorem read_append_ne_ok (unclosed : Unclosed 0 listing) (stops : Stops tail) (ys : List Stmt) :
    read program (listing ++ tail : Listing).generate.code.toList ≠ .ok ys := by
  obtain ⟨xs, c, s, stuck, -⟩ := unclosed.outcome_items stops
  rw [Ne, read_eq_ok_iff, outcome_program, Listing.skipBlank_code, stuck]
  simp

theorem read_ne_ok (unclosed : Unclosed 0 listing) (ys : List Stmt) :
    read program listing.generate.code.toList ≠ .ok ys := by
  have stops := unclosed.read_append_ne_ok .nil ys
  rwa [List.append_nil] at stops

private theorem unclosed_ne_nil (unclosed : Unclosed depth listing) (opened : List Nat) :
    (Listing.emissionFrom depth opened listing).unclosed ≠ [] := by
  induction unclosed generalizing opened with
  | last before header rest =>
      rw [(before.emissionFrom_append _ _).1, Listing.emissionFrom_opens header.opens_eq,
        Emission.emit_unclosed, (rest.emissionFrom_self _).1]
      simp
  | deeper before header _ ih =>
      rw [(before.emissionFrom_append _ _).1, Listing.emissionFrom_opens header.opens_eq,
        Emission.emit_unclosed]
      exact ih _

theorem not_isBalanced (unclosed : Unclosed 0 listing) : listing.generate.isBalanced = false := by
  have some_ := unclosed.unclosed_ne_nil []
  rw [Listing.isBalanced_generate, Listing.emission]
  simp [some_]

theorem prepend {before : Listing} {xs : List Stmt} (translates : Translates depth before xs)
    (unclosed : Unclosed depth listing) : Unclosed depth (before ++ listing) := by
  cases unclosed with
  | last first header rest =>
      rw [← List.append_assoc]
      exact .last (translates.append first) header rest
  | deeper first header rest =>
      rw [← List.append_assoc]
      exact .deeper (translates.append first) header rest

end Unclosed

/-! ## Every listing -/

/-- What a listing inside `depth` blocks can look like. -/
inductive Shape (depth : Nat) : Listing → Prop where
  | closed {listing xs} : Translates depth listing xs → Shape depth listing
  | stray {before xs number rest} : Translates depth before xs →
      Shape depth (before ++ ⟨number, .close⟩ :: rest)
  | unclosed {listing} : Unclosed depth listing → Shape depth listing

theorem Shape.prepend {depth : Nat} {before listing : Listing} {xs : List Stmt}
    (translates : Translates depth before xs) (shape : Shape depth listing) :
    Shape depth (before ++ listing) := by
  cases shape with
  | closed rest => exact .closed (translates.append rest)
  | stray first =>
      rw [← List.append_assoc]
      exact .stray (translates.append first)
  | unclosed rest => exact .unclosed (.prepend translates rest)

/-- A line whose texts can be read and whose name, if it has one, a variable can have. -/
def Line.Sound : Line → Prop
  | .note text | .unknown text => '\n' ∉ text.toList
  | .danglingSet _ | .close => True
  | .say text | .loop text | .test text => (phrase? 0 text).isSome
  | .assign name text => IsName name ∧ (phrase? 0 text).isSome

/-- A sound line is plain, opens a block or closes one. -/
theorem Line.Sound.cases {line : Line} (sound : line.Sound) (depth : Nat) :
    (∃ xs, Plain line xs) ∨ (∃ make, Header depth line make) ∨ line = .close := by
  cases line with
  | note text => exact .inl ⟨_, .note sound⟩
  | say text =>
      obtain ⟨e, accepted⟩ := Option.isSome_iff_exists.mp sound
      exact .inl ⟨_, .say accepted⟩
  | assign name text =>
      obtain ⟨e, accepted⟩ := Option.isSome_iff_exists.mp sound.2
      exact .inl ⟨_, .assign sound.1 accepted⟩
  | loop count =>
      obtain ⟨e, accepted⟩ := Option.isSome_iff_exists.mp sound
      obtain ⟨t, read, -⟩ := phrase?_count (isName_loopCounter depth) accepted
      exact .inr (.inl ⟨_, .loop read⟩)
  | test condition =>
      obtain ⟨e, accepted⟩ := Option.isSome_iff_exists.mp sound
      exact .inr (.inl ⟨_, .test accepted⟩)
  | close => exact .inr (.inr rfl)
  | danglingSet raw => exact .inl ⟨_, .danglingSet⟩
  | unknown raw => exact .inl ⟨_, .unknown sound⟩

theorem shape_of_sound (listing : Listing) (sound : ∀ entry ∈ listing, entry.line.Sound)
    (depth : Nat) : Shape depth listing := by
  induction length : listing.length using Nat.strong_induction_on generalizing listing depth with
  | _ n ih =>
      subst length
      cases listing with
      | nil => exact .closed .nil
      | cons entry rest =>
          obtain ⟨number, line⟩ := entry
          have soundRest : ∀ entry ∈ rest, entry.line.Sound := fun entry member =>
            sound entry (List.mem_cons_of_mem _ member)
          have here : line.Sound := sound ⟨number, line⟩ (List.mem_cons_self ..)
          rcases here.cases depth with ⟨xs, plain⟩ | ⟨make, header⟩ | rfl
          · exact .prepend (.plain plain .nil) (ih _ (Nat.lt_succ_self _) rest soundRest depth rfl)
          · cases ih _ (Nat.lt_succ_self _) rest soundRest (depth + 1) rfl with
            | closed inner => exact .unclosed (.last .nil header inner)
            | unclosed inner => exact .unclosed (.deeper .nil header inner)
            | @stray inner xs last rest' translates =>
                have behind := ih rest'.length (by simp; omega) rest'
                  (fun entry member => soundRest entry (by simp [member])) depth rfl
                have block : Translates depth (⟨number, line⟩ :: (inner ++ ⟨last, .close⟩ :: []))
                    [make xs] := .block header translates .nil
                simpa using behind.prepend block
          · exact @Shape.stray depth [] [] number rest .nil

end LineScript
