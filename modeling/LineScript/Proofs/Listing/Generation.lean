import LineScript.Listing.Generated
import LineScript.Proofs.Listing.Matching

/-! # Generation line by line

The emitter writes its lines into one text, and beside it the source line of each of them. What it
has written in the end is a list of lines that come from a statement each, joined by line feeds:
`Listing.generate_eq` says so. All else is said about that list: what one statement adds to it, and
that generation does nothing with the numbers of the lines but carry them along.
-/

namespace LineScript

theorem loopCounter_injective {d d' : Nat} (same : loopCounter d = loopCounter d') : d = d' := by
  have digits := congrArg String.toList same
  simp only [loopCounter, String.toList_append, List.append_cancel_left_eq] at digits
  have value := congrArg (Nat.ofDigitChars 10 · 0) digits
  simpa [Nat.toString_eq_ofList_toDigits] using value

/-! ## Lines as a list -/

/-- One generated line and the source line it comes from. -/
structure Emitted where
  source : Nat
  text : String

/-- What is generated from a listing, line by line. -/
structure Emission where
  lines : List Emitted
  /-- Source lines of the openers that are never closed, outermost first. -/
  unclosed : List Nat
  /-- Source lines of the closers that have nothing to close. -/
  stray : List Nat

namespace Emission

/-- The lines as one text. -/
def code (g : Emission) : String :=
  Text.joinLines (g.lines.map Emitted.text)

/-- The source line of each line. -/
def sourceMap (g : Emission) : List Nat :=
  g.lines.map Emitted.source

/-- What the emitter makes of the lines. -/
def generated (g : Emission) : Generated :=
  ⟨g.code, g.sourceMap, g.unclosed, g.stray⟩

@[simp]
theorem code_generated (g : Emission) : g.generated.code = g.code := rfl

@[simp]
theorem sourceMap_generated (g : Emission) : g.generated.sourceMap = g.sourceMap := rfl

/-- Put the line of a statement inside `depth` blocks in front, if it has one. -/
def emit (g : Emission) (depth : Nat) (entry : Numbered) : Emission :=
  match entry.line.script? depth with
  | some text => { g with lines := ⟨entry.number, indentation depth ++ text⟩ :: g.lines }
  | none => g

/-- Note a closer that has nothing to close. -/
def addStray (g : Emission) (number : Nat) : Emission :=
  { g with stray := number :: g.stray }

variable (g : Emission) (depth number : Nat) (entry : Numbered)

@[simp]
theorem emit_unclosed : (g.emit depth entry).unclosed = g.unclosed := by
  unfold emit
  split <;> rfl

@[simp]
theorem emit_stray : (g.emit depth entry).stray = g.stray := by
  unfold emit
  split <;> rfl

@[simp]
theorem addStray_unclosed : (g.addStray number).unclosed = g.unclosed := rfl

@[simp]
theorem addStray_stray : (g.addStray number).stray = number :: g.stray := rfl

end Emission

namespace Listing

/-- The lines of the rest of a listing. `depth` blocks are open, their openers on the lines
    `opened`, innermost first. -/
def emissionFrom (depth : Nat) (opened : List Nat) : Listing → Emission
  | [] => ⟨[], opened.reverse, []⟩
  | entry :: rest =>
      if entry.line.opens then
        (emissionFrom (depth + 1) (entry.number :: opened) rest).emit depth entry
      else if entry.line.closes then
        match depth with
        | 0 => ((emissionFrom 0 opened rest).addStray entry.number).emit 0 entry
        | outer + 1 => (emissionFrom outer opened.tail rest).emit outer entry
      else (emissionFrom depth opened rest).emit depth entry

/-- The lines of a listing. -/
def emission (listing : Listing) : Emission :=
  emissionFrom 0 [] listing

variable {entry : Numbered} {rest : Listing} {opened : List Nat} {depth : Nat}

theorem emissionFrom_opens (opens : entry.line.opens = true) :
    emissionFrom depth opened (entry :: rest) =
      (emissionFrom (depth + 1) (entry.number :: opened) rest).emit depth entry := by
  cases depth <;> simp [emissionFrom, opens]

theorem emissionFrom_stray (opens : entry.line.opens = false) (closes : entry.line.closes = true) :
    emissionFrom 0 opened (entry :: rest) =
      ((emissionFrom 0 opened rest).addStray entry.number).emit 0 entry := by
  simp [emissionFrom, opens, closes]

theorem emissionFrom_closes (opens : entry.line.opens = false)
    (closes : entry.line.closes = true) :
    emissionFrom (depth + 1) opened (entry :: rest) =
      (emissionFrom depth opened.tail rest).emit depth entry := by
  simp [emissionFrom, opens, closes]

theorem emissionFrom_plain (opens : entry.line.opens = false)
    (closes : entry.line.closes = false) :
    emissionFrom depth opened (entry :: rest) =
      (emissionFrom depth opened rest).emit depth entry := by
  cases depth <;> simp [emissionFrom, opens, closes]

end Listing

/-! ## Lines as one text -/

/-- The line of a statement inside `depth` blocks. -/
def Numbered.emitted? (depth : Nat) (entry : Numbered) : Option Emitted :=
  (entry.line.script? depth).map fun text => ⟨entry.number, indentation depth ++ text⟩

namespace Emission

theorem emit_lines (g : Emission) (depth : Nat) (entry : Numbered) :
    (g.emit depth entry).lines = (entry.emitted? depth).toList ++ g.lines := by
  cases script : entry.line.script? depth <;> simp [emit, Numbered.emitted?, script]

/-- What is generated from a listing and from the rest behind it. The blocks that stay open are
    those that are open behind the rest. -/
def append (g h : Emission) : Emission :=
  ⟨g.lines ++ h.lines, h.unclosed, g.stray ++ h.stray⟩

/-- The line of the statement that comes next, put behind those before it. -/
def extend (g : Emission) (depth : Nat) (entry : Numbered) : Emission :=
  { g with lines := g.lines ++ (entry.emitted? depth).toList }

theorem append_emit_behind (g h : Emission) (depth : Nat) (entry : Numbered) :
    g.append (h.emit depth entry) = (g.extend depth entry).append h := by
  simp [append, extend, emit_lines]

end Emission

/-- What an emitter holds is what the lines so far, and the notes beside them, come to. -/
structure Emitter.Shows (e : Emitter) (g : Emission) : Prop where
  code : e.out = g.code
  sourceMap : e.sourceMap.toList = g.sourceMap
  unclosed : e.openBlocks.toList = g.unclosed
  stray : e.strayEnds.toList = g.stray

namespace Emitter.Shows

variable {e : Emitter} {g : Emission}

theorem finish_eq (shows : e.Shows g) : e.finish = g.generated := by
  rw [finish, shows.code, shows.sourceMap, shows.unclosed, shows.stray]
  rfl

/-- A line feed stands in front of each line but the first, which is the one that the source map is
    empty for. -/
theorem emit (shows : e.Shows g) (number : Nat) (text : String) : (e.emit number text).Shows
    { g with lines := g.lines ++ [⟨number, indentation e.depth ++ text⟩] } where
  code := by
    have isFirst : e.sourceMap.isEmpty = g.lines.isEmpty := by
      rw [← Array.isEmpty_toList, shows.sourceMap, Emission.sourceMap, List.isEmpty_map]
    rw [Emitter.emit, isFirst, shows.code, Emission.code, Emission.code, List.map_append]
    cases lines : g.lines with
    | nil => rfl
    | cons first rest =>
        refine String.append_assoc.trans (Eq.symm ?_)
        apply String.intercalate_append_of_ne_nil
        · simp
        · simp
  sourceMap := by simp [Emitter.emit, shows.sourceMap, Emission.sourceMap]
  unclosed := shows.unclosed
  stray := shows.stray

theorem emitLine (shows : e.Shows g) (entry : Numbered) :
    (e.emitLine entry).Shows (g.extend e.depth entry) := by
  unfold Emitter.emitLine Emission.extend Numbered.emitted?
  cases entry.line.script? e.depth with
  | none => simpa using shows
  | some text => exact shows.emit entry.number text

theorem openBlock (shows : e.Shows g) (number : Nat) :
    (e.openBlock number).Shows { g with unclosed := g.unclosed ++ [number] } where
  code := shows.code
  sourceMap := shows.sourceMap
  unclosed := by simp [Emitter.openBlock, shows.unclosed]
  stray := shows.stray

theorem closeBlock_stray (shows : e.Shows g) (outside : e.depth = 0) (number : Nat) :
    (e.closeBlock number).Shows { g with stray := g.stray ++ [number] } := by
  rw [Emitter.closeBlock, outside]
  exact ⟨shows.code, shows.sourceMap, shows.unclosed, by simp [shows.stray]⟩

theorem closeBlock (shows : e.Shows g) {outer : Nat} (inside : e.depth = outer + 1) (number : Nat) :
    (e.closeBlock number).Shows { g with unclosed := g.unclosed.dropLast } := by
  rw [Emitter.closeBlock, inside]
  exact ⟨shows.code, shows.sourceMap, by simp [shows.unclosed], shows.stray⟩

end Emitter.Shows

@[simp]
theorem Emitter.emitLine_depth (e : Emitter) (entry : Numbered) :
    (e.emitLine entry).depth = e.depth := by
  unfold emitLine
  split <;> rfl

/-- An emitter that goes on with a listing holds what it held, with the lines of the listing behind
    it. -/
theorem Emitter.Shows.foldl {e : Emitter} {g : Emission} (shows : e.Shows g) (listing : Listing) :
    (listing.foldl Emitter.statement e).Shows
      (g.append (listing.emissionFrom e.depth g.unclosed.reverse)) := by
  induction listing generalizing e g with
  | nil => simpa [Listing.emissionFrom, Emission.append] using shows
  | cons entry rest ih =>
      rw [List.foldl_cons]
      rcases entry.line.roles with ⟨opens, closes⟩ | ⟨opens, closes⟩ | ⟨opens, closes⟩
      · have step : e.statement entry = (e.emitLine entry).openBlock entry.number := by
          simp [Emitter.statement, opens, closes]
        have later := ih ((shows.emitLine entry).openBlock entry.number)
        rw [Listing.emissionFrom_opens opens, Emission.append_emit_behind, step]
        simpa [Emission.append, Emission.extend, Emitter.openBlock] using later
      · have step : e.statement entry = (e.closeBlock entry.number).emitLine entry := by
          simp [Emitter.statement, opens, closes]
        rw [step]
        cases depth : e.depth with
        | zero =>
            have here : (e.closeBlock entry.number).depth = 0 := by
              simp [Emitter.closeBlock, depth]
            have later := ih ((shows.closeBlock_stray depth entry.number).emitLine entry)
            rw [Listing.emissionFrom_stray opens closes, Emission.append_emit_behind]
            simpa [Emission.append, Emission.extend, Emission.addStray, here] using later
        | succ outer =>
            have here : (e.closeBlock entry.number).depth = outer := by
              simp [Emitter.closeBlock, depth]
            have later := ih ((shows.closeBlock depth entry.number).emitLine entry)
            rw [Listing.emissionFrom_closes opens closes, Emission.append_emit_behind]
            simpa [Emission.append, Emission.extend, here] using later
      · have step : e.statement entry = e.emitLine entry := by
          simp [Emitter.statement, opens, closes]
        have later := ih (shows.emitLine entry)
        rw [Listing.emissionFrom_plain opens closes, Emission.append_emit_behind, step]
        simpa [Emission.append, Emission.extend] using later

/-- The emitter writes the lines of a listing. -/
theorem Listing.generate_eq (listing : Listing) :
    listing.generate = listing.emission.generated := by
  have start : Emitter.Shows {} ⟨[], [], []⟩ := ⟨rfl, rfl, rfl, rfl⟩
  exact (start.foldl listing).finish_eq

theorem Listing.code_generate (listing : Listing) :
    listing.generate.code = Text.joinLines (listing.emission.lines.map Emitted.text) :=
  congrArg Generated.code listing.generate_eq

theorem Listing.sources_generate (listing : Listing) :
    listing.generate.sourceMap = listing.emission.lines.map Emitted.source :=
  congrArg Generated.sourceMap listing.generate_eq

theorem Listing.isBalanced_generate (listing : Listing) : listing.generate.isBalanced =
    (listing.emission.unclosed.isEmpty && listing.emission.stray.isEmpty) :=
  congrArg Generated.isBalanced listing.generate_eq

/-! ## Other line numbers -/

/-- The same statement on another line. -/
def Numbered.renumber (f : Nat → Nat) (entry : Numbered) : Numbered :=
  { entry with number := f entry.number }

@[simp]
theorem Numbered.line_renumber (f : Nat → Nat) (entry : Numbered) :
    (entry.renumber f).line = entry.line := rfl

@[simp]
theorem Numbered.number_renumber (f : Nat → Nat) (entry : Numbered) :
    (entry.renumber f).number = f entry.number := rfl

namespace Emission

/-- The same script from other lines. -/
def renumber (f : Nat → Nat) (g : Emission) : Emission where
  lines := g.lines.map fun emitted => { emitted with source := f emitted.source }
  unclosed := g.unclosed.map f
  stray := g.stray.map f

theorem code_renumber (f : Nat → Nat) (g : Emission) : (g.renumber f).code = g.code := by
  simp [code, renumber, Function.comp_def]

theorem renumber_emit (f : Nat → Nat) (g : Emission) (depth : Nat) (entry : Numbered) :
    (g.emit depth entry).renumber f = (g.renumber f).emit depth (entry.renumber f) := by
  cases script : entry.line.script? depth <;> simp [emit, renumber, script]

theorem renumber_addStray (f : Nat → Nat) (g : Emission) (number : Nat) :
    (g.addStray number).renumber f = (g.renumber f).addStray (f number) := rfl

end Emission

/-- What is generated does not depend on the numbers of the lines. -/
theorem Listing.emissionFrom_renumber (f : Nat → Nat) (depth : Nat) (opened : List Nat)
    (listing : Listing) :
    emissionFrom depth (opened.map f) (listing.map (·.renumber f)) =
      (emissionFrom depth opened listing).renumber f := by
  induction listing generalizing depth opened with
  | nil => simp [emissionFrom, Emission.renumber]
  | cons entry rest ih =>
      rw [List.map_cons]
      cases opens : entry.line.opens with
      | true =>
          have inner := ih (depth + 1) (entry.number :: opened)
          rw [emissionFrom_opens opens, emissionFrom_opens (by simpa using opens),
            Emission.renumber_emit, ← inner]
          rfl
      | false =>
          cases closes : entry.line.closes with
          | false =>
              rw [emissionFrom_plain opens closes, Emission.renumber_emit, ← ih]
              exact emissionFrom_plain opens closes
          | true =>
              cases depth with
              | zero =>
                  rw [emissionFrom_stray opens closes, Emission.renumber_emit,
                    Emission.renumber_addStray, ← ih]
                  exact emissionFrom_stray opens closes
              | succ outer =>
                  rw [emissionFrom_closes opens closes, Emission.renumber_emit, ← ih,
                    List.map_tail]
                  exact emissionFrom_closes opens closes

theorem Listing.emission_renumber (f : Nat → Nat) (listing : Listing) :
    emission (listing.map (·.renumber f)) = listing.emission.renumber f :=
  emissionFrom_renumber f 0 [] listing

end LineScript
