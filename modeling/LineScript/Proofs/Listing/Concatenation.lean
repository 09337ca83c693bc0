import LineScript.Proofs.Listing.Generation
import LineScript.Proofs.Listing.Matching
import LineScript.Proofs.Text.Pieces

/-! # Sources one behind the other

Of what generation has seen, it carries nothing from one statement to the next but the openers of
the blocks that are open, whose number is the depth. Behind a source whose blocks are all closed the
depth is zero again, however many closers had nothing to close. So another source behind it is
generated as if it stood alone, on later lines.
-/

namespace LineScript

/-! ## Lines of two sources -/

/-- The number of lines of a source text, blank ones included. -/
def lineCount (source : String) : Nat :=
  (Text.splitLines source.toList).length

namespace Listing

theorem ofLines_append (first : Nat) (raws raws' : List (List Char)) :
    ofLines first (raws ++ raws') = ofLines first raws ++ ofLines (first + raws.length) raws' := by
  induction raws generalizing first with
  | nil => rfl
  | cons raw rest ih =>
      have behind : first + (raw :: rest).length = first + 1 + rest.length := by
        rw [List.length_cons]
        omega
      rw [List.cons_append, ofLines, ofLines, behind, ih]
      split
      · rfl
      · rfl

theorem ofLines_shift (first shift : Nat) (raws : List (List Char)) :
    ofLines (first + shift) raws = (ofLines first raws).map (·.renumber (· + shift)) := by
  induction raws generalizing first with
  | nil => rfl
  | cons raw rest ih =>
      have next : first + shift + 1 = first + 1 + shift := by omega
      rw [ofLines, ofLines, next, ih]
      split
      · rfl
      · rfl

/-- The statements of a source behind another one are the same, on later lines. -/
theorem ofSource_append (source₁ source₂ : String) :
    ofSource (source₁ ++ "\n" ++ source₂) =
      ofSource source₁ ++ (ofSource source₂).map (·.renumber (· + lineCount source₁)) := by
  have text : (source₁ ++ "\n" ++ source₂).toList = source₁.toList ++ '\n' :: source₂.toList := by
    simp
  rw [ofSource, text, Text.splitLines_append, ofLines_append, ofLines_shift]
  rfl

end Listing

/-! ## Generation goes on -/

namespace Emission

theorem append_emit (g h : Emission) (depth : Nat) (entry : Numbered) :
    (g.emit depth entry).append h = (g.append h).emit depth entry := by
  unfold emit
  split
  · rfl
  · rfl

theorem append_addStray (g h : Emission) (number : Nat) :
    (g.addStray number).append h = (g.append h).addStray number := rfl

theorem code_append (g h : Emission) : (g.append h).code =
    if g.lines = [] then h.code
    else if h.lines = [] then g.code
    else g.code ++ "\n" ++ h.code := by
  rw [code, code, code, append, List.map_append]
  split
  · next none₁ => rw [none₁, List.map_nil, List.nil_append]
  · next some₁ =>
      split
      · next none₂ => rw [none₂, List.map_nil, List.append_nil]
      · next some₂ =>
          apply String.intercalate_append_of_ne_nil
          · simpa using some₁
          · simpa using some₂

theorem sourceMap_append (g h : Emission) :
    (g.append h).sourceMap = g.sourceMap ++ h.sourceMap :=
  List.map_append

theorem sourceMap_renumber (f : Nat → Nat) (g : Emission) :
    (g.renumber f).sourceMap = g.sourceMap.map f := by
  simp [sourceMap, renumber, Function.comp_def]

end Emission

namespace Listing

/-- Generation of a listing that goes on starts the rest with the blocks that the first part has
    left open. The depth is the number of the open blocks all along. -/
theorem emissionFrom_append (opened : List Nat) (front rest : Listing) :
    emissionFrom opened.length opened (front ++ rest) =
      (emissionFrom opened.length opened front).append
        (emissionFrom (emissionFrom opened.length opened front).unclosed.length
          (emissionFrom opened.length opened front).unclosed.reverse rest) := by
  induction front generalizing opened with
  | nil => simp [emissionFrom, Emission.append]
  | cons entry front ih =>
      rw [List.cons_append]
      rcases entry.line.roles with ⟨opens, -⟩ | ⟨opens, closes⟩ | ⟨opens, closes⟩
      · have inner := ih (entry.number :: opened)
        rw [List.length_cons] at inner
        rw [emissionFrom_opens opens, emissionFrom_opens opens, Emission.append_emit,
          Emission.emit_unclosed, inner]
      · cases opened with
        | nil =>
            rw [List.length_nil, emissionFrom_stray opens closes, emissionFrom_stray opens closes,
              Emission.append_emit, Emission.append_addStray, Emission.emit_unclosed,
              Emission.addStray_unclosed]
            exact congrArg (fun g => (g.addStray entry.number).emit 0 entry) (ih [])
        | cons opener outer =>
            rw [List.length_cons, emissionFrom_closes opens closes,
              emissionFrom_closes opens closes, Emission.append_emit, Emission.emit_unclosed,
              List.tail_cons, ih outer]
      · rw [emissionFrom_plain opens closes, emissionFrom_plain opens closes,
          Emission.append_emit, Emission.emit_unclosed, ih opened]

/-- Behind a listing whose blocks are all closed generation starts afresh. -/
theorem emission_append {front : Listing} (closed : front.emission.unclosed = [])
    (rest : Listing) : (front ++ rest).emission = front.emission.append rest.emission := by
  have whole := emissionFrom_append [] front rest
  rw [emission] at closed
  rw [List.length_nil, closed, List.length_nil, List.reverse_nil] at whole
  exact whole

end Listing

/-- The script of two sources, one behind the other, where the first leaves no block open: the two
    scripts with a line feed between them, or the one that has a line if the other has none. What is
    noted of the second source is the same as for that source alone, on lines that come behind those
    of the first. -/
theorem generate_joined (source₁ source₂ : String)
    (closed : (Listing.ofSource source₁).generate.unclosed = []) :
    (Listing.ofSource (source₁ ++ "\n" ++ source₂)).generate.code =
        (if (Listing.ofSource source₁).generate.lines = [] then
          (Listing.ofSource source₂).generate.code
        else if (Listing.ofSource source₂).generate.lines = [] then
          (Listing.ofSource source₁).generate.code
        else (Listing.ofSource source₁).generate.code ++ "\n" ++
          (Listing.ofSource source₂).generate.code) ∧
      (Listing.ofSource (source₁ ++ "\n" ++ source₂)).generate.sourceMap =
        (Listing.ofSource source₁).generate.sourceMap ++
          (Listing.ofSource source₂).generate.sourceMap.map (· + lineCount source₁) ∧
      (Listing.ofSource (source₁ ++ "\n" ++ source₂)).generate.stray =
        (Listing.ofSource source₁).generate.stray ++
          (Listing.ofSource source₂).generate.stray.map (· + lineCount source₁) ∧
      (Listing.ofSource (source₁ ++ "\n" ++ source₂)).generate.unclosed =
        (Listing.ofSource source₂).generate.unclosed.map (· + lineCount source₁) := by
  rw [Listing.generate_eq] at closed
  have whole : (Listing.ofSource (source₁ ++ "\n" ++ source₂)).emission =
      (Listing.ofSource source₁).emission.append
        ((Listing.ofSource source₂).emission.renumber (· + lineCount source₁)) := by
    rw [Listing.ofSource_append, Listing.emission_append closed, Listing.emission_renumber]
  simp only [Listing.generate_eq, whole]
  refine ⟨?_, ?_, rfl, rfl⟩
  · rw [Emission.code_generated, Emission.code_append, Emission.code_renumber]
    simp only [Emission.renumber, Generated.lines, Emission.sourceMap_generated,
      Emission.code_generated, Emission.sourceMap, List.map_eq_nil_iff]
  · rw [Emission.sourceMap_generated, Emission.sourceMap_append, Emission.sourceMap_renumber]
    rfl

/-- A closer too many and a blank line, and behind them a source that leaves a block open. -/
theorem generate_joined_strayClosers :
    (Listing.ofSource "check a\nend\nend\n").generate.unclosed = [] ∧
      (Listing.ofSource ("check a\nend\nend\n" ++ "\n" ++ "repeat 2\nset x")).generate.code =
        "if (a) \x7b\n\x7d\n\x7d" ++ "\n" ++ "for (let i_0 = 0; i_0 < 2; i_0++) \x7b" ∧
      (Listing.ofSource ("check a\nend\nend\n" ++ "\n" ++ "repeat 2\nset x")).generate.sourceMap =
        [1, 2, 3, 5] ∧
      (Listing.ofSource ("check a\nend\nend\n" ++ "\n" ++ "repeat 2\nset x")).generate.stray = [3] ∧
      (Listing.ofSource ("check a\nend\nend\n" ++ "\n" ++ "repeat 2\nset x")).generate.unclosed =
        [5] := by
  have closed : (Listing.ofSource "check a\nend\nend\n").generate.unclosed = [] := by decide +kernel
  obtain ⟨code, sourceMap, stray, unclosed⟩ :=
    generate_joined "check a\nend\nend\n" "repeat 2\nset x" closed
  rw [code, sourceMap, stray, unclosed]
  exact ⟨closed, by decide +kernel, by decide +kernel, by decide +kernel, by decide +kernel⟩

end LineScript
