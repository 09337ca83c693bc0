import LineScript.Proofs.Grammar.Word
import LineScript.Proofs.Nesting.Height

/-! # Reading and scanning side by side

A rule and the scan agree on a text if the scan cuts what the rule reads as the rule takes it. This
is told of a parser by its parts. Along with the pieces goes what is known of the value that was
read, so that a rule for trees can say what its tree asks of the pieces. Here are the ways to put
parsers together, and the lexemes.
-/

namespace LineScript

open Parse Parser Grammar Nesting

namespace Parse.Parser

variable {α β γ ι : Type} {p q : Parser α} {f : α → Parser β} {P : α → List Piece → Prop}
  {Q : β → List Piece → Prop}

/-- Wherever `p` succeeds, the scan cuts what was read as `p` takes it, and the value and the
    pieces are related by `P`. -/
def Reads (p : Parser α) [Traced p] (P : α → List Piece → Prop) : Prop :=
  ∀ ⦃s a rest⦄, p.outcome s = some (a, rest) → cut s = trace p s ++ cut rest ∧ P a (trace p s)

namespace Reads

theorem absent {P : Unit → List Piece → Prop} (holds : P () []) :
    Reads (Parser.absent p) P := by
  intro s a rest read
  obtain ⟨rfl, -⟩ := absent_success read
  exact ⟨rfl, holds⟩

theorem ahead {P : Unit → List Piece → Prop} (holds : P () []) : Reads (Parser.ahead p) P := by
  intro s a rest read
  rw [outcome_ahead, Option.map_eq_some_iff] at read
  obtain ⟨_, -, same⟩ := read
  cases same
  exact ⟨rfl, holds⟩

variable [Traced p] [Traced q] [∀ a, Traced (f a)]

theorem mono {P' : α → List Piece → Prop} (reads : Reads p P) (weaker : ∀ a u, P a u → P' a u) :
    Reads p P' := by
  intro s a rest read
  obtain ⟨same, holds⟩ := reads read
  exact ⟨same, weaker a _ holds⟩

theorem pure {a : α} (holds : P a []) : Reads (Pure.pure a : Parser α) P := by
  intro s b rest read
  obtain ⟨rfl, rfl⟩ := pure_success read
  exact ⟨rfl, holds⟩

-- The traces of the parts are found in the trace of the whole, which may be long.
omit [Traced p] [∀ a, Traced (f a)] in
theorem bind {_ : Traced p} {_ : ∀ a, Traced (f a)} (first : Reads p P)
    (next : ∀ a u, P a u → Reads (f a) fun b v => Q b (u ++ v)) : Reads (p >>= f) Q := by
  intro s b rest read
  obtain ⟨a, mid, read₁, read₂⟩ := bind_success read
  obtain ⟨same, holds⟩ := first read₁
  obtain ⟨same', holds'⟩ := next a _ holds read₂
  rw [trace_bind read₁, List.append_assoc, ← same', ← same]
  exact ⟨rfl, holds'⟩

theorem choice (first : Reads p P) (second : Reads q P) : Reads (p <|> q) P := by
  intro s a rest read
  rcases choice_success read with read₁ | ⟨missed, read₂⟩
  · rw [trace_choice read₁]
    exact first read₁
  · rw [trace_choice_of_none missed]
    exact second read₂

theorem optional {P : Option α → List Piece → Prop} (some_ : Reads p fun a u => P (some a) u)
    (none_ : P none []) : Reads (optional p) P := by
  intro s found rest read
  rcases optional_success read with ⟨a, rfl, read₁⟩ | ⟨rfl, rfl, missed⟩
  · rw [trace_optional read₁]
    exact some_ read₁
  · rw [trace_optional_of_none missed]
    exact ⟨rfl, none_⟩

/-- What the pieces before have, with the value so far, every step keeps. -/
theorem extend {step : α → Parser α} [∀ a, Traced (step a)] {a : α} {u : List Piece}
    (start : P a u) (next : ∀ a u, P a u → Reads (step a) fun b v => P b (u ++ v)) :
    Reads (extend step a) fun b v => P b (u ++ v) := by
  have steps : ∀ rounds a u s, P a u →
      cut s = stepsTrace step rounds a s ++ cut (stepsWithin step rounds a s).2 ∧
        P (stepsWithin step rounds a s).1 (u ++ stepsTrace step rounds a s) := by
    intro rounds
    induction rounds with
    | zero =>
        intro a u s holds
        exact ⟨rfl, by simpa [stepsTrace, stepsWithin] using holds⟩
    | succ rounds ih =>
        intro a u s holds
        cases read : (step a).outcome s with
        | none => simpa [stepsTrace, stepsWithin, read] using holds
        | some x =>
            obtain ⟨same, holds'⟩ := next a u holds read
            obtain ⟨same', holds''⟩ := ih x.1 _ x.2 holds'
            simp only [stepsTrace, stepsWithin, read]
            rw [List.append_assoc, ← same', ← same]
            exact ⟨rfl, by rwa [← List.append_assoc]⟩
  intro s b rest read
  have whole := steps (s.length + 1) a u s start
  rw [outcome_extend_eq_steps] at read
  rw [Option.some.inj read] at whole
  exact whole

theorem many {P : List α → List Piece → Prop} (start : P [] [])
    (next : ∀ as u, P as u → Reads p fun a v => P (as ++ [a]) (u ++ v)) : Reads (many p) P := by
  refine bind (P := fun found u => P found.reverse u) ?_ ?_
  · refine (extend (P := fun found u => P found.reverse u) (u := []) start ?_).mono fun _ _ => id
    intro found u holds
    refine bind (next _ _ holds) fun a v more => pure ?_
    simpa using more
  · intro found u holds
    refine pure ?_
    simpa using holds

theorem firstOf {g : γ → Parser α} [∀ c, Traced (g c)] {cs : List γ}
    (each : ∀ c ∈ cs, Reads (g c) P) : Reads (firstOf (cs.map g)) P := by
  intro s a rest read
  change cut s = firstTrace g s cs ++ cut rest ∧ P a (firstTrace g s cs)
  induction cs with
  | nil => cases read
  | cons c cs ih =>
      rw [List.map_cons, Parser.firstOf, outcome_orElse, Option.or_eq_some_iff] at read
      rcases read with here | ⟨missed, later⟩
      · rw [firstTrace, here]
        exact each c (by simp) here
      · rw [firstTrace, missed]
        exact ih (fun d member => each d (by simp [member])) later

/-- For rules that call each other it may be assumed of those that are called. So may any `K` that
    the rules have whatever they call. -/
theorem recursive {rules : (ι → Parser α) → ι → Parser α} [traced : TracedRules rules]
    {P : ι → α → List Piece → Prop} {K : (ι → Parser α) → Prop} (none_ : K fun _ => fail)
    (some_ : ∀ self, K (rules self))
    (step : ∀ (self : ι → Parser α) [∀ i, Traced (self i)], K self →
      (∀ i, Reads (self i) (P i)) →
      ∀ i, @Reads _ (rules self i) (traced.traced self inferInstance i) (P i))
    (i : ι) : Reads (recursive rules i) (P i) := by
  have within : ∀ depth, K (recursiveWithin rules depth) ∧
      ∀ i, Reads (recursiveWithin rules depth i) (P i) := by
    intro depth
    induction depth with
    | zero =>
        refine ⟨none_, fun i s a rest read => ?_⟩
        cases read
    | succ depth ih => exact ⟨some_ _, step _ ih.1 ih.2⟩
  intro s a rest read
  exact (within (s.length + 1)).2 i read

end Reads

theorem extent_append {u rest : List Char} {a : α} (read : p.outcome (u ++ rest) = some (a, rest)) :
    extent p (u ++ rest) = u := by
  simp [extent, read]

end Parse.Parser

/-! ## Lexemes -/

namespace Grammar

/-- Whether a character is neither a blank nor a bracket. -/
def isInk (c : Char) : Bool :=
  isSolid (.plain c) && !isBracket (.plain c)

/-- Whether a character is neither a blank nor a bracket, and starts no literal and no comment. -/
def isOrdinary (c : Char) : Bool :=
  isInk c && decide (Mode.behind c = .code)

theorem cut_ordinary {u : List Char} (ordinary : u.all isOrdinary = true) (k : List Char) :
    cut (u ++ k) = u.map .plain ++ cut k := by
  refine cut_word (fun c member => ?_) k
  have here := List.all_eq_true.mp ordinary c member
  simp only [isOrdinary, Bool.and_eq_true, decide_eq_true_eq] at here
  exact here.2

theorem holds_ink {u : List Char} (ink : u.all isInk = true) (some_ : u ≠ []) :
    Holds (u.map .plain) 1 1 := by
  have each : ∀ c ∈ u, isSolid (.plain c) = true ∧ isBracket (.plain c) = false := by
    intro c member
    have here := List.all_eq_true.mp ink c member
    simpa only [isInk, Bool.and_eq_true, Bool.not_eq_true'] using here
  have other : ∀ piece ∈ u.map Piece.plain, isBracket piece = false :=
    List.forall_mem_map.mpr fun c member => (each c member).2
  have count : 1 ≤ (u.map Piece.plain).countP isSolid := by
    obtain ⟨c, member⟩ := List.exists_mem_of_ne_nil u some_
    exact List.countP_pos_iff.mpr ⟨_, List.mem_map_of_mem member, (each c member).1⟩
  exact (Holds.of_not_bracket other).mono count count

/-- Ordinary characters, one or more. -/
theorem reads_ordinary {α : Type} {p : Parser α} [Traced p]
    (plainly : ∀ s, trace p s = (extent p s).map .plain)
    (ordinary : ∀ {s a rest}, p.outcome s = some (a, rest) →
      ∃ u, u.all isOrdinary = true ∧ u ≠ [] ∧ s = u ++ rest) :
    Reads p fun _ u => Holds u 1 1 := by
  intro s a rest read
  obtain ⟨u, each, some_, rfl⟩ := ordinary read
  rw [plainly, extent_append read, cut_ordinary each]
  refine ⟨rfl, holds_ink (List.all_eq_true.mpr fun c member => ?_) some_⟩
  have here := List.all_eq_true.mp each c member
  simp only [isOrdinary, Bool.and_eq_true] at here
  exact here.1

theorem reads_word {t : Token} (ordinary : t.spelling.all isOrdinary = true) :
    Reads (token t) fun _ u => Holds u 1 1 :=
  reads_ordinary (fun _ => rfl) fun read =>
    ⟨t.spelling, ordinary, spelling_ne_nil t, token_success read⟩

theorem isOrdinary_of_not_mem {c : Char}
    (other : c ∉ ['"', '\'', '/', ' ', '\t', '\n', '\r', '\ufeff', '\u00a0', '(', '[', '\x7b',
      ')', ']', '\x7d']) : isOrdinary c = true := by
  simp only [List.mem_cons, List.not_mem_nil, or_false, not_or] at other
  simp [isOrdinary, isInk, Mode.behind, isSolid, isBracket, isOpening, isClosing, isSpace, other]

theorem isOrdinary_of_isPart {c : Char} (part : Name.isPart c = true) : isOrdinary c = true := by
  apply isOrdinary_of_not_mem
  intro member
  simp only [List.mem_cons, List.not_mem_nil, or_false] at member
  rcases member with rfl | rfl | rfl | rfl | rfl | rfl | rfl | rfl | rfl | rfl | rfl | rfl | rfl |
    rfl | rfl <;> cases part

theorem reads_identifier : Reads identifier fun _ u => Holds u 1 1 := by
  refine reads_ordinary (fun _ => rfl) fun read => ?_
  obtain ⟨c, w, start, parts, -, -, split⟩ := identifier_of_outcome read
  refine ⟨c :: w, ?_, by simp, split⟩
  rw [List.all_eq_true]
  intro d member
  rcases List.mem_cons.mp member with rfl | later
  · exact isOrdinary_of_isPart (isPart_of_isStart start)
  · exact isOrdinary_of_isPart (parts d later)

private theorem many_oneOf {t : Terminal} {c : Char → Bool} {s rest cs : List Char}
    (read : (many (oneOf t c)).outcome s = some (cs, rest)) : s = cs ++ rest ∧ cs.all c = true := by
  induction length : s.length using Nat.strong_induction_on generalizing s cs with
  | _ n ih =>
      subst length
      cases one : (oneOf t c).outcome s with
      | none =>
          rw [outcome_many_of_none one] at read
          cases read
          exact ⟨rfl, rfl⟩
      | some x =>
          rw [outcome_many_of_some one] at read
          obtain ⟨⟨ds, rest'⟩, more, same⟩ := Option.map_eq_some_iff.mp read
          cases same
          obtain ⟨split, each⟩ := ih _ (Advances.shorter one) more rfl
          rw [oneOf, outcome_expecting] at one
          obtain ⟨here, rfl⟩ := char_success one
          exact ⟨by rw [split, List.cons_append], by simp [here, each]⟩

theorem reads_methodName : Reads methodName fun _ u => Holds u 1 1 := by
  refine reads_ordinary (fun _ => rfl) fun {s a rest} read => ?_
  obtain ⟨name, s₁, sliced, same⟩ := bind_success read
  cases same
  obtain ⟨cs, inside, -⟩ := slice_success sliced
  obtain ⟨c, s₂, first, others⟩ := bind_success inside
  obtain ⟨rfl, parts⟩ := many_oneOf others
  rw [oneOf, outcome_expecting] at first
  obtain ⟨start, rfl⟩ := char_success first
  refine ⟨c :: cs, ?_, by simp, rfl⟩
  rw [List.all_cons, Bool.and_eq_true, List.all_eq_true]
  refine ⟨isOrdinary_of_isPart (isPart_of_isStart start), fun d member => ?_⟩
  exact isOrdinary_of_isPart (List.all_eq_true.mp parts d member)

private theorem isOrdinary_of_isDigit {c : Char} (digit : c.isDigit = true) :
    isOrdinary c = true :=
  isOrdinary_of_isPart (by simp [Name.isPart, digit])

private theorem all_isOrdinary_of_digits {d : List Char} (digits : ∀ c ∈ d, c.isDigit = true) :
    d.all isOrdinary = true :=
  List.all_eq_true.mpr fun c member => isOrdinary_of_isDigit (digits c member)

private theorem all_isOrdinary_of_exponentPart {x : List Char} (part : ExponentPart x) :
    x.all isOrdinary = true := by
  cases part with
  | none => rfl
  | @some e sign d letter signs digits =>
      have first : isOrdinary e = true := by
        simp only [Bool.or_eq_true, beq_iff_eq] at letter
        rcases letter with rfl | rfl <;> rfl
      have second : sign.all isOrdinary = true := by
        simp only [List.mem_cons, List.not_mem_nil, or_false] at signs
        rcases signs with rfl | rfl | rfl <;> rfl
      simp [first, second, all_isOrdinary_of_digits digits.2]

theorem Numeral.all_isOrdinary {u : List Char} (numeral : Numeral u) : u.all isOrdinary = true := by
  have point : isOrdinary '.' = true := rfl
  cases numeral with
  | whole digits part =>
      simp [all_isOrdinary_of_digits digits.2, all_isOrdinary_of_exponentPart part]
  | pointed digits more part =>
      simp [point, all_isOrdinary_of_digits digits.2, all_isOrdinary_of_digits more,
        all_isOrdinary_of_exponentPart part]
  | fraction digits part =>
      simp [point, all_isOrdinary_of_digits digits.2, all_isOrdinary_of_exponentPart part]

theorem reads_number : Reads number fun _ u => Holds u 1 1 := by
  refine reads_ordinary (fun _ => rfl) fun read => ?_
  obtain ⟨u, -, numeral, -, -, split⟩ := number_of_outcome read
  exact ⟨u, numeral.all_isOrdinary, numeral.ne_nil, split⟩

theorem reads_text : Reads text fun _ u => Holds u 1 1 := by
  intro s x rest read
  obtain ⟨u, cs, isText, -, rfl⟩ := text_of_outcome read
  change cut (u ++ rest) = [.literal (extent text (u ++ rest))] ++ cut rest ∧
    Holds [.literal (extent text (u ++ rest))] 1 1
  rw [extent_append read, cut_literal isText]
  exact ⟨rfl, Holds.of_not_bracket (by simp [isBracket])⟩

/-! ## Blanks -/

theorem reads_char {space : Char → Bool}
    (code : ∀ c, space c = true → Mode.behind c = .code ∧ isBracket (.plain c) = false) :
    Reads (char space) fun _ u => Holds u 0 0 := by
  intro s c rest read
  obtain ⟨isSpace, rfl⟩ := char_success read
  have one := @extent_append _ (char space) [c] rest c read
  change cut (c :: rest) = (extent (char space) ([c] ++ rest)).map .plain ++ cut rest ∧
    Holds ((extent (char space) ([c] ++ rest)).map .plain) 0 0
  rw [one, cut_plain (code c isSpace).1]
  refine ⟨rfl, Holds.mono (Holds.of_not_bracket ?_) (Nat.zero_le _) (Nat.zero_le _)⟩
  simpa using (code c isSpace).2

/-- A parser that takes what it reads for a comment. -/
private theorem reads_comment {p : Parser Unit} [Traced p]
    (wholly : ∀ s, trace p s = [.comment (extent p s)])
    (comment : ∀ {s rest}, p.outcome s = some ((), rest) →
      ∃ u, s = u ++ rest ∧ cut s = .comment u :: cut rest) :
    Reads p fun _ u => Holds u 0 0 := by
  intro s _ rest read
  obtain ⟨u, rfl, same⟩ := comment read
  rw [wholly, extent_append read]
  exact ⟨same, Holds.of_not_bracket (by simp [isBracket])⟩

theorem reads_lineComment : Reads lineComment fun _ u => Holds u 0 0 := by
  refine reads_comment (fun _ => rfl) fun {s rest} read => ?_
  obtain ⟨⟨⟩, t, mark, last⟩ := bind_success read
  obtain rfl := word_success mark
  rw [outcome_skipWhile] at last
  cases last
  refine ⟨'/' :: '/' :: t.takeWhile (· != '\n'), ?_, cut_lineComment t⟩
  simp only [List.cons_append, List.takeWhile_append_dropWhile]
  rfl

theorem reads_blockComment : Reads blockComment fun _ u => Holds u 0 0 := by
  refine reads_comment (fun _ => rfl) fun {s rest} read => ?_
  obtain ⟨⟨⟩, t, mark, last⟩ := bind_success read
  obtain rfl := word_success mark
  rw [outcome_skipPast, Option.map_eq_some_iff] at last
  obtain ⟨behind, closed, same⟩ := last
  cases same
  obtain ⟨v, rfl, cut_⟩ := cut_blockComment closed
  exact ⟨'/' :: '*' :: v, rfl, cut_⟩

theorem reads_gap {space : Char → Bool}
    (code : ∀ c, space c = true → Mode.behind c = .code ∧ isBracket (.plain c) = false) :
    Reads (gap space) fun _ u => Holds u 0 0 := by
  have one : Reads ((do let _ ← char space) <|> lineComment <|> blockComment)
      fun _ u => Holds u 0 0 := by
    refine .choice (.bind (reads_char code) fun _ u holds => .pure ?_)
      (.choice reads_lineComment reads_blockComment)
    rwa [List.append_nil]
  exact Reads.extend (P := fun _ u => Holds u 0 0) (u := []) .nil fun _ u before =>
    one.mono fun _ v here => before.append here

theorem reads_blank : Reads blank fun _ u => Holds u 0 0 := by
  refine reads_gap fun c space => ?_
  simp only [isSpace, Bool.or_eq_true, beq_iff_eq] at space
  rcases space with ((((rfl | rfl) | rfl) | rfl) | rfl) | rfl <;> exact ⟨rfl, rfl⟩

theorem reads_inlineBlank : Reads inlineBlank fun _ u => Holds u 0 0 := by
  refine reads_gap fun c space => ?_
  simp only [Bool.or_eq_true, beq_iff_eq] at space
  rcases space with rfl | rfl <;> exact ⟨rfl, rfl⟩

theorem reads_keyword {t : Token} (ordinary : t.spelling.all isOrdinary = true) :
    Reads (keyword t) fun _ u => Holds u 1 1 :=
  .bind (reads_word ordinary) fun _ u holds => .absent (by rwa [List.append_nil])

end Grammar

end LineScript
