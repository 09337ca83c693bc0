import LineScript.Proofs.Grammar.Headers
import LineScript.Proofs.Nesting.Rules

/-! # What the limit on nesting means

For a text that is a script, the scan for brackets takes for literals and comments what the grammar
takes for them. So it counts the brackets that the grammar reads, and refuses the text exactly if
these nest too deeply. It does not bound the height of the tree, since operators and bodies without
braces make trees higher and are not counted. What it does bound is how often a new crowd of code
can begin inside another.
-/

namespace LineScript

open Parse Parser Grammar Nesting

theorem Script.compile_eq_tooDeep_iff {code : String} :
    compile code = .error .tooDeep ↔ isWithin code.toList = false := by
  rw [compile]
  cases isWithin code.toList with
  | false => simp
  | true =>
      simp only [Bool.not_true, Bool.false_eq_true, if_false, Bool.true_eq_false, iff_false]
      split
      · simp
      · split <;> simp

section Accepted

variable {code : String} {body : List Stmt}

theorem trace_eq_cut (accepted : read program code.toList = .ok body) :
    trace program code.toList = cut code.toList := by
  have same := (reads_program (read_eq_ok_iff.mp accepted)).1
  rw [show cut [] = [] from rfl, List.append_nil] at same
  exact same.symm

/-- The brackets of a script match. -/
theorem exists_nested (accepted : read program code.toList = .ok body) :
    ∃ n, Nested n (trace program code.toList) := by
  obtain ⟨n, nested, -⟩ := (reads_program (read_eq_ok_iff.mp accepted)).2.exists_nested
  exact ⟨n, nested⟩

/-- The scan refuses a script exactly if its brackets nest too deeply. -/
theorem compile_eq_tooDeep_iff_lt {n : Nat} (accepted : read program code.toList = .ok body)
    (nested : Nested n (trace program code.toList)) :
    Script.compile code = .error .tooDeep ↔ limit < n := by
  have within := isWithin_iff code.toList
  rw [← trace_eq_cut accepted, nested.within_iff] at within
  rw [Script.compile_eq_tooDeep_iff, ← Bool.not_eq_true, within, Nat.not_le]

end Accepted

/-- For a text that is a script, the scan for brackets cuts it as the grammar does: the same
    characters are taken for literals, for comments and for code. The brackets in the code match.
    The scan never closes a bracket where none is open, has closed all of them at the end, and has at
    most as many open at once as the brackets nest deep. So it refuses the text if and only if they
    nest deeper than the limit. -/
theorem scan_agrees_with_grammar {code : String} {body : List Stmt}
    (accepted : read program code.toList = .ok body) :
    cut code.toList = trace program code.toList ∧
      (cut code.toList).flatMap Piece.text = code.toList ∧
      ∃ n, Nested n (trace program code.toList) ∧
        (∀ v c w, cut code.toList = v ++ .plain c :: w → isClosing c = true →
          0 < v.foldl depthBehind 0) ∧
        (cut code.toList).foldl depthBehind 0 = 0 ∧
        IsGreatest {d | ∃ v, v <+: cut code.toList ∧ v.foldl depthBehind 0 = d} n ∧
        (Script.compile code = .error .tooDeep ↔ limit < n) := by
  have same := trace_eq_cut accepted
  obtain ⟨n, nested⟩ := exists_nested accepted
  have counted := nested
  rw [same] at counted
  refine ⟨same.symm, text_cut _, n, nested, ?_, counted.depth_eq 0, ⟨?_, ?_⟩,
    compile_eq_tooDeep_iff_lt accepted nested⟩
  · intro v c w split closing
    exact counted.depth_lt_of_isClosing split closing 0
  · obtain ⟨v, front, deepest⟩ := counted.exists_depth 0
    exact ⟨v, front, by omega⟩
  · rintro d ⟨v, front, rfl⟩
    have := counted.depth_bounds 0 front
    omega

/-- A script with brackets in a literal and in comments, and a division beside a comment. -/
theorem scan_agrees_with_grammar_lookalikes :
    let code := "if (x) \x7b y = \"(\\\"\x7d\" /*)*/ / (2) \x7d // ("
    ∃ body, read program code.toList = .ok body ∧
      cut code.toList = trace program code.toList ∧
      ∃ n, Nested n (trace program code.toList) ∧
        (Script.compile code = .error .tooDeep ↔ limit < n) := by
  intro code
  have accepted : (read program code.toList).isOk = true := by decide +kernel
  cases answer : read program code.toList with
  | error mistake => simp [answer, Except.isOk, Except.toBool] at accepted
  | ok body =>
      obtain ⟨same, -, n, nested, -, -, -, tooDeep⟩ := scan_agrees_with_grammar answer
      exact ⟨body, rfl, same, n, nested, tooDeep⟩

/-! ## Height -/

/-- A tree is at most as high as the code that stands together can make it, once for each bracket
    that may be open and once outside. -/
theorem height_le_of_compile {code : String} {script : Script}
    (compiled : Script.compile code = .ok script) :
    heightOfAll script.body ≤ (limit + 1) * crowd (cut code.toList) := by
  obtain ⟨within, accepted, -⟩ := Script.compile_eq_ok_iff.mp compiled
  obtain ⟨n, nested, bound⟩ := (reads_program (read_eq_ok_iff.mp accepted)).2.exists_nested
  rw [trace_eq_cut accepted] at nested bound
  have deep : n ≤ limit := nested.within_iff.mp ((isWithin_iff _).mp within)
  have most := bound (crowd (cut code.toList)) (Nat.le_max_right _ _)
  have outside : direct 0 (cut code.toList) ≤ crowd (cut code.toList) := Nat.le_max_left _ _
  calc heightOfAll script.body
      ≤ crowd (cut code.toList) + n * crowd (cut code.toList) := by omega
    _ ≤ crowd (cut code.toList) + limit * crowd (cut code.toList) := by gcongr
    _ = (limit + 1) * crowd (cut code.toList) := by ring

/-- A script that is laid out is accepted if it has few brackets and its declarations are in
    order. -/
theorem compile_layoutAll {render : Expr → List Char} {xs : List Stmt}
    (proper : AreProper (IsPhrase render) xs)
    (few : (layoutAll render xs).countP isOpening ≤ limit)
    (checked : Declarations.checkBlock xs = .ok ()) :
    Script.compile (String.ofList (layoutAll render xs)) = .ok ⟨xs⟩ := by
  rw [Script.compile_eq_ok_iff, String.toList_ofList]
  refine ⟨withinFrom_of_countP (by omega), ?_, checked⟩
  have items := proper.items_layoutAll .script
  rw [List.append_nil, ← outcome_program] at items
  exact read_eq_ok_iff.mpr items

theorem compile_layoutAll_enclosed {spell : Float → List Char} {xs : List Stmt}
    (proper : AreProper (IsSpelled spell) xs)
    (few : (layoutAll (Expr.enclosed spell) xs).countP isOpening ≤ limit)
    (checked : Declarations.checkBlock xs = .ok ()) :
    Script.compile (String.ofList (layoutAll (Expr.enclosed spell) xs)) = .ok ⟨xs⟩ :=
  compile_layoutAll (proper.mono fun _ spelled => IsSpelled.phrase spelled 0) few checked

/-- An expression in brackets, in a branch. -/
theorem height_le_of_compile_branch :
    let script : Script := ⟨[.branch (.bool true) [.console "log" [.unary .not (.bool true)]] none]⟩
    let code := "if (true) \x7b\nconsole.log((!true));\n\x7d\n"
    Script.compile code = .ok script ∧ heightOfAll script.body = 3 ∧
      crowd (cut code.toList) = 13 ∧ heightOfAll script.body ≤ (limit + 1) * 13 := by
  intro script code
  have isMethod : IsMethod "log" := ⟨'l', ['o', 'g'], rfl, rfl, List.all_eq_true.mp rfl⟩
  have proper : AreProper (IsSpelled fun _ => []) script.body := by
    simp [script, AreProper, Stmt.IsProper, IsSpelled, isMethod]
  have text : code = String.ofList (layoutAll (Expr.enclosed fun _ => []) script.body) := rfl
  have compiled : Script.compile code = .ok script := by
    rw [text]
    exact compile_layoutAll_enclosed proper (by decide) rfl
  have most : crowd (cut code.toList) = 13 := by decide +kernel
  have bound := height_le_of_compile compiled
  rw [most] at bound
  exact ⟨compiled, rfl, most, bound⟩

/-- A truth with as many signs of negation in front of it. -/
def negations : Nat → Expr
  | 0 => .bool true
  | n + 1 => .unary .not (negations n)

/-- The text of signs and a truth, without brackets. -/
def bare : Expr → List Char
  | .unary op e => op.token.spelling ++ bare e
  | _ => Token.trueWord.spelling

theorem height_negations (n : Nat) : (negations n).height = n := by
  induction n with
  | zero => rfl
  | succ n ih => rw [negations, Expr.height, ih]

theorem phrase_negations (l n : Nat) : Phrase l (bare (negations n)) (negations n) := by
  induction n generalizing l with
  | zero => exact .atomic (.constant (by simp [constants, negations]))
  | succ n ih => exact .signed (by simp [signs, UnaryOp.token]) .nil (ih operandLevel)

theorem countP_bare (n : Nat) : (bare (negations n)).countP isOpening = 0 := by
  induction n with
  | zero => rfl
  | succ n ih =>
      rw [negations, bare, List.countP_append, ih]
      rfl

/-- The limit does not bound the height of the trees of scripts: signs in front of an operand make
    a tree higher and a text no deeper. -/
theorem height_unbounded :
    ¬ ∃ bound, ∀ code script, Script.compile code = .ok script → heightOfAll script.body ≤ bound := by
  rintro ⟨bound, bounded⟩
  have isMethod : IsMethod "log" := ⟨'l', ['o', 'g'], rfl, rfl, List.all_eq_true.mp rfl⟩
  have proper : AreProper (IsPhrase bare) [.console "log" [negations bound]] := by
    simp only [AreProper, Stmt.IsProper, List.mem_singleton, forall_eq, and_true]
    exact ⟨isMethod, phrase_negations 0 bound⟩
  have few : (layoutAll bare [.console "log" [negations bound]]).countP isOpening ≤ limit := by
    simp only [layoutAll, Stmt.layout, layoutCall, layoutArguments, layoutNext, List.flatMap_nil,
      List.append_nil, List.countP_append, List.countP_cons, countP_bare]
    decide
  have less := bounded _ _ (compile_layoutAll proper few rfl)
  simp only [heightOfAll, Stmt.height, heightOfExprs, List.foldr_cons, List.foldr_nil,
    height_negations] at less
  omega

end LineScript
