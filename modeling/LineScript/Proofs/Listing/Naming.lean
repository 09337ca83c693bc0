import LineScript.Proofs.Listing.Refusal

/-! # Names that both sides accept

The findings and the grammar have each their own idea of a name. A name without a finding can be
declared in a script. A text with a finding cannot, but for the words that only the wider language
reserves: these have the form of a name, and the grammar takes them for one.
-/

namespace LineScript

open Parse Parser Grammar

/-- The text that declares `n` to be zero. -/
def zeroDeclaration (n : String) : String :=
  "let " ++ n ++ " = 0;"

theorem toList_zeroDeclaration (n : String) : (zeroDeclaration n).toList =
    "let ".toList ++ (n.toList ++ (" = ".toList ++ ("0".toList ++ [';']))) := by
  simp [zeroDeclaration]

/-- A name can be declared. -/
theorem read_zeroDeclaration {n : String} (isName : IsName n) :
    read program (zeroDeclaration n).toList =
      .ok [.simple (.declare .letDecl n (some (.number 0)))] := by
  have accepted : phrase? 0 "0" = some (.number 0) := by decide +kernel
  have zero : expression.outcome (skipBlank ("0".toList ++ [';'])) = some (.number 0, [';']) :=
    outcome_accepted accepted (apart_cons.mpr (by decide)) (.semicolon [])
  have declared := outcome_let isName zero
  rw [read_eq_ok_iff, outcome_program, toList_zeroDeclaration,
    skipBlank_front (c := 'l') rfl (by decide) (by decide), outcome_items_of_some declared,
    skipBlank_nil, outcome_items_of_none statement_nil]
  rfl

namespace Grammar

theorem yields_identifier : Yields identifier IsName := by
  intro s n rest read
  obtain ⟨c, w, start, parts, free, rfl, -⟩ := identifier_of_outcome read
  exact ⟨c, w, String.toList_ofList, start, parts, free⟩

/-- What a declaration declares is a name. -/
theorem yields_declared : Yields (ended (do return .simple (← declaration)))
    fun s => ∃ kind n init, s = .simple (.declare kind n init) ∧ IsName n := by
  have declared : Yields declaration fun s => ∃ kind n init, s = .declare kind n init ∧ IsName n :=
    .skip fun kind => .skip fun _ => .bind yields_identifier fun n isName => .skip fun init =>
      .pure ⟨kind, n, init, rfl, isName⟩
  refine .bind (.bind declared fun s holds => .pure ?_) fun s holds => .skip fun _ => .pure holds
  obtain ⟨kind, n, init, rfl, isName⟩ := holds
  exact ⟨kind, n, init, rfl, isName⟩

end Grammar

/-- If the text is read as one declaration of `n`, then `n` is a name. -/
theorem isName_of_read {n : String} {kind : DeclKind} {init : Option Expr}
    (whole : read program (zeroDeclaration n).toList = .ok [.simple (.declare kind n init)]) :
    IsName n := by
  rw [read_eq_ok_iff, outcome_program, toList_zeroDeclaration,
    skipBlank_front (c := 'l') rfl (by decide) (by decide)] at whole
  -- Whatever the text of `n` holds, the statement that starts with `let` is a declaration.
  generalize n.toList ++ (" = ".toList ++ ("0".toList ++ [';'])) = s at whole
  have isLet : statement.outcome ("let ".toList ++ s) = _ :=
    outcome_statement_let (k := ' ' :: s) (apart_cons.mpr (by decide))
  cases first : statement.outcome ("let ".toList ++ s) with
  | none =>
      rw [outcome_items_of_none first] at whole
      cases whole
  | some x =>
      rw [outcome_items_of_some first] at whole
      obtain ⟨⟨later, behind⟩, -, same⟩ := Option.map_eq_some_iff.mp whole
      obtain ⟨kind', n', init', isDeclaration, isName⟩ := yields_declared (isLet ▸ first)
      rw [isDeclaration] at same
      cases same
      exact isName

/-- The words that are reserved in the wider language have the form of a name. -/
theorem isValid_of_mem_reservedWords : ∀ n ∈ Name.reservedWords, Name.isValid n = true := by
  decide +kernel

/-- A name without a finding can be declared by `let`. A text with a finding is declared by the
    same text exactly if it is a word that the wider language reserves and scripts do not. -/
theorem findings_agree_with_grammar (n : String) :
    (Name.isValid n = true → Name.isReserved n = false →
      read program (zeroDeclaration n).toList =
        .ok [.simple (.declare .letDecl n (some (.number 0)))]) ∧
    ∀ number, Name.finding? number n ≠ none →
      ((∃ kind init,
          read program (zeroDeclaration n).toList = .ok [.simple (.declare kind n init)]) ↔
        n ∈ Name.reservedWords ∧ n.toList ∉ reservedWords) := by
  refine ⟨fun valid free => read_zeroDeclaration (isName_of_isValid valid free), ?_⟩
  intro number found
  constructor
  · rintro ⟨kind, init, whole⟩
    obtain ⟨valid, free⟩ := isName_iff.mp (isName_of_read whole)
    refine ⟨?_, free⟩
    rw [Name.finding?, valid] at found
    simpa [Name.isReserved] using found
  · rintro ⟨member, free⟩
    have isName := isName_iff.mpr ⟨isValid_of_mem_reservedWords n member, free⟩
    exact ⟨_, _, read_zeroDeclaration isName⟩

/-- A name that starts like a keyword, a word that only the wider language reserves, and a text that
    goes on behind a name. -/
theorem findings_agree_with_grammar_lookalikes :
    (Name.isValid "let_$" = true ∧ Name.isReserved "let_$" = false ∧
      read program (zeroDeclaration "let_$").toList =
        .ok [.simple (.declare .letDecl "let_$" (some (.number 0)))]) ∧
    (Name.finding? 1 "class" ≠ none ∧ ∃ kind init,
      read program (zeroDeclaration "class").toList =
        .ok [.simple (.declare kind "class" init)]) ∧
    Name.finding? 1 "a = 1; //" ≠ none ∧ ¬ ∃ kind init,
      read program (zeroDeclaration "a = 1; //").toList =
        .ok [.simple (.declare kind "a = 1; //" init)] := by
  have valid : Name.isValid "let_$" = true := by decide
  have free : Name.isReserved "let_$" = false := by decide
  have reserved : Name.finding? 1 "class" ≠ none := by decide
  have invalid : Name.finding? 1 "a = 1; //" ≠ none := by decide
  refine ⟨⟨valid, free, (findings_agree_with_grammar _).1 valid free⟩, ⟨reserved, ?_⟩, invalid, ?_⟩
  · exact ((findings_agree_with_grammar _).2 1 reserved).mpr ⟨by decide, by decide +kernel⟩
  · exact fun declared =>
      absurd (((findings_agree_with_grammar _).2 1 invalid).mp declared).1 (by decide)

end LineScript
