import LineScript.Proofs.Listing.Translation
import LineScript.Proofs.Nesting.Agreement
import LineScript.Proofs.Run.Bindings

/-! # Scripts of sources without findings

A source without findings whose texts are expressions becomes a script that can be read. Two things
can still be wrong with it. Its brackets may nest too deeply, and a name may be set twice in one
block, which the script says as two declarations. Nothing else can: the counter of a loop is
declared in a scope of its own, and there is no `var` and no `const`.
-/

namespace LineScript

open Parse Parser Grammar Nesting Declarations

namespace Outline

/-- The name that a statement sets. -/
def setName? : Outline → Option String
  | .node entry _ =>
      match entry.line with
      | .assign name _ => some name
      | _ => none

/-- The names that siblings set, in order. -/
def setNames (trees : List Outline) : List String :=
  trees.filterMap setName?

mutual
/-- The bodies of the blocks that a statement opens, at any depth. -/
def blocks : Outline → List (List Outline)
  | .node entry children => if entry.line.opens then children :: allBlocks children else []

/-- The bodies of the blocks that siblings open, at any depth. -/
def allBlocks : List Outline → List (List Outline)
  | [] => []
  | tree :: rest => blocks tree ++ allBlocks rest
end

/-- A block, be it siblings at the top or a body among them, has two statements that set `x`. -/
def SetsTwice (trees : List Outline) (x : String) : Prop :=
  ∃ block ∈ trees :: allBlocks trees, 2 ≤ (setNames block).count x

/-- A name is declared before siblings or among them more than once, or twice in a body. -/
def Repeats (declared : Declared) (trees : List Outline) (x : String) : Prop :=
  2 ≤ (declared.map Prod.fst ++ setNames trees).count x ∨
    ∃ block ∈ allBlocks trees, 2 ≤ (setNames block).count x

theorem repeats_nil_iff {trees : List Outline} {x : String} :
    Repeats [] trees x ↔ SetsTwice trees x := by
  simp [Repeats, SetsTwice]

/-! ## What the statements of an outline declare -/

/-- A statement that does what `xs` do, in a block of its own. -/
inductive Wraps (xs : List Stmt) : Stmt → Prop where
  | test (e : Expr) : Wraps xs (.branch e xs none)
  | loop (i : String) (e : Expr) : Wraps xs (countedLoop i e xs)

/-- A statement of an outline declares nothing, declares one name by `let`, or opens a block. -/
theorem stmts?_cases {depth : Nat} {entry : Numbered} {children : List Outline} {us : List Stmt}
    (translated : stmts? depth (.node entry children) = some us) :
    (setName? (.node entry children) = none ∧ entry.line.opens = false ∧
        (us = [] ∨ ∃ e, us = [.console "log" [e]])) ∨
      (∃ name e, setName? (.node entry children) = some name ∧ entry.line.opens = false ∧
        us = [.simple (.declare .letDecl name (some e))]) ∨
      (setName? (.node entry children) = none ∧ entry.line.opens = true ∧
        ∃ xs s, allStmts? (depth + 1) children = some xs ∧ Wraps xs s ∧ us = [s]) := by
  obtain ⟨number, line⟩ := entry
  cases line with
  | note | danglingSet | unknown | close =>
      rw [stmts?] at translated
      cases translated
      exact .inl ⟨rfl, rfl, .inl rfl⟩
  | say text =>
      simp only [stmts?] at translated
      obtain ⟨e, -, same⟩ := Option.bind_eq_some_iff.mp translated
      cases same
      exact .inl ⟨rfl, rfl, .inr ⟨e, rfl⟩⟩
  | assign name text =>
      simp only [stmts?] at translated
      obtain ⟨e, -, same⟩ := Option.bind_eq_some_iff.mp translated
      cases same
      exact .inr (.inl ⟨name, e, rfl, rfl, rfl⟩)
  | loop count =>
      simp only [stmts?] at translated
      obtain ⟨e, -, translated⟩ := Option.bind_eq_some_iff.mp translated
      obtain ⟨xs, inner, same⟩ := Option.bind_eq_some_iff.mp translated
      cases same
      exact .inr (.inr ⟨rfl, rfl, xs, _, inner, .loop _ _, rfl⟩)
  | test condition =>
      simp only [stmts?] at translated
      obtain ⟨e, -, translated⟩ := Option.bind_eq_some_iff.mp translated
      obtain ⟨xs, inner, same⟩ := Option.bind_eq_some_iff.mp translated
      cases same
      exact .inr (.inr ⟨rfl, rfl, xs, _, inner, .test e, rfl⟩)

theorem Wraps.varNamesOf_eq {xs : List Stmt} {s : Stmt} (wraps : Wraps xs s) :
    varNamesOf s = varNames xs := by
  cases wraps <;> simp [varNamesOf, countedLoop, varOf]

/-- Of a block only its body is checked: the counter of a loop stands alone in its header. -/
theorem Wraps.checkNested_eq {xs : List Stmt} {s : Stmt} (wraps : Wraps xs s)
    (noVars : varNames xs = []) : checkNested s = (checkStmts [] xs).bind fun _ => .ok () := by
  have closed : closeBlock xs (checkStmts [] xs) = (checkStmts [] xs).bind fun _ => .ok () := by
    rw [closeBlock, noVars]
    rfl
  cases wraps with
  | test e => exact closed
  | loop i e => exact closed

theorem varNames_append (xs ys : List Stmt) : varNames (xs ++ ys) = varNames xs ++ varNames ys := by
  induction xs with
  | nil => rfl
  | cons x xs ih => simp [varNames, ih]

theorem allStmts?_eq_some_cons {depth : Nat} {tree : Outline} {rest : List Outline} {xs : List Stmt}
    (translated : allStmts? depth (tree :: rest) = some xs) :
    ∃ us vs, stmts? depth tree = some us ∧ allStmts? depth rest = some vs ∧ xs = us ++ vs := by
  rw [allStmts?] at translated
  obtain ⟨us, here, translated⟩ := Option.bind_eq_some_iff.mp translated
  obtain ⟨vs, others, same⟩ := Option.bind_eq_some_iff.mp translated
  cases same
  exact ⟨us, vs, here, others, rfl⟩

/-- Nothing is declared by `var`. -/
theorem varNames_of_allStmts? {depth : Nat} {trees : List Outline} {xs : List Stmt}
    (translated : allStmts? depth trees = some xs) : varNames xs = [] := by
  match trees with
  | [] =>
      cases translated
      rfl
  | .node entry children :: rest =>
      obtain ⟨us, vs, here, others, rfl⟩ := allStmts?_eq_some_cons translated
      have later := varNames_of_allStmts? others
      rw [varNames_append, later, List.append_nil]
      rcases stmts?_cases here with ⟨-, -, rfl | ⟨e, rfl⟩⟩ | ⟨name, e, -, -, rfl⟩ |
        ⟨-, -, xs, s, inner, wraps, rfl⟩
      · rfl
      · rfl
      · rfl
      · simp [varNames, wraps.varNamesOf_eq, varNames_of_allStmts? inner]
termination_by sizeOf trees

/-! ## What the check says -/

theorem checkStmts_let (declared : Declared) (name : String) (e : Expr) (rest : List Stmt) :
    checkStmts declared (.simple (.declare .letDecl name (some e)) :: rest) =
      if declared.lookup name = none then checkStmts ((name, .letDecl) :: declared) rest
      else .error (.redeclared name) := by
  rw [checkStmts, declareStmt, declare, if_neg (by simp)]
  cases declared.lookup name with
  | none => rfl
  | some kind => cases kind <;> rfl

theorem Wraps.checkStmts_eq {xs : List Stmt} {s : Stmt} (wraps : Wraps xs s)
    (noVars : varNames xs = []) (declared : Declared) (rest : List Stmt) :
    checkStmts declared (s :: rest) =
      (checkStmts [] xs).bind fun _ => checkStmts declared rest := by
  have undeclared : declareStmt declared s = .ok declared := by cases wraps <;> rfl
  rw [checkStmts, undeclared, wraps.checkNested_eq noVars]
  cases checkStmts [] xs <;> rfl

section Repeats

variable {declared : Declared} {entry : Numbered} {children rest : List Outline} {x : String}

theorem repeats_silent (silent : setName? (.node entry children) = none)
    (shut : entry.line.opens = false) :
    Repeats declared (.node entry children :: rest) x ↔ Repeats declared rest x := by
  simp [Repeats, setNames, silent, allBlocks, blocks, shut]

theorem repeats_set {name : String} (sets : setName? (.node entry children) = some name)
    (shut : entry.line.opens = false) :
    Repeats declared (.node entry children :: rest) x ↔
      Repeats ((name, .letDecl) :: declared) rest x := by
  have moved : (declared.map Prod.fst ++ name :: setNames rest).count x =
      (name :: (declared.map Prod.fst ++ setNames rest)).count x :=
    List.perm_middle.count_eq x
  simp only [Repeats, setNames, List.filterMap_cons, sets, allBlocks, blocks, shut, List.map_cons,
    List.cons_append] at moved ⊢
  rw [moved]
  rfl

theorem repeats_block (silent : setName? (.node entry children) = none)
    (opens : entry.line.opens = true) :
    Repeats declared (.node entry children :: rest) x ↔
      Repeats [] children x ∨ Repeats declared rest x := by
  have names : setNames (.node entry children :: rest) = setNames rest := by
    simp [setNames, silent]
  have bodies : allBlocks (.node entry children :: rest) =
      children :: (allBlocks children ++ allBlocks rest) := by
    simp [allBlocks, blocks, opens]
  rw [repeats_nil_iff, Repeats, Repeats, SetsTwice, names, bodies]
  constructor
  · rintro (twice | ⟨block, member, twice⟩)
    · exact .inr (.inl twice)
    · rw [← List.cons_append, List.mem_append] at member
      rcases member with inside | later
      · exact .inl ⟨block, inside, twice⟩
      · exact .inr (.inr ⟨block, later, twice⟩)
  · rintro (⟨block, inside, twice⟩ | twice | ⟨block, later, twice⟩)
    · refine .inr ⟨block, ?_, twice⟩
      rw [← List.cons_append]
      exact List.mem_append_left _ inside
    · exact .inl twice
    · refine .inr ⟨block, ?_, twice⟩
      rw [← List.cons_append]
      exact List.mem_append_right _ later

/-- What is declared already and set once more is a repetition. -/
theorem repeats_of_lookup {name : String} {kind : DeclKind}
    (sets : setName? (.node entry children) = some name)
    (known : declared.lookup name = some kind) :
    Repeats declared (.node entry children :: rest) name := by
  have before : 0 < (declared.map Prod.fst).count name := by
    rw [List.count_pos_iff]
    by_contra absent
    rw [lookup_eq_none_iff.mpr absent] at known
    cases known
  left
  have here : setNames (.node entry children :: rest) = name :: setNames rest := by
    simp [setNames, sets]
  rw [here, List.count_append, List.count_cons_self]
  omega

end Repeats

/-- The check of the statements of an outline fails exactly if a name is repeated, and then names
    one that is. -/
theorem checkStmts_translated {depth : Nat} {trees : List Outline} {xs : List Stmt}
    (translated : allStmts? depth trees = some xs) {declared : Declared}
    (distinct : (declared.map Prod.fst).Nodup) :
    ((∃ final, checkStmts declared xs = .ok final) ∧ ∀ x, ¬ Repeats declared trees x) ∨
      ∃ x, checkStmts declared xs = .error (.redeclared x) ∧ Repeats declared trees x := by
  match trees with
  | [] =>
      cases translated
      refine .inl ⟨⟨declared, rfl⟩, fun x => ?_⟩
      rintro (twice | ⟨block, member, -⟩)
      · simp only [setNames, List.filterMap_nil, List.append_nil] at twice
        have := List.nodup_iff_count_le_one.mp distinct x
        omega
      · cases member
  | .node entry children :: rest =>
      obtain ⟨us, vs, here, others, rfl⟩ := allStmts?_eq_some_cons translated
      rcases stmts?_cases here with ⟨silent, shut, quiet⟩ | ⟨name, e, sets, shut, rfl⟩ |
        ⟨silent, opens, xs, s, inner, wraps, rfl⟩
      · have same : checkStmts declared (us ++ vs) = checkStmts declared vs := by
          rcases quiet with rfl | ⟨e, rfl⟩ <;> rfl
        simp only [same, repeats_silent silent shut]
        exact checkStmts_translated others distinct
      · rw [List.singleton_append, checkStmts_let]
        split
        · next unknown =>
            have distinct' : (((name, DeclKind.letDecl) :: declared).map Prod.fst).Nodup :=
              List.nodup_cons.mpr ⟨lookup_eq_none_iff.mp unknown, distinct⟩
            simp only [repeats_set sets shut]
            exact checkStmts_translated others distinct'
        · next known =>
            obtain ⟨kind, found⟩ := Option.ne_none_iff_exists'.mp known
            exact .inr ⟨name, rfl, repeats_of_lookup sets found⟩
      · rw [List.singleton_append, wraps.checkStmts_eq (varNames_of_allStmts? inner)]
        simp only [repeats_block silent opens]
        have none_before : (([] : Declared).map Prod.fst).Nodup := List.nodup_nil
        rcases checkStmts_translated inner none_before with
          ⟨⟨final, passed⟩, inside⟩ | ⟨x, failed, twice⟩
        · rw [passed]
          rcases checkStmts_translated others distinct with ⟨later, none_⟩ | ⟨x, failed, twice⟩
          · exact .inl ⟨later, fun x => not_or.mpr ⟨inside x, none_ x⟩⟩
          · exact .inr ⟨x, failed, .inr twice⟩
        · rw [failed]
          exact .inr ⟨x, rfl, .inl twice⟩
termination_by sizeOf trees

theorem checkBlock_translated {depth : Nat} {trees : List Outline} {xs : List Stmt}
    (translated : allStmts? depth trees = some xs) :
    (checkBlock xs = .ok () ∧ ∀ x, ¬ SetsTwice trees x) ∨
      ∃ x, checkBlock xs = .error (.redeclared x) ∧ SetsTwice trees x := by
  have none_before : (([] : Declared).map Prod.fst).Nodup := List.nodup_nil
  have verdict := checkStmts_translated translated none_before
  simp only [repeats_nil_iff] at verdict
  rw [checkBlock, closeBlock, varNames_of_allStmts? translated]
  rcases verdict with ⟨⟨final, passed⟩, none_⟩ | ⟨x, failed, twice⟩
  · exact .inl ⟨by rw [passed]; rfl, none_⟩
  · exact .inr ⟨x, by rw [failed]; rfl, twice⟩

end Outline

/-- What is left of the reading of a script that is not too deep is the check of its
    declarations. -/
theorem Script.compile_of_nested {code : String} {body : List Stmt} {n : Nat}
    (accepted : read program code.toList = .ok body)
    (nested : Nested n (trace program code.toList)) (shallow : n ≤ limit) :
    compile code =
      match checkBlock body with
      | .error fault => .error (.declaration fault)
      | .ok () => .ok ⟨body⟩ := by
  have within : isWithin code.toList = true := by
    rw [← Bool.not_eq_false, ← compile_eq_tooDeep_iff, compile_eq_tooDeep_iff_lt accepted nested]
    omega
  rw [compile, within, accepted]
  rfl

/-- A source without findings whose texts are expressions, with tight counts, becomes a script that
    is refused for one of two reasons. Its brackets nest too deeply, or, if they do not, some block
    of the source sets a name twice. Otherwise it is accepted. -/
theorem compile_scriptOf_of_clean (source : String)
    (clean : (Listing.ofSource source).findings = [])
    (readable : ∀ entry ∈ Listing.ofSource source, entry.line.isReadable = true)
    (tight : (Listing.ofSource source).isTight = true) :
    let compiled := Script.compile (scriptOf source)
    let Twice := Outline.SetsTwice (Outline.ofListing (Listing.ofSource source))
    ∃ n, Nested n (trace program (scriptOf source).toList) ∧
      (compiled = .error .tooDeep ↔ limit < n) ∧
      ((∃ x, compiled = .error (.declaration (.redeclared x))) ↔ n ≤ limit ∧ ∃ x, Twice x) ∧
      ((∃ script, compiled = .ok script) ↔ n ≤ limit ∧ ¬ ∃ x, Twice x) ∧
      ∀ fault, compiled = .error fault →
        fault = .tooDeep ∨ ∃ x, fault = .declaration (.redeclared x) ∧ Twice x := by
  intro compiled Twice
  obtain ⟨xs, translates⟩ := Listing.exists_translates_of_clean clean readable
  have accepted : read program (scriptOf source).toList = .ok xs := translates.read_code
  have translated := Outline.allStmts?_ofListing translates tight
  obtain ⟨n, nested⟩ := exists_nested accepted
  have tooDeep : compiled = .error .tooDeep ↔ limit < n :=
    compile_eq_tooDeep_iff_lt accepted nested
  refine ⟨n, nested, tooDeep, ?_⟩
  rcases Nat.lt_or_ge limit n with deep | shallow
  · have refused := tooDeep.mpr deep
    rw [refused]
    simp [Nat.not_le.mpr deep]
  · have rest : compiled = _ := Script.compile_of_nested accepted nested shallow
    rw [rest]
    rcases Outline.checkBlock_translated translated with ⟨passed, none_⟩ | ⟨x, failed, twice⟩
    · rw [passed]
      simp [shallow, Twice, none_]
    · rw [failed]
      have some_ : ∃ x, Twice x := ⟨x, twice⟩
      simp [shallow, some_, show Twice x from twice]

/-- A name that is set once in each of three blocks inside one another is no mistake. Set twice in
    the innermost, it is. -/
theorem compile_scriptOf_of_clean_repeated :
    let source := "set n = 2\nrepeat n\n  set n = 'a'\n  check n\n    set n = 1\n" ++
      "    set n = n + 1\n  end\nend"
    (Listing.ofSource source).findings = [] ∧
      (∀ entry ∈ Listing.ofSource source, entry.line.isReadable = true) ∧
      (Listing.ofSource source).isTight = true ∧
      ∃ x, Script.compile (scriptOf source) = .error (.declaration (.redeclared x)) := by
  intro source
  have clean : (Listing.ofSource source).findings = [] := by decide +kernel
  have readable : ∀ entry ∈ Listing.ofSource source, entry.line.isReadable = true := by
    decide +kernel
  have tight : (Listing.ofSource source).isTight = true := by decide +kernel
  obtain ⟨n, -, tooDeep, redeclared, -⟩ := compile_scriptOf_of_clean source clean readable tight
  have within : isWithin (scriptOf source).toList = true := by decide +kernel
  have shallow : n ≤ limit := by
    rw [← Nat.not_lt, ← tooDeep, Script.compile_eq_tooDeep_iff, within]
    simp
  have twice : ∃ block ∈ Outline.ofListing (Listing.ofSource source) ::
      Outline.allBlocks (Outline.ofListing (Listing.ofSource source)),
      2 ≤ (Outline.setNames block).count "n" := by
    decide +kernel
  exact ⟨clean, readable, tight, redeclared.mpr ⟨shallow, "n", twice⟩⟩

end LineScript
