import LineScript.Proofs.Run.Constancy

/-! # What the check of the declarations refuses

The check goes through the statements of a block and into the blocks inside them, with what the
block has declared so far. What it refuses can be said without it: a block breaks one of three
rules, and the fault that is reported names what breaks it.
-/

namespace LineScript

open Declarations

/-- The blocks inside a statement, each with a check of its own. The first part of the header of a
    `for` is such a block. -/
def Stmt.blocks : Stmt → List (List Stmt)
  | .branch _ yes no => yes :: no.toList
  | .forLoop init _ _ body => init.toList.map (fun s => [.simple s]) ++ [body]
  | .whileLoop _ body | .block body => [body]
  | .simple _ | .console _ _ | .expr _ | .empty => []

/-- What a statement declares itself. -/
def Stmt.declaration? : Stmt → Option (String × DeclKind)
  | .simple (.declare kind name _) => some (name, kind)
  | .simple (.assign _ _ _) | .simple (.update _ _) => none
  | .console _ _ | .branch _ _ _ | .forLoop _ _ _ _ | .whileLoop _ _ | .block _ | .expr _
  | .empty => none

namespace Declarations

/-- The declarations that stand in a block, not in a block inside. -/
def direct (block : List Stmt) : Declared :=
  block.filterMap Stmt.declaration?

/-- A block is another one or stands inside it at any depth. -/
inductive Contains : List Stmt → List Stmt → Prop where
  | self {block} : Contains block block
  | inside {block s body inner} : s ∈ block → body ∈ s.blocks → Contains body inner →
      Contains block inner

/-- What a block is refused for. -/
inductive Violates (block : List Stmt) : DeclFault → Prop where
  /-- A `const` has no first value. -/
  | missing {name} : .simple (.declare .constDecl name none) ∈ block →
      Violates block (.missingInitializer name)
  /-- A name is declared twice, and not by `var` each time. -/
  | twice {name kind} : 2 ≤ ((direct block).map Prod.fst).count name →
      (name, kind) ∈ direct block → kind ≠ .varDecl → Violates block (.redeclared name)
  /-- A name declared by `let` or `const` is that of a `var` inside the block. -/
  | hidden {name kind inner} : (name, kind) ∈ direct block → kind ≠ .varDecl →
      Contains block inner → (name, .varDecl) ∈ direct inner → Violates block (.redeclared name)

/-! ## Blocks inside blocks -/

theorem sizeOf_lt_of_mem_blocks {s : Stmt} {body : List Stmt} (member : body ∈ s.blocks) :
    sizeOf body < sizeOf s := by
  cases s with
  | branch condition yes no =>
      rw [Stmt.branch.sizeOf_spec]
      rcases List.mem_cons.mp member with rfl | inNo
      · omega
      · obtain rfl := Option.mem_toList.mp inNo
        rw [Option.some.sizeOf_spec]
        omega
  | forLoop init condition update inner =>
      rw [Stmt.forLoop.sizeOf_spec]
      rcases List.mem_append.mp member with inInit | inBody
      · obtain ⟨s, isInit, rfl⟩ := List.mem_map.mp inInit
        obtain rfl := Option.mem_toList.mp isInit
        have positive : 0 < sizeOf condition ∧ 0 < sizeOf update ∧ 0 < sizeOf inner := by
          refine ⟨?_, ?_, ?_⟩
          · cases condition <;> simp
          · cases update <;> simp
          · cases inner <;> simp
        simp
        omega
      · obtain rfl := List.mem_singleton.mp inBody
        omega
  | whileLoop | block =>
      obtain rfl := List.mem_singleton.mp member
      simp
  | simple | console | expr | empty => cases member

/-- What holds of a block if it holds of the blocks inside it holds of every block. -/
theorem blocks_induction {motive : List Stmt → Prop}
    (step : ∀ block, (∀ s ∈ block, ∀ body ∈ s.blocks, motive body) → motive block)
    (block : List Stmt) : motive block := by
  induction size : sizeOf block using Nat.strong_induction_on generalizing block with
  | _ n ih =>
      apply step
      intro s member body inside
      have inBlock : sizeOf s < sizeOf block := List.sizeOf_lt_of_mem member
      have inStmt : sizeOf body < sizeOf s := sizeOf_lt_of_mem_blocks inside
      exact ih (sizeOf body) (by omega) body rfl

theorem checkSimple_eq (s : Simple) : checkSimple s = checkBlock [.simple s] := by
  simp only [checkBlock, closeBlock, checkStmts, declareStmt, checkNested, checkSimple, varNames,
    varNamesOf, List.append_nil]
  cases declare [] s <;> rfl

/-- The blocks inside a statement are checked in their order. -/
theorem checkNested_eq (s : Stmt) : checkNested s = s.blocks.forM checkBlock := by
  cases s with
  | branch condition yes no =>
      cases no <;> simp [checkNested, Stmt.blocks, checkBlock]
  | forLoop init condition update body =>
      cases init <;> simp [checkNested, Stmt.blocks, checkBlock, checkSimple_eq]
  | whileLoop | block => simp [checkNested, Stmt.blocks, checkBlock]
  | simple | console | expr | empty => rfl

theorem checkNested_eq_ok {s : Stmt} (checked : checkNested s = .ok ()) :
    ∀ body ∈ s.blocks, checkBlock body = .ok () := by
  rw [checkNested_eq] at checked
  generalize s.blocks = bodies at checked
  induction bodies with
  | nil => exact List.forall_mem_nil _
  | cons body rest ih =>
      obtain ⟨⟨⟩, first, later⟩ := bind_eq_ok.mp checked
      exact List.forall_mem_cons.mpr ⟨first, ih later⟩

theorem checkNested_eq_error {s : Stmt} {fault : DeclFault}
    (failed : checkNested s = .error fault) :
    ∃ body ∈ s.blocks, checkBlock body = .error fault := by
  rw [checkNested_eq] at failed
  generalize s.blocks = bodies at failed
  induction bodies with
  | nil => cases failed
  | cons body rest ih =>
      rcases bind_eq_error.mp failed with first | ⟨⟨⟩, -, later⟩
      · exact ⟨body, .head _, first⟩
      · obtain ⟨inner, member, failed⟩ := ih later
        exact ⟨inner, .tail _ member, failed⟩

@[simp]
theorem direct_cons (s : Stmt) (rest : List Stmt) :
    direct (s :: rest) = s.declaration?.toList ++ direct rest := by
  cases declared : s.declaration? <;> simp [direct, declared]

theorem mem_varNamesOf_iff {x : String} {s : Stmt} :
    x ∈ varNamesOf s ↔
      s.declaration? = some (x, .varDecl) ∨ ∃ body ∈ s.blocks, x ∈ varNames body := by
  cases s with
  | simple s =>
      cases s with
      | declare kind name init =>
          cases kind <;> simp [varNamesOf, varOf, Stmt.declaration?, Stmt.blocks, eq_comm]
      | assign | update => simp [varNamesOf, varOf, Stmt.declaration?, Stmt.blocks]
  | branch condition yes no => cases no <;> simp [varNamesOf, Stmt.declaration?, Stmt.blocks]
  | forLoop init condition update body =>
      cases init <;> simp [varNamesOf, varNames, Stmt.declaration?, Stmt.blocks]
  | whileLoop | block => simp [varNamesOf, Stmt.declaration?, Stmt.blocks]
  | console | expr | empty => simp [varNamesOf, Stmt.declaration?, Stmt.blocks]

theorem mem_varNames_blocks {x : String} {block : List Stmt} :
    x ∈ varNames block ↔
      (x, .varDecl) ∈ direct block ∨ ∃ s ∈ block, ∃ body ∈ s.blocks, x ∈ varNames body := by
  induction block with
  | nil => simp [varNames, direct]
  | cons s rest ih =>
      rw [varNames, List.mem_append, mem_varNamesOf_iff, ih, direct_cons, List.mem_append,
        Option.mem_toList, List.exists_mem_cons_iff]
      exact or_or_or_comm

/-- The `var` names of a block are those that are declared in some block inside. -/
theorem mem_varNames_iff {x : String} {block : List Stmt} :
    x ∈ varNames block ↔ ∃ inner, Contains block inner ∧ (x, .varDecl) ∈ direct inner := by
  constructor
  · intro member
    induction block using blocks_induction with
    | step block ih =>
        rcases mem_varNames_blocks.mp member with here | ⟨s, inBlock, body, inside, member⟩
        · exact ⟨block, .self, here⟩
        · obtain ⟨inner, contains, declared⟩ := ih s inBlock body inside member
          exact ⟨inner, .inside inBlock inside contains, declared⟩
  · rintro ⟨inner, contains, declared⟩
    induction contains with
    | self => exact mem_varNames_blocks.mpr (.inl declared)
    | inside inBlock inside _ ih =>
        exact mem_varNames_blocks.mpr (.inr ⟨_, inBlock, _, inside, ih declared⟩)

/-! ## What is refused -/

section Refused

variable {declared mid final : Declared} {s : Stmt} {stmts block : List Stmt} {fault : DeclFault}
  {x : String} {kind : DeclKind}

theorem declareStmt_eq_ok (accepted : declareStmt declared s = .ok mid) :
    mid = s.declaration?.toList ++ declared ∧
      ∀ name, s ≠ .simple (.declare .constDecl name none) := by
  cases s with
  | simple s =>
      cases s with
      | declare kind name init =>
          refine ⟨(of_declare accepted).1, ?_⟩
          rintro name' ⟨⟩
          simp [declareStmt, declare] at accepted
      | assign | update =>
          cases accepted
          exact ⟨rfl, by simp⟩
  | _ =>
      cases accepted
      exact ⟨rfl, by simp⟩

theorem mem_of_lookup (found : declared.lookup x = some kind) : (x, kind) ∈ declared := by
  obtain ⟨front, back, rfl, -⟩ := List.lookup_eq_some_iff.mp found
  exact List.mem_append_right front (.head _)

theorem declareStmt_eq_error (refused : declareStmt declared s = .error fault) :
    (∃ name, s = .simple (.declare .constDecl name none) ∧ fault = .missingInitializer name) ∨
      ∃ name kind kind', s.declaration? = some (name, kind) ∧ (name, kind') ∈ declared ∧
        ¬ (kind = .varDecl ∧ kind' = .varDecl) ∧ fault = .redeclared name := by
  cases s with
  | simple s =>
      cases s with
      | declare kind name init =>
          rw [declareStmt, declare] at refused
          split at refused
          · next bare =>
              obtain ⟨rfl, missing⟩ := bare
              obtain rfl := Option.isNone_iff_eq_none.mp missing
              cases refused
              exact .inl ⟨name, rfl, rfl⟩
          · split at refused
            · cases refused
            · next found =>
                split at refused
                · cases refused
                · next isLocal =>
                    cases refused
                    exact .inr ⟨name, kind, _, rfl, mem_of_lookup found, fun both => isLocal both.1,
                      rfl⟩
            · next kind' notVar found =>
                cases refused
                exact .inr ⟨name, kind, kind', rfl, mem_of_lookup found,
                  fun both => notVar both.2, rfl⟩
      | assign | update => cases refused
  | _ => cases refused

theorem checkVars_eq_error {vars : List String} (failed : checkVars declared vars = .error fault) :
    ∃ name ∈ vars, ∃ kind, (name, kind) ∈ declared ∧ kind ≠ .varDecl ∧
      fault = .redeclared name := by
  induction vars with
  | nil => cases failed
  | cons name rest ih =>
      rw [checkVars] at failed
      split at failed
      · next found =>
          cases failed
          exact ⟨name, .head _, .letDecl, mem_of_lookup found, by simp, rfl⟩
      · next found =>
          cases failed
          exact ⟨name, .head _, .constDecl, mem_of_lookup found, by simp, rfl⟩
      · obtain ⟨name', later, found⟩ := ih failed
        exact ⟨name', .tail _ later, found⟩

/-- What a block has declared in the end is what is declared in it. -/
theorem checkStmts_eq_ok (checked : checkStmts declared stmts = .ok final) :
    final = (direct stmts).reverse ++ declared ∧
      ∀ name, .simple (.declare .constDecl name none) ∉ stmts := by
  induction stmts generalizing declared with
  | nil =>
      cases checked
      exact ⟨rfl, fun _ => List.not_mem_nil⟩
  | cons s rest ih =>
      obtain ⟨mid, accepted, -, checked⟩ := checkStmts_cons checked
      obtain ⟨rfl, given⟩ := declareStmt_eq_ok accepted
      obtain ⟨rfl, later⟩ := ih checked
      constructor
      · cases declared : s.declaration? <;> simp [declared]
      · intro name member
        rcases List.mem_cons.mp member with rfl | inRest
        · exact given name rfl
        · exact later name inRest

/-- The check of the statements fails inside one of them or at a declaration. -/
theorem checkStmts_eq_error (failed : checkStmts declared stmts = .error fault) :
    (∃ s ∈ stmts, checkNested s = .error fault) ∨
      (∃ name, .simple (.declare .constDecl name none) ∈ stmts ∧
        fault = .missingInitializer name) ∨
      ∃ name kind, 2 ≤ ((direct stmts ++ declared).map Prod.fst).count name ∧
        (name, kind) ∈ direct stmts ++ declared ∧ kind ≠ .varDecl ∧ fault = .redeclared name := by
  induction stmts generalizing declared with
  | nil => cases failed
  | cons s rest ih =>
      rw [checkStmts] at failed
      rcases bind_eq_error.mp failed with refused | ⟨mid, accepted, failed⟩
      · rcases declareStmt_eq_error refused with
          ⟨name, rfl, rfl⟩ | ⟨name, kind, kind', declares, before, notVars, rfl⟩
        · exact .inr (.inl ⟨name, .head _, rfl⟩)
        · have named : name ∈ declared.map Prod.fst := List.mem_map_of_mem before
          have again : 0 < (declared.map Prod.fst).count name := List.count_pos_iff.mpr named
          have count : 2 ≤ ((direct (s :: rest) ++ declared).map Prod.fst).count name := by
            simp [declares]
            omega
          by_cases isVar : kind = .varDecl
          · refine .inr (.inr ⟨name, kind', count, List.mem_append_right _ before, ?_, rfl⟩)
            exact fun isVar' => notVars ⟨isVar, isVar'⟩
          · refine .inr (.inr ⟨name, kind, count, ?_, isVar, rfl⟩)
            simp [declares]
      · rcases bind_eq_error.mp failed with nested | ⟨⟨⟩, -, failed⟩
        · exact .inl ⟨s, .head _, nested⟩
        · obtain ⟨rfl, -⟩ := declareStmt_eq_ok accepted
          rcases ih failed with ⟨t, later, nested⟩ | ⟨name, later, rfl⟩ | ⟨name, kind, count, found⟩
          · exact .inl ⟨t, .tail _ later, nested⟩
          · exact .inr (.inl ⟨name, .tail _ later, rfl⟩)
          -- What `s` declares counts as declared before the rest: only the order is another.
          · have perm : (direct (s :: rest) ++ declared).Perm
                (direct rest ++ (s.declaration?.toList ++ declared)) := by
              rw [direct_cons, List.append_assoc]
              exact List.perm_append_comm_assoc _ _ _
            rw [← (perm.map Prod.fst).count_eq] at count
            rw [← perm.mem_iff] at found
            exact .inr (.inr ⟨name, kind, count, found⟩)

/-- What a block is refused for that is not refused for a block inside. -/
theorem checkBlock_eq_error (failed : checkBlock block = .error fault) :
    Violates block fault ∨ ∃ s ∈ block, checkNested s = .error fault := by
  rcases bind_eq_error.mp failed with failed | ⟨final, checked, failed⟩
  · rcases checkStmts_eq_error failed with nested | ⟨name, member, rfl⟩ | ⟨name, kind, count, found⟩
    · exact .inr nested
    · exact .inl (.missing member)
    · obtain ⟨member, isLocal, rfl⟩ := found
      rw [List.append_nil] at count member
      exact .inl (.twice count member isLocal)
  · obtain ⟨name, isVar, kind, member, isLocal, rfl⟩ := checkVars_eq_error failed
    obtain ⟨rfl, -⟩ := checkStmts_eq_ok checked
    obtain ⟨inner, contains, declared⟩ := mem_varNames_iff.mp isVar
    rw [List.append_nil, List.mem_reverse] at member
    exact .inl (.hidden member isLocal contains declared)

end Refused

section Accepted

variable {block inner : List Stmt} {fault : DeclFault} {x : String} {kind : DeclKind}

theorem checkBlock_of_contains (checked : checkBlock block = .ok ())
    (contains : Contains block inner) : checkBlock inner = .ok () := by
  induction contains with
  | self => exact checked
  | inside member inside _ ih =>
      exact ih (checkNested_eq_ok (checkNested_of_checkBlock checked _ member) _ inside)

theorem mem_declared (member : (x, kind) ∈ direct block) (isLocal : kind ≠ .varDecl) :
    x ∈ (Enclosure.block block).declared := by
  obtain ⟨s, inBlock, declares⟩ := List.mem_filterMap.mp member
  have inLocals : (x, kind) ∈ s.locals := by
    cases s with
    | simple s =>
        cases s with
        | declare kind' name init =>
            cases declares
            cases kind with
            | varDecl => exact absurd rfl isLocal
            | letDecl | constDecl => exact .head _
        | assign | update => cases declares
    | _ => cases declares
  exact List.mem_map_of_mem (List.mem_flatMap.mpr ⟨s, inBlock, inLocals⟩)

/-- But for `var`, what is declared in a block is what its scope has. -/
theorem count_direct (absent : x ∉ varNames block) :
    ((direct block).map Prod.fst).count x = (Enclosure.block block).declared.count x := by
  induction block with
  | nil => rfl
  | cons s rest ih =>
      rw [varNames, List.mem_append, not_or] at absent
      have here : (s.declaration?.toList.map Prod.fst).count x =
          (s.locals.map Prod.fst).count x := by
        cases s with
        | simple s =>
            cases s with
            | declare kind name init =>
                cases kind with
                | varDecl =>
                    have other : name ≠ x := by simpa [varNamesOf, varOf, eq_comm] using absent.1
                    simp [Stmt.declaration?, Stmt.locals, Simple.locals, other]
                | letDecl | constDecl => rfl
            | assign | update => rfl
        | _ => rfl
      rw [direct_cons, Enclosure.declared_cons, List.map_append, List.count_append,
        List.count_append, here, ih absent.2]

theorem not_violates_of_checkBlock (checked : checkBlock block = .ok ()) :
    ¬ Violates block fault := by
  intro violates
  cases violates with
  | missing member =>
      obtain ⟨final, checked, -⟩ := bind_eq_ok.mp checked
      exact (checkStmts_eq_ok checked).2 _ member
  | @twice name kind count member isLocal =>
      have declared := mem_declared member isLocal
      have absent : name ∉ varNames block :=
        fun isVar => not_mem_locals_of_checkBlock checked isVar declared
      -- The name is no `var` here, so each of its declarations is in the scope of the block.
      have once := List.nodup_iff_count_le_one.mp (nodup_of_checkBlock checked) name
      rw [count_direct absent] at count
      omega
  | hidden member isLocal contains declared =>
      have isVar := mem_varNames_iff.mpr ⟨_, contains, declared⟩
      exact not_mem_locals_of_checkBlock checked isVar (mem_declared member isLocal)

end Accepted

/-- The check accepts a block exactly if no rule is broken in it or in a block inside. If it fails,
    then some block breaks the rule that the fault is about, with the name that it gives. -/
theorem checkBlock_verdict (stmts : List Stmt) :
    (checkBlock stmts = .ok () ↔
      ∀ block, Contains stmts block → ∀ fault, ¬ Violates block fault) ∧
    ∀ fault, checkBlock stmts = .error fault →
      ∃ block, Contains stmts block ∧ Violates block fault := by
  have refused : ∀ fault, checkBlock stmts = .error fault →
      ∃ block, Contains stmts block ∧ Violates block fault := by
    intro fault
    induction stmts using blocks_induction with
    | step stmts ih =>
        intro failed
        rcases checkBlock_eq_error failed with violates | ⟨s, member, nested⟩
        · exact ⟨stmts, .self, violates⟩
        · obtain ⟨body, inside, failed⟩ := checkNested_eq_error nested
          obtain ⟨block, contains, violates⟩ := ih s member body inside failed
          exact ⟨block, .inside member inside contains, violates⟩
  refine ⟨⟨?_, ?_⟩, refused⟩
  · intro checked block contains fault
    exact not_violates_of_checkBlock (checkBlock_of_contains checked contains)
  · intro clean
    cases verdict : checkBlock stmts with
    | ok => rfl
    | error fault =>
        obtain ⟨block, contains, violates⟩ := refused fault verdict
        exact absurd violates (clean block contains fault)

end Declarations

end LineScript
