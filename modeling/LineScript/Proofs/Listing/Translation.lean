import LineScript.Proofs.Listing.Source
import LineScript.Listing.Outline

/-! # Scripts read back

The outline of a listing can be translated into statements directly, one
statement of the outline at a time. Reading the generated script gives the same
statements, and it succeeds exactly if generation found the blocks to match.
-/

namespace LineScript

open Grammar

namespace Outline

mutual
/-- What a statement inside `depth` blocks and those under it stand for. A remark, a line that is
    not understood and a closer stand for nothing. -/
def stmts? (depth : Nat) : Outline → Option (List Stmt)
  | .node entry children =>
      match entry.line with
      | .note _ | .danglingSet _ | .unknown _ | .close => some []
      | .say text => do
          let e ← phrase? 0 text
          return [.console "log" [e]]
      | .assign name text => do
          let e ← phrase? 0 text
          return [.simple (.declare .letDecl name (some e))]
      | .loop count => do
          let i := loopCounter depth
          let e ← phrase? 0 count
          let xs ← allStmts? (depth + 1) children
          return [.forLoop (some (.declare .letDecl i (some (.number 0))))
            (some (.binary .lt (.name i) e)) (some (.update i .up)) xs]
      | .test condition => do
          let e ← phrase? 0 condition
          let xs ← allStmts? (depth + 1) children
          return [.branch e xs none]

/-- What siblings inside `depth` blocks stand for. -/
def allStmts? (depth : Nat) : List Outline → Option (List Stmt)
  | [] => some []
  | tree :: rest => do
      let xs ← stmts? depth tree
      let ys ← allStmts? depth rest
      return xs ++ ys
end

/-! ## Building the outline -/

namespace Building

theorem foldl_place_opened (trees : List Outline) (top : List Outline) (opener : Numbered)
    (children : List Outline) (outer : List (Numbered × List Outline)) :
    trees.foldl place ⟨top, (opener, children) :: outer⟩ =
      ⟨top, (opener, trees.reverse ++ children) :: outer⟩ := by
  induction trees generalizing children with
  | nil => rfl
  | cons tree trees ih => simp [place, ih]

theorem foldl_place_top (trees top : List Outline) :
    trees.foldl place ⟨top, []⟩ = ⟨trees.reverse ++ top, []⟩ := by
  induction trees generalizing top with
  | nil => rfl
  | cons tree trees ih => simp [place, ih]

theorem add_plain {line : Line} {xs : List Stmt} (plain : Plain line xs) (number : Nat)
    (b : Building) : b.add ⟨number, line⟩ = b.place (.node ⟨number, line⟩ []) := by
  simp [add, plain.opens_eq, plain.closes_eq]

theorem add_header {depth : Nat} {line : Line} {make : List Stmt → Stmt}
    (header : Header depth line make) (number : Nat) (b : Building) :
    b.add ⟨number, line⟩ = { b with opened := (⟨number, line⟩, []) :: b.opened } := by
  simp [add, header.opens_eq]

/-- The closer of a block becomes its last statement. -/
theorem add_close (number : Nat) (top : List Outline) (opener : Numbered) (children : List Outline)
    (outer : List (Numbered × List Outline)) :
    add ⟨top, (opener, children) :: outer⟩ ⟨number, .close⟩ =
      place ⟨top, outer⟩ (.node opener (children.reverse ++ [.node ⟨number, .close⟩ []])) := by
  simp [add, Line.opens, Line.closes, place, shut]

end Building

theorem stmts?_plain {line : Line} {xs : List Stmt} (plain : Plain line xs) (depth number : Nat) :
    stmts? depth (.node ⟨number, line⟩ []) = some xs := by
  cases plain with
  | note _ | danglingSet | unknown _ => rfl
  | say accepted => simp [stmts?, accepted]
  | assign _ accepted => simp [stmts?, accepted]

theorem stmts?_header {depth : Nat} {line : Line} {make : List Stmt → Stmt}
    (header : Header depth line make) (tight : line.isTight = true) {number : Nat}
    {children : List Outline} {xs : List Stmt} (inner : allStmts? (depth + 1) children = some xs) :
    stmts? depth (.node ⟨number, line⟩ children) = some [make xs] := by
  cases header with
  | @loop count e read =>
      obtain ⟨c, accepted⟩ := Option.isSome_iff_exists.mp tight
      obtain ⟨whole, compared⟩ := phrase?_tight (isName_loopCounter depth) accepted
      obtain rfl := Option.some.inj (read.symm.trans compared)
      simp [stmts?, whole, inner, countedLoop]
  | test accepted => simp [stmts?, accepted, inner]

theorem allStmts?_cons {depth : Nat} {tree : Outline} {trees : List Outline} {xs ys : List Stmt}
    (first : stmts? depth tree = some xs) (rest : allStmts? depth trees = some ys) :
    allStmts? depth (tree :: trees) = some (xs ++ ys) := by
  simp [allStmts?, first, rest]

/-- The closer at the end of a block adds nothing. -/
theorem allStmts?_close {depth : Nat} {trees : List Outline} {xs : List Stmt}
    (inner : allStmts? depth trees = some xs) (number : Nat) :
    allStmts? depth (trees ++ [.node ⟨number, .close⟩ []]) = some xs := by
  induction trees generalizing xs with
  | nil =>
      cases inner
      rfl
  | cons tree trees ih =>
      rw [allStmts?] at inner
      obtain ⟨us, here, inner⟩ := Option.bind_eq_some_iff.mp inner
      obtain ⟨vs, rest, same⟩ := Option.bind_eq_some_iff.mp inner
      cases same
      exact allStmts?_cons here (ih rest)

/-- The outline of a listing whose blocks close translates into what the listing stands for. -/
theorem foldl_add_eq {depth : Nat} {listing : Listing} {xs : List Stmt}
    (translates : Translates depth listing xs) (tight : listing.isTight = true) (b : Building) :
    ∃ trees, listing.foldl Building.add b = trees.foldl Building.place b ∧
      allStmts? depth trees = some xs := by
  induction translates generalizing b with
  | nil => exact ⟨[], rfl, rfl⟩
  | @plain depth number line xs rest ys plain _ ih =>
      obtain ⟨-, tightRest⟩ := Bool.and_eq_true_iff.mp tight
      obtain ⟨trees, built, translated⟩ := ih tightRest (b.place (.node ⟨number, line⟩ []))
      refine ⟨.node ⟨number, line⟩ [] :: trees, ?_,
        allStmts?_cons (stmts?_plain plain _ _) translated⟩
      rw [List.foldl_cons, List.foldl_cons, Building.add_plain plain, built]
  | @block depth number line make inner xs last rest ys header _ _ ihInner ihRest =>
      obtain ⟨tightLine, tightRest⟩ := Bool.and_eq_true_iff.mp tight
      rw [List.all_append, Bool.and_eq_true, List.all_cons, Bool.and_eq_true] at tightRest
      obtain ⟨tightInner, -, tightRest⟩ := tightRest
      obtain ⟨top, opened⟩ := b
      obtain ⟨children, builtInner, translatedInner⟩ :=
        ihInner tightInner ⟨top, (⟨number, line⟩, []) :: opened⟩
      obtain ⟨trees, built, translated⟩ := ihRest tightRest (Building.place ⟨top, opened⟩
        (.node ⟨number, line⟩ (children ++ [.node ⟨last, .close⟩ []])))
      refine ⟨.node ⟨number, line⟩ (children ++ [.node ⟨last, .close⟩ []]) :: trees, ?_, ?_⟩
      · rw [List.foldl_cons, List.foldl_append, List.foldl_cons, List.foldl_cons,
          Building.add_header header, builtInner, Building.foldl_place_opened, Building.add_close,
          List.append_nil, List.reverse_reverse, built]
      · exact allStmts?_cons
          (stmts?_header header tightLine (allStmts?_close translatedInner last)) translated

theorem allStmts?_ofListing {depth : Nat} {listing : Listing} {xs : List Stmt}
    (translates : Translates depth listing xs) (tight : listing.isTight = true) :
    allStmts? depth (ofListing listing) = some xs := by
  obtain ⟨trees, built, translated⟩ := foldl_add_eq translates tight ⟨[], []⟩
  rw [ofListing, built, Building.foldl_place_top]
  simpa [Building.finish] using translated

end Outline

/-- The script of a source whose names are names and whose texts are expressions, with tight counts,
    is read exactly if the blocks of the source match. What is read is the translation of the
    outline. -/
theorem read_scriptOf_eq_outline (source : String)
    (readable : (Listing.ofSource source).isReadable = true)
    (tight : (Listing.ofSource source).isTight = true) :
    ((∃ body, read program (scriptOf source).toList = .ok body) ↔
        (Listing.ofSource source).generate.isBalanced = true) ∧
      ∀ body, read program (scriptOf source).toList = .ok body →
        Outline.allStmts? 0 (Outline.ofListing (Listing.ofSource source)) = some body := by
  have succeeds := Listing.exists_read_iff readable
  refine ⟨succeeds, fun body whole => ?_⟩
  obtain ⟨xs, translates⟩ := Listing.exists_translates readable (succeeds.mp ⟨body, whole⟩)
  obtain rfl := Except.ok.inj (whole.symm.trans translates.read_code)
  exact Outline.allStmts?_ofListing translates tight

/-- Nested blocks with a remark, a line that is not understood and a `set` without a value. -/
def nestedSource : String :=
  "note start\nset n = 2 * (1 < 2)\nrepeat n - -1\n  check n >= 1 || !n\n" ++
    "    say 'n: ' + /* shown */ n\n  end\n  hello\n  set x\n  repeat (n == 2)\n  end\nend"

theorem read_scriptOf_nestedSource :
    (Listing.ofSource nestedSource).isReadable = true ∧
      (Listing.ofSource nestedSource).isTight = true ∧
      (Listing.ofSource nestedSource).generate.isBalanced = true ∧
      ∃ body, read program (scriptOf nestedSource).toList = .ok body ∧
        Outline.allStmts? 0 (Outline.ofListing (Listing.ofSource nestedSource)) = some body := by
  have readable : (Listing.ofSource nestedSource).isReadable = true := by decide +kernel
  have tight : (Listing.ofSource nestedSource).isTight = true := by decide +kernel
  have balanced : (Listing.ofSource nestedSource).generate.isBalanced = true := by decide +kernel
  obtain ⟨succeeds, same⟩ := read_scriptOf_eq_outline nestedSource readable tight
  obtain ⟨body, whole⟩ := succeeds.mpr balanced
  exact ⟨readable, tight, balanced, body, whole, same body whole⟩

end LineScript
