import LineScript.Proofs.Nesting.Brackets

/-! # Trees and the texts they are read from

Reading and running go down into a tree as far as its height. Brackets are one way to make a tree
higher, and the scan bounds it. Operators, bodies without braces and chains of branches are
others, and each of them puts at least one more piece of code beside what the tree had before, with
no bracket between. So the height is bounded by how deep brackets nest and by how many pieces stand
together, taken at the place where most do.
-/

namespace LineScript

/-! ## How high a tree is -/

/-- The steps from an expression down to the furthest expression in it. -/
def Expr.height : Expr → Nat
  | .unary _ e => e.height + 1
  | .binary _ left right | .logical _ left right => max left.height right.height + 1
  | .number _ | .text _ | .bool _ | .null | .undefined | .name _ => 0

/-- The steps from a simple statement down to the furthest expression in it. -/
def Simple.height : Simple → Nat
  | .declare _ _ (some e) | .assign _ _ e => e.height + 1
  | .declare _ _ none | .update _ _ => 0

/-- The steps from the nearest expression of several down to the furthest. -/
def heightOfExprs (es : List Expr) : Nat :=
  es.foldr (fun e h => max e.height h) 0

mutual

/-- The steps from a statement down to the furthest statement or expression in it. -/
def Stmt.height : Stmt → Nat
  | .simple s => s.height
  | .console _ args => heightOfExprs args + 1
  | .branch e yes none => max e.height (heightOfAll yes) + 1
  | .branch e yes (some no) => max e.height (max (heightOfAll yes) (heightOfAll no)) + 1
  | .forLoop init e step body =>
      max (max (init.elim 0 Simple.height) (e.elim 0 Expr.height))
        (max (step.elim 0 Simple.height) (heightOfAll body)) + 1
  | .whileLoop e body => max e.height (heightOfAll body) + 1
  | .block body => heightOfAll body + 1
  | .expr e => e.height + 1
  | .empty => 0

@[inherit_doc Stmt.height]
def heightOfAll : List Stmt → Nat
  | [] => 0
  | s :: rest => max s.height (heightOfAll rest)

end

theorem heightOfAll_append (xs ys : List Stmt) :
    heightOfAll (xs ++ ys) = max (heightOfAll xs) (heightOfAll ys) := by
  induction xs with
  | nil => simp [heightOfAll]
  | cons x xs ih => simp [heightOfAll, ih, Nat.max_assoc]

theorem heightOfExprs_append (xs ys : List Expr) :
    heightOfExprs (xs ++ ys) = max (heightOfExprs xs) (heightOfExprs ys) := by
  induction xs with
  | nil => simp [heightOfExprs]
  | cons x xs ih => simp_all [heightOfExprs, Nat.max_assoc]

theorem Connective.height_join (c : Connective) (left right : Expr) :
    (c.join left right).height = max left.height right.height + 1 := by
  cases c <;> rfl

namespace Nesting

/-! ## How many pieces stand together -/

/-- Whether a piece opens a bracket. -/
def isOpener : Piece → Bool
  | .plain c => isOpening c
  | .literal _ | .comment _ => false

/-- Whether a piece closes a bracket. -/
def isCloser : Piece → Bool
  | .plain c => isClosing c
  | .literal _ | .comment _ => false

/-- Whether a piece is code, and neither a blank nor the end of a bracket. -/
def isSolid : Piece → Bool
  | .plain c => !Grammar.isSpace c && !isClosing c
  | .literal _ => true
  | .comment _ => false

/-- The number of solid pieces with no bracket around them, up to where a bracket is closed that
    was opened before; `depth` further brackets are open. -/
def direct (depth : Nat) : List Piece → Nat
  | [] => 0
  | piece :: w =>
      if depth = 0 ∧ isCloser piece then 0
      else (if depth = 0 ∧ isSolid piece then 1 else 0) + direct (depthBehind depth piece) w

/-- The most solid pieces that stand directly between two brackets. -/
def inner : List Piece → Nat
  | [] => 0
  | piece :: w => if isOpener piece then max (direct 0 w) (inner w) else inner w

/-- The most solid pieces that stand together: directly between two brackets, or outside of all. -/
def crowd (w : List Piece) : Nat :=
  max (direct 0 w) (inner w)

section Parts

variable {n : Nat} {u : List Piece} {o c : Char}

theorem IsPair.isCloser_opening (pair : IsPair o c) : isCloser (.plain o) = false := by
  simp only [IsPair, List.mem_cons, Prod.mk.injEq, List.not_mem_nil, or_false] at pair
  rcases pair with ⟨rfl, -⟩ | ⟨rfl, -⟩ | ⟨rfl, -⟩ <;> rfl

theorem IsPair.isOpener_closing (pair : IsPair o c) : isOpener (.plain c) = false := by
  simp only [IsPair, List.mem_cons, Prod.mk.injEq, List.not_mem_nil, or_false] at pair
  rcases pair with ⟨-, rfl⟩ | ⟨-, rfl⟩ | ⟨-, rfl⟩ <;> rfl

theorem IsPair.isSolid_opening (pair : IsPair o c) : isSolid (.plain o) = true := by
  simp only [IsPair, List.mem_cons, Prod.mk.injEq, List.not_mem_nil, or_false] at pair
  rcases pair with ⟨rfl, -⟩ | ⟨rfl, -⟩ | ⟨rfl, -⟩ <;> rfl

theorem closer_of_isBracket_false {piece : Piece} (other : isBracket piece = false) :
    isOpener piece = false ∧ isCloser piece = false := by
  cases piece with
  | plain c => simpa [isBracket, isOpener, isCloser] using other
  | literal | comment => exact ⟨rfl, rfl⟩

/-- Where a bracket is open, pieces whose own brackets match do not count. -/
theorem Nested.direct_append_succ (nested : Nested n u) (depth : Nat) (w : List Piece) :
    direct (depth + 1) (u ++ w) = direct (depth + 1) w := by
  induction nested generalizing depth w with
  | nil => rfl
  | other other _ ih =>
      rw [List.cons_append, direct, depthBehind_of_isBracket_false other, ih]
      simp
  | pair pair _ _ inside rest =>
      simp only [List.cons_append, List.append_assoc, direct, pair.depthBehind_opening, inside,
        depthBehind_of_isClosing pair.isClosing, Nat.add_sub_cancel, rest]
      simp

/-- Brackets count once, for the one that opens, with all that stands between them. -/
theorem Nested.direct_pair (nested : Nested n u) (pair : IsPair o c) (w : List Piece) :
    direct 0 (.plain o :: (u ++ .plain c :: w)) = direct 0 w + 1 := by
  simp [direct, pair.isCloser_opening, pair.isSolid_opening, pair.depthBehind_opening,
    nested.direct_append_succ 0, depthBehind_of_isClosing pair.isClosing, Nat.add_comm 1]

theorem Nested.direct_append (nested : Nested n u) (w : List Piece) :
    direct 0 (u ++ w) = direct 0 u + direct 0 w := by
  induction nested with
  | nil => simp [direct]
  | other other _ ih =>
      simp only [List.cons_append, direct, depthBehind_of_isBracket_false other, ih,
        (closer_of_isBracket_false other).2]
      simp [Nat.add_assoc]
  | pair pair inside _ _ ih =>
      rw [List.cons_append, List.append_assoc, List.cons_append, inside.direct_pair pair,
        inside.direct_pair pair, ih]
      omega

/-- In front of the bracket that closes it, all that a text holds counts as standing together. -/
private theorem inner_pair (nested : Nested n u) (pair : IsPair o c) (w : List Piece)
    (split : inner (u ++ .plain c :: w) = max (inner u) (inner (.plain c :: w))) :
    inner (.plain o :: (u ++ .plain c :: w)) = max (crowd u) (inner w) := by
  have ends : direct 0 (.plain c :: w) = 0 := by simp [direct, isCloser, pair.isClosing]
  rw [inner, isOpener, pair.isOpening, if_pos rfl, nested.direct_append, ends, split, inner,
    pair.isOpener_closing, crowd, Nat.max_assoc]
  rfl

theorem Nested.inner_append (nested : Nested n u) (w : List Piece) :
    inner (u ++ w) = max (inner u) (inner w) := by
  induction nested generalizing w with
  | nil => simp [inner]
  | other other _ ih => simpa [inner, (closer_of_isBracket_false other).1] using ih w
  | pair pair inside _ ihu ihw =>
      rw [List.cons_append, List.append_assoc, List.cons_append, inner_pair inside pair _ (ihu _),
        inner_pair inside pair _ (ihu _), ihw, Nat.max_assoc]

theorem Nested.inner_pair (nested : Nested n u) (pair : IsPair o c) (w : List Piece) :
    inner (.plain o :: (u ++ .plain c :: w)) = max (crowd u) (inner w) :=
  Nesting.inner_pair nested pair w (nested.inner_append _)

end Parts

/-! ## How much a text can hold -/

/-- The brackets of a text match, `d` solid pieces or more stand outside of them, and the text is
    long or deep enough for a tree of height `h`. -/
structure Holds (w : List Piece) (d h : Nat) : Prop where
  exists_nested : ∃ n, Nested n w ∧ ∀ k, inner w ≤ k → h ≤ direct 0 w + n * k
  direct_le : d ≤ direct 0 w

namespace Holds

variable {u w : List Piece} {d d' h h' : Nat} {c o : Char}

theorem mono (holds : Holds w d h) (fewer : d' ≤ d) (lower : h' ≤ h) : Holds w d' h' where
  exists_nested := by
    obtain ⟨n, nested, bound⟩ := holds.exists_nested
    exact ⟨n, nested, fun k most => lower.trans (bound k most)⟩
  direct_le := fewer.trans holds.direct_le

/-- What stands outside of brackets in one text makes room for a higher tree in the other. -/
theorem append (first : Holds u d h) (second : Holds w d' h') :
    Holds (u ++ w) (d + d') (max (h + d') (d + h')) := by
  obtain ⟨⟨m, nested, bound⟩, some_⟩ := first
  obtain ⟨⟨n, nested', bound'⟩, some'⟩ := second
  refine ⟨⟨max m n, nested.append nested', fun k most => ?_⟩, ?_⟩
  · rw [nested.inner_append] at most
    rw [nested.direct_append]
    have here := bound k (by omega)
    have here' := bound' k (by omega)
    have deep : m * k ≤ max m n * k := Nat.mul_le_mul_right k (Nat.le_max_left m n)
    have deep' : n * k ≤ max m n * k := Nat.mul_le_mul_right k (Nat.le_max_right m n)
    omega
  · rw [nested.direct_append]
    omega

/-- A text that stands in front takes nothing away. -/
theorem skip (first : Holds u d h) (second : Holds w d' h') : Holds (u ++ w) d' h' :=
  (first.append second).mono (Nat.le_add_left _ _) (by omega)

/-- Between brackets there is room for the same tree, and the bracket makes room for one step. -/
theorem pair (isPair : IsPair o c) (inside : Holds u d h) (rest : Holds w d' h') :
    Holds (.plain o :: (u ++ .plain c :: w)) (d' + 1) (max (h + d' + 1) (h' + 1)) := by
  obtain ⟨⟨m, nested, bound⟩, -⟩ := inside
  obtain ⟨⟨n, nested', bound'⟩, some'⟩ := rest
  refine ⟨⟨max (m + 1) n, .pair isPair nested nested', fun k most => ?_⟩, ?_⟩
  · rw [nested.inner_pair isPair, crowd] at most
    rw [nested.direct_pair isPair]
    have here := bound k (by omega)
    have here' := bound' k (by omega)
    have more : (m + 1) * k = m * k + k := Nat.succ_mul m k
    have deep : (m + 1) * k ≤ max (m + 1) n * k := Nat.mul_le_mul_right k (Nat.le_max_left _ _)
    have deep' : n * k ≤ max (m + 1) n * k := Nat.mul_le_mul_right k (Nat.le_max_right _ _)
    omega
  · rw [nested.direct_pair isPair]
    omega

theorem of_not_bracket (other : ∀ piece ∈ w, isBracket piece = false) :
    Holds w (w.countP isSolid) (w.countP isSolid) := by
  have both : Nested 0 w ∧ direct 0 w = w.countP isSolid := by
    induction w with
    | nil => exact ⟨.nil, rfl⟩
    | cons piece w ih =>
        have here := other piece (by simp)
        obtain ⟨nested, same⟩ := ih fun p member => other p (by simp [member])
        refine ⟨.other here nested, ?_⟩
        rw [direct, depthBehind_of_isBracket_false here, same, List.countP_cons,
          (closer_of_isBracket_false here).2]
        simp [Nat.add_comm]
  exact ⟨⟨0, both.1, fun _ _ => by omega⟩, both.2.ge⟩

theorem nil : Holds [] 0 0 :=
  of_not_bracket (by simp)

end Holds

end Nesting

end LineScript
