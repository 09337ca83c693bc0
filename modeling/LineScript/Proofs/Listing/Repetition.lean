import LineScript.Proofs.Listing.Source

/-! # Conditions of generated loops

A `repeat` becomes a loop whose condition is the text of its count pasted behind
a comparison with the loop's counter, without parentheses. The counter is
compared with the value of the whole count exactly if the count is tight. Behind
a looser connective the comparison is only a part of the condition, and the loop
need not run as often as its count says.
-/

namespace LineScript

open Grammar

/-- The counts in a listing inside `depth` blocks, each with the number of blocks around it, in the
    order of the lines. -/
def Listing.counts (depth : Nat) : Listing → List (Nat × String)
  | [] => []
  | entry :: rest =>
      match entry.line with
      | .loop count => (depth, count) :: counts (depth + 1) rest
      | .test _ => counts (depth + 1) rest
      | .close => counts (depth - 1) rest
      | .note _ | .say _ | .assign _ _ | .danglingSet _ | .unknown _ => counts depth rest

mutual
/-- The conditions of the loops with a header in a statement, in the order of the text. -/
def Stmt.loopConditions : Stmt → List (Option Expr)
  | .forLoop _ condition _ body => condition :: loopConditions body
  | .branch _ yes none => loopConditions yes
  | .branch _ yes (some no) => loopConditions yes ++ loopConditions no
  | .whileLoop _ body | .block body => loopConditions body
  | .simple _ | .console _ _ | .expr _ | .empty => []

/-- The conditions of the loops with a header in statements, in the order of the text. -/
def loopConditions : List Stmt → List (Option Expr)
  | [] => []
  | s :: rest => s.loopConditions ++ loopConditions rest
end

theorem loopConditions_append (xs ys : List Stmt) :
    loopConditions (xs ++ ys) = loopConditions xs ++ loopConditions ys := by
  induction xs with
  | nil => rfl
  | cons x xs ih => simp [loopConditions, ih]

/-- The condition of the loop that a count makes inside `depth` blocks: the tree of the pasted text,
    which compares the counter with the whole count if that is tight, and only then. -/
def Compares (counted : Nat × String) (condition : Option Expr) : Prop :=
  condition = phrase? 0 (loopCounter counted.1 ++ " < " ++ counted.2) ∧
    ∀ e, phrase? 0 counted.2 = some e →
      (condition = some (.binary .lt (.name (loopCounter counted.1)) e) ↔
        (phrase? tightLevel counted.2).isSome)

theorem compares_of_read {depth : Nat} {count : String} {t : Expr}
    (read : phrase? 0 (loopCounter depth ++ " < " ++ count) = some t) :
    Compares (depth, count) (some t) := by
  refine ⟨read.symm, fun e accepted => ?_⟩
  obtain ⟨t', read', whole⟩ := phrase?_count (isName_loopCounter depth) accepted
  obtain rfl := Option.some.inj (read.symm.trans read')
  rw [Option.some.injEq]
  exact whole

namespace Translates

variable {depth : Nat} {listing : Listing} {xs : List Stmt}

theorem counts_plain {line : Line} {xs : List Stmt} (plain : Plain line xs) (depth number : Nat)
    (rest : Listing) :
    Listing.counts depth (⟨number, line⟩ :: rest) = Listing.counts depth rest ∧
      loopConditions xs = [] := by
  cases plain <;> exact ⟨rfl, rfl⟩

theorem counts_append (translates : Translates depth listing xs) (more : Listing) :
    Listing.counts depth (listing ++ more) =
      Listing.counts depth listing ++ Listing.counts depth more := by
  induction translates generalizing more with
  | nil => rfl
  | plain plain _ ih =>
      rw [List.cons_append, (counts_plain plain _ _ _).1, (counts_plain plain _ _ _).1, ih]
  | block header _ _ ihInner ihRest =>
      cases header <;> simp [Listing.counts, ihInner, ihRest]

/-- The loops that are read and the counts they were made of go together in order. -/
theorem compares (translates : Translates depth listing xs) :
    List.Forall₂ Compares (Listing.counts depth listing) (loopConditions xs) := by
  induction translates with
  | nil => exact .nil
  | plain plain _ ih =>
      rw [(counts_plain plain _ _ _).1, loopConditions_append, (counts_plain plain 0 0 []).2]
      exact ih
  | @block depth number line make inner xs last rest ys header translates _ ihInner ihRest =>
      have both : List.Forall₂ Compares
          (Listing.counts (depth + 1) inner ++ Listing.counts depth rest)
          (loopConditions xs ++ loopConditions ys) := List.rel_append ihInner ihRest
      cases header with
      | loop read =>
          simpa [Listing.counts, translates.counts_append, loopConditions, Stmt.loopConditions,
            countedLoop] using ⟨compares_of_read read, both⟩
      | test _ =>
          simpa [Listing.counts, translates.counts_append, loopConditions, Stmt.loopConditions]
            using both

end Translates

/-- The script of a source whose blocks match, whose names are names and whose texts are expressions
    is read, and its loops compare their counters with the whole counts exactly where those are
    tight. -/
theorem loopConditions_scriptOf (source : String)
    (balanced : (Listing.ofSource source).generate.isBalanced = true)
    (readable : (Listing.ofSource source).isReadable = true) :
    ∃ body, read program (scriptOf source).toList = .ok body ∧
      List.Forall₂ Compares (Listing.counts 0 (Listing.ofSource source)) (loopConditions body) := by
  obtain ⟨xs, translates⟩ := Listing.exists_translates readable balanced
  exact ⟨xs, translates.read_code, translates.compares⟩

/-- A tight count around a loose one. -/
theorem loopConditions_mixedCounts :
    let source := "repeat 1 + 2\n  repeat 3 == 3\n    say 1\n  end\nend"
    (Listing.ofSource source).generate.isBalanced = true ∧
      (Listing.ofSource source).isReadable = true ∧
      ∃ body, read program (scriptOf source).toList = .ok body ∧
        List.Forall₂ Compares [(0, "1 + 2"), (1, "3 == 3")] (loopConditions body) := by
  intro source
  have balanced : (Listing.ofSource source).generate.isBalanced = true := by decide +kernel
  have readable : (Listing.ofSource source).isReadable = true := by decide +kernel
  have counts : Listing.counts 0 (Listing.ofSource source) = [(0, "1 + 2"), (1, "3 == 3")] := by
    decide +kernel
  refine ⟨balanced, readable, ?_⟩
  rw [← counts]
  exact loopConditions_scriptOf source balanced readable

/-- A count that is a comparison itself: the counter is compared with its left side only. -/
theorem loopConditions_looseCount :
    let source := "repeat 3 == 3\n  say 1\nend"
    let count : Expr := .binary .looseEq (.number 3) (.number 3)
    (Listing.ofSource source).generate.isBalanced = true ∧
      (Listing.ofSource source).isReadable = true ∧
      Listing.counts 0 (Listing.ofSource source) = [(0, "3 == 3")] ∧
      phrase? 0 "3 == 3" = some count ∧
      (read program (scriptOf source).toList).toOption.map loopConditions =
        some [some (.binary .looseEq (.binary .lt (.name "i_0") (.number 3)) (.number 3))] ∧
      (read program (scriptOf source).toList).toOption.map loopConditions ≠
        some [some (.binary .lt (.name "i_0") count)] := by
  decide +kernel

end LineScript
