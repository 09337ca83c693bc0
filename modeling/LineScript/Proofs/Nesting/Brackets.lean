import LineScript.Proofs.Nesting.Scan

/-! # Brackets that match

The brackets of a text match if each closing bracket belongs to the nearest opening one that is
still open, and is of its kind. How deep such brackets nest is a matter of which belong together,
not of counting. The scan only counts, and for brackets that match the count is right: it is
never below what it was at the start, it is that again at the end, and the most it comes to is
how deep the brackets nest.
-/

namespace LineScript.Nesting

/-- An opening and a closing bracket of one kind. -/
def IsPair (o c : Char) : Prop :=
  (o, c) ∈ [('(', ')'), ('[', ']'), ('\x7b', '\x7d')]

theorem IsPair.isOpening {o c : Char} (pair : IsPair o c) : isOpening o = true := by
  simp only [IsPair, List.mem_cons, Prod.mk.injEq, List.not_mem_nil, or_false] at pair
  rcases pair with ⟨rfl, -⟩ | ⟨rfl, -⟩ | ⟨rfl, -⟩ <;> rfl

theorem IsPair.isClosing {o c : Char} (pair : IsPair o c) : isClosing c = true := by
  simp only [IsPair, List.mem_cons, Prod.mk.injEq, List.not_mem_nil, or_false] at pair
  rcases pair with ⟨-, rfl⟩ | ⟨-, rfl⟩ | ⟨-, rfl⟩ <;> rfl

/-- Whether a piece is a bracket. -/
def isBracket : Piece → Bool
  | .plain c => isOpening c || isClosing c
  | .literal _ | .comment _ => false

/-- `Nested n w` says that the brackets among the pieces `w` match and nest `n` deep. -/
inductive Nested : Nat → List Piece → Prop where
  | nil : Nested 0 []
  | other {n piece w} : isBracket piece = false → Nested n w → Nested n (piece :: w)
  | pair {m n o c u w} : IsPair o c → Nested m u → Nested n w →
      Nested (max (m + 1) n) (.plain o :: (u ++ .plain c :: w))

theorem depthBehind_of_isBracket_false {piece : Piece} (other : isBracket piece = false)
    (depth : Nat) : depthBehind depth piece = depth := by
  cases piece with
  | plain c =>
      simp only [isBracket, Bool.or_eq_false_iff] at other
      simp [depthBehind, other]
  | literal | comment => rfl

theorem IsPair.depthBehind_opening {o c : Char} (pair : IsPair o c) (depth : Nat) :
    depthBehind depth (.plain o) = depth + 1 := by
  simp [depthBehind, pair.isOpening]

theorem depthBehind_of_isClosing {c : Char} (closing : isClosing c = true) (depth : Nat) :
    depthBehind depth (.plain c) = depth - 1 := by
  have notOpening : isOpening c = false := by
    simp only [isClosing, Bool.or_eq_true, beq_iff_eq] at closing
    rcases closing with (rfl | rfl) | rfl <;> rfl
  simp [depthBehind, notOpening, closing]

namespace Nested

variable {m n : Nat} {u w : List Piece}

theorem append (first : Nested m u) (second : Nested n w) : Nested (max m n) (u ++ w) := by
  induction first with
  | nil => simpa using second
  | other other _ ih => exact .other other ih
  | @pair m' n' o c u' w' pair inside _ _ ih =>
      have whole := Nested.pair pair inside ih
      rw [List.cons_append, List.append_assoc, List.cons_append, Nat.max_assoc]
      exact whole

/-- At the end as many brackets are open as at the start. -/
theorem depth_eq (nested : Nested n w) (depth : Nat) : w.foldl depthBehind depth = depth := by
  induction nested generalizing depth with
  | nil => rfl
  | other other _ ih => rw [List.foldl_cons, depthBehind_of_isBracket_false other, ih]
  | pair pair _ _ inside rest =>
      rw [List.foldl_cons, List.foldl_append, List.foldl_cons, pair.depthBehind_opening, inside,
        depthBehind_of_isClosing pair.isClosing, Nat.add_sub_cancel, rest]

/-- A front of two texts together ends in the first of them or in the second. -/
private theorem prefix_append_cases {v u w : List Piece} (front : v <+: u ++ w) :
    v <+: u ∨ ∃ t, t <+: w ∧ v = u ++ t := by
  obtain ⟨rest, split⟩ := front
  rcases List.append_eq_append_iff.mp split with ⟨t, rfl, -⟩ | ⟨t, rfl, rfl⟩
  · exact .inl (List.prefix_append v t)
  · exact .inr ⟨t, List.prefix_append t rest, rfl⟩

/-- On the way no fewer brackets are open than at the start, and no more than `n` further ones. -/
theorem depth_bounds (nested : Nested n w) (depth : Nat) {v : List Piece} (front : v <+: w) :
    depth ≤ v.foldl depthBehind depth ∧ v.foldl depthBehind depth ≤ depth + n := by
  induction nested generalizing depth v with
  | nil =>
      obtain rfl := List.prefix_nil.mp front
      simp
  | other other _ ih =>
      cases v with
      | nil => simp
      | cons p v =>
          obtain ⟨rfl, more⟩ := List.cons_prefix_cons.mp front
          rw [List.foldl_cons, depthBehind_of_isBracket_false other]
          exact ih depth more
  | @pair m n o c u w pair inside _ ihu ihw =>
      cases v with
      | nil => simp
      | cons p v =>
          obtain ⟨rfl, more⟩ := List.cons_prefix_cons.mp front
          rw [List.foldl_cons, pair.depthBehind_opening]
          rcases prefix_append_cases more with within | ⟨t, behind, rfl⟩
          · have := ihu (depth + 1) within
            omega
          · rw [List.foldl_append, inside.depth_eq]
            cases t with
            | nil =>
                rw [List.foldl_nil]
                omega
            | cons q t =>
                obtain ⟨rfl, last⟩ := List.cons_prefix_cons.mp behind
                have := ihw depth last
                rw [List.foldl_cons, depthBehind_of_isClosing pair.isClosing, Nat.add_sub_cancel]
                omega

/-- Somewhere `n` brackets more than at the start are open. -/
theorem exists_depth (nested : Nested n w) (depth : Nat) :
    ∃ v, v <+: w ∧ v.foldl depthBehind depth = depth + n := by
  induction nested generalizing depth with
  | nil => exact ⟨[], List.prefix_rfl, rfl⟩
  | @other n piece w other _ ih =>
      obtain ⟨v, front, deepest⟩ := ih depth
      refine ⟨piece :: v, (List.prefix_cons_inj piece).mpr front, ?_⟩
      rw [List.foldl_cons, depthBehind_of_isBracket_false other, deepest]
  | @pair m n o c u w pair inside _ ihu ihw =>
      rcases le_total (m + 1) n with outside | within
      · obtain ⟨v, front, deepest⟩ := ihw depth
        refine ⟨.plain o :: (u ++ .plain c :: v), ?_, ?_⟩
        · simpa [List.prefix_append_right_inj] using front
        · rw [List.foldl_cons, List.foldl_append, List.foldl_cons, pair.depthBehind_opening,
            inside.depth_eq, depthBehind_of_isClosing pair.isClosing, Nat.add_sub_cancel, deepest]
          omega
      · obtain ⟨v, front, deepest⟩ := ihu (depth + 1)
        refine ⟨.plain o :: v, ?_, ?_⟩
        · exact (List.prefix_cons_inj _).mpr (front.trans (List.prefix_append _ _))
        · rw [List.foldl_cons, pair.depthBehind_opening, deepest]
          omega

/-- A closing bracket always finds one to close. -/
theorem depth_lt_of_isClosing {v : List Piece} {c : Char} (nested : Nested n w)
    (split : w = v ++ .plain c :: u) (closing : isClosing c = true) (depth : Nat) :
    depth < v.foldl depthBehind depth := by
  induction nested generalizing depth v u with
  | nil => simp at split
  | @other n piece w other _ ih =>
      cases v with
      | nil =>
          cases split
          simp [isBracket, closing] at other
      | cons p v =>
          cases split
          rw [List.foldl_cons, depthBehind_of_isBracket_false other]
          exact ih rfl depth
  | @pair m n o d a b pair inside _ iha ihb =>
      cases v with
      | nil =>
          cases split
          have := depthBehind_of_isClosing closing 0
          rw [pair.depthBehind_opening] at this
          omega
      | cons p v =>
          simp only [List.cons_append, List.cons.injEq] at split
          obtain ⟨rfl, split⟩ := split
          rw [List.foldl_cons, pair.depthBehind_opening]
          -- The bracket is inside the pair, closes it, or stands behind it.
          rcases List.append_eq_append_iff.mp split with ⟨t, rfl, rest⟩ | ⟨t, rfl, rest⟩
          · rw [List.foldl_append, inside.depth_eq]
            cases t with
            | nil => simp
            | cons q t =>
                cases rest
                rw [List.foldl_cons, depthBehind_of_isClosing pair.isClosing, Nat.add_sub_cancel]
                exact ihb rfl depth
          · cases t with
            | nil =>
                rw [List.append_nil] at inside
                rw [inside.depth_eq]
                omega
            | cons q t =>
                cases rest
                have := iha rfl (depth + 1)
                omega

/-- Brackets that match are within the limit if they nest no deeper than that. -/
theorem within_iff (nested : Nested n w) : Within 0 w ↔ n ≤ limit := by
  constructor
  · intro within
    obtain ⟨v, front, deepest⟩ := nested.exists_depth 0
    have := within v front
    omega
  · intro fits v front
    have := nested.depth_bounds 0 front
    omega

end Nested

end LineScript.Nesting
