import LineScript.Proofs.Grammar.Statement

/-! # Counts behind a comparison

The condition of a generated loop is the text of a count pasted behind a
comparison with the counter. The comparison takes all of the count for its right
side exactly if the connectives of the count bind tighter than itself. Otherwise
the first loose connective takes the comparison for a part of its left side.
-/

namespace LineScript

open Grammar

/-- The least level of the connectives that bind tighter than a comparison. -/
def tightLevel : Nat := (Connective.binary .lt).level + 1

namespace Grammar

variable {l : Nat} {i : String} {b u : List Char} {e : Expr}

namespace Phrase

/-- A tight count is all of the right side of the comparison. -/
theorem compare (isName : IsName i) (blanks : Blanks b) (count : Phrase tightLevel u e) :
    Phrase (Connective.binary .lt).level (i.toList ++ (" < ".toList ++ (b ++ u)))
      (.binary .lt (.name i) e) := by
  have fits : (Connective.binary .lt).Fits (' ' :: b ++ u) :=
    ⟨' ', rfl, by decide, rfl, by decide⟩
  have before : Blanks [' '] := .space (by decide) .nil
  have behind : Blanks (' ' :: b) := .space (by decide) blanks
  exact .join (.binary .lt) le_rfl (.atomic isName.atomic) before behind fits count

private theorem join_ne_name (c : Connective) (x y : Expr) (n : String) : c.join x y ≠ .name n := by
  cases c <;> exact fun same => nomatch same

private theorem join_ne_compare (c : Connective) {x : Expr} (noName : ∀ n, x ≠ .name n)
    (y f : Expr) (n : String) : c.join x y ≠ .binary .lt (.name n) f := by
  cases c with
  | logical op => exact fun same => nomatch same
  | binary op =>
      intro same
      cases same
      exact noName n rfl

/-- A count that is not tight takes the comparison apart: its first loose connective has the
    comparison on its left. -/
theorem tight_or_split (isName : IsName i) (blanks : Blanks b) (count : Phrase l u e) :
    Phrase tightLevel u e ∨
      ∃ t, Phrase (min l 3) (i.toList ++ (" < ".toList ++ (b ++ u))) t ∧ (∀ n, t ≠ .name n) ∧
        ∀ f, t ≠ .binary .lt (.name i) f := by
  induction count with
  | atomic isAtomic => exact .inl (.atomic isAtomic)
  | paren blanks inner blanks' _ => exact .inl (.paren blanks inner blanks')
  | signed sign blanks inner _ => exact .inl (.signed sign blanks inner)
  | @join l b₁ b₂ u v x y c level left blanks₁ blanks₂ fits right ihLeft _ =>
      by_cases tight : tightLevel ≤ c.level
      · exact .inl (.join c tight left blanks₁ blanks₂ fits right)
      · have loose : c.level ≤ 3 := by
          have : tightLevel = 4 := rfl
          omega
        obtain ⟨t, phrase, noName⟩ : ∃ t, Phrase c.level
            (i.toList ++ (" < ".toList ++ (b ++ u))) t ∧ ∀ n, t ≠ .name n := by
          rcases ihLeft with whole | ⟨t, phrase, noName, -⟩
          · exact ⟨_, (compare isName blanks whole).anti loose, fun n same => nomatch same⟩
          · exact ⟨t, phrase.anti (by omega), noName⟩
        refine .inr ⟨c.join t y, ?_, join_ne_name c t y, fun f => join_ne_compare c noName y f i⟩
        have joined := Phrase.join (l := min l 3) c (by omega) phrase blanks₁ blanks₂ fits right
        simpa only [List.append_assoc] using joined

end Phrase

private theorem toList_compare (i count : String) :
    (i ++ " < " ++ count).toList = i.toList ++ (" < ".toList ++ count.toList) := by
  rw [String.toList_append, String.toList_append, List.append_assoc]

private theorem phrase?_compare {count : String} (isName : IsName i)
    (accepted : phrase? tightLevel count = some e) :
    phrase? 0 (i ++ " < " ++ count) = some (.binary .lt (.name i) e) := by
  obtain ⟨b, u, blanks, phrase, eq⟩ := phrase?_eq_some_iff.mp accepted
  refine phrase?_eq_some_iff.mpr
    ⟨[], _, .nil, (phrase.compare isName blanks).anti (Nat.zero_le _), ?_⟩
  rw [toList_compare, eq, List.nil_append]

/-- Behind a comparison every count is read, and as its right side exactly if it is tight. -/
theorem phrase?_count {count : String} (isName : IsName i) (accepted : phrase? 0 count = some e) :
    ∃ t, phrase? 0 (i ++ " < " ++ count) = some t ∧
      (t = .binary .lt (.name i) e ↔ (phrase? tightLevel count).isSome) := by
  obtain ⟨b, u, blanks, phrase, eq⟩ := phrase?_eq_some_iff.mp accepted
  rcases phrase.tight_or_split isName blanks with tight | ⟨t, split, -, noCompare⟩
  · have whole : phrase? tightLevel count = some e :=
      phrase?_eq_some_iff.mpr ⟨b, u, blanks, tight, eq⟩
    exact ⟨_, phrase?_compare isName whole, by simp [whole]⟩
  · have read : phrase? 0 (i ++ " < " ++ count) = some t := by
      refine phrase?_eq_some_iff.mpr ⟨[], _, .nil, split.anti (Nat.zero_le _), ?_⟩
      rw [toList_compare, eq, List.nil_append]
    refine ⟨t, read, iff_of_false (noCompare e) ?_⟩
    rw [Option.not_isSome_iff_eq_none]
    cases whole : phrase? tightLevel count with
    | none => rfl
    | some f =>
        have same := read.symm.trans (phrase?_compare isName whole)
        exact absurd (Option.some.inj same) (noCompare f)

/-- A tight count is read as the right side of the comparison. -/
theorem phrase?_tight {count : String} (isName : IsName i)
    (accepted : phrase? tightLevel count = some e) :
    phrase? 0 count = some e ∧
      phrase? 0 (i ++ " < " ++ count) = some (.binary .lt (.name i) e) :=
  ⟨phrase?_anti accepted (Nat.zero_le _), phrase?_compare isName accepted⟩

end Grammar

end LineScript
