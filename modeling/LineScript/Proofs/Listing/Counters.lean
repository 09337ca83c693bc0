import LineScript.Proofs.Listing.Traversals

/-! # Counters of loops

The loop for a `repeat` counts by a name that tells how many blocks are around the `repeat`. Inside
a block there are always more than around its opener, whatever is opened, closed or left open in
between, so a loop inside another one never counts by the same name. Loops that stand side by side
in one block do.
-/

namespace LineScript

namespace Listing

/-- The statement at position `j` stands in the block that is opened at position `p` and in none
    inside it, or, for `none`, in no block at all. -/
def IsChildOf (listing : Listing) (j : Nat) : Option Nat → Prop
  | none => ∀ i, ¬ listing.IsOpenAt j i
  | some p => listing.IsOpenAt j p ∧ ∀ i, listing.IsOpenAt j i → i ≤ p

/-! ## Depths inside a block -/

/-- What is below a block on the stack is what was open in front of its opener. -/
theorem opened_take {listing : Listing} {inner outer : List (Nat × Numbered)} {i : Nat}
    {opener : Numbered} (stack : opened listing = inner ++ (i, opener) :: outer) :
    opened (listing.take i) = outer := by
  induction listing using List.reverseRecOn generalizing inner with
  | nil => simp [opened, openedFrom] at stack
  | append_singleton before last ih =>
      have shorter : ∀ inner, opened before = inner ++ (i, opener) :: outer →
          opened ((before ++ [last]).take i) = outer := by
        intro inner stack
        have member : (i, opener) ∈ opened before := by simp [stack]
        rw [List.take_append_of_le_length (lt_of_mem_opened member).le]
        exact ih stack
      rcases last.line.roles with ⟨opens, -⟩ | ⟨opens, closes⟩ | ⟨opens, closes⟩
      · rw [opened_snoc_opens opens] at stack
        cases inner with
        | nil =>
            obtain ⟨top, rfl⟩ := List.cons.inj stack
            rw [← (Prod.mk.inj top).1, List.take_left]
        | cons top inner => exact shorter inner (List.cons.inj stack).2
      · rw [opened_snoc_closes closes] at stack
        cases whole : opened before with
        | nil => simp [whole] at stack
        | cons top below =>
            rw [whole, List.tail_cons] at stack
            exact shorter (top :: inner) (by rw [whole, stack, List.cons_append])
      · rw [opened_snoc_plain opens closes] at stack
        exact shorter inner stack

theorem around_suffix (before : Listing) (entry : Numbered) :
    around before entry <:+ opened before := by
  rw [around]
  split
  · exact List.tail_suffix _
  · exact List.suffix_rfl

section Found

variable {listing : Listing} {i j : Nat} {entry : Numbered}

theorem isOpenAt_iff_mem_around (found : listing[j]? = some entry) :
    listing.IsOpenAt j i ↔ i ∈ (around (listing.take j) entry).map Prod.fst := by
  obtain ⟨before, rest, rfl, rfl⟩ := exists_append found
  rw [isOpenAt_iff, List.take_left]

theorem depthAt_eq_length_around (found : listing[j]? = some entry) :
    listing.depthAt j = (around (listing.take j) entry).length := by
  obtain ⟨before, rest, rfl, rfl⟩ := exists_append found
  rw [depthAt_eq, List.take_left]

/-- The blocks around a statement in an open block are those around the opener, the block itself and
    those that are opened further in. -/
theorem IsOpenAt.exists_inner (isOpen : listing.IsOpenAt j i) (found : listing[j]? = some entry) :
    ∃ inner : List Nat, listing.depthAt j = inner.length + 1 + listing.depthAt i ∧
      ∀ k ∈ inner, i < k ∧ listing.IsOpenAt j k := by
  obtain ⟨⟨i, block⟩, member, rfl⟩ := List.mem_map.mp ((isOpenAt_iff_mem_around found).mp isOpen)
  obtain ⟨inner, outer, stack⟩ := List.append_of_mem member
  have below : opened (listing.take i) = outer := by
    obtain ⟨top, whole⟩ := around_suffix (listing.take j) entry
    rw [stack, ← List.append_assoc] at whole
    rw [← opened_take whole.symm, List.take_take, Nat.min_eq_left isOpen.order.le]
  have outside : listing.depthAt i = outer.length := by
    obtain ⟨opener, atI, opens⟩ := isOpen.opens
    rw [depthAt_eq_length_around atI, around, if_neg (by simp [Line.closes_of_opens opens]), below]
  have sorted : (inner ++ (i, block) :: outer).Pairwise fun inner outer => outer.1 < inner.1 :=
    stack ▸ pairwise_around
  refine ⟨inner.map Prod.fst, ?_, fun k further => ⟨?_, ?_⟩⟩
  · rw [depthAt_eq_length_around found, stack, outside, List.length_append, List.length_cons,
      List.length_map]
    omega
  · obtain ⟨block', inside, rfl⟩ := List.mem_map.mp further
    exact (List.pairwise_append.mp sorted).2.2 block' inside _ List.mem_cons_self
  · rw [isOpenAt_iff_mem_around found, stack, List.map_append]
    exact List.mem_append_left _ further

/-- A statement inside a block stands deeper than the opener of the block. -/
theorem IsOpenAt.depthAt_lt (isOpen : listing.IsOpenAt j i) (found : listing[j]? = some entry) :
    listing.depthAt i < listing.depthAt j := by
  obtain ⟨inner, depth, -⟩ := isOpen.exists_inner found
  omega

end Found

namespace IsChildOf

variable {listing : Listing} {i j : Nat} {entry entry' : Numbered}

theorem depthAt_eq_succ {p : Nat} (child : listing.IsChildOf j (some p))
    (found : listing[j]? = some entry) : listing.depthAt j = listing.depthAt p + 1 := by
  obtain ⟨isOpen, innermost⟩ := child
  obtain ⟨inner, depth, further⟩ := isOpen.exists_inner found
  cases inner with
  | nil => rw [depth, List.length_nil, Nat.zero_add, Nat.add_comm]
  | cons k inner =>
      obtain ⟨behind, openK⟩ := further k List.mem_cons_self
      exact absurd (innermost k openK) (Nat.not_le.mpr behind)

theorem depthAt_eq_zero (child : listing.IsChildOf j none) : listing.depthAt j = 0 := by
  have none_ : {i | listing.IsOpenAt j i} = ∅ := Set.eq_empty_iff_forall_notMem.mpr child
  rw [depthAt, none_, Set.ncard_empty]

/-- Statements of one block stand equally deep. -/
theorem depthAt_eq {block : Option Nat} (first : listing.IsChildOf i block)
    (second : listing.IsChildOf j block) (atI : listing[i]? = some entry)
    (atJ : listing[j]? = some entry') : listing.depthAt i = listing.depthAt j := by
  cases block with
  | none => rw [first.depthAt_eq_zero, second.depthAt_eq_zero]
  | some p => rw [first.depthAt_eq_succ atI, second.depthAt_eq_succ atJ]

end IsChildOf

end Listing

/-! ## Names in the headers -/

/-- The name that the header of a counting loop declares: what stands behind `for (let ` up to the
    next space. -/
def Text.declared? (header : List Char) : Option (List Char) :=
  (after? "for (let ".toList (trimStart header)).map (·.takeWhile (· != ' '))

/-- The code has a loop for line `n` that counts by `name`. -/
def Generated.CountsBy (g : Generated) (n : Nat) (name : String) : Prop :=
  ∃ header, g.HasLine n header ∧ Text.declared? header = some name.toList

theorem Text.declared?_loop {depth : Nat} {count template : String}
    (emits : (Line.loop count).Emits depth template) (spaces : Nat) :
    declared? (List.replicate spaces ' ' ++ template.toList) =
      some (loopCounter depth).toList := by
  have blank : ∀ c ∈ List.replicate spaces ' ', isBlank c = true := by
    intro c member
    rw [List.eq_of_mem_replicate member]
    decide
  have solid : ∀ c ∈ (loopCounter depth).toList, (c != ' ') = true := by
    intro c member
    rw [bne_iff_ne]
    rintro rfl
    exact not_mem_loopCounter (by decide) (by decide) depth member
  have written : ∃ rest, template.toList =
      "for (let ".toList ++ ((loopCounter depth).toList ++ ' ' :: rest) := by
    have script := Line.script?_eq_some_iff.mpr emits
    rw [Line.script?, Option.some.injEq] at script
    rw [← script]
    exact ⟨_, by simp; rfl⟩
  obtain ⟨rest, written⟩ := written
  have start : trimStart (List.replicate spaces ' ' ++ template.toList) = template.toList := by
    rw [trimStart, List.dropWhile_append_of_pos blank, written]
    rfl
  rw [declared?, start, after?_eq_some_iff.mpr written, Option.map_some,
    List.takeWhile_append_of_pos solid, List.takeWhile_cons_of_neg (by decide), List.append_nil]

/-- The loop for a `repeat` counts by one name, which tells how deep the `repeat` stands. -/
theorem countsBy_iff {source : String} {p n : Nat} {count name : String}
    (found : (Listing.ofSource source)[p]? = some ⟨n, .loop count⟩) :
    (Listing.ofSource source).generate.CountsBy n name ↔
      name = loopCounter ((Listing.ofSource source).depthAt p) := by
  constructor
  · rintro ⟨header, hasLine, declared⟩
    obtain ⟨p', line, template, found', emits, rfl⟩ := hasLine_ofSource_iff.mp hasLine
    obtain rfl := Listing.eq_of_number found found'
    obtain rfl := (Numbered.mk.inj (Option.some.inj (found.symm.trans found'))).2
    rw [Text.declared?_loop emits, Option.some.injEq] at declared
    exact (String.toList_injective declared).symm
  · rintro rfl
    obtain ⟨template, emits⟩ :=
      Line.exists_emits (Line.isEmitted_of_opens (show (Line.loop count).opens = true from rfl))
        ((Listing.ofSource source).depthAt p)
    exact ⟨_, hasLine_ofSource_iff.mpr ⟨p, _, template, found, emits, rfl⟩,
      Text.declared?_loop emits _⟩

/-- The loops for any two `repeat`s count by one name each. If the second stands inside the block of
    the first, closed or not, the names differ. If both stand in one block, or in none, it is the
    same name. -/
theorem counters_of_repeats {source : String} {i j n m : Nat} {count count' : String}
    (first : (Listing.ofSource source)[i]? = some ⟨n, .loop count⟩)
    (second : (Listing.ofSource source)[j]? = some ⟨m, .loop count'⟩) :
    ∃ name name', (∀ x, (Listing.ofSource source).generate.CountsBy n x ↔ x = name) ∧
      (∀ x, (Listing.ofSource source).generate.CountsBy m x ↔ x = name') ∧
      ((Listing.ofSource source).IsOpenAt j i → name ≠ name') ∧
      ∀ block, (Listing.ofSource source).IsChildOf i block →
        (Listing.ofSource source).IsChildOf j block → name = name' := by
  refine ⟨_, _, fun _ => countsBy_iff first, fun _ => countsBy_iff second, ?_, ?_⟩
  · intro isOpen same
    exact (isOpen.depthAt_lt second).ne (loopCounter_injective same)
  · intro block childI childJ
    rw [childI.depthAt_eq childJ first second]

/-- A closer of nothing, and behind it a `repeat` that is never closed around a block, a line that
    is dropped and two other ones. -/
def crowdedSource : String :=
  "end\nrepeat 2\n  check a\n  end\n  set x\n  repeat 3\n  end\n  repeat 4"

theorem counters_of_repeats_crowded :
    ((Listing.ofSource crowdedSource)[1]? = some ⟨2, .loop "2"⟩ ∧
      (Listing.ofSource crowdedSource)[5]? = some ⟨6, .loop "3"⟩ ∧
      (Listing.ofSource crowdedSource)[7]? = some ⟨8, .loop "4"⟩) ∧
    (Listing.ofSource crowdedSource).IsOpenAt 7 1 ∧
    (∃ name name', (Listing.ofSource crowdedSource).generate.CountsBy 2 name ∧
      (Listing.ofSource crowdedSource).generate.CountsBy 8 name' ∧ name ≠ name') ∧
    (Listing.ofSource crowdedSource).IsChildOf 5 (some 1) ∧
    (Listing.ofSource crowdedSource).IsChildOf 7 (some 1) ∧
    ∃ name, (Listing.ofSource crowdedSource).generate.CountsBy 6 name ∧
      (Listing.ofSource crowdedSource).generate.CountsBy 8 name := by
  have at1 : (Listing.ofSource crowdedSource)[1]? = some ⟨2, .loop "2"⟩ := by decide +kernel
  have at5 : (Listing.ofSource crowdedSource)[5]? = some ⟨6, .loop "3"⟩ := by decide +kernel
  have at7 : (Listing.ofSource crowdedSource)[7]? = some ⟨8, .loop "4"⟩ := by decide +kernel
  have open5 : ∀ i, (Listing.ofSource crowdedSource).IsOpenAt 5 i ↔ i ∈ [1] := by
    intro i
    rw [Listing.isOpenAt_iff_mem_around at5]
    exact iff_of_eq (congrArg (i ∈ ·) (by decide +kernel))
  have open7 : ∀ i, (Listing.ofSource crowdedSource).IsOpenAt 7 i ↔ i ∈ [1] := by
    intro i
    rw [Listing.isOpenAt_iff_mem_around at7]
    exact iff_of_eq (congrArg (i ∈ ·) (by decide +kernel))
  have child5 : (Listing.ofSource crowdedSource).IsChildOf 5 (some 1) := by
    simp [Listing.IsChildOf, open5]
  have child7 : (Listing.ofSource crowdedSource).IsChildOf 7 (some 1) := by
    simp [Listing.IsChildOf, open7]
  obtain ⟨name, name', counts, counts', differ, -⟩ := counters_of_repeats at1 at7
  obtain ⟨name₅, name₇, counts₅, counts₇, -, same⟩ := counters_of_repeats at5 at7
  obtain rfl := same (some 1) child5 child7
  exact ⟨⟨at1, at5, at7⟩, child7.1,
    ⟨name, name', (counts name).mpr rfl, (counts' name').mpr rfl, differ child7.1⟩, child5, child7,
    name₅, (counts₅ name₅).mpr rfl, (counts₇ name₅).mpr rfl⟩

end LineScript
