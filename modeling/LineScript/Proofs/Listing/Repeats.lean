import LineScript.Proofs.Listing.Matching
import LineScript.Proofs.Listing.Translation

/-! # Loops of a listing

A `repeat` stands in a listing with its block and at a depth. The loop that the script has for it is
the translation of these lines at that depth, and nothing else of the listing matters.
-/

namespace LineScript

open Grammar

/-! ## Whole blocks -/

/-- Sound lines whose blocks all close stand for statements at any depth. -/
theorem Settled.exists_translates {listing : Listing} (settled : Settled listing)
    (sound : ∀ entry ∈ listing, entry.line.Sound) (depth : Nat) :
    ∃ xs, Translates depth listing xs := by
  induction settled generalizing depth with
  | nil => exact ⟨[], .nil⟩
  | @plain entry rest opens closes _ ih =>
      rw [List.forall_mem_cons] at sound
      obtain ⟨ys, translates⟩ := ih sound.2 depth
      rcases sound.1.cases depth with ⟨xs, plain⟩ | ⟨make, header⟩ | close
      · exact ⟨_, .plain plain translates⟩
      · rw [header.opens_eq] at opens
        cases opens
      · rw [close] at closes
        cases closes
  | @block opener inner closer rest opens _ closes _ ihInner ihRest =>
      rw [List.forall_mem_cons, List.forall_mem_append, List.forall_mem_cons] at sound
      obtain ⟨soundOpener, soundInner, -, soundRest⟩ := sound
      obtain ⟨xs, translatesInner⟩ := ihInner soundInner (depth + 1)
      obtain ⟨ys, translatesRest⟩ := ihRest soundRest depth
      obtain ⟨last, line⟩ := closer
      obtain rfl : line = .close := Line.eq_close closes
      rcases soundOpener.cases depth with ⟨xs, plain⟩ | ⟨make, header⟩ | close
      · rw [plain.opens_eq] at opens
        cases opens
      · exact ⟨_, .block header translatesInner translatesRest⟩
      · rw [close] at opens
        cases opens

theorem Translates.settled {depth : Nat} {listing : Listing} {xs : List Stmt}
    (translates : Translates depth listing xs) : Settled listing := by
  induction translates with
  | nil => exact .nil
  | plain plain _ ih => exact .plain plain.opens_eq plain.closes_eq ih
  | block header _ _ ihInner ihRest => exact .block header.opens_eq ihInner rfl ihRest

namespace Listing

/-- The stack of open blocks is as high as the level says. -/
theorem length_opened_of_level? {listing : Listing} {depth : Nat}
    (level : level? 0 listing = some depth) : (opened listing).length = depth := by
  induction listing using List.reverseRecOn generalizing depth with
  | nil =>
      cases level
      rfl
  | append_singleton before last ih =>
      rcases last.line.roles with ⟨opens, -⟩ | ⟨opens, closes⟩ | ⟨opens, closes⟩
      · obtain ⟨inner, outside, rfl⟩ := (level?_snoc_opens opens).mp level
        rw [opened_snoc_opens opens, List.length_cons, ih outside]
      · rw [opened_snoc_closes closes, List.length_tail, ih ((level?_snoc_closes closes).mp level)]
        rfl
      · rw [level?_snoc_plain opens closes] at level
        rw [opened_snoc_plain opens closes, ih level]

/-! ## Blocks of loops -/

/-- A `repeat` of a listing with its block, and what stands around it. -/
structure RepeatBlock (listing : Listing) where
  before : Listing
  number : Nat
  count : String
  inner : Listing
  last : Nat
  behind : Listing
  settled : Settled inner
  split : listing = before ++ ⟨number, .loop count⟩ :: (inner ++ ⟨last, .close⟩ :: behind)

namespace RepeatBlock

variable {listing : Listing} (b : listing.RepeatBlock)

/-- The number of blocks around the `repeat`. -/
noncomputable def depth : Nat :=
  listing.depthAt b.before.length

/-- The `repeat`, its block and its closer. -/
def lines : Listing :=
  ⟨b.number, .loop b.count⟩ :: (b.inner ++ [⟨b.last, .close⟩])

/-- The statement is the translation of the `repeat` and its block. -/
def StandsFor (s : Stmt) : Prop :=
  Outline.allStmts? b.depth (Outline.ofListing b.lines) = some [s]

theorem depth_eq {d : Nat} (level : level? 0 b.before = some d) : b.depth = d := by
  have here : b.depth = (around b.before ⟨b.number, .loop b.count⟩).length := by
    rw [depth, ← depthAt_eq, ← b.split]
  rw [here]
  exact length_opened_of_level? level

theorem mem_of_mem_lines {entry : Numbered} (member : entry ∈ b.lines) : entry ∈ listing := by
  rw [lines, List.mem_cons, List.mem_append, List.mem_singleton] at member
  rw [b.split]
  grind

theorem standsFor {t : Expr} {body : List Stmt} (tight : listing.isTight = true)
    (read : phrase? 0 (loopCounter b.depth ++ " < " ++ b.count) = some t)
    (inner : Translates (b.depth + 1) b.inner body) :
    b.StandsFor (countedLoop (loopCounter b.depth) t body) := by
  have translates : Translates b.depth b.lines [countedLoop (loopCounter b.depth) t body] :=
    .block (.loop read) inner .nil
  apply Outline.allStmts?_ofListing translates
  apply List.all_eq_true.mpr
  intro entry member
  exact List.all_eq_true.mp tight entry (b.mem_of_mem_lines member)

/-- The statement that stands for a `repeat` of sound lines is a loop that counts at the depth of
    the `repeat`, and its body is what the block stands for. -/
theorem exists_of_standsFor (sound : ∀ entry ∈ listing, entry.line.Sound)
    (tight : listing.isTight = true) {s : Stmt} (stands : b.StandsFor s) :
    ∃ t body, s = countedLoop (loopCounter b.depth) t body ∧
      Translates (b.depth + 1) b.inner body := by
  have inside : ∀ entry ∈ b.lines, entry.line.Sound :=
    fun entry member => sound entry (b.mem_of_mem_lines member)
  rw [lines, List.forall_mem_cons, List.forall_mem_append] at inside
  obtain ⟨soundCount, soundInner, -⟩ := inside
  obtain ⟨e, accepted⟩ := Option.isSome_iff_exists.mp soundCount
  obtain ⟨t, read, -⟩ := phrase?_count (isName_loopCounter b.depth) accepted
  obtain ⟨body, translates⟩ := b.settled.exists_translates soundInner (b.depth + 1)
  have same := stands.symm.trans (b.standsFor tight read translates)
  rw [Option.some.injEq, List.cons.injEq] at same
  exact ⟨t, body, same.1, translates⟩

end RepeatBlock

end Listing

end LineScript
