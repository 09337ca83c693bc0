import Mathlib.Data.Set.Card
import LineScript.Line

/-! # Blocks and their closers

A closer ends the block of an opener before it if all that stands between them are statements
outside of blocks and whole blocks. An opener is open at a statement if nothing up to there ends its
block, and the depth of the statement is the number of the openers that are open.

This says what a block is without a walk through the listing. A walk keeps the open openers on a
stack, and what is on the stack is what is open.
-/

namespace LineScript

namespace Line

theorem roles (line : Line) :
    (line.opens = true ∧ line.closes = false) ∨ (line.opens = false ∧ line.closes = true) ∨
      (line.opens = false ∧ line.closes = false) := by
  cases line <;> simp [opens, closes]

theorem opens_of_closes {line : Line} (isCloser : line.closes = true) : line.opens = false := by
  cases line with
  | close => rfl
  | _ => cases isCloser

theorem eq_close {line : Line} (isCloser : line.closes = true) : line = .close := by
  cases line with
  | close => rfl
  | _ => cases isCloser

theorem closes_of_opens {line : Line} (isOpener : line.opens = true) : line.closes = false := by
  cases line with
  | close => cases isOpener
  | _ => rfl

end Line

/-- Statements whose blocks all close, and that close no block around them. -/
inductive Settled : Listing → Prop where
  | nil : Settled []
  | plain {entry rest} : entry.line.opens = false → entry.line.closes = false → Settled rest →
      Settled (entry :: rest)
  | block {opener inner closer rest} : opener.line.opens = true → Settled inner →
      closer.line.closes = true → Settled rest → Settled (opener :: (inner ++ closer :: rest))

namespace Listing

/-- The statement at position `i` opens a block, and the one at position `k` closes it. -/
structure Matched (listing : Listing) (i k : Nat) : Prop where
  opens : ∃ opener, listing[i]? = some opener ∧ opener.line.opens = true
  order : i < k
  settled : Settled ((listing.take k).drop (i + 1))
  closes : ∃ closer, listing[k]? = some closer ∧ closer.line.closes = true

/-- The statement at position `i` opens a block around the one at position `j`, which is closed
    neither before that statement nor by it. -/
structure IsOpenAt (listing : Listing) (j i : Nat) : Prop where
  order : i < j
  opens : ∃ opener, listing[i]? = some opener ∧ opener.line.opens = true
  unclosed : ∀ k ≤ j, ¬ listing.Matched i k

/-- The number of blocks around the statement at position `j`. -/
noncomputable def depthAt (listing : Listing) (j : Nat) : Nat :=
  {i | listing.IsOpenAt j i}.ncard

/-! ## Levels -/

/-- The depth behind a listing that starts inside `depth` blocks, unless it closes one block more
    than there are. -/
def level? (depth : Nat) : Listing → Option Nat
  | [] => some depth
  | entry :: rest =>
      if entry.line.opens then level? (depth + 1) rest
      else if entry.line.closes then
        match depth with
        | 0 => none
        | outer + 1 => level? outer rest
      else level? depth rest

section Level

variable {entry : Numbered} {depth : Nat}

@[simp]
theorem level?_nil : level? depth [] = some depth := rfl

theorem level?_opens (opens : entry.line.opens = true) (rest : Listing) :
    level? depth (entry :: rest) = level? (depth + 1) rest := by
  cases depth <;> simp [level?, opens]

theorem level?_stray (opens : entry.line.opens = false) (closes : entry.line.closes = true)
    (rest : Listing) : level? 0 (entry :: rest) = none := by
  simp [level?, opens, closes]

theorem level?_closes (opens : entry.line.opens = false) (closes : entry.line.closes = true)
    (rest : Listing) : level? (depth + 1) (entry :: rest) = level? depth rest := by
  simp [level?, opens, closes]

theorem level?_plain (opens : entry.line.opens = false) (closes : entry.line.closes = false)
    (rest : Listing) : level? depth (entry :: rest) = level? depth rest := by
  cases depth <;> simp [level?, opens, closes]

end Level

theorem level?_append (depth : Nat) (front rest : Listing) :
    level? depth (front ++ rest) = (level? depth front).bind (level? · rest) := by
  induction front generalizing depth with
  | nil => rfl
  | cons entry front ih =>
      rw [List.cons_append]
      rcases entry.line.roles with ⟨opens, -⟩ | ⟨opens, closes⟩ | ⟨opens, closes⟩
      · rw [level?_opens opens, level?_opens opens, ih]
      · cases depth with
        | zero => rw [level?_stray opens closes, level?_stray opens closes, Option.bind_none]
        | succ outer => rw [level?_closes opens closes, level?_closes opens closes, ih]
      · rw [level?_plain opens closes, level?_plain opens closes, ih]

end Listing

namespace Settled

open Listing

variable {inner : Listing}

theorem level?_append (settled : Settled inner) (depth : Nat) (rest : Listing) :
    level? depth (inner ++ rest) = level? depth rest := by
  induction settled generalizing depth rest with
  | nil => rfl
  | plain opens closes _ ih => rw [List.cons_append, level?_plain opens closes, ih]
  | @block opener inner closer behind opens _ closes _ ihInner ihBehind =>
      rw [List.cons_append, List.append_assoc, level?_opens opens, ihInner, List.cons_append,
        level?_closes (Line.opens_of_closes closes) closes, ihBehind]

end Settled

namespace Listing

/-- A listing that gets below the depth it starts at closes a block around it. What stands before
    the closer is settled, and what stands behind it starts one block further out. -/
theorem exists_closer {depth : Nat} {listing : Listing}
    (below : ∀ last ∈ level? depth listing, last < depth) :
    ∃ inner closer behind, listing = inner ++ closer :: behind ∧ Settled inner ∧
      closer.line.closes = true ∧
        ∀ outer, depth = outer + 1 → level? outer behind = level? depth listing := by
  -- Behind an opener this is used twice: for the closer of its block and for the one looked for.
  induction size : listing.length using Nat.strong_induction_on generalizing depth listing with
  | _ n ih =>
      cases listing with
      | nil => exact absurd (below depth rfl) (lt_irrefl depth)
      | cons entry rest =>
          rw [List.length_cons] at size
          rcases entry.line.roles with ⟨opens, -⟩ | ⟨opens, closes⟩ | ⟨opens, closes⟩
          · rw [level?_opens opens] at below ⊢
            obtain ⟨inner, closer, behind, rfl, settled, closes, level⟩ :=
              ih rest.length (by omega) (fun last member => (below last member).trans
                (Nat.lt_succ_self depth)) rfl
            have same := level depth rfl
            rw [← same] at below ⊢
            rw [List.length_append, List.length_cons] at size
            obtain ⟨inner', closer', behind', rfl, settled', closes', level'⟩ :=
              ih behind.length (by omega) below rfl
            refine ⟨entry :: (inner ++ closer :: inner'), closer', behind', by simp, ?_, closes',
              level'⟩
            exact .block opens settled closes settled'
          · refine ⟨[], entry, rest, rfl, .nil, closes, ?_⟩
            rintro outer rfl
            rw [level?_closes opens closes]
          · rw [level?_plain opens closes] at below ⊢
            obtain ⟨inner, closer, behind, rfl, settled, closes', level⟩ :=
              ih rest.length (by omega) below rfl
            exact ⟨entry :: inner, closer, behind, rfl, .plain opens closes settled, closes', level⟩

theorem settled_iff {listing : Listing} : Settled listing ↔ level? 0 listing = some 0 := by
  constructor
  · intro settled
    have kept := settled.level?_append 0 []
    rwa [List.append_nil] at kept
  · intro level
    induction size : listing.length using Nat.strong_induction_on generalizing listing with
    | _ n ih =>
        cases listing with
        | nil => exact .nil
        | cons entry rest =>
            rw [List.length_cons] at size
            rcases entry.line.roles with ⟨opens, -⟩ | ⟨opens, closes⟩ | ⟨opens, closes⟩
            · rw [level?_opens opens] at level
              have below : ∀ last ∈ level? 1 rest, last < 1 := by simp [level]
              obtain ⟨inner, closer, behind, rfl, settled, closes, same⟩ := exists_closer below
              rw [List.length_append, List.length_cons] at size
              have settled' := ih behind.length (by omega) ((same 0 rfl).trans level) rfl
              exact .block opens settled closes settled'
            · rw [level?_stray opens closes] at level
              cases level
            · rw [level?_plain opens closes] at level
              exact .plain opens closes (ih rest.length (by omega) level rfl)

/-- A block that is entered in front of a listing is closed in it exactly if the level is lost. -/
theorem level?_eq_none_iff {listing : Listing} :
    level? 0 listing = none ↔ ∃ inner closer behind, listing = inner ++ closer :: behind ∧
      Settled inner ∧ closer.line.closes = true := by
  constructor
  · intro lost
    have below : ∀ last ∈ level? 0 listing, last < 0 := by simp [lost]
    obtain ⟨inner, closer, behind, split, settled, closes, -⟩ := exists_closer below
    exact ⟨inner, closer, behind, split, settled, closes⟩
  · rintro ⟨inner, closer, behind, rfl, settled, closes⟩
    rw [settled.level?_append, level?_stray (Line.opens_of_closes closes) closes]

theorem split_at {α : Type} {xs : List α} {k : Nat} {x : α} (found : xs[k]? = some x) :
    xs = xs.take k ++ x :: xs.drop (k + 1) := by
  obtain ⟨inside, rfl⟩ := List.getElem?_eq_some_iff.mp found
  rw [← List.drop_eq_getElem_cons inside, List.take_append_drop]

theorem exists_append {α : Type} {xs : List α} {k : Nat} {x : α} (found : xs[k]? = some x) :
    ∃ before behind, xs = before ++ x :: behind ∧ before.length = k :=
  ⟨_, _, split_at found, List.length_take_of_le (List.getElem?_eq_some_iff.mp found).1.le⟩

/-- A block has been closed at some position up to `j` exactly if the level behind its opener is
    lost there. -/
theorem exists_matched_iff {listing : Listing} {i j : Nat}
    (opens : ∃ opener, listing[i]? = some opener ∧ opener.line.opens = true) :
    (∃ k ≤ j, listing.Matched i k) ↔ level? 0 ((listing.take (j + 1)).drop (i + 1)) = none := by
  rw [level?_eq_none_iff, List.drop_take]
  constructor
  · rintro ⟨k, le, matched⟩
    obtain ⟨closer, atK, closes⟩ := matched.closes
    have order := matched.order
    have settled := matched.settled
    rw [List.drop_take] at settled
    have found : ((listing.drop (i + 1)).take (j + 1 - (i + 1)))[k - (i + 1)]? = some closer := by
      rw [List.getElem?_take_of_lt (by omega), List.getElem?_drop, ← atK]
      congr 1
      omega
    have split := split_at found
    rw [List.take_take, Nat.min_eq_left (by omega)] at split
    exact ⟨_, closer, _, split, settled, closes⟩
  · rintro ⟨inner, closer, behind, split, settled, closes⟩
    have length := congrArg List.length split
    rw [List.length_take, List.length_append, List.length_cons] at length
    have front := congrArg (List.take inner.length) split
    rw [List.take_take, Nat.min_eq_left (by omega), List.take_left] at front
    have found : ((listing.drop (i + 1)).take (j + 1 - (i + 1)))[inner.length]? =
        (inner ++ closer :: behind)[inner.length]? := by rw [split]
    rw [List.getElem?_take_of_lt (by omega), List.getElem?_drop] at found
    refine ⟨i + 1 + inner.length, by omega, opens, by omega, ?_, closer, ?_, closes⟩
    · rw [List.drop_take, Nat.add_sub_cancel_left, front]
      exact settled
    · simpa using found

theorem exists_matched_end_iff {listing : Listing} {i : Nat}
    (opens : ∃ opener, listing[i]? = some opener ∧ opener.line.opens = true) :
    (∃ k, listing.Matched i k) ↔ level? 0 (listing.drop (i + 1)) = none := by
  have whole : listing.take (listing.length + 1) = listing := List.take_of_length_le (by omega)
  rw [← whole, ← exists_matched_iff opens, whole]
  refine exists_congr fun k => ⟨fun matched => ⟨?_, matched⟩, And.right⟩
  obtain ⟨closer, found, -⟩ := matched.closes
  exact (List.getElem?_eq_some_iff.mp found).1.le

/-! ## The stack of open blocks -/

/-- The openers that are open behind a listing, innermost first, each with its position. The
    listing starts at position `first`, and `opened` are those that are open in front of it. -/
def openedFrom (first : Nat) (opened : List (Nat × Numbered)) : Listing → List (Nat × Numbered)
  | [] => opened
  | entry :: rest =>
      if entry.line.opens then openedFrom (first + 1) ((first, entry) :: opened) rest
      else if entry.line.closes then openedFrom (first + 1) opened.tail rest
      else openedFrom (first + 1) opened rest

/-- The openers of a listing that are open at its end, innermost first. -/
def opened (listing : Listing) : List (Nat × Numbered) :=
  openedFrom 0 [] listing

section Snoc

variable {before : Listing} {entry : Numbered} {depth last : Nat}

theorem level?_snoc_opens (opens : entry.line.opens = true) :
    level? depth (before ++ [entry]) = some last ↔
      ∃ inner, level? depth before = some inner ∧ inner + 1 = last := by
  simp [level?_append, Option.bind_eq_some_iff, level?_opens opens]

theorem level?_snoc_closes (closes : entry.line.closes = true) :
    level? depth (before ++ [entry]) = some last ↔ level? depth before = some (last + 1) := by
  have opens := Line.opens_of_closes closes
  rw [level?_append, Option.bind_eq_some_iff]
  constructor
  · rintro ⟨inner, level, step⟩
    cases inner with
    | zero => cases (level?_stray opens closes []).symm.trans step
    | succ outer =>
        obtain rfl := Option.some.inj ((level?_closes opens closes []).symm.trans step)
        exact level
  · intro level
    exact ⟨last + 1, level, level?_closes opens closes []⟩

theorem level?_snoc_plain (opens : entry.line.opens = false) (closes : entry.line.closes = false) :
    level? depth (before ++ [entry]) = level? depth before := by
  simp [level?_append, level?_plain opens closes]

end Snoc

theorem openedFrom_append (first : Nat) (stack : List (Nat × Numbered)) (front rest : Listing) :
    openedFrom first stack (front ++ rest) =
      openedFrom (first + front.length) (openedFrom first stack front) rest := by
  induction front generalizing first stack with
  | nil => rfl
  | cons entry front ih =>
      have shift : first + (entry :: front).length = first + 1 + front.length := by
        rw [List.length_cons]
        omega
      rw [shift, List.cons_append, openedFrom, openedFrom]
      split
      · exact ih _ _
      · split
        · exact ih _ _
        · exact ih _ _

section Opened

variable {before : Listing} {entry : Numbered}

theorem opened_snoc_opens (opens : entry.line.opens = true) :
    opened (before ++ [entry]) = (before.length, entry) :: opened before := by
  simp [opened, openedFrom_append, openedFrom, opens]

theorem opened_snoc_closes (closes : entry.line.closes = true) :
    opened (before ++ [entry]) = (opened before).tail := by
  simp [opened, openedFrom_append, openedFrom, closes, Line.opens_of_closes closes]

theorem opened_snoc_plain (opens : entry.line.opens = false) (closes : entry.line.closes = false) :
    opened (before ++ [entry]) = opened before := by
  simp [opened, openedFrom_append, openedFrom, opens, closes]

end Opened

/-- An opener in a listing, and how many blocks are open inside its block. -/
def Stands (listing : Listing) (depth i : Nat) (opener : Numbered) : Prop :=
  listing[i]? = some opener ∧ opener.line.opens = true ∧
    level? 0 (listing.drop (i + 1)) = some depth

theorem stands_snoc {before : Listing} {last opener : Numbered} {depth i : Nat} :
    (before ++ [last]).Stands depth i opener ↔
      (before[i]? = some opener ∧ opener.line.opens = true ∧
          level? 0 (before.drop (i + 1) ++ [last]) = some depth) ∨
        (before.length, last) = (i, opener) ∧ last.line.opens = true ∧ depth = 0 := by
  rw [Stands]
  rcases Nat.lt_trichotomy i before.length with inside | rfl | outside
  · simp [List.getElem?_append_left inside, List.drop_append_of_le_length inside, inside.ne']
  · simp
    grind
  · have beyond : (before ++ [last])[i]? = none := List.getElem?_eq_none (by simpa using outside)
    simp [beyond, outside.ne, List.getElem?_eq_none outside.le]

/-- The stack holds the openers whose blocks are open, each below those that are open inside. -/
theorem getElem?_opened {listing : Listing} {depth i : Nat} {opener : Numbered} :
    (opened listing)[depth]? = some (i, opener) ↔ listing.Stands depth i opener := by
  induction listing using List.reverseRecOn generalizing depth with
  | nil => simp [opened, openedFrom, Stands]
  | append_singleton before last ih =>
      rw [stands_snoc]
      rcases last.line.roles with ⟨opens, -⟩ | ⟨opens, closes⟩ | ⟨opens, closes⟩
      · rw [opened_snoc_opens opens, level?_snoc_opens opens]
        cases depth with
        | zero => simp [opens]
        | succ depth => simp [ih, Stands]
      · rw [opened_snoc_closes closes, level?_snoc_closes closes, List.getElem?_tail, ih]
        simp [Stands, opens]
      · rw [opened_snoc_plain opens closes, level?_snoc_plain opens closes, ih]
        simp [Stands, opens]

theorem mem_opened_iff {listing : Listing} {i : Nat} {opener : Numbered} :
    (i, opener) ∈ opened listing ↔ ∃ depth, listing.Stands depth i opener := by
  simp only [List.mem_iff_getElem?, getElem?_opened]

/-- What is further in on the stack stands further on in the listing. -/
theorem pairwise_opened (listing : Listing) :
    (opened listing).Pairwise fun inner outer => outer.1 < inner.1 := by
  induction listing using List.reverseRecOn with
  | nil => exact .nil
  | append_singleton before last ih =>
      rcases last.line.roles with ⟨opens, -⟩ | ⟨opens, closes⟩ | ⟨opens, closes⟩
      · rw [opened_snoc_opens opens]
        refine List.pairwise_cons.mpr ⟨?_, ih⟩
        rintro ⟨i, opener⟩ member
        obtain ⟨depth, found, -⟩ := mem_opened_iff.mp member
        exact (List.getElem?_eq_some_iff.mp found).1
      · rw [opened_snoc_closes closes]
        exact ih.tail
      · rw [opened_snoc_plain opens closes]
        exact ih

theorem lt_of_mem_opened {listing : Listing} {i : Nat} {opener : Numbered}
    (member : (i, opener) ∈ opened listing) : i < listing.length := by
  obtain ⟨depth, found, -⟩ := mem_opened_iff.mp member
  exact (List.getElem?_eq_some_iff.mp found).1

/-- The stack at the end of a listing holds the openers that are never closed. -/
theorem mem_opened_iff_unclosed {listing : Listing} {i : Nat} {opener : Numbered} :
    (i, opener) ∈ opened listing ↔
      listing[i]? = some opener ∧ opener.line.opens = true ∧ ∀ k, ¬ listing.Matched i k := by
  rw [mem_opened_iff]
  simp only [Stands, exists_and_left]
  refine and_congr_right fun found => and_congr_right fun opens => ?_
  rw [← Option.isSome_iff_exists, Option.isSome_iff_ne_none, ne_eq,
    ← exists_matched_end_iff ⟨opener, found, opens⟩, not_exists]

section Around

variable {before rest : Listing} {entry : Numbered} {i : Nat}

theorem isOpenAt_iff_mem_opened : (before ++ entry :: rest).IsOpenAt before.length i ↔
    i < before.length ∧ ∃ opener, (i, opener) ∈ opened (before ++ [entry]) := by
  have front : (before ++ entry :: rest).take (before.length + 1) = before ++ [entry] := by
    simp [List.take_append]
  have same : i < before.length → (before ++ entry :: rest)[i]? = (before ++ [entry])[i]? := by
    intro order
    rw [List.getElem?_append_left order, List.getElem?_append_left order]
  constructor
  · rintro ⟨order, ⟨opener, found, opens⟩, unclosed⟩
    have kept : level? 0 ((before ++ [entry]).drop (i + 1)) ≠ none := by
      rw [← front, ne_eq, ← exists_matched_iff ⟨opener, found, opens⟩]
      simpa using unclosed
    obtain ⟨depth, level⟩ := Option.ne_none_iff_exists'.mp kept
    exact ⟨order, opener, mem_opened_iff.mpr ⟨depth, same order ▸ found, opens, level⟩⟩
  · rintro ⟨order, opener, member⟩
    obtain ⟨depth, found, opens, level⟩ := mem_opened_iff.mp member
    rw [← same order] at found
    refine ⟨order, ⟨opener, found, opens⟩, fun k le matched => ?_⟩
    have lost := (exists_matched_iff ⟨opener, found, opens⟩).mp ⟨k, le, matched⟩
    rw [front, level] at lost
    cases lost

/-- The stack in front of a statement, but for the block that the statement closes. -/
def around (before : Listing) (entry : Numbered) : List (Nat × Numbered) :=
  if entry.line.closes then (opened before).tail else opened before

theorem mem_of_mem_around {opener : Numbered} (member : (i, opener) ∈ around before entry) :
    (i, opener) ∈ opened before := by
  rw [around] at member
  split at member
  · exact List.mem_of_mem_tail member
  · exact member

/-- The blocks around a statement are those on the stack. -/
theorem isOpenAt_iff : (before ++ entry :: rest).IsOpenAt before.length i ↔
    i ∈ (around before entry).map Prod.fst := by
  have inside : ∀ opener, (i, opener) ∈ around before entry → i < before.length :=
    fun opener member => lt_of_mem_opened (mem_of_mem_around member)
  have stack : ∀ opener, i < before.length →
      ((i, opener) ∈ opened (before ++ [entry]) ↔ (i, opener) ∈ around before entry) := by
    intro opener order
    rw [around]
    rcases entry.line.roles with ⟨opens, closes⟩ | ⟨opens, closes⟩ | ⟨opens, closes⟩
    · simp [opened_snoc_opens opens, closes, order.ne]
    · simp [opened_snoc_closes closes, closes]
    · simp [opened_snoc_plain opens closes, closes]
  rw [isOpenAt_iff_mem_opened]
  simp only [List.mem_map, Prod.exists, exists_and_right, exists_eq_right]
  constructor
  · rintro ⟨order, opener, member⟩
    exact ⟨opener, (stack opener order).mp member⟩
  · rintro ⟨opener, member⟩
    exact ⟨inside opener member, opener, (stack opener (inside opener member)).mpr member⟩

theorem pairwise_around : (around before entry).Pairwise fun inner outer => outer.1 < inner.1 := by
  have sorted := pairwise_opened before
  rw [around]
  split
  · exact sorted.tail
  · exact sorted

/-- The depth of a statement is the height of the stack. -/
theorem depthAt_eq : (before ++ entry :: rest).depthAt before.length =
    (around before entry).length := by
  have nodup : ((around before entry).map Prod.fst).Nodup := by
    rw [List.Nodup, List.pairwise_map]
    exact pairwise_around.imp fun less => less.ne'
  simp only [depthAt, isOpenAt_iff]
  rw [← List.coe_toFinset, Set.ncard_coe_finset, List.toFinset_card_of_nodup nodup, List.length_map]

end Around

/-! ## Depths of openers and closers -/

/-- A settled listing leaves the stack as it is. -/
theorem opened_append_settled {inner : Listing} (settled : Settled inner) (before : Listing) :
    opened (before ++ inner) = opened before := by
  have kept : ∀ first stack rest, openedFrom first stack (inner ++ rest) =
      openedFrom (first + inner.length) stack rest := by
    induction settled with
    | nil => exact fun _ _ _ => rfl
    | @plain entry inner opens closes _ ih =>
        intro first stack rest
        rw [List.cons_append, openedFrom, if_neg (by simp [opens]), if_neg (by simp [closes]), ih]
        congr 1
        rw [List.length_cons]
        omega
    | @block opener inner closer behind opens _ closes _ ihInner ihBehind =>
        intro first stack rest
        rw [List.cons_append, List.append_assoc, openedFrom, if_pos opens, ihInner,
          List.cons_append, openedFrom, if_neg (by simp [Line.opens_of_closes closes]),
          if_pos closes, List.tail_cons, ihBehind]
        congr 1
        rw [List.length_cons, List.length_append, List.length_cons]
        omega
  have all := kept before.length (opened before) []
  rw [List.append_nil] at all
  rw [opened, openedFrom_append, Nat.zero_add]
  exact all

theorem Matched.split {listing : Listing} {i k : Nat} (matched : listing.Matched i k) :
    ∃ before opener inner closer behind, listing = before ++ opener :: (inner ++ closer :: behind) ∧
      opener.line.opens = true ∧ Settled inner ∧ closer.line.closes = true ∧
        before.length = i ∧ (before ++ opener :: inner).length = k := by
  obtain ⟨⟨opener, atI, opens⟩, order, settled, closer, atK, closes⟩ := matched
  obtain ⟨before, rest, rfl, rfl⟩ := exists_append atI
  obtain ⟨m, rfl⟩ := Nat.exists_eq_add_of_lt order
  have found : rest[m]? = some closer := by
    rw [← atK, List.append_cons, List.getElem?_append_right (by simp), List.length_append,
      List.length_singleton]
    congr 1
    omega
  obtain ⟨inner, behind, rfl, rfl⟩ := exists_append found
  refine ⟨before, opener, inner, closer, behind, rfl, opens, ?_, closes, rfl, ?_⟩
  · have whole : before ++ opener :: (inner ++ closer :: behind) =
        (before ++ opener :: inner) ++ closer :: behind := by simp
    rwa [whole, List.take_left' (by simp; omega), List.append_cons, List.drop_left' (by simp)]
      at settled
  · rw [List.length_append, List.length_cons]
    omega

/-- Behind an opener and whole blocks the opener is on top of the stack. -/
theorem opened_append_block {before inner : Listing} {opener : Numbered}
    (opens : opener.line.opens = true) (settled : Settled inner) :
    opened (before ++ opener :: inner) = (before.length, opener) :: opened before := by
  rw [List.append_cons, opened_append_settled settled, opened_snoc_opens opens]

/-- A closer stands as deep as the opener of its block. -/
theorem Matched.depthAt_eq {listing : Listing} {i k : Nat} (matched : listing.Matched i k) :
    listing.depthAt k = listing.depthAt i := by
  obtain ⟨before, opener, inner, closer, behind, rfl, opens, settled, closes, rfl, rfl⟩ :=
    matched.split
  have whole : before ++ opener :: (inner ++ closer :: behind) =
      (before ++ opener :: inner) ++ closer :: behind := by simp
  rw [Listing.depthAt_eq, whole, Listing.depthAt_eq, around, around,
    opened_append_block opens settled]
  simp [closes, Line.closes_of_opens opens]

/-- A closer that closes no block stands where none is open. -/
theorem opened_eq_nil {before rest : Listing} {closer : Numbered}
    (closes : closer.line.closes = true)
    (stray : ∀ i, ¬ (before ++ closer :: rest).Matched i before.length) : opened before = [] := by
  cases stack : opened before with
  | nil => rfl
  | cons top outer =>
      -- What is on top of the stack would be closed here.
      obtain ⟨i, opener⟩ := top
      have onTop : (opened before)[0]? = some (i, opener) := by rw [stack, List.getElem?_cons_zero]
      obtain ⟨atI, opens, level⟩ := getElem?_opened.mp onTop
      have order := (List.getElem?_eq_some_iff.mp atI).1
      rw [← List.getElem?_append_left order] at atI
      refine absurd ⟨⟨opener, atI, opens⟩, order, ?_, closer, by simp, closes⟩ (stray i)
      rw [List.take_left]
      exact settled_iff.mpr level

theorem depthAt_eq_zero {listing : Listing} {k : Nat} {closer : Numbered}
    (found : listing[k]? = some closer) (closes : closer.line.closes = true)
    (stray : ∀ i, ¬ listing.Matched i k) : listing.depthAt k = 0 := by
  obtain ⟨before, rest, rfl, rfl⟩ := exists_append found
  rw [depthAt_eq, around, if_pos closes, opened_eq_nil closes stray]
  rfl

/-! ## Depths in the order of the statements -/

/-- The depth of every statement of a listing that starts inside `depth` blocks. -/
def depthsFrom (depth : Nat) : Listing → List Nat
  | [] => []
  | entry :: rest =>
      let here := if entry.line.closes then depth - 1 else depth
      here :: depthsFrom (if entry.line.opens then here + 1 else here) rest

theorem length_opened_snoc (before : Listing) (entry : Numbered) :
    (opened (before ++ [entry])).length =
      if entry.line.opens then (around before entry).length + 1
      else (around before entry).length := by
  rw [around]
  rcases entry.line.roles with ⟨opens, closes⟩ | ⟨opens, closes⟩ | ⟨opens, closes⟩
  · simp [opened_snoc_opens opens, opens, closes]
  · simp [opened_snoc_closes closes, opens, closes]
  · simp [opened_snoc_plain opens closes, opens, closes]

theorem depthsFrom_eq (before rest : Listing) :
    depthsFrom (opened before).length rest =
      (List.range' before.length rest.length).map (before ++ rest).depthAt := by
  induction rest generalizing before with
  | nil => rfl
  | cons entry rest ih =>
      have here :
          (if entry.line.closes then (opened before).length - 1 else (opened before).length) =
          (around before entry).length := by
        rw [around]
        split <;> simp
      have later := ih (before ++ [entry])
      rw [length_opened_snoc, List.append_assoc, List.singleton_append, List.length_append,
        List.length_singleton] at later
      rw [depthsFrom, List.length_cons, List.range'_succ, List.map_cons, depthAt_eq, ← later, here]

theorem depthsFrom_zero (listing : Listing) :
    depthsFrom 0 listing = (List.range listing.length).map listing.depthAt := by
  rw [List.range_eq_range']
  exact depthsFrom_eq [] listing

theorem getElem?_depthsFrom {listing : Listing} {p : Nat} {entry : Numbered}
    (found : listing[p]? = some entry) :
    (depthsFrom 0 listing)[p]? = some (listing.depthAt p) := by
  have inside := (List.getElem?_eq_some_iff.mp found).1
  simp [depthsFrom_zero, inside]

end Listing

end LineScript
