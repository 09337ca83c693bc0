import LineScript.Parse.Cursor
import LineScript.Parse.Miss

/-! # Parsers

A parser reads from the front of a text and either succeeds with a value and the rest of the text,
or fails. Choices are ordered and never taken back once they succeeded. Beside its result a parser
reports its misses; they never decide what is read, so `Parser.outcome` is all there is to know of
what a parser accepts.
-/

namespace LineScript.Parse

/-- What a parser answers. -/
structure Reply (α : Type) where
  /-- The value and the cursor behind what was read, unless the parser failed. -/
  result : Option (α × Cursor)
  /-- The furthest misses on the way. -/
  misses : Option Miss

/-- A parser for values of type `α`. -/
def Parser (α : Type) : Type := Cursor → Reply α

namespace Parser

variable {α β ι : Type}

/-- Succeed and read nothing. -/
@[inline]
def ret (a : α) : Parser α :=
  fun cur => ⟨some (a, cur), none⟩

/-- Fail and miss nothing. -/
@[inline]
def fail : Parser α :=
  fun _ => ⟨none, none⟩

/-- Go on with `f` at what `p` read. -/
@[inline]
def andThen (p : Parser α) (f : α → Parser β) : Parser β := fun cur =>
  match p cur with
  | ⟨some (a, behind), misses⟩ =>
      let reply := f a behind
      ⟨reply.result, furthest misses reply.misses⟩
  | ⟨none, misses⟩ => ⟨none, misses⟩

/-- Read with `p`, or with `q` where `p` fails. -/
@[inline]
def orElse (p q : Parser α) : Parser α := fun cur =>
  match p cur with
  | ⟨some r, misses⟩ => ⟨some r, misses⟩
  | ⟨none, misses⟩ =>
      let reply := q cur
      ⟨reply.result, furthest misses reply.misses⟩

instance : Monad Parser where
  pure := ret
  bind := andThen

instance : OrElse (Parser α) where
  orElse p q := orElse p (q ())

/-- Read with `p` and report none of its misses. -/
@[inline]
def quiet (p : Parser α) : Parser α :=
  fun cur => ⟨(p cur).result, none⟩

/-- Read with `p`. Where it fails, `wanted` is missed at the place where it began. -/
@[inline]
def expecting (wanted : Wanted) (p : Parser α) : Parser α := fun cur =>
  match (p cur).result with
  | some r => ⟨some r, none⟩
  | none => ⟨none, some ⟨cur.left, wanted⟩⟩

/-- Succeed without reading where `p` would succeed. -/
@[inline]
def ahead (p : Parser α) : Parser Unit := fun cur =>
  match (p cur).result with
  | some _ => ⟨some ((), cur), none⟩
  | none => ⟨none, none⟩

/-- Succeed without reading where `p` would fail. -/
@[inline]
def absent (p : Parser α) : Parser Unit := fun cur =>
  match (p cur).result with
  | some _ => ⟨none, none⟩
  | none => ⟨some ((), cur), none⟩

/-- Read one character that satisfies `p`. -/
@[inline]
def char (p : Char → Bool) : Parser Char := fun cur =>
  match cur.next? with
  | some (c, behind) => if p c then ⟨some (c, behind), none⟩ else ⟨none, none⟩
  | none => ⟨none, none⟩

/-- Read exactly `text`. -/
@[inline]
def word (text : List Char) : Parser Unit := fun cur =>
  match cur.skip? text with
  | some behind => ⟨some ((), behind), none⟩
  | none => ⟨none, none⟩

/-- Read up to the next `text` and past it. -/
@[inline]
def skipPast (text : List Char) : Parser Unit := fun cur =>
  match cur.skipPast? text with
  | some behind => ⟨some ((), behind), none⟩
  | none => ⟨none, none⟩

/-- Read all the characters that satisfy `p`. -/
@[inline]
def skipWhile (p : Char → Bool) : Parser Unit :=
  fun cur => ⟨some ((), cur.skipWhile p), none⟩

/-- Succeed at the end of the text. -/
@[inline]
def atEnd : Parser Unit :=
  absent (char fun _ => true)

/-- Read with `p` and give the characters it read. -/
@[inline]
def slice (p : Parser α) : Parser (List Char) := fun cur =>
  match p cur with
  | ⟨some (_, behind), misses⟩ => ⟨some (cur.upTo behind, behind), misses⟩
  | ⟨none, misses⟩ => ⟨none, misses⟩

/-- Read with `p` if it succeeds. -/
@[inline]
def optional (p : Parser α) : Parser (Option α) := fun cur =>
  match p cur with
  | ⟨some (a, behind), misses⟩ => ⟨some (some a, behind), misses⟩
  | ⟨none, misses⟩ => ⟨some (none, cur), misses⟩

/-- Extend the value `a` by `step` up to `rounds` times, until that fails. -/
def extendWithin (step : α → Parser α) : Nat → α → Option Miss → Cursor → Reply α
  | 0, a, misses, cur => ⟨some (a, cur), misses⟩
  | rounds + 1, a, misses, cur =>
      match step a cur with
      | ⟨some (a, behind), more⟩ => extendWithin step rounds a (furthest misses more) behind
      | ⟨none, more⟩ => ⟨some (a, cur), furthest misses more⟩

/-- Extend a value by `step` as often as that succeeds. A step that reads at least one character
    each time cannot succeed more often than there are characters. -/
@[inline]
def extend (step : α → Parser α) (a : α) : Parser α :=
  fun cur => extendWithin step (cur.left + 1) a none cur

/-- Read with `p` as often as it succeeds. -/
@[inline]
def many (p : Parser α) : Parser (List α) := do
  let found ← extend (fun found => do return (← p) :: found) []
  return found.reverse

/-- Read exactly `n` times with `p`. -/
def exactly (n : Nat) (p : Parser α) : Parser (List α) :=
  match n with
  | 0 => return []
  | n + 1 => do
      let first ← p
      let rest ← exactly n p
      return first :: rest

/-- The first of the parsers that succeeds. -/
def firstOf : List (Parser α) → Parser α
  | [] => fail
  | p :: ps => orElse p (firstOf ps)

/-- The rules `rules`, entered inside one another up to `depth` times. -/
def recursiveWithin (rules : (ι → Parser α) → ι → Parser α) : Nat → ι → Cursor → Reply α
  | 0, _, _ => ⟨none, none⟩
  | depth + 1, i, cur => rules (recursiveWithin rules depth) i cur

/-- Rules that call each other. Where at least one character is read before a rule is entered from
    inside another, rules cannot be entered deeper than there are characters. -/
@[inline]
def recursive (rules : (ι → Parser α) → ι → Parser α) (i : ι) : Parser α :=
  fun cur => recursiveWithin rules (cur.left + 1) i cur

/-- What a parser reads from a text: the value and the rest of the text. -/
def outcome (p : Parser α) (s : List Char) : Option (α × List Char) :=
  (p (Cursor.ofList s)).result.map fun (a, cur) => (a, cur.rest)

theorem outcome_ret (a : α) (s : List Char) : (ret a).outcome s = some (a, s) := rfl

theorem outcome_andThen (p : Parser α) (f : α → Parser β) (s : List Char) :
    (p.andThen f).outcome s = (p.outcome s).bind fun (a, rest) => (f a).outcome rest := by
  unfold outcome andThen
  cases h : p (Cursor.ofList s) with
  | mk result misses =>
      cases result with
      | none => rfl
      | some r => simp

theorem outcome_orElse (p q : Parser α) (s : List Char) :
    (p.orElse q).outcome s = (p.outcome s).or (q.outcome s) := by
  unfold outcome orElse
  cases h : p (Cursor.ofList s) with
  | mk result misses => cases result <;> rfl

end Parser

end LineScript.Parse
