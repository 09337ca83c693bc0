/-! # Cursors

A cursor is the part of a text still to be read, with its length at hand. The length is a function
of the text, so two cursors with the same text left are the same cursor.
-/

namespace LineScript.Parse

/-- The text still to be read. -/
structure Cursor where
  /-- The characters left. -/
  rest : List Char
  /-- How many characters are left. -/
  left : Nat
  left_eq : left = rest.length

namespace Cursor

/-- The cursor at the start of a text. -/
def ofList (s : List Char) : Cursor :=
  ⟨s, s.length, rfl⟩

/-- The next character and the cursor behind it. -/
@[inline]
def next? : Cursor → Option (Char × Cursor)
  | ⟨[], _, _⟩ => none
  | ⟨c :: s, n, h⟩ => some (c, ⟨s, n - 1, by simp [h]⟩)

/-- The cursor behind `word`, if that comes next. -/
def skip? : List Char → Cursor → Option Cursor
  | [], cur => some cur
  | w :: word, cur =>
      match cur.next? with
      | some (c, cur) => if c = w then skip? word cur else none
      | none => none

/-- The cursor behind all the characters that satisfy `p` and come next. -/
def skipWhile (p : Char → Bool) : Cursor → Cursor
  | ⟨s, n, h⟩ => go s n h
where
  /-- Skip in the list itself, counting down. -/
  go : (s : List Char) → (n : Nat) → n = s.length → Cursor
    | [], n, h => ⟨[], n, h⟩
    | c :: s, n, h => if p c then go s (n - 1) (by simp [h]) else ⟨c :: s, n, h⟩

/-- The cursor behind the next `word`, wherever that stands. -/
def skipPast? (word : List Char) : Cursor → Option Cursor
  | ⟨s, n, h⟩ => go s n h
where
  /-- Look for the word from here on, counting down. -/
  go : (s : List Char) → (n : Nat) → n = s.length → Option Cursor
    | [], n, h => skip? word ⟨[], n, h⟩
    | c :: s, n, h =>
        match skip? word ⟨c :: s, n, h⟩ with
        | some behind => some behind
        | none => go s (n - 1) (by simp [h])

/-- The characters between a cursor and a later one of the same text. -/
def upTo (start stop : Cursor) : List Char :=
  start.rest.take (start.left - stop.left)

@[ext]
theorem ext {a b : Cursor} (h : a.rest = b.rest) : a = b := by
  cases a with
  | mk s n hn =>
      cases b with
      | mk t m hm =>
          subst hn hm
          cases h
          rfl

@[simp]
theorem rest_ofList (s : List Char) : (ofList s).rest = s := rfl

@[simp]
theorem ofList_rest (cur : Cursor) : ofList cur.rest = cur := by
  ext1
  rfl

@[simp]
theorem next?_ofList_nil : (ofList []).next? = none := rfl

@[simp]
theorem next?_ofList_cons (c : Char) (s : List Char) :
    (ofList (c :: s)).next? = some (c, ofList s) := by
  simp only [ofList, next?, Option.some.injEq, Prod.mk.injEq, true_and]
  ext1
  rfl

end Cursor

end LineScript.Parse
