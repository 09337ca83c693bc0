import LineScript.Proofs.Grammar.Literal

/-! # Escapes in texts

A text is well escaped if every `u` behind a backslash is followed by four digits of base sixteen
that spell a character, which it stands for. Texts that are not well escaped are read all the same:
a backslash in front of a `u` without such digits is passed over, and the `u` stands for itself.
-/

namespace LineScript.Grammar

open Parse Parser

/-- The number that digits of base sixteen spell. -/
def hexNumber (digits : List Char) : Nat :=
  digits.foldl (fun n c => 16 * n + hexValue c) 0

/-- Four digits of base sixteen that spell the character `c`. -/
structure SpellsUnicode (digits : List Char) (c : Char) : Prop where
  four : digits.length = 4
  hex : ∀ d ∈ digits, isHex d = true
  value : c.toNat = hexNumber digits

/-- What stands between two quotes `q` for the given characters, if no backslash stands in front of
    a `u` for nothing. -/
inductive WellEscaped (q : Char) : List Char → List Char → Prop where
  | nil : WellEscaped q [] []
  | plain {c s cs} : c ∉ [q, '\\', '\n'] → WellEscaped q s cs → WellEscaped q (c :: s) (c :: cs)
  | control {x c s cs} : (x, c) ∈ [('n', '\n'), ('t', '\t'), ('r', '\r'), ('0', '\x00')] →
      WellEscaped q s cs → WellEscaped q ('\\' :: x :: s) (c :: cs)
  | unicode {digits c s cs} : SpellsUnicode digits c → WellEscaped q s cs →
      WellEscaped q ('\\' :: 'u' :: (digits ++ s)) (c :: cs)
  | self {c s cs} : c ∉ ['n', 't', 'r', '0', 'u', '\n'] → WellEscaped q s cs →
      WellEscaped q ('\\' :: c :: s) (c :: cs)

/-- What follows each backslash that starts an escape. -/
def escapes : List Char → List (List Char)
  | [] | [_] => []
  | c :: d :: s => if c = '\\' then (d :: s) :: escapes s else escapes (d :: s)

/-- Every `u` behind a backslash is followed by four digits that spell a character. -/
def IsProper (body : List Char) : Prop :=
  ∀ s, 'u' :: s ∈ escapes body → ∃ digits c, SpellsUnicode digits c ∧ digits <+: s

/-- A text without the backslashes in front of a `u` that no such digits follow. -/
def mend : List Char → List Char
  | [] => []
  | [c] => [c]
  | c :: d :: s =>
      if c = '\\' then
        if d = 'u' ∧ unicodeOf? s = none then 'u' :: mend s else '\\' :: d :: mend s
      else c :: mend (d :: s)

/-! ## Digits of base sixteen -/

theorem hexChar?_eq_some_iff {digits : List Char} {c : Char} :
    hexChar? digits = some c ↔ c.toNat = hexNumber digits := by
  rw [hexChar?, ← hexNumber]
  constructor
  · intro found
    split at found
    · cases found
      rfl
    · cases found
  · intro value
    have valid : (hexNumber digits).isValidChar := value ▸ c.valid
    rw [dif_pos valid, Option.some.injEq]
    apply Char.toNat_inj.mp
    exact value.symm

theorem unicodeOf?_eq_some_iff {s t : List Char} {c : Char} :
    unicodeOf? s = some (c, t) ↔ ∃ digits, SpellsUnicode digits c ∧ s = digits ++ t := by
  rw [unicodeOf?]
  constructor
  · intro found
    split at found
    · next digits =>
        obtain ⟨d, value, same⟩ := Option.map_eq_some_iff.mp found
        cases same
        refine ⟨s.take 4, ⟨?_, ?_, hexChar?_eq_some_iff.mp value⟩, (List.take_append_drop 4 s).symm⟩
        · rw [List.length_take, Nat.min_eq_left digits.1]
        · exact List.all_eq_true.mp digits.2
    · cases found
  · rintro ⟨digits, spells, rfl⟩
    have long : 4 ≤ (digits ++ t).length := by
      rw [List.length_append, spells.four]
      omega
    rw [List.take_left' spells.four, List.drop_left' spells.four,
      if_pos ⟨long, List.all_eq_true.mpr spells.hex⟩, hexChar?_eq_some_iff.mpr spells.value]
    rfl

theorem unicodeOf?_ne_none_iff {s : List Char} :
    unicodeOf? s ≠ none ↔ ∃ digits c, SpellsUnicode digits c ∧ digits <+: s := by
  rw [Option.ne_none_iff_exists']
  constructor
  · rintro ⟨⟨c, t⟩, found⟩
    obtain ⟨digits, spells, rfl⟩ := unicodeOf?_eq_some_iff.mp found
    exact ⟨digits, c, spells, List.prefix_append digits t⟩
  · rintro ⟨digits, c, spells, t, rfl⟩
    exact ⟨(c, t), unicodeOf?_eq_some_iff.mpr ⟨digits, spells, rfl⟩⟩

/-! ## What is mended -/

section Mend

variable {c d : Char} {s : List Char}

theorem mend_plain (other : c ≠ '\\') (s : List Char) : mend (c :: s) = c :: mend s := by
  cases s with
  | nil => rfl
  | cons d s => rw [mend, if_neg other]

theorem mend_escape (proper : d = 'u' → unicodeOf? s ≠ none) :
    mend ('\\' :: d :: s) = '\\' :: d :: mend s := by
  rw [mend, if_pos rfl, if_neg fun bare => proper bare.1 bare.2]

theorem mend_bare (bare : unicodeOf? s = none) : mend ('\\' :: 'u' :: s) = 'u' :: mend s := by
  rw [mend, if_pos rfl, if_pos ⟨rfl, bare⟩]

theorem mend_digits {digits : List Char} (hex : ∀ d ∈ digits, isHex d = true) (s : List Char) :
    mend (digits ++ s) = digits ++ mend s := by
  induction digits with
  | nil => rfl
  | cons d digits ih =>
      obtain ⟨here, later⟩ := List.forall_mem_cons.mp hex
      have other : d ≠ '\\' := by
        rintro rfl
        exact absurd here (by decide)
      rw [List.cons_append, mend_plain other, ih later, List.cons_append]

theorem isProper_plain (other : c ≠ '\\') : IsProper (c :: s) ↔ IsProper s := by
  cases s with
  | nil => simp [IsProper, escapes]
  | cons d s => rw [IsProper, escapes, if_neg other, IsProper]

theorem isProper_escape : IsProper ('\\' :: d :: s) ↔
    (d = 'u' → unicodeOf? s ≠ none) ∧ IsProper s := by
  simp only [IsProper, escapes, if_true, List.mem_cons, unicodeOf?_ne_none_iff]
  constructor
  · intro proper
    refine ⟨?_, fun t member => proper t (.inr member)⟩
    rintro rfl
    exact proper s (.inl rfl)
  · rintro ⟨here, later⟩ t (same | member)
    · cases same
      exact here rfl
    · exact later t member

/-- Nothing is mended exactly if every `u` behind a backslash has its digits. -/
theorem mend_eq_self_iff {body : List Char} : mend body = body ↔ IsProper body := by
  fun_induction mend body with
  | case1 => simp [IsProper, escapes]
  | case2 => simp [IsProper, escapes]
  | case3 d s bare ih => simp [isProper_escape, bare.1, bare.2]
  | case4 d s proper ih =>
      rw [isProper_escape, List.cons.injEq, List.cons.injEq, ih]
      simpa using fun _ same => not_and.mp proper same
  | case5 c d s other ih => rw [isProper_plain other, List.cons.injEq, ih, and_iff_right rfl]

end Mend

/-! ## Literals -/

section Quoted

variable {q : Char} {body cs : List Char}

theorem isHex_quote (quote : q = '"' ∨ q = '\'') : isHex q = false := by
  rcases quote with rfl | rfl <;> decide

theorem Quoted.wellEscaped_mend (quote : q = '"' ∨ q = '\'') (quoted : Quoted q body cs) :
    WellEscaped q (mend body) cs := by
  have noHex := isHex_quote quote
  induction quoted with
  | nil => exact .nil
  | @plain c s cs plain _ ih =>
      simp only [Bool.and_eq_true, bne_iff_ne] at plain
      rw [mend_plain plain.1.2]
      exact .plain (by simp [plain]) ih
  | @escaped e c s cs escaped _ ih =>
      cases escaped with
      | @control x c follow member =>
          rw [List.singleton_append, mend_escape]
          · exact .control member ih
          · rintro rfl
            simp at member
      | @unicode digits c follow four hex value =>
          have spells : SpellsUnicode digits c :=
            ⟨four, List.all_eq_true.mp hex, hexChar?_eq_some_iff.mp value⟩
          have found := unicodeOf?_ne_none_iff.mpr
            ⟨digits, c, spells, List.prefix_append digits s⟩
          rw [List.cons_append, mend_escape fun _ => found, mend_digits spells.hex]
          exact .unicode spells ih
      | self other bare =>
          by_cases isU : c = 'u'
          · subst isU
            have none_ := bare rfl
            rw [unicodeOf?_append noHex, Option.map_eq_none_iff] at none_
            rw [List.singleton_append, mend_bare none_]
            exact .plain (by rcases quote with rfl | rfl <;> decide) ih
          · rw [List.singleton_append, mend_escape fun same => absurd same isU]
            exact .self (by simpa [isU] using other) ih

namespace WellEscaped

variable {c d : Char} {s : List Char}

theorem of_plain (escaped : WellEscaped q (c :: s) cs) (other : c ≠ '\\') :
    ∃ cs', cs = c :: cs' ∧ c ∉ [q, '\\', '\n'] ∧ WellEscaped q s cs' := by
  cases escaped with
  | plain outside rest => exact ⟨_, rfl, outside, rest⟩
  | control | unicode | self => exact absurd rfl other

theorem of_escape (escaped : WellEscaped q ('\\' :: d :: s) cs) :
    ∃ c cs', cs = c :: cs' ∧
      ((∃ digits t, d = 'u' ∧ s = digits ++ t ∧ SpellsUnicode digits c ∧ WellEscaped q t cs') ∨
        WellEscaped q s cs' ∧ ((d, c) ∈ [('n', '\n'), ('t', '\t'), ('r', '\r'), ('0', '\x00')] ∨
          d = c ∧ c ∉ ['n', 't', 'r', '0', 'u', '\n'])) := by
  cases escaped with
  | plain outside => simp at outside
  | control member rest => exact ⟨_, _, rfl, .inr ⟨rest, .inl member⟩⟩
  | unicode spells rest => exact ⟨_, _, rfl, .inl ⟨_, _, rfl, rfl, spells, rest⟩⟩
  | self other rest => exact ⟨_, _, rfl, .inr ⟨rest, .inr ⟨rfl, other⟩⟩⟩

end WellEscaped

/-- An escape that is read from the mended text is read from the text itself. -/
theorem quoted_escape (noHex : isHex q = false) {d : Char} {s : List Char}
    (behind : ∀ t cs, t <:+ s → WellEscaped q (mend t) cs → Quoted q t cs)
    (escaped : WellEscaped q (mend ('\\' :: d :: s)) cs) : Quoted q ('\\' :: d :: s) cs := by
  by_cases bare : d = 'u' ∧ unicodeOf? s = none
  · obtain ⟨rfl, bare⟩ := bare
    rw [mend_bare bare] at escaped
    obtain ⟨cs', rfl, -, rest⟩ := escaped.of_plain (by decide)
    have alone : Escaped ['u'] 'u' (s ++ [q]) := by
      refine .self (by decide) fun _ => ?_
      rw [unicodeOf?_append noHex, bare]
      rfl
    exact .escaped alone (behind s cs' List.suffix_rfl rest)
  · have proper := not_and.mp bare
    rw [mend_escape proper] at escaped
    obtain ⟨c, cs', rfl, ⟨digits, t, rfl, mended, spells, rest⟩ | ⟨rest, control | ⟨rfl, other⟩⟩⟩ :=
      escaped.of_escape
    · -- The digits are those that stand in the text.
      obtain ⟨digits', c', spells', s', rfl⟩ := unicodeOf?_ne_none_iff.mp (proper rfl)
      rw [mend_digits spells'.hex] at mended
      obtain ⟨rfl, rfl⟩ := List.append_inj mended (spells'.four.trans spells.four.symm)
      have escape : Escaped ('u' :: digits') c (s' ++ [q]) :=
        .unicode spells.four (List.all_eq_true.mpr spells.hex)
          (hexChar?_eq_some_iff.mpr spells.value)
      exact .escaped escape (behind s' cs' (List.suffix_append digits' s') rest)
    · exact .escaped (.control control) (behind s cs' List.suffix_rfl rest)
    · simp only [List.mem_cons, List.not_mem_nil, or_false, not_or] at other
      have escape : Escaped [d] d (s ++ [q]) :=
        .self (by simp [other]) fun same => absurd same other.2.2.2.2.1
      exact .escaped escape (behind s cs' List.suffix_rfl rest)

/-- What is well escaped once it is mended is quoted as it stands. -/
theorem quoted_of_wellEscaped_mend (quote : q = '"' ∨ q = '\'')
    (escaped : WellEscaped q (mend body) cs) : Quoted q body cs := by
  have noHex := isHex_quote quote
  -- Behind the digits of a `u` the text goes on further away, so the induction is on the length.
  induction length : body.length using Nat.strong_induction_on generalizing body cs with
  | _ n ih =>
      subst length
      match body with
      | [] =>
          cases escaped
          exact .nil
      | c :: s =>
          by_cases slash : c = '\\'
          · subst slash
            match s with
            | [] => cases escaped with | plain outside => simp at outside
            | d :: s =>
                refine quoted_escape noHex (fun t cs suffix rest => ih _ ?_ rest rfl) escaped
                have le := suffix.length_le
                simp only [List.length_cons]
                omega
          · rw [mend_plain slash] at escaped
            obtain ⟨cs', rfl, outside, rest⟩ := escaped.of_plain slash
            simp only [List.mem_cons, List.not_mem_nil, or_false, not_or] at outside
            exact .plain (by simp [outside]) (ih _ (Nat.lt_succ_self _) rest rfl)

end Quoted

/-- A text is read up to its quote exactly if it is well escaped, or becomes so once it is mended.
    In a text whose escapes are proper, each `u` behind a backslash stands for the one character
    that its four digits spell. Any other text is read as if the backslashes without such digits
    were not there. -/
theorem outcome_text_iff (s rest : List Char) (x : String) :
    text.outcome s = some (x, rest) ↔ ∃ q body, (q = '"' ∨ q = '\'') ∧
      s = q :: (body ++ q :: rest) ∧ (IsProper body → WellEscaped q body x.toList) ∧
        (¬ IsProper body → WellEscaped q (mend body) x.toList) := by
  have mended : ∀ q body, ((IsProper body → WellEscaped q body x.toList) ∧
      (¬ IsProper body → WellEscaped q (mend body) x.toList)) ↔
        WellEscaped q (mend body) x.toList := by
    intro q body
    by_cases proper : IsProper body
    · simp [proper, mend_eq_self_iff.mpr proper]
    · simp [proper]
  simp only [mended]
  constructor
  · intro read
    obtain ⟨u, cs, literal, rfl, rfl⟩ := text_of_outcome read
    rw [String.toList_ofList]
    cases literal with
    | @double body _ quoted =>
        exact ⟨'"', body, .inl rfl, by simp, quoted.wellEscaped_mend (.inl rfl)⟩
    | @single body _ quoted =>
        exact ⟨'\'', body, .inr rfl, by simp, quoted.wellEscaped_mend (.inr rfl)⟩
  · rintro ⟨q, body, quote, rfl, escaped⟩
    have quoted := quoted_of_wellEscaped_mend quote escaped
    have literal : TextLiteral (q :: (body ++ [q])) x.toList := by
      rcases quote with rfl | rfl
      · exact .double quoted
      · exact .single quoted
    have read := outcome_text literal rest
    rw [String.ofList_toList] at read
    simpa using read

/-- The digits of half a surrogate pair spell no character, but they are read all the same. -/
theorem outcome_text_loneSurrogate :
    text.outcome "\"\\uD800\"".toList = some ("uD800", []) ∧ ¬ IsProper "\\uD800".toList := by
  refine ⟨by decide +kernel, mend_eq_self_iff.not.mp ?_⟩
  decide +kernel

end LineScript.Grammar
