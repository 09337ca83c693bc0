import LineScript.Json
import LineScript.Proofs.Number.Whole
import LineScript.Settings.File

/-! # Settings that are read back

A file that is written as a record of settings, in any order and with any space between the tokens,
is read as just these settings. A limit is kept as it is written: a zero stays a zero, and no limit
is written as null.
-/

namespace LineScript.Settings.File

open Parse Parser

/-! ## Space and marks -/

/-- The text is space. -/
def Gap (u : List Char) : Prop :=
  ∀ c ∈ u, c ∈ [' ', '\t', '\n', '\r']

theorem outcome_space {u k : List Char} (gap : Gap u)
    (solid : ∀ c ∈ k.head?, c ∉ [' ', '\t', '\n', '\r']) :
    space.outcome (u ++ k) = some ((), k) := by
  have blank : ∀ c ∈ u, (c == ' ' || c == '\t' || c == '\n' || c == '\r') = true := by
    intro c member
    simpa [or_assoc] using gap c member
  rw [space, outcome_skipWhile, List.dropWhile_append_of_pos blank]
  cases k with
  | nil => rfl
  | cons c k => rw [List.dropWhile_cons_of_neg (by simpa [and_assoc] using solid)]

theorem outcome_mark (c : Char) (k : List Char) : (mark c).outcome (c :: k) = some ((), k) := by
  simp [mark]

theorem mark_eq_none {c d : Char} (other : d ≠ c) (k : List Char) :
    (mark c).outcome (d :: k) = none := by
  simp [mark, other]

instance (c : Char) : Advances (mark c) := by
  delta mark
  infer_instance

/-! ## Texts between quotes -/

/-- A character of a quoted text. -/
def item : Parser Nat :=
  (do mark '\\'; escapeCode) <|>
  (do
    let c ← char fun c => c != '"' && c != '\\' && 0x20 ≤ c.toNat
    return c.toNat)

theorem codes_eq : codes = (do mark '"'; let found ← many item; mark '"'; return found) := rfl

theorem outcome_item_quote (k : List Char) : item.outcome ('"' :: k) = none := by
  rw [item, next_choice (stop_bind (mark_eq_none (by decide) k))]
  simp

theorem hexValue_digitChar : ∀ d < 16, Grammar.isHex (Nat.digitChar d) = true ∧
    Grammar.hexValue (Nat.digitChar d) = d := by
  decide

theorem outcome_escapeCode_unicode {n : Nat} (small : n < 0x20) (k : List Char) :
    escapeCode.outcome
        ('u' :: '0' :: '0' :: Nat.digitChar (n / 16) :: Nat.digitChar (n % 16) :: k) =
      some (n, k) := by
  obtain ⟨hex, value⟩ := hexValue_digitChar (n / 16) (by omega)
  obtain ⟨hex', value'⟩ := hexValue_digitChar (n % 16) (by omega)
  have zero : Grammar.isHex '0' = true ∧ Grammar.hexValue '0' = 0 := by decide
  simp [escapeCode, mark, exactly, hex, value, hex', value', zero]
  omega

theorem outcome_item (c : Char) (k : List Char) :
    item.outcome (Json.escaped c ++ k) = some (c.toNat, k) := by
  have escape : ∀ {s}, escapeCode.outcome s = some (c.toNat, k) →
      item.outcome ('\\' :: s) = some (c.toNat, k) := by
    intro s read
    rw [item]
    apply run_choice
    rw [run_bind (outcome_mark '\\' s), read]
  unfold Json.escaped
  split_ifs with isQuote isSlash isNewline isTab isReturn isBack isFeed isControl
  · exact escape (by simp [escapeCode, mark, isQuote])
  · exact escape (by simp [escapeCode, mark, isSlash])
  · exact escape (by simp [escapeCode, mark, isNewline])
  · exact escape (by simp [escapeCode, mark, isTab])
  · exact escape (by simp [escapeCode, mark, isReturn])
  · exact escape (by simp [escapeCode, mark, isBack])
  · exact escape (by simp [escapeCode, mark, isFeed])
  · exact escape (outcome_escapeCode_unicode isControl k)
  · rw [List.singleton_append, item, next_choice (stop_bind (mark_eq_none isSlash k))]
    simp [isQuote, isSlash, Nat.not_lt.mp isControl]

instance : Parser.Keeps escapeCode := by
  delta escapeCode
  infer_instance

instance : Advances item := by
  delta item
  infer_instance

theorem outcome_items (s k : List Char) :
    (many item).outcome (s.flatMap Json.escaped ++ '"' :: k) =
      some (s.map Char.toNat, '"' :: k) := by
  induction s with
  | nil => exact outcome_many_of_none (outcome_item_quote k)
  | cons c s ih =>
      rw [List.flatMap_cons, List.append_assoc, outcome_many_of_some (outcome_item c _), ih]
      rfl

/-- Characters are no halves of surrogate pairs. -/
theorem isHigh_or_isLow_toNat (c : Char) : (isHigh c.toNat || isLow c.toNat) = false := by
  have valid : c.toNat < 0xD800 ∨ 0xDFFF < c.toNat ∧ c.toNat < 0x110000 := c.valid
  simp only [isHigh, isLow, Bool.or_eq_false_iff, Bool.and_eq_false_iff, decide_eq_false_iff_not]
  omega

theorem characters?_map (s : List Char) : characters? (s.map Char.toNat) = some s := by
  induction s with
  | nil => rfl
  | cons c s ih =>
      have plain := isHigh_or_isLow_toNat c
      cases s with
      | nil => simp [characters?, plain]
      | cons d s =>
          obtain ⟨high, low⟩ := Bool.or_eq_false_iff.mp plain
          rw [List.map_cons] at ih
          simp [characters?, high, low, ih]

/-- A text is read back as it was quoted. -/
theorem outcome_quoted (s : String) (k : List Char) :
    quoted.outcome ((Json.quoted s).toList ++ k) = some (s, k) := by
  have whole : (Json.quoted s).toList ++ k =
      '"' :: (s.toList.flatMap Json.escaped ++ '"' :: k) := by
    simp [Json.quoted]
  have read : codes.outcome ((Json.quoted s).toList ++ k) = some (s.toList.map Char.toNat, k) := by
    rw [whole, codes_eq, run_bind (outcome_mark '"' _), run_bind (outcome_items _ k),
      run_bind (outcome_mark '"' k), outcome_pure]
  rw [quoted, run_bind read, characters?_map]
  simp

/-! ## Limits -/

/-- How a limit is written. -/
def limitText : Option Nat → List Char
  | none => "null".toList
  | some n => Nat.toDigits 10 n

theorem outcome_whole (n : Nat) {k : List Char} (stop : ∀ c ∈ k.head?, c.isDigit = false) :
    whole.outcome (Nat.toDigits 10 n ++ k) = some (Nat.toDigits 10 n, k) := by
  apply outcome_slice_append
  rcases Nat.eq_zero_or_pos n with rfl | pos
  · exact run_choice (outcome_mark '0' k)
  · obtain ⟨nonempty, all⟩ := Number.isDigits_toDigits n
    have first := Number.head?_toDigits_ne_zero pos
    generalize Nat.toDigits 10 n = digits at nonempty all first
    obtain ⟨c, digits, rfl⟩ := List.exists_cons_of_ne_nil nonempty
    have notZero : c ≠ '0' := fun same => first (congrArg some same)
    have rest : (digits ++ k).dropWhile Char.isDigit = k := by
      rw [List.dropWhile_append_of_pos fun d member => all d (List.mem_cons_of_mem c member)]
      cases k with
      | nil => rfl
      | cons d k => rw [List.dropWhile_cons_of_neg (by simpa using stop d rfl)]
    rw [List.cons_append, next_choice (mark_eq_none notZero _)]
    simp [all c List.mem_cons_self, notZero, rest]

theorem outcome_limit {l : Option Nat} (valid : ∀ n ∈ l, n < 2 ^ 64) {k : List Char}
    (stop : ∀ c ∈ k.head?, c.isDigit = false) : limit.outcome (limitText l ++ k) = some (l, k) := by
  cases l with
  | none =>
      have null : (word "null".toList).outcome ("null".toList ++ k) = some ((), k) := by
        rw [outcome_word, Text.after?_append, Option.map_some]
      exact run_choice (run_bind null)
  | some n =>
      have small : n < countBound := valid n rfl
      obtain ⟨nonempty, all⟩ := Number.isDigits_toDigits n
      have noNull : (word "null".toList).outcome (Nat.toDigits 10 n ++ k) = none := by
        obtain ⟨c, digits, split⟩ := List.exists_cons_of_ne_nil nonempty
        have digit : c.isDigit = true := all c (split ▸ List.mem_cons_self)
        rw [split, outcome_word, List.cons_append]
        have other : 'n' ≠ c := by
          rintro rfl
          cases digit
        simp [Text.after?, other]
      rw [limit, limitText, next_choice (stop_bind noNull), run_bind (outcome_whole n stop),
        Number.digitsValue_toDigits]
      simp [small]

/-! ## Records -/

instance : Parser.Keeps codes := by
  rw [codes_eq]
  infer_instance

instance : Parser.Keeps quoted := by
  unfold quoted
  refine .bind fun found => ?_
  split <;> infer_instance

instance : Parser.Keeps whole := by
  delta whole
  infer_instance

instance : Parser.Keeps limit := by
  delta limit
  infer_instance

instance : Parser.Keeps space := by
  delta space
  infer_instance

instance : Parser.Keeps anyNumber := by
  delta anyNumber Grammar.exponent Grammar.digits
  refine .bind fun _ => .bind fun _ => .bind fun _ => ?_
  infer_instance

instance (opening closing : Char) (item : Parser Unit) [Parser.Keeps item] :
    Parser.Keeps (bracketed opening closing item) := by
  delta bracketed
  refine .bind fun _ => .bind fun _ => ?_
  infer_instance

instance : Parser.Keeps anyValue := by
  apply keeps_recursive_of_keeps
  intro self keeps _
  have inside := keeps ()
  have named : Parser.Keeps (do let _ ← codes; space; mark ':'; space; self ()) := inferInstance
  delta anyValueRules
  infer_instance

instance (g : Given) : Parser.Keeps (member g) := by
  unfold member
  refine .bind fun key => .bind fun _ => .bind fun _ => .bind fun _ => ?_
  infer_instance

/-- A setting as a file gives it. -/
inductive Setting where
  | maxSteps (limit : Option Nat)
  | timeout (limit : Option Nat)
  | noOutput (text : String)

namespace Setting

/-- The name of the setting. -/
def key : Setting → String
  | maxSteps _ => "max_steps"
  | timeout _ => "timeout_ms"
  | noOutput _ => "no_output_placeholder"

/-- How the value is written. -/
def valueText : Setting → List Char
  | maxSteps limit | timeout limit => limitText limit
  | noOutput text => (Json.quoted text).toList

/-- The value can be written in a file. -/
def IsValid : Setting → Prop
  | maxSteps limit | timeout limit => ∀ n ∈ limit, n < 2 ^ 64
  | noOutput _ => True

/-- The setting is not among those that are given. -/
def IsNew (g : Given) : Setting → Prop
  | maxSteps _ => g.maxSteps = none
  | timeout _ => g.timeout = none
  | noOutput _ => g.noOutput = none

/-- What is given, and the setting with it. -/
def add (g : Given) : Setting → Given
  | maxSteps limit => { g with maxSteps := some limit }
  | timeout limit => { g with timeout := some limit }
  | noOutput text => { g with noOutput := some text }

end Setting

theorem limitText_solid (l : Option Nat) (k : List Char) :
    ∀ c ∈ (limitText l ++ k).head?, c ∉ [' ', '\t', '\n', '\r'] := by
  cases l with
  | none => simp [limitText]
  | some n =>
      obtain ⟨nonempty, all⟩ := Number.isDigits_toDigits n
      intro c first
      rw [limitText, List.head?_append_of_ne_nil _ nonempty] at first
      have digit : c.isDigit = true := all c (List.mem_of_mem_head? first)
      intro space
      fin_cases space <;> cases digit

theorem Setting.valueText_solid (setting : Setting) (k : List Char) :
    ∀ c ∈ (setting.valueText ++ k).head?, c ∉ [' ', '\t', '\n', '\r'] := by
  cases setting with
  | maxSteps limit => exact limitText_solid limit k
  | timeout limit => exact limitText_solid limit k
  | noOutput text => simp [Setting.valueText, Json.quoted]

/-- A member of a record: a name and a value, with a colon and space between them. -/
inductive Member : Setting → List Char → Prop
  | intro {setting : Setting} {u v : List Char} (valid : setting.IsValid) (before : Gap u)
      (behind : Gap v) :
      Member setting ((Json.quoted setting.key).toList ++ (u ++ ':' :: (v ++ setting.valueText)))

theorem outcome_member {g : Given} {setting : Setting} {s k : List Char}
    (written : Member setting s) (new : setting.IsNew g)
    (stop : ∀ c ∈ k.head?, c.isDigit = false) :
    (member g).outcome (s ++ k) = some (setting.add g, k) := by
  obtain ⟨valid, before, behind⟩ := written
  simp only [member, List.append_assoc, List.cons_append]
  rw [run_bind (outcome_quoted _ _), run_bind (outcome_space before (by simp)),
    run_bind (outcome_mark ':' _), run_bind (outcome_space behind (setting.valueText_solid k))]
  cases setting with
  | maxSteps limit =>
      rw [Setting.key, if_pos rfl, if_neg (by simp [show g.maxSteps = none from new]),
        Setting.valueText, run_bind (outcome_limit valid stop)]
      rfl
  | timeout limit =>
      rw [Setting.key, if_neg (by decide), if_pos rfl,
        if_neg (by simp [show g.timeout = none from new]), Setting.valueText,
        run_bind (outcome_limit valid stop)]
      rfl
  | noOutput text =>
      rw [Setting.key, if_neg (by decide), if_neg (by decide), if_pos rfl,
        if_neg (by simp [show g.noOutput = none from new]), Setting.valueText,
        run_bind (outcome_quoted text k)]
      rfl

/-- The members behind those that give `g`, each with a comma in front. -/
inductive Members : Given → List Char → Given → Prop
  | nil (g : Given) : Members g [] g
  | cons {g g' : Given} {setting : Setting} {u v s rest : List Char} (before : Gap u)
      (behind : Gap v) (first : Member setting s) (new : setting.IsNew g)
      (others : Members (setting.add g) rest g') :
      Members g (u ++ ',' :: (v ++ (s ++ rest))) g'

/-- The text of a record, with space around it. -/
inductive Record : Given → List Char → Prop
  | empty {u v w : List Char} (before : Gap u) (inside : Gap v) (behind : Gap w) :
      Record {} (u ++ '\x7b' :: (v ++ '\x7d' :: w))
  | members {g : Given} {setting : Setting} {u v v' w s rest : List Char} (before : Gap u)
      (inside : Gap v) (first : Member setting s) (others : Members (setting.add {}) rest g)
      (inside' : Gap v') (behind : Gap w) :
      Record g (u ++ '\x7b' :: (v ++ (s ++ (rest ++ (v' ++ '\x7d' :: w)))))

theorem Gap.noDigit {u k : List Char} (gap : Gap u) (stop : ∀ c ∈ k.head?, c.isDigit = false) :
    ∀ c ∈ (u ++ k).head?, c.isDigit = false := by
  cases u with
  | nil => exact stop
  | cons d u =>
      intro c first
      cases first
      have space := gap d List.mem_cons_self
      fin_cases space <;> rfl

theorem Members.noDigit {g g' : Given} {s k : List Char} (written : Members g s g')
    (stop : ∀ c ∈ k.head?, c.isDigit = false) : ∀ c ∈ (s ++ k).head?, c.isDigit = false := by
  cases written with
  | nil => exact stop
  | cons before _ _ _ _ =>
      rw [List.append_assoc]
      exact before.noDigit (by simp)

theorem Member.solid {setting : Setting} {s : List Char} (written : Member setting s)
    (k : List Char) : ∀ c ∈ (s ++ k).head?, c ∉ [' ', '\t', '\n', '\r'] := by
  obtain ⟨-, -, -⟩ := written
  simp [Json.quoted]

theorem outcome_members {g g' : Given} {s u : List Char} (written : Members g s g') (gap : Gap u)
    (k : List Char) :
    (extend (fun g => do space; mark ','; space; member g) g).outcome (s ++ (u ++ '\x7d' :: k)) =
      some (g', u ++ '\x7d' :: k) := by
  induction written with
  | nil g =>
      apply outcome_extend_of_none
      rw [List.nil_append, run_bind (outcome_space gap (by simp)),
        stop_bind (mark_eq_none (by decide) k)]
  | @cons g g' setting v w s rest before behind first new others ih =>
      have stop : ∀ c ∈ (rest ++ (u ++ '\x7d' :: k)).head?, c.isDigit = false :=
        others.noDigit (gap.noDigit (by simp))
      have one : (do space; mark ','; space; member g : Parser Given).outcome
          (v ++ ',' :: (w ++ (s ++ (rest ++ (u ++ '\x7d' :: k))))) =
            some (setting.add g, rest ++ (u ++ '\x7d' :: k)) := by
        rw [run_bind (outcome_space before (by simp)), run_bind (outcome_mark ',' _),
          run_bind (outcome_space behind (first.solid _)), outcome_member first new stop]
      have whole : v ++ ',' :: (w ++ (s ++ rest)) ++ (u ++ '\x7d' :: k) =
          v ++ ',' :: (w ++ (s ++ (rest ++ (u ++ '\x7d' :: k)))) := by
        simp
      rw [whole, outcome_extend_of_some one, ih]

theorem outcome_file {g : Given} {u v s : List Char} (before : Gap u) (behind : Gap v)
    (read : record.outcome ('\x7b' :: (s ++ v)) = some (g, v)) :
    file.outcome (u ++ '\x7b' :: (s ++ v)) = some (g, []) := by
  have ends : space.outcome v = some ((), []) := by
    simpa using outcome_space (k := []) behind (by simp)
  rw [file, run_bind (outcome_space before (by simp)), run_bind (run_choice read), run_bind ends,
    outcome_pure]

/-- A record is read as what it gives. -/
theorem readAll_record {g : Given} {s : List Char} (written : Record g s) (ending : Wanted) :
    file.readAll ending s = .ok g := by
  rw [readAll_eq_ok_iff]
  cases written with
  | @empty u v w before inside behind =>
      have whole : v ++ '\x7d' :: w = (v ++ ['\x7d']) ++ w := by simp
      have noMember : (member {}).outcome ('\x7d' :: w) = none :=
        stop_bind (stop_bind (stop_bind (mark_eq_none (by decide) w)))
      have noSpace : space.outcome ('\x7d' :: w) = some ((), '\x7d' :: w) :=
        outcome_space (u := []) (by simp [Gap]) (by simp)
      rw [whole]
      apply outcome_file before behind
      rw [← whole, record, run_bind (outcome_mark '\x7b' _),
        run_bind (outcome_space inside (by simp)), outcome_bind, next_choice (stop_bind noMember),
        outcome_pure, Option.bind_some, run_bind noSpace, run_bind (outcome_mark '\x7d' w),
        outcome_pure]
  | @members _ setting u v v' w s rest before inside first others inside' behind =>
      have whole : v ++ (s ++ (rest ++ (v' ++ '\x7d' :: w))) =
          (v ++ (s ++ (rest ++ (v' ++ ['\x7d'])))) ++ w := by
        simp
      have new : setting.IsNew {} := by cases setting <;> rfl
      have stop : ∀ c ∈ (rest ++ (v' ++ '\x7d' :: w)).head?, c.isDigit = false :=
        others.noDigit (inside'.noDigit (by simp))
      rw [whole]
      apply outcome_file before behind
      rw [← whole, record, run_bind (outcome_mark '\x7b' _),
        run_bind (outcome_space inside (first.solid _)),
        run_bind (run_choice ((run_bind (outcome_member first new stop)).trans
          (outcome_members others inside' w))),
        run_bind (outcome_space inside' (by simp)), run_bind (outcome_mark '\x7d' w), outcome_pure]

theorem read?_record {g : Given} {text : String} (written : Record g text.toList) :
    read? text = some g := by
  delta read?
  rw [readAll_record written 0]

end LineScript.Settings.File
