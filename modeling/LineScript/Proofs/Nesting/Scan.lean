import LineScript.Proofs.Grammar.Literal
import LineScript.Proofs.Nesting.Trace
import LineScript.Script.Nesting

/-! # How the scan for brackets cuts a text

The scan goes over a text once and only keeps the mode it is in. What it takes for a literal and
what for a comment can be read off the modes: `cut` gives the pieces. Counting the brackets among
the plain pieces is then what the scan does, and the pieces of a literal or a comment that stands
at the front of a text are found no matter what follows.
-/

namespace LineScript.Nesting

/-- The pieces that the scan is in the midst of, `read` being the characters of them that it has
    passed, the last in front. -/
def Mode.begun (mode : Mode) (read : List Char) : List Piece :=
  match mode with
  | .code => []
  | .slash => [.plain '/']
  | .quoted _ | .escaped _ => [.literal read.reverse]
  | .lineComment | .blockComment _ => [.comment read.reverse]

/-- The pieces of the rest of a text and of what the scan is in the midst of. A line feed that ends
    a comment or a literal is no part of it. -/
def cutFrom (mode : Mode) (read : List Char) : List Char → List Piece
  | [] => mode.begun read
  | c :: s =>
      if mode.isPlain c then
        if Mode.behind c = .code then mode.begun read ++ .plain c :: cutFrom .code [] s
        else mode.begun read ++ cutFrom (Mode.behind c) [c] s
      else if mode.next c ≠ .code then cutFrom (mode.next c) (c :: read) s
      else if c = '\n' then mode.begun read ++ .plain c :: cutFrom .code [] s
      else mode.begun (c :: read) ++ cutFrom .code [] s

/-- The pieces of a text as the scan takes it. -/
def cut (s : List Char) : List Piece :=
  cutFrom .code [] s

/-- What the scan has passed of the pieces it is in the midst of. -/
def Mode.Passed : Mode → List Char → Prop
  | .code, read => read = []
  | .slash, read => read = ['/']
  | _, _ => True

namespace Mode

variable {mode : Mode} {read : List Char} {c : Char}

theorem text_begun (passed : mode.Passed read) :
    (mode.begun read).flatMap Piece.text = read.reverse := by
  cases mode with
  | code => simp_all [Passed, begun]
  | slash => simp_all [Passed, begun, Piece.text]
  | quoted | escaped | lineComment | blockComment => simp [begun, Piece.text]

theorem passed_behind (other : behind c ≠ .code) : (behind c).Passed [c] := by
  unfold behind at other ⊢
  split
  · trivial
  · split
    · next slash => rw [slash]; rfl
    · simp_all

theorem next_of_isPlain (plain : mode.isPlain c = true) : mode.next c = behind c := by
  cases mode with
  | code => rfl
  | slash => simp_all [isPlain, next]
  | quoted | escaped | lineComment | blockComment => simp [isPlain] at plain

theorem passed_next (notPlain : mode.isPlain c = false) (read : List Char) :
    (mode.next c = .code ∧ mode.Passed (c :: read)) ∨ (mode.next c).Passed (c :: read) := by
  cases mode with
  | code => simp [isPlain] at notPlain
  | slash =>
      have mark : c = '/' ∨ c = '*' := by
        by_contra other
        simp_all [isPlain]
      rcases mark with rfl | rfl <;> exact .inr trivial
  | escaped q => exact .inr trivial
  | quoted | lineComment | blockComment =>
      simp only [next]
      split_ifs <;> simp [Passed]

end Mode

/-- Nothing of a text is lost, and nothing is added. -/
theorem text_cutFrom {mode : Mode} {read : List Char} (passed : mode.Passed read) (s : List Char) :
    (cutFrom mode read s).flatMap Piece.text = read.reverse ++ s := by
  induction s generalizing mode read with
  | nil => rw [cutFrom, Mode.text_begun passed, List.append_nil]
  | cons c s ih =>
      have whole : (cutFrom .code [] s).flatMap Piece.text = s := @ih .code [] rfl
      rw [cutFrom]
      split
      · split
        · simp [Mode.text_begun passed, whole, Piece.text]
        · next other => simp [Mode.text_begun passed, ih (Mode.passed_behind other)]
      · next notPlain =>
          have go := Mode.passed_next (by simpa using notPlain) read
          split
          · next other => simp [ih (go.resolve_left fun both => other both.1)]
          · split
            · simp [Mode.text_begun passed, whole, Piece.text]
            · next done _ =>
                have ended : mode.Passed (c :: read) := by
                  rcases go with both | other
                  · exact both.2
                  · rw [not_not.mp done] at other
                    cases other
                simp [Mode.text_begun ended, whole]

theorem text_cut (s : List Char) : (cut s).flatMap Piece.text = s :=
  @text_cutFrom .code [] rfl s

/-! ## Counting -/

/-- The number of open brackets behind a piece. -/
def depthBehind (depth : Nat) : Piece → Nat
  | .plain c => if isOpening c then depth + 1 else if isClosing c then depth - 1 else depth
  | .literal _ | .comment _ => depth

/-- No more brackets than the limit are open anywhere. -/
def Within (depth : Nat) (w : List Piece) : Prop :=
  ∀ v, v <+: w → v.foldl depthBehind depth ≤ limit

theorem within_nil {depth : Nat} : Within depth [] ↔ depth ≤ limit := by
  simp [Within]

theorem within_cons {depth : Nat} {piece : Piece} {w : List Piece} :
    Within depth (piece :: w) ↔ depth ≤ limit ∧ Within (depthBehind depth piece) w := by
  constructor
  · intro within
    refine ⟨within [] List.nil_prefix, ?_⟩
    intro v front
    exact within (piece :: v) ((List.prefix_cons_inj piece).mpr front)
  · rintro ⟨here, within⟩ v front
    cases v with
    | nil => exact here
    | cons p v =>
        obtain ⟨rfl, more⟩ := List.cons_prefix_cons.mp front
        exact within v more

theorem Within.here {depth : Nat} {w : List Piece} (within : Within depth w) : depth ≤ limit :=
  within [] List.nil_prefix

/-- Pieces that the scan is in the midst of hold no bracket. -/
theorem within_begun {mode : Mode} {read : List Char} {depth : Nat} {w : List Piece} :
    Within depth (mode.begun read ++ w) ↔ Within depth w := by
  have skip : ∀ piece : Piece, depthBehind depth piece = depth →
      (Within depth (piece :: w) ↔ Within depth w) := by
    intro piece same
    rw [within_cons, same]
    exact ⟨And.right, fun within => ⟨within.here, within⟩⟩
  cases mode with
  | code => rfl
  | slash => exact skip (.plain '/') rfl
  | quoted | escaped | lineComment | blockComment => exact skip _ rfl

theorem behind_of_isOpening {c : Char} (opening : isOpening c = true) :
    Mode.behind c = .code := by
  simp only [isOpening, Bool.or_eq_true, beq_iff_eq] at opening
  rcases opening with (rfl | rfl) | rfl <;> rfl

theorem behind_of_isClosing {c : Char} (closing : isClosing c = true) :
    Mode.behind c = .code := by
  simp only [isClosing, Bool.or_eq_true, beq_iff_eq] at closing
  rcases closing with (rfl | rfl) | rfl <;> rfl

/-- The scan counts the brackets among its pieces. -/
theorem withinFrom_iff {mode : Mode} {depth : Nat} (fits : depth ≤ limit) (read s : List Char) :
    withinFrom mode depth s = true ↔ Within depth (cutFrom mode read s) := by
  induction s generalizing mode depth read with
  | nil =>
      rw [cutFrom, ← List.append_nil (mode.begun read), within_begun, within_nil]
      simp [withinFrom, fits]
  | cons c s ih =>
      rw [withinFrom, cutFrom]
      by_cases plain : mode.isPlain c = true
      · simp only [plain, Bool.true_and, if_true, Mode.next_of_isPlain plain]
        by_cases opening : isOpening c = true
        · have code : Mode.behind c = .code := behind_of_isOpening opening
          rw [if_pos opening, if_pos code, within_begun, within_cons, code, depthBehind,
            if_pos opening]
          by_cases room : depth < limit
          · simp [room, fits, @ih .code _ room []]
          · simp only [room, decide_false, Bool.false_and, Bool.false_eq_true, false_iff]
            intro within
            exact room within.2.here
        · by_cases closing : isClosing c = true
          · have code : Mode.behind c = .code := behind_of_isClosing closing
            rw [if_neg opening, if_pos closing, if_pos code, within_begun, within_cons, code,
              depthBehind, if_neg opening, if_pos closing, ih (by omega) []]
            simp [fits]
          · rw [if_neg opening, if_neg closing]
            split
            · next code =>
                rw [within_begun, within_cons, code, depthBehind, if_neg opening, if_neg closing,
                  ih fits []]
                simp [fits]
            · rw [within_begun, ih fits _]
      · simp only [plain, Bool.false_and, Bool.false_eq_true, if_false]
        split
        · exact ih fits _
        · next done =>
            have code : mode.next c = .code := not_not.mp done
            rw [code]
            split
            · next feed =>
                subst feed
                rw [within_begun, within_cons, ih fits []]
                simp [fits, depthBehind, isOpening, isClosing]
            · rw [within_begun, ih fits _]

/-- A text is within the limit if no more brackets than that are open anywhere in its pieces. -/
theorem isWithin_iff (s : List Char) : isWithin s = true ↔ Within 0 (cut s) :=
  withinFrom_iff (Nat.zero_le _) [] s

/-- A text with few brackets is within the limit, however they stand. -/
theorem withinFrom_of_countP {mode : Mode} {depth : Nat} {s : List Char}
    (few : depth + s.countP isOpening ≤ limit) : withinFrom mode depth s = true := by
  induction s generalizing mode depth with
  | nil => rfl
  | cons c s ih =>
      rw [List.countP_cons] at few
      rw [withinFrom]
      split
      · next opening =>
          simp only [Bool.and_eq_true] at opening
          rw [if_pos opening.2] at few
          simp only [Bool.and_eq_true, decide_eq_true_eq]
          exact ⟨by omega, ih (by omega)⟩
      · split
        · exact ih (by omega)
        · exact ih (by omega)

/-! ## Pieces at the front -/

section Front

variable {c d q : Char} {s k rest : List Char}

theorem cut_plain (code : Mode.behind c = .code) : cut (c :: s) = .plain c :: cut s := by
  simp [cut, cutFrom, Mode.isPlain, Mode.begun, code]

theorem cut_word {u : List Char} (code : ∀ c ∈ u, Mode.behind c = .code) (k : List Char) :
    cut (u ++ k) = u.map .plain ++ cut k := by
  induction u with
  | nil => rfl
  | cons c u ih =>
      rw [List.cons_append, cut_plain (code c (by simp)),
        ih fun d member => code d (by simp [member])]
      rfl

/-- A slash that starts no comment is plain. -/
theorem cut_slash (line : d ≠ '/') (block : d ≠ '*') :
    cut ('/' :: d :: s) = .plain '/' :: cut (d :: s) := by
  have slash : Mode.behind '/' = .slash := rfl
  simp only [cut, cutFrom, Mode.isPlain, Mode.begun, slash]
  by_cases code : Mode.behind d = .code <;> simp [line, block, code]

theorem cutFrom_lineComment (read s : List Char) :
    cutFrom .lineComment read s =
      .comment (read.reverse ++ s.takeWhile (· != '\n')) :: cut (s.dropWhile (· != '\n')) := by
  induction s generalizing read with
  | nil => simp [cutFrom, Mode.begun, cut]
  | cons c s ih =>
      by_cases feed : c = '\n'
      · subst feed
        have code : Mode.behind '\n' = .code := rfl
        simp [cutFrom, Mode.isPlain, Mode.next, Mode.begun, cut, code]
      · simp [cutFrom, Mode.isPlain, Mode.next, feed, ih]

/-- A comment that ends with its line. -/
theorem cut_lineComment (s : List Char) :
    cut ('/' :: '/' :: s) =
      .comment ('/' :: '/' :: s.takeWhile (· != '\n')) :: cut (s.dropWhile (· != '\n')) := by
  have slash : Mode.behind '/' = .slash := rfl
  simp [cut, cutFrom, Mode.isPlain, Mode.begun, Mode.next, slash, cutFrom_lineComment]

private theorem cutFrom_blockComment (starred : Bool)
    (closed : Text.behind? "*/".toList (if starred then '*' :: s else s) = some rest)
    (read : List Char) :
    ∃ t, s = t ++ rest ∧
      cutFrom (.blockComment starred) read s = .comment (read.reverse ++ t) :: cut rest := by
  induction s generalizing starred read with
  | nil => cases starred <;> simp [Text.behind?, Text.after?] at closed
  | cons c s ih =>
      by_cases last : starred = true ∧ c = '/'
      · obtain ⟨rfl, rfl⟩ := last
        simp [Text.behind?, Text.after?] at closed
        subst closed
        exact ⟨['/'], rfl, by simp [cutFrom, Mode.isPlain, Mode.next, Mode.begun, cut]⟩
      · have closed' : Text.behind? "*/".toList (c :: s) = some rest := by
          cases starred with
          | false => exact closed
          | true =>
              simpa [Text.behind?, Text.after?, Ne.symm (by simpa using last : c ≠ '/')] using closed
        have closed'' :
            Text.behind? "*/".toList (if (c = '*' : Bool) then '*' :: s else s) = some rest := by
          by_cases star : c = '*'
          · simpa [star] using closed'
          · simpa [star, Text.behind?, Text.after?, Ne.symm star] using closed'
        obtain ⟨t, rfl, same⟩ := ih (c = '*') closed'' (c :: read)
        refine ⟨c :: t, rfl, ?_⟩
        simp [cutFrom, Mode.isPlain, Mode.next, last, same]

/-- A comment that is closed. -/
theorem cut_blockComment (closed : Text.behind? "*/".toList s = some rest) :
    ∃ t, s = t ++ rest ∧ cut ('/' :: '*' :: s) = .comment ('/' :: '*' :: t) :: cut rest := by
  obtain ⟨t, split, same⟩ := cutFrom_blockComment false closed ['*', '/']
  refine ⟨t, split, ?_⟩
  have slash : Mode.behind '/' = .slash := rfl
  simpa [cut, cutFrom, Mode.isPlain, Mode.begun, Mode.next, slash] using same

theorem cutFrom_quoted_append {h : List Char}
    (inside : ∀ c ∈ h, (c != q && c != '\\' && c != '\n') = true) (read : List Char) :
    cutFrom (.quoted q) read (h ++ k) = cutFrom (.quoted q) (h.reverse ++ read) k := by
  induction h generalizing read with
  | nil => rfl
  | cons c h ih =>
      have here := inside c (by simp)
      simp only [Bool.and_eq_true, bne_iff_ne] at here
      rw [List.cons_append, cutFrom, if_neg (by simp [Mode.isPlain]),
        if_pos (by simp [Mode.next, here])]
      simp [Mode.next, here, ih fun d member => inside d (by simp [member])]

/-- The character behind a backslash ends no literal, whatever it is, and the digits behind a `u`
    end none since they are no quotes. -/
theorem cutFrom_escaped {e : List Char} {c : Char} {follow : List Char}
    (noHex : Grammar.isHex q = false)
    (escaped : Grammar.Escaped e c follow) (read k : List Char) :
    cutFrom (.quoted q) read ('\\' :: (e ++ k)) =
      cutFrom (.quoted q) (e.reverse ++ '\\' :: read) k := by
  have behind : ∀ d t, cutFrom (.quoted q) read ('\\' :: d :: t) =
      cutFrom (.quoted q) (d :: '\\' :: read) t := by
    intro d t
    simp [cutFrom, Mode.isPlain, Mode.next]
  cases escaped with
  | control => exact behind _ _
  | self => exact behind _ _
  | @unicode h _ _ length all value =>
      have inside : ∀ c ∈ h, (c != q && c != '\\' && c != '\n') = true := by
        intro d member
        have hex := List.all_eq_true.mp all d member
        simp only [Bool.and_eq_true, bne_iff_ne]
        refine ⟨⟨?_, ?_⟩, ?_⟩ <;> rintro rfl
        · simp [noHex] at hex
        · revert hex; decide
        · revert hex; decide
      rw [List.cons_append, behind, cutFrom_quoted_append inside]
      simp

theorem cutFrom_quoted {body cs : List Char} (noHex : Grammar.isHex q = false) (slash : q ≠ '\\')
    (feed : q ≠ '\n') (quoted : Grammar.Quoted q body cs) (read k : List Char) :
    cutFrom (.quoted q) read (body ++ q :: k) = .literal (read.reverse ++ body ++ [q]) :: cut k := by
  induction quoted generalizing read with
  | nil => simp [cutFrom, Mode.isPlain, Mode.next, Mode.begun, slash, feed, cut]
  | @plain c s cs plain _ ih =>
      have one := cutFrom_quoted_append (h := [c]) (k := s ++ q :: k) (by simpa using plain) read
      simp only [List.singleton_append, List.reverse_singleton] at one
      rw [List.cons_append, one, ih]
      simp
  | @escaped e c s cs escaped _ ih =>
      rw [List.cons_append, List.append_assoc, cutFrom_escaped noHex escaped, ih]
      simp

/-- A text literal. -/
theorem cut_literal {u cs : List Char} (isText : Grammar.TextLiteral u cs) (k : List Char) :
    cut (u ++ k) = .literal u :: cut k := by
  have start : ∀ q, q = '"' ∨ q = '\'' → ∀ s, cut (q :: s) = cutFrom (.quoted q) [q] s := by
    rintro q (rfl | rfl) s <;> simp [cut, cutFrom, Mode.isPlain, Mode.begun, Mode.behind]
  cases isText with
  | double quoted =>
      rw [List.cons_append, List.append_assoc, start _ (.inl rfl)]
      exact cutFrom_quoted (by decide) (by decide) (by decide) quoted _ k
  | single quoted =>
      rw [List.cons_append, List.append_assoc, start _ (.inr rfl)]
      exact cutFrom_quoted (by decide) (by decide) (by decide) quoted _ k

end Front

end LineScript.Nesting
