import LineScript.Proofs.Command.Settings
import LineScript.Proofs.Settings.File

/-! # Layers of settings

A limit is taken from the first layer that gives it a value: the flag, the variable of the
environment if its text spells a limit, the file, the default. What the other settings are given
does not matter for it.
-/

namespace LineScript.Settings

/-! ## Texts of variables -/

/-- A word for a limit. -/
inductive IsWordFor : Option Nat → List Char → Prop
  /-- No limit, in any letter case. -/
  | none {word : List Char}
      (letters : List.Forall₂ (· ∈ ·) word [['n', 'N'], ['o', 'O'], ['n', 'N'], ['e', 'E']]) :
      IsWordFor none word
  /-- A count, of which zero is no limit. -/
  | count {sign digits : List Char} (plus : sign = [] ∨ sign = ['+']) (some_ : digits ≠ [])
      (decimal : ∀ c ∈ digits, c ∈ "0123456789".toList)
      (bounded : Nat.ofDigitChars 10 digits 0 < 2 ^ 64) :
      IsWordFor (if Nat.ofDigitChars 10 digits 0 = 0 then none
        else some (Nat.ofDigitChars 10 digits 0)) (sign ++ digits)

/-- A text is a word for a limit, blanks around it aside. -/
def Spells (raw : String) (limit : Option Nat) : Prop :=
  ∃ before word behind, raw.toList = before ++ (word ++ behind) ∧ IsWordFor limit word ∧
    (∀ c ∈ before, Text.isBlank c = true) ∧ ∀ c ∈ behind, Text.isBlank c = true

theorem map_toLower_eq_none_iff {word : List Char} : word.map Char.toLower = "none".toList ↔
    List.Forall₂ (· ∈ ·) word [['n', 'N'], ['o', 'O'], ['n', 'N'], ['e', 'E']] := by
  have isN := Text.toLower_eq_iff (d := 'n') (by simp)
  have isO := Text.toLower_eq_iff (d := 'o') (by simp)
  have isE := Text.toLower_eq_iff (d := 'e') (by simp)
  constructor
  · intro same
    obtain ⟨n, o, n', e, rfl⟩ : ∃ n o n' e, word = [n, o, n', e] := by
      rw [← List.length_eq_four, ← List.length_map (f := Char.toLower), same]
      rfl
    simpa [isN, isO, isE] using same
  · intro letters
    rcases letters with _ | ⟨n, _ | ⟨o, _ | ⟨n', _ | ⟨e, _ | _⟩⟩⟩⟩
    simp only [List.mem_cons, List.not_mem_nil, or_false] at n o n' e
    simp [isN, isO, isE, n, o, n', e]

theorem readDigits?_eq_some_iff {digits : List Char} {n : Nat} :
    (if digits.isEmpty || !digits.all Char.isDigit then none
      else if Number.digitsValue digits < countBound then some (Number.digitsValue digits)
        else none) = some n ↔
      digits ≠ [] ∧ (∀ c ∈ digits, c ∈ "0123456789".toList) ∧
        Nat.ofDigitChars 10 digits 0 = n ∧ n < 2 ^ 64 := by
  have value : Number.digitsValue digits = Nat.ofDigitChars 10 digits 0 := by
    rw [Number.digitsValue_eq_foldl]
    exact Nat.ofDigitChars_eq_foldl.symm
  have decimal : digits.all Char.isDigit = true ↔ ∀ c ∈ digits, c ∈ "0123456789".toList := by
    rw [List.all_eq_true]
    simp only [Number.isDigit_iff_mem]
  have bound : countBound = 2 ^ 64 := rfl
  rw [value, ← decimal, bound]
  grind

theorem readCount?_eq_some_iff {word : List Char} {n : Nat} : readCount? word = some n ↔
    ∃ sign digits, word = sign ++ digits ∧ (sign = [] ∨ sign = ['+']) ∧ digits ≠ [] ∧
      (∀ c ∈ digits, c ∈ "0123456789".toList) ∧ Nat.ofDigitChars 10 digits 0 = n ∧ n < 2 ^ 64 := by
  unfold readCount?
  split
  · next digits =>
      refine readDigits?_eq_some_iff.trans
        ⟨fun spelled => ⟨['+'], digits, rfl, .inr rfl, spelled⟩, ?_⟩
      rintro ⟨sign, rest, split, rfl | rfl, spelled⟩
      · -- A plus is no digit.
        rw [List.nil_append] at split
        subst split
        exact absurd (spelled.2.1 '+' List.mem_cons_self) (by decide)
      · cases split
        exact spelled
  · next noPlus =>
      refine readDigits?_eq_some_iff.trans
        ⟨fun spelled => ⟨[], word, rfl, .inl rfl, spelled⟩, ?_⟩
      rintro ⟨sign, rest, rfl, rfl | rfl, spelled⟩
      · exact spelled
      · exact absurd rfl (noPlus rest)

theorem mem_of_letters {word : List Char}
    (letters : List.Forall₂ (· ∈ ·) word [['n', 'N'], ['o', 'O'], ['n', 'N'], ['e', 'E']]) :
    ∀ c ∈ word, c ∈ "noneNONE".toList := by
  have letter : ∀ l ∈ [['n', 'N'], ['o', 'O'], ['e', 'E']], ∀ c ∈ l, c ∈ "noneNONE".toList := by
    simp
  rcases letters with _ | ⟨isN, _ | ⟨isO, _ | ⟨isN', _ | ⟨isE, _ | _⟩⟩⟩⟩
  simp only [List.forall_mem_cons, List.not_mem_nil, false_implies, implies_true, and_true]
  exact ⟨letter _ (by simp) _ isN, letter _ (by simp) _ isO, letter _ (by simp) _ isN',
    letter _ (by simp) _ isE⟩

theorem IsWordFor.solid {limit : Option Nat} {word : List Char} (isWord : IsWordFor limit word) :
    ∀ c ∈ word, Text.isBlank c = false := by
  cases isWord with
  | none letters =>
      have solid : ∀ c ∈ "noneNONE".toList, Text.isBlank c = false := by simp [Text.isBlank]
      exact fun c member => solid c (mem_of_letters letters c member)
  | @count sign digits plus some_ decimal bounded =>
      intro c member
      rcases List.mem_append.mp member with inSign | inDigits
      · rcases plus with rfl | rfl
        · cases inSign
        · cases List.mem_singleton.mp inSign
          decide
      · exact Number.isBlank_of_isDigit (Number.isDigit_iff_mem.mpr (decimal c inDigits))

/-- A word is read as the limit that it is a word for. -/
theorem readWord?_eq_some_iff {word : List Char} {limit : Option Nat} :
    (if word.map Char.toLower = "none".toList then some none
      else (readCount? word).map limitOf) = some limit ↔ IsWordFor limit word := by
  split
  · next isNone =>
      have letters := map_toLower_eq_none_iff.mp isNone
      constructor
      · intro same
        cases same
        exact .none letters
      · intro isWord
        cases isWord with
        | none _ => rfl
        | @count sign digits plus some_ decimal bounded =>
            -- A digit is no letter.
            obtain ⟨c, member⟩ := List.exists_mem_of_ne_nil digits some_
            have isLetter := mem_of_letters letters c (List.mem_append_right sign member)
            have digit := Number.isDigit_iff_mem.mpr (decimal c member)
            fin_cases isLetter <;> cases digit
  · next notNone =>
      rw [Option.map_eq_some_iff]
      constructor
      · rintro ⟨n, read, rfl⟩
        obtain ⟨sign, digits, rfl, plus, some_, decimal, rfl, bounded⟩ :=
          readCount?_eq_some_iff.mp read
        exact .count plus some_ decimal bounded
      · intro isWord
        cases isWord with
        | none letters => exact absurd (map_toLower_eq_none_iff.mpr letters) notNone
        | count plus some_ decimal bounded =>
            have read := readCount?_eq_some_iff.mpr
              ⟨_, _, rfl, plus, some_, decimal, rfl, bounded⟩
            exact ⟨_, read, rfl⟩

/-- A variable is read as the limit that its text spells. -/
theorem readLimit?_eq_some_iff {raw : String} {limit : Option Nat} :
    readLimit? raw = some limit ↔ Spells raw limit := by
  refine readWord?_eq_some_iff.trans ⟨fun isWord => ?_, ?_⟩
  · obtain ⟨before, behind, split, blank, blank'⟩ := Text.exists_trim raw.toList
    exact ⟨before, _, behind, split, isWord, blank, blank'⟩
  · rintro ⟨before, word, behind, split, isWord, blank, blank'⟩
    rwa [split, Text.trim_between blank isWord.solid blank']

/-! ## Layers -/

/-- What a limit is set to by a flag, a variable of the environment, a file and a default. -/
inductive Layered (asked : Option Nat) (variable_ : Option String) (written : Option (Option Nat))
    (standard : Option Nat) : Option Nat → Prop
  /-- The flag, of which zero is no limit. -/
  | flag {n : Nat} (given : asked = some n) :
      Layered asked variable_ written standard (if n = 0 then none else some n)
  /-- The variable, if there is no flag. -/
  | environment {raw : String} {limit : Option Nat} (noFlag : asked = none)
      (given : variable_ = some raw) (spells : Spells raw limit) :
      Layered asked variable_ written standard limit
  /-- The file, if the variable spells no limit. Zero stays zero here. -/
  | file {limit : Option Nat} (noFlag : asked = none)
      (skipped : ∀ raw ∈ variable_, ∀ limit, ¬ Spells raw limit) (given : written = some limit) :
      Layered asked variable_ written standard limit
  | default (noFlag : asked = none) (skipped : ∀ raw ∈ variable_, ∀ limit, ¬ Spells raw limit)
      (noFile : written = none) : Layered asked variable_ written standard standard

theorem layered_iff {asked : Option Nat} {variable_ : Option String} {written : Option (Option Nat)}
    {standard limit : Option Nat} :
    (asked.map limitOf).getD ((variable_.bind readLimit?).getD (written.getD standard)) = limit ↔
      Layered asked variable_ written standard limit := by
  cases asked with
  | some n =>
      constructor
      · rintro rfl
        exact .flag rfl
      · intro layered
        cases layered with
        | flag given => cases given; rfl
        | environment noFlag _ _ => cases noFlag
        | file noFlag _ _ => cases noFlag
        | default noFlag _ _ => cases noFlag
  | none =>
      cases read : variable_.bind readLimit? with
      | some spelled =>
          obtain ⟨raw, rfl, found⟩ := Option.bind_eq_some_iff.mp read
          constructor
          · rintro rfl
            exact .environment rfl rfl (readLimit?_eq_some_iff.mp found)
          · intro layered
            cases layered with
            | flag given => cases given
            | environment _ given spells =>
                cases given
                rw [readLimit?_eq_some_iff.mpr spells] at found
                cases found
                rfl
            | file _ skipped _ => exact absurd (readLimit?_eq_some_iff.mp found) (skipped raw rfl _)
            | default _ skipped _ =>
                exact absurd (readLimit?_eq_some_iff.mp found) (skipped raw rfl _)
      | none =>
          have skipped : ∀ raw ∈ variable_, ∀ limit, ¬ Spells raw limit := by
            rintro raw rfl limit spells
            rw [Option.bind_some, readLimit?_eq_some_iff.mpr spells] at read
            cases read
          constructor
          · rintro rfl
            cases written with
            | some limit => exact .file rfl skipped rfl
            | none => exact .default rfl skipped rfl
          · intro layered
            cases layered with
            | flag given => cases given
            | environment _ given spells => exact absurd spells (skipped _ given _)
            | file _ _ given => cases given; rfl
            | default _ _ noFile => cases noFile; rfl

theorem withEnvironment_withEnvironment (s : Settings) (env : String → Option String) :
    (s.withEnvironment env).withEnvironment env = s.withEnvironment env := by
  have twice : ∀ {α : Type} (found : Option α) (a : α),
      found.getD (found.getD a) = found.getD a := by
    intro α found a
    cases found <;> rfl
  rw [withEnvironment, Settings.mk.injEq]
  exact ⟨twice _ _, twice _ _, twice _ _⟩

end LineScript.Settings

namespace LineScript

open Settings

/-- With any valid settings file or with none, the settings of a run are found, whatever the host is
    and however it reads files and takes them for settings. Each limit is taken from the first layer
    that gives it a value, and so is the text for no output, whatever the other settings are given.
    A second look at the environment changes nothing. One way to take files for settings finds what
    is written in a record as it is written. -/
theorem settings_of_layers {σ : Type} (host : Host (StateM σ)) (env : String → Option String)
    (maxSteps timeout : Option Nat) :
    (∀ s config given s', host.Gives s config given s' →
      ∃ settings, (runSettings host env config maxSteps timeout).run s = (.ok settings, s') ∧
        (∀ limit, settings.maxSteps = limit ↔
          Layered maxSteps (env "NANO_MAX_STEPS") given.maxSteps (some 1000000) limit) ∧
        (∀ limit, settings.timeout = limit ↔
          Layered timeout (env "NANO_TIMEOUT_MS") given.timeout none limit) ∧
        settings.noOutput = ((env "NANO_NO_OUTPUT").or given.noOutput).getD "(no output)") ∧
    (∀ s : Settings, (s.withEnvironment env).withEnvironment env = s.withEnvironment env) ∧
    ∀ given (text : String), File.Record given text.toList → File.read? text = some given := by
  refine ⟨fun s config given s' gives => ?_, fun s => withEnvironment_withEnvironment s env,
    fun given text => File.read?_record⟩
  refine ⟨(given.settings.withEnvironment env).withFlags maxSteps timeout, gives.run_runSettings,
    fun limit => layered_iff, fun limit => layered_iff, ?_⟩
  show (env "NANO_NO_OUTPUT").getD (given.noOutput.getD "(no output)") = _
  cases env "NANO_NO_OUTPUT" <;> rfl

/-- A settings file that allows no step at all. -/
def strictText : String :=
  "\x7b\n  \"timeout_ms\" : 250, \"max_steps\": 0\n\x7d"

/-- A tree with that file above the working directory. -/
def strictStore : Store :=
  [(["strict.json"], .file strictText.toUTF8), (["work"], .directory)]

/-- One count too many, and one that counts only where there is no flag. -/
def crowdedVariables : String → Option String
  | "NANO_MAX_STEPS" => some "18446744073709551616"
  | "NANO_TIMEOUT_MS" => some "\t+007 "
  | "NANO_NO_OUTPUT" => some ""
  | _ => none

theorem read_strictStore : strictStore.readFrom ["work"] "../strict.json" = .ok strictText := by
  have place : strictStore.locate ["work"] "../strict.json".toList = .ok ["strict.json"] := by
    decide +kernel
  have content : String.fromUTF8? strictText.toByteArray = some strictText :=
    dif_pos strictText.isValidUTF8
  rw [Store.readFrom, place]
  simp [bind, Except.bind, Store.find?, strictStore, content]

theorem record_strictText :
    File.Record ⟨some (some 0), some (some 250), none⟩ strictText.toList := by
  have timeout := @File.Member.intro (.timeout (some 250)) " ".toList " ".toList
    (by simp [File.Setting.IsValid]) (by simp [File.Gap]) (by simp [File.Gap])
  have maxSteps := @File.Member.intro (.maxSteps (some 0)) [] " ".toList
    (by simp [File.Setting.IsValid]) (by simp [File.Gap]) (by simp [File.Gap])
  have written := @File.Record.members _ _ [] "\n  ".toList "\n".toList [] _ _ (by simp [File.Gap])
    (by simp [File.Gap]) timeout
    (@File.Members.cons _ _ _ [] " ".toList _ _ (by simp [File.Gap]) (by simp [File.Gap]) maxSteps
      rfl (.nil _)) (by simp [File.Gap]) (by simp [File.Gap])
  exact Eq.mp (congrArg (File.Record _) (by decide +kernel)) written

/-- The count beyond the bound is passed over for the zero of the file, which is no step here. The
    zero of the flag is no limit. -/
theorem settings_of_layers_strict :
    ∃ settings, (runSettings (Store.hostAt ["work"] id) crowdedVariables (some "../strict.json")
        none (some 0)).run strictStore = (.ok settings, strictStore) ∧
      settings.maxSteps = some 0 ∧ settings.timeout = none ∧ settings.noOutput = "" := by
  obtain ⟨found, -, written⟩ :=
    settings_of_layers (Store.hostAt ["work"] id) crowdedVariables none (some 0)
  have read : ((Store.hostAt ["work"] id).read "../strict.json").run strictStore =
      (.ok strictText, strictStore) := congrArg (·, strictStore) read_strictStore
  obtain ⟨settings, run, maxSteps, timeout, noOutput⟩ :=
    found _ _ _ _ (.file read (written _ _ record_strictText))
  have skipped : ∀ raw ∈ crowdedVariables "NANO_MAX_STEPS", ∀ limit, ¬ Spells raw limit := by
    rintro raw given limit spells
    have read := readLimit?_eq_some_iff.mpr spells
    cases given
    have none_ : readLimit? "18446744073709551616" = none := by decide +kernel
    rw [none_] at read
    cases read
  exact ⟨settings, run, (maxSteps _).mpr (.file rfl skipped rfl), (timeout _).mpr (.flag rfl),
    noOutput⟩

end LineScript
