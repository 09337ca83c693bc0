import LineScript.Command.Request
import LineScript.Proofs.Except
import LineScript.Proofs.Text.Pieces

/-! # Where options come from

Nothing is asked for that the words do not say: an option that has been read stands in the words by
its long name or its letter, with its value in the same word or in the next one, and the command and
what it works on are words themselves.
-/

namespace LineScript

namespace Switch

/-- A word ends in an option, by its long name or its letter, and leaves its value to the next. -/
def Awaits (switch : Switch) (word : String) : Prop :=
  word.toList = '-' :: '-' :: switch.long.toList ∨
    ∃ c letters, switch.short = some c ∧ word.toList = '-' :: (letters ++ [c])

/-- The words ask for an option with a value; the value of a flag is empty. -/
inductive Given (switch : Switch) (args : List String) : String → Prop where
  /-- A flag by its long name. -/
  | flag {word} : switch.action = .flag → word ∈ args →
      word.toList = '-' :: '-' :: switch.long.toList → Given switch args ""
  /-- A flag by its letter, among others. -/
  | letter {word c before behind} : switch.action = .flag → switch.short = some c → word ∈ args →
      word.toList = '-' :: (before ++ c :: behind) → Given switch args ""
  /-- The long name with the value behind an equals sign. -/
  | long {word value} : switch.action ≠ .flag → word ∈ args →
      word.toList = '-' :: '-' :: (switch.long.toList ++ '=' :: value) →
      Given switch args (String.ofList value)
  /-- The letter with the value behind it. -/
  | joined {word c before value} : switch.action ≠ .flag → switch.short = some c → word ∈ args →
      word.toList = '-' :: (before ++ c :: value) ∨
        word.toList = '-' :: (before ++ c :: '=' :: value) →
      Given switch args (String.ofList value)
  /-- The name with the value in the next word. -/
  | next {word value before behind} : switch.action ≠ .flag →
      args = before ++ word :: value :: behind → switch.Awaits word → Given switch args value

theorem Given.append {switch : Switch} {args : List String} {value : String}
    (given : switch.Given args value) (front : List String) :
    switch.Given (front ++ args) value := by
  cases given with
  | flag isFlag member spelled => exact .flag isFlag (List.mem_append_right _ member) spelled
  | letter isFlag short member spelled =>
      exact .letter isFlag short (List.mem_append_right _ member) spelled
  | long noFlag member spelled => exact .long noFlag (List.mem_append_right _ member) spelled
  | joined noFlag short member spelled =>
      exact .joined noFlag short (List.mem_append_right _ member) spelled
  | next noFlag split awaits => exact .next noFlag (by rw [split, List.append_assoc]) awaits

end Switch

namespace Words

/-- What has been read stands in the words. -/
structure Stems (switches : List Switch) (args : List String) (w : Words) : Prop where
  option : ∀ long value, (long, value) ∈ w.options →
    ∃ switch ∈ switches, switch.long = long ∧ switch.Given args value
  input : ∀ input ∈ w.input, input ∈ args

variable {switches : List Switch} {args : List String} {switch : Switch} {w w' : Words}
  {value : String}

theorem Stems.empty : Stems switches args {} := ⟨by simp, by simp⟩

theorem Stems.add (stems : w.Stems switches args) (member : switch ∈ switches)
    (given : switch.Given args value) (added : w.add switch value = .ok w') :
    w'.Stems switches args := by
  unfold Words.add at added
  split at added
  · cases added
  · cases added
    refine ⟨fun long value' found => ?_, stems.input⟩
    rcases List.mem_cons.mp found with same | before
    · obtain ⟨rfl, rfl⟩ := Prod.mk.inj same
      exact ⟨switch, member, rfl, given⟩
    · exact stems.option long value' before

theorem add_of_addFlag (added : w.addFlag switch = .ok w') :
    switch.action = .flag ∧ w.add switch "" = .ok w' := by
  unfold addFlag at added
  split at added
  · next isFlag => exact ⟨isFlag, added⟩
  · cases added
  · cases added

theorem add_of_addValue (added : w.addValue switch value = .ok w') :
    switch.action ≠ .flag ∧ w.add switch value = .ok w' := by
  unfold addValue at added
  split at added
  · next action => exact ⟨by simp [action], added⟩
  · next action =>
      split at added
      · cases added
      · exact ⟨by simp [action], added⟩
  · next action =>
      split at added
      · exact ⟨by simp [action], added⟩
      · cases added
  · cases added
  · cases added

/-- What letters behind one dash add stands in their word. -/
theorem Stems.addLetters {word : String} {before letters : List Char} {pending : Option Switch}
    (stems : w.Stems switches args) (member : word ∈ args)
    (spelled : word.toList = '-' :: (before ++ letters))
    (added : Words.addLetters switches w letters = .ok (w', pending)) :
    w'.Stems switches args ∧ ∀ switch ∈ pending, switch ∈ switches ∧ switch.Awaits word := by
  induction letters generalizing w before with
  | nil =>
      cases added
      exact ⟨stems, by simp⟩
  | cons c rest ih =>
      unfold Words.addLetters at added
      cases found : switches.find? (·.short = some c) with
      | none => simp [found] at added
      | some switch =>
          have known := List.mem_of_find?_eq_some found
          have short : switch.short = some c := by simpa using List.find?_some found
          simp only [found] at added
          split at added
          · cases added
            refine ⟨stems, fun switch' same => ?_⟩
            obtain rfl := Option.mem_some_iff.mp same
            exact ⟨known, .inr ⟨c, before, short, spelled⟩⟩
          · obtain ⟨w₁, step, ⟨⟩⟩ := bind_eq_ok.mp added
            obtain ⟨noFlag, step⟩ := add_of_addValue step
            exact ⟨stems.add known (.joined noFlag short member (.inr spelled)) step, by simp⟩
          · obtain ⟨w₁, step, ⟨⟩⟩ := bind_eq_ok.mp added
            obtain ⟨noFlag, step⟩ := add_of_addValue step
            exact ⟨stems.add known (.joined noFlag short member (.inl spelled)) step, by simp⟩
          · obtain ⟨w₁, step, later⟩ := bind_eq_ok.mp added
            obtain ⟨isFlag, step⟩ := add_of_addFlag step
            have added := stems.add known (.letter isFlag short member spelled) step
            rw [List.append_cons] at spelled
            exact ih added spelled later

/-- What a word behind two dashes adds stands in that word. -/
theorem Stems.addLong {word : String} {s : List Char} {pending : Option Switch}
    (stems : w.Stems switches args) (member : word ∈ args)
    (spelled : word.toList = '-' :: '-' :: s)
    (added : Words.addLong switches w s = .ok (w', pending)) :
    w'.Stems switches args ∧ ∀ switch ∈ pending, switch ∈ switches ∧ switch.Awaits word := by
  unfold Words.addLong at added
  cases cut : Text.cut? '=' s with
  | some parts =>
      obtain ⟨name, value⟩ := parts
      obtain ⟨rfl, -⟩ := Text.cut?_eq_some_iff.mp cut
      cases found : switches.find? (·.long = String.ofList name) with
      | none => simp [cut, found] at added
      | some switch =>
          have known := List.mem_of_find?_eq_some found
          have long : switch.long = String.ofList name := by simpa using List.find?_some found
          simp only [cut, found] at added
          obtain ⟨w₁, step, ⟨⟩⟩ := bind_eq_ok.mp added
          obtain ⟨noFlag, step⟩ := add_of_addValue step
          have given : switch.Given args (String.ofList value) :=
            .long noFlag member (by rw [spelled, long, String.toList_ofList])
          exact ⟨stems.add known given step, by simp⟩
  | none =>
      cases found : switches.find? (·.long = String.ofList s) with
      | none => simp [cut, found] at added
      | some switch =>
          have known := List.mem_of_find?_eq_some found
          have long : switch.long = String.ofList s := by simpa using List.find?_some found
          have whole : word.toList = '-' :: '-' :: switch.long.toList := by
            rw [spelled, long, String.toList_ofList]
          simp only [cut, found] at added
          split at added
          · cases added
            refine ⟨stems, fun switch' same => ?_⟩
            obtain rfl := Option.mem_some_iff.mp same
            exact ⟨known, .inl whole⟩
          · obtain ⟨w₁, step, ⟨⟩⟩ := bind_eq_ok.mp added
            obtain ⟨isFlag, step⟩ := add_of_addFlag step
            exact ⟨stems.add known (.flag isFlag member whole) step, by simp⟩

theorem Stems.addInput {input : String} (stems : w.Stems switches args) (member : input ∈ args)
    (added : w.addInput input = .ok w') : w'.Stems switches args := by
  unfold Words.addInput at added
  split at added
  · cases added
  · cases added
    exact ⟨stems.option, by simpa using member⟩

/-- What is read from words stands in them, and what is left of them is their end. -/
theorem Stems.read {first ended : Bool} {pending : Option Switch} {before rest left : List String}
    (stems : w.Stems switches (before ++ rest))
    (awaited : ∀ switch ∈ pending, switch ∈ switches ∧
      ∃ front word, before = front ++ [word] ∧ switch.Awaits word)
    (result : Words.read switches first ended w pending rest = .ok (w', left)) :
    w'.Stems switches (before ++ rest) ∧ left <:+ rest := by
  induction rest generalizing ended w pending before with
  | nil =>
      unfold Words.read at result
      split at result
      · cases result
      · cases result
        exact ⟨stems, List.suffix_rfl⟩
  | cons arg rest ih =>
      rw [List.append_cons] at stems ⊢
      have member : arg ∈ before ++ [arg] ++ rest := by simp
      have later : ∀ {ended pending w₁}, w₁.Stems switches (before ++ [arg] ++ rest) →
          (∀ switch ∈ pending, switch ∈ switches ∧ switch.Awaits arg) →
          Words.read switches first ended w₁ pending rest = .ok (w', left) →
            w'.Stems switches (before ++ [arg] ++ rest) ∧ left <:+ arg :: rest := by
        intro ended pending w₁ stems awaits result
        obtain ⟨stems', behind⟩ := ih stems (fun switch waiting =>
          ⟨(awaits switch waiting).1, before, arg, rfl, (awaits switch waiting).2⟩) result
        exact ⟨stems', behind.trans (List.suffix_cons arg rest)⟩
      unfold Words.read at result
      split at result
      · cases result
      · next switch _ =>
          obtain ⟨w₁, step, result⟩ := bind_eq_ok.mp result
          obtain ⟨known, front, word, rfl, awaits⟩ := awaited switch rfl
          have split : front ++ [word] ++ [arg] ++ rest = front ++ word :: arg :: rest := by simp
          obtain ⟨noFlag, step⟩ := add_of_addValue step
          exact later (stems.add known (.next noFlag split awaits) step) (by simp) result
      · split at result
        · obtain ⟨w₁, step, result⟩ := bind_eq_ok.mp result
          exact later (stems.addInput member step) (by simp) result
        · split at result
          · split at result
            · cases result
            · exact later stems (by simp) result
          · next spelled =>
              obtain ⟨⟨w₁, pending⟩, step, result⟩ := bind_eq_ok.mp result
              obtain ⟨stems₁, awaits⟩ := stems.addLong member spelled step
              exact later stems₁ awaits result
          · next spelled =>
              obtain ⟨⟨w₁, pending⟩, step, result⟩ := bind_eq_ok.mp result
              have whole : arg.toList = '-' :: ([] ++ _) := spelled
              obtain ⟨stems₁, awaits⟩ := stems.addLetters member whole step
              exact later stems₁ awaits result
          · split at result
            · cases result
              exact ⟨stems, List.suffix_rfl⟩
            · obtain ⟨w₁, step, result⟩ := bind_eq_ok.mp result
              exact later (stems.addInput member step) (by simp) result

theorem Stems.given_of_value? {long : String} (stems : w.Stems switches args)
    (found : w.value? long = some value) :
    ∃ switch ∈ switches, switch.long = long ∧ switch.Given args value := by
  obtain ⟨before, behind, split, -⟩ := List.lookup_eq_some_iff.mp found
  exact stems.option long value (by simp [split])

end Words

/-! ## Commands and their words -/

namespace Command

/-- The word for a command. -/
def word : Command → String
  | .parse .. => "parse"
  | .transpile .. => "transpile"
  | .run .. => "run"
  | .check .. => "check"
  | .fmt .. => "fmt"
  | .new .. => "new"

/-- What a command may write is what its words say. -/
def AsksFor (input : String) (w : Words) : Command → Prop
  | .transpile file output => file = input ∧ output = w.value? "output"
  | .fmt file inPlace => file = input ∧ inPlace = w.isOn "in-place"
  | .new program output _ => program = input ∧ output = w.value? "output"
  | .parse .. | .run .. | .check .. => True

theorem of_build {name input : String} {w : Words} {command : Command}
    (built : build name input w = .ok command) : name = command.word ∧ command.AsksFor input w := by
  unfold build at built
  split at built
  · next isNew =>
      cases built
      exact ⟨isNew, rfl, rfl⟩
  · split at built
    · cases built
    · split at built
      · cases built
        exact ⟨rfl, trivial⟩
      · cases built
        exact ⟨rfl, rfl, rfl⟩
      · cases built
        exact ⟨rfl, trivial⟩
      · cases built
        exact ⟨rfl, trivial⟩
      · cases built
        exact ⟨rfl, rfl, rfl⟩
      · cases built

/-- The option for the file that is written. -/
def output : Switch := ⟨"output", some 'o', .value .path⟩

end Command

namespace Request

variable {args : List String} {verbose : Bool}

/-- A request is built from the word for its command and the words behind it. -/
theorem exists_words {command : Command} (read : ofWords args = .ok ⟨verbose, command⟩) :
    ∃ front words switches w input, args = front ++ command.word :: words ∧
      Command.switches? command.word = some switches ∧
      Words.Stems (Command.verbose :: Command.help :: switches) words w ∧ input ∈ words ∧
      command.AsksFor input w := by
  unfold ofWords at read
  obtain ⟨⟨before, rest⟩, leading, read⟩ := bind_eq_ok.mp read
  have start : Words.Stems Command.leading ([] ++ args) {} := Words.Stems.empty
  obtain ⟨-, front, split⟩ := start.read (by simp) leading
  cases rest with
  | nil => cases read
  | cons name words =>
      simp only at read
      split at read
      · cases read
      · split at read
        · cases read
        · next switches known =>
            obtain ⟨⟨w, left⟩, behind, read⟩ := bind_eq_ok.mp read
            have start : Words.Stems (Command.verbose :: Command.help :: switches)
                ([] ++ words) {} := Words.Stems.empty
            obtain ⟨stems, -⟩ := start.read (by simp) behind
            simp only at read
            split at read
            · next input given =>
                obtain ⟨command, built, ⟨⟩⟩ := bind_eq_ok.mp read
                obtain ⟨rfl, asks⟩ := Command.of_build built
                exact ⟨front, words, switches, w, input, split.symm, known, stems,
                  stems.input input given, asks⟩
            · cases read

/-- An option with a value is given if no other option of the command has its long name. -/
theorem given_of_value? {front words : List String} {switches : List Switch} {switch : Switch}
    {w : Words} {name value : String} (stems : w.Stems switches words)
    (only : ∀ other ∈ switches, other.long = switch.long → other = switch)
    (found : w.value? switch.long = some value) :
    switch.Given (front ++ name :: words) value := by
  obtain ⟨other, member, long, given⟩ := stems.given_of_value? found
  obtain rfl := only other member long
  rw [List.append_cons]
  exact given.append _

/-- A script is written only to a file that the words name. -/
theorem words_of_transpile {file output : String}
    (read : ofWords args = .ok ⟨verbose, .transpile file (some output)⟩) :
    "transpile" ∈ args ∧ Command.output.Given args output := by
  obtain ⟨front, words, switches, w, input, rfl, known, stems, -, -, found⟩ := exists_words read
  cases known
  exact ⟨by simp [Command.word], given_of_value? stems (by decide +kernel) found.symm⟩

/-- A program is laid out in place only if the words say so. -/
theorem words_of_fmt {file : String} (read : ofWords args = .ok ⟨verbose, .fmt file true⟩) :
    "fmt" ∈ args ∧ "--in-place" ∈ args ∧ file ∈ args := by
  obtain ⟨front, words, switches, w, input, rfl, known, stems, member, rfl, on⟩ := exists_words read
  cases known
  obtain ⟨value, found⟩ := Option.isSome_iff_exists.mp on.symm
  have given : (Command.flag "in-place").Given (front ++ "fmt" :: words) value :=
    given_of_value? stems (by decide +kernel) found
  refine ⟨by simp [Command.word], ?_, by simp [member]⟩
  cases given with
  | @flag word isFlag inArgs spelled =>
      obtain rfl : word = "--in-place" := String.toList_injective spelled
      exact inArgs
  | letter _ short => cases short
  | long noFlag | joined noFlag | next noFlag => exact absurd rfl noFlag

/-- A program is started in a file that the words name, or named after the program. -/
theorem words_of_new {program slug : String} {output : Option String}
    (read : ofWords args = .ok ⟨verbose, .new program output slug⟩) :
    "new" ∈ args ∧ program ∈ args ∧ ∀ file ∈ output, Command.output.Given args file := by
  obtain ⟨front, words, switches, w, input, rfl, known, stems, member, rfl, found⟩ :=
    exists_words read
  cases known
  refine ⟨by simp [Command.word], by simp [member], fun file given => ?_⟩
  exact given_of_value? stems (by decide +kernel) (found.symm.trans given)

/-- The words name the file that a command writes. -/
structure Names (args : List String) (command : Command) : Prop where
  transpile : ∀ input file, command = .transpile input (some file) →
    "transpile" ∈ args ∧ Command.output.Given args file
  fmt : ∀ file, command = .fmt file true → "fmt" ∈ args ∧ "--in-place" ∈ args ∧ file ∈ args
  new : ∀ program output slug, command = .new program output slug →
    "new" ∈ args ∧ program ∈ args ∧ ∀ file ∈ output, Command.output.Given args file

theorem names_of_ofWords {request : Request} (read : ofWords args = .ok request) :
    Names args request.command := by
  obtain ⟨verbose, command⟩ := request
  constructor
  · rintro input file rfl
    exact words_of_transpile read
  · rintro file rfl
    exact words_of_fmt read
  · rintro program output slug rfl
    exact words_of_new read

end Request

end LineScript
