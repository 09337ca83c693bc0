import LineScript.Proofs.Parse.Progress
import Mathlib.Logic.Relation

/-! # Recipes

A recipe tells how a parser is put together from characters, words and rules that are called by
name. It is evaluated as it is written: a repetition takes one step after another until one fails,
and a call answers what the recipe of its rule answers. Neither rounds nor calls are bounded, so
there is an answer only where the evaluation comes to an end.

It always does if no step of a repetition succeeds without having read a character, and if rules
have ranks such that, before it has read a character, a rule calls only rules of lower rank. Then
no rule comes back to itself with the same text, the calls that are open at a time are no more than
there are pairs of a rank and a text that is left, and the answer is that of the parser.
-/

namespace LineScript.Parse.Parser

/-- How a parser for values of type `α` is put together, `ρ` being the names of the rules. -/
inductive Recipe (ρ : Type → Type) : Type → Type 1 where
  | ret {α : Type} (a : α) : Recipe ρ α
  | fail {α : Type} : Recipe ρ α
  | char (c : Char → Bool) : Recipe ρ Char
  | word (text : List Char) : Recipe ρ Unit
  | andThen {α β : Type} (first : Recipe ρ α) (next : α → Recipe ρ β) : Recipe ρ β
  | orElse {α : Type} (first second : Recipe ρ α) : Recipe ρ α
  | absent {α : Type} (inner : Recipe ρ α) : Recipe ρ Unit
  | slice {α : Type} (inner : Recipe ρ α) : Recipe ρ (List Char)
  /-- Steps as often as they succeed. -/
  | extend {α : Type} (step : α → Recipe ρ α) (a : α) : Recipe ρ α
  | call {α : Type} (r : ρ α) : Recipe ρ α

/-- Rules that have names. -/
class Named (ρ : Type → Type) where
  /-- The parser that a name stands for. -/
  parser : {α : Type} → ρ α → Parser α
  rank : {α : Type} → ρ α → Nat

namespace Recipe

variable {ρ : Type → Type}

/-- What holds of every step of every repetition in a recipe. -/
def EachStep (P : ∀ α : Type, Recipe ρ α → Prop) : {α : Type} → Recipe ρ α → Prop
  | _, ret _ | _, fail | _, char _ | _, word _ | _, call _ => True
  | _, andThen first next => first.EachStep P ∧ ∀ a, (next a).EachStep P
  | _, orElse first second => first.EachStep P ∧ second.EachStep P
  | _, absent inner | _, slice inner => inner.EachStep P
  | α, extend step _ => ∀ a, P α (step a) ∧ (step a).EachStep P

theorem EachStep.imp {P Q : ∀ α : Type, Recipe ρ α → Prop} {α : Type} {e : Recipe ρ α}
    (holds : e.EachStep P) (imp : ∀ α (step : Recipe ρ α), step.EachStep P → P α step → Q α step) :
    e.EachStep Q := by
  induction e with
  | ret | fail | char | word | call => trivial
  | andThen first next ihFirst ihNext => exact ⟨ihFirst holds.1, fun a => ihNext a (holds.2 a)⟩
  | orElse first second ihFirst ihSecond => exact ⟨ihFirst holds.1, ihSecond holds.2⟩
  | absent inner ih | slice inner ih => exact ih holds
  | extend step a ih =>
      exact fun b => ⟨imp _ _ (holds b).2 (holds b).1, ih b (holds b).2⟩

variable [Named ρ]

/-- The parser that a recipe is for. -/
def parser : {α : Type} → Recipe ρ α → Parser α
  | _, ret a => pure a
  | _, fail => Parser.fail
  | _, char c => Parser.char c
  | _, word text => Parser.word text
  | _, andThen first next => first.parser >>= fun a => (next a).parser
  | _, orElse first second => first.parser <|> second.parser
  | _, absent inner => Parser.absent inner.parser
  | _, slice inner => Parser.slice inner.parser
  | _, extend step a => Parser.extend (fun a => (step a).parser) a
  | _, call r => Named.parser r

/-- No step of a repetition succeeds without having read a character. -/
def Productive {α : Type} (e : Recipe ρ α) : Prop :=
  e.EachStep fun _ step => Advances step.parser

/-- Before a character is read only rules of a rank below `n` are called. -/
def Guarded (n : Nat) : {α : Type} → Recipe ρ α → Prop
  | _, ret _ | _, fail | _, char _ | _, word _ => True
  | _, andThen first next =>
      first.Guarded n ∧ (Advances first.parser ∨ ∀ a, (next a).Guarded n)
  | _, orElse first second => first.Guarded n ∧ second.Guarded n
  | _, absent inner | _, slice inner => inner.Guarded n
  | _, extend step _ => ∀ a, (step a).Guarded n
  | _, call r => Named.rank r < n

theorem Guarded.mono {n m : Nat} (le : n ≤ m) {α : Type} {e : Recipe ρ α} (guarded : e.Guarded n) :
    e.Guarded m := by
  induction e with
  | ret | fail | char | word => trivial
  | andThen first next ihFirst ihNext =>
      exact ⟨ihFirst guarded.1, guarded.2.imp_right fun next a => ihNext a (next a)⟩
  | orElse first second ihFirst ihSecond => exact ⟨ihFirst guarded.1, ihSecond guarded.2⟩
  | absent inner ih | slice inner ih => exact ih guarded
  | extend step a ih => exact fun b => ih b (guarded b)
  | call r => exact Nat.lt_of_lt_of_le guarded le

end Recipe

/-- Rules with a recipe each, of which no repetition and no rule can go round without reading. -/
class Rulebook (ρ : Type → Type) extends Named ρ where
  recipe : {α : Type} → ρ α → Recipe ρ α
  agrees : ∀ {α : Type} (r : ρ α) (s : List Char),
    (recipe r).parser.outcome s = (parser r).outcome s
  productive : ∀ {α : Type} (r : ρ α), (recipe r).Productive
  guarded : ∀ {α : Type} (r : ρ α), (recipe r).Guarded (rank r)
  /-- The number of ranks. -/
  ranks : Nat
  rank_lt : ∀ {α : Type} (r : ρ α), rank r < ranks

variable {ρ : Type → Type} [Rulebook ρ]

/-! ## Evaluation -/

/-- Evaluating a recipe on a text comes to an end, with the given answer. -/
inductive Evaluates : {α : Type} → Recipe ρ α → List Char → Option (α × List Char) → Prop where
  | ret {α s} (a : α) : Evaluates (.ret a) s (some (a, s))
  | fail {α s} : Evaluates (.fail : Recipe ρ α) s none
  | char (c s) : Evaluates (.char c) s ((Parser.char c).outcome s)
  | word (text s) : Evaluates (.word text) s ((Parser.word text).outcome s)
  | stop {α β s} {first : Recipe ρ α} {next : α → Recipe ρ β} : Evaluates first s none →
      Evaluates (.andThen first next) s none
  | go {α β s a rest answer} {first : Recipe ρ α} {next : α → Recipe ρ β} :
      Evaluates first s (some (a, rest)) → Evaluates (next a) rest answer →
      Evaluates (.andThen first next) s answer
  | first {α s x} {first second : Recipe ρ α} : Evaluates first s (some x) →
      Evaluates (.orElse first second) s (some x)
  | second {α s answer} {first second : Recipe ρ α} : Evaluates first s none →
      Evaluates second s answer → Evaluates (.orElse first second) s answer
  | absent {α s} {inner : Recipe ρ α} : Evaluates inner s none →
      Evaluates (.absent inner) s (some ((), s))
  | present {α s x} {inner : Recipe ρ α} : Evaluates inner s (some x) →
      Evaluates (.absent inner) s none
  | slice {α s a rest} {inner : Recipe ρ α} : Evaluates inner s (some (a, rest)) →
      Evaluates (.slice inner) s (some (s.take (s.length - rest.length), rest))
  | unsliced {α s} {inner : Recipe ρ α} : Evaluates inner s none → Evaluates (.slice inner) s none
  | again {α s a b rest answer} {step : α → Recipe ρ α} : Evaluates (step a) s (some (b, rest)) →
      Evaluates (.extend step b) rest answer → Evaluates (.extend step a) s answer
  | enough {α s a} {step : α → Recipe ρ α} : Evaluates (step a) s none →
      Evaluates (.extend step a) s (some (a, s))
  | call {α s answer} {r : ρ α} : Evaluates (Rulebook.recipe r) s answer →
      Evaluates (.call r) s answer

/-- Evaluating a recipe on the text `s` calls the rule `r` on the text `t`. What is called from
    inside a call does not count. -/
inductive Calls : {α β : Type} → Recipe ρ α → List Char → ρ β → List Char → Prop where
  | here {α s} {r : ρ α} : Calls (.call r) s r s
  | start {α β γ s t} {first : Recipe ρ α} {next : α → Recipe ρ β} {r : ρ γ} :
      Calls first s r t → Calls (.andThen first next) s r t
  | next {α β γ s t a rest} {first : Recipe ρ α} {next : α → Recipe ρ β} {r : ρ γ} :
      Evaluates first s (some (a, rest)) → Calls (next a) rest r t →
      Calls (.andThen first next) s r t
  | first {α γ s t} {first second : Recipe ρ α} {r : ρ γ} : Calls first s r t →
      Calls (.orElse first second) s r t
  | second {α γ s t} {first second : Recipe ρ α} {r : ρ γ} : Evaluates first s none →
      Calls second s r t → Calls (.orElse first second) s r t
  | absent {α γ s t} {inner : Recipe ρ α} {r : ρ γ} : Calls inner s r t →
      Calls (.absent inner) s r t
  | slice {α γ s t} {inner : Recipe ρ α} {r : ρ γ} : Calls inner s r t → Calls (.slice inner) s r t
  | step {α γ s t a} {step : α → Recipe ρ α} {r : ρ γ} : Calls (step a) s r t →
      Calls (.extend step a) s r t
  | again {α γ s t a b rest} {step : α → Recipe ρ α} {r : ρ γ} :
      Evaluates (step a) s (some (b, rest)) → Calls (.extend step b) rest r t →
      Calls (.extend step a) s r t

section

variable {α β : Type} {e : Recipe ρ α} {s t : List Char} {answer : Option (α × List Char)} {r : ρ β}

theorem Evaluates.suffix (evaluates : Evaluates e s answer) : ∀ x ∈ answer, x.2 <:+ s := by
  induction evaluates with
  | ret => rintro _ ⟨⟩; exact List.suffix_rfl
  | fail | stop | present | unsliced => exact nofun
  | char => exact fun _ read => Keeps.suffix read
  | word => exact fun _ read => Keeps.suffix read
  | go _ _ ihFirst ihNext => exact fun x read => (ihNext x read).trans (ihFirst _ rfl)
  | first _ ih => exact ih
  | second _ _ _ ih => exact ih
  | absent => rintro _ ⟨⟩; exact List.suffix_rfl
  | slice _ ih => rintro _ ⟨⟩; exact ih _ rfl
  | again _ _ ihStep ihRest => exact fun x read => (ihRest x read).trans (ihStep _ rfl)
  | enough => rintro _ ⟨⟩; exact List.suffix_rfl
  | call _ ih => exact ih

/-- Where repetitions read, an answer is what the parser answers. -/
theorem Evaluates.eq_outcome (evaluates : Evaluates e s answer) (productive : e.Productive) :
    answer = e.parser.outcome s := by
  induction evaluates with
  | ret | fail | char | word => rfl
  | stop _ ih => exact (stop_bind (ih productive.1).symm).symm
  | go _ _ ihFirst ihNext =>
      rw [Recipe.parser, run_bind (ihFirst productive.1).symm]
      exact ihNext (productive.2 _)
  | first _ ih => exact (run_choice (ih productive.1).symm).symm
  | second _ _ ihFirst ihSecond =>
      exact (ihSecond productive.2).trans (next_choice (ihFirst productive.1).symm).symm
  | absent _ ih => exact (run_absent (ih productive).symm).symm
  | present _ ih =>
      rw [Recipe.parser, outcome_absent, ← ih productive]
      rfl
  | slice _ ih =>
      rw [Recipe.parser, outcome_slice, ← ih productive]
      rfl
  | unsliced _ ih =>
      rw [Recipe.parser, outcome_slice, ← ih productive]
      rfl
  | again _ _ ihStep ihRest =>
      have advances := fun a => (productive a).1
      rw [ihRest productive, Recipe.parser, Recipe.parser]
      exact (outcome_extend_of_some (ihStep (productive _).2).symm).symm
  | enough _ ih => exact (outcome_extend_of_none (ih (productive _).2).symm).symm
  | call _ ih => exact (ih (Rulebook.productive _)).trans (Rulebook.agrees _ _)

/-- A step of a repetition that succeeds has read a character. -/
theorem Recipe.Productive.eachStep_reads (productive : e.Productive) :
    e.EachStep fun _ step => ∀ s b rest, Evaluates step s (some (b, rest)) →
      rest <:+ s ∧ rest.length < s.length := by
  refine productive.imp fun _ step productive advances s b rest evaluates => ?_
  have read := evaluates.eq_outcome productive
  exact ⟨evaluates.suffix _ rfl, advances.shorter read.symm⟩

theorem Calls.suffix (calls : Calls e s r t) : t <:+ s := by
  induction calls with
  | here => exact List.suffix_rfl
  | start _ ih | first _ ih | absent _ ih | slice _ ih | step _ ih => exact ih
  | next first _ ih | again first _ ih => exact ih.trans (first.suffix _ rfl)
  | second _ _ ih => exact ih

/-- A call is made behind a character that was read, or it is one of a lower rank. -/
theorem Calls.shorter_or_lower {n : Nat} (calls : Calls e s r t) (productive : e.Productive)
    (guarded : e.Guarded n) : t.length < s.length ∨ Named.rank r < n := by
  induction calls with
  | here => exact .inr guarded
  | start _ ih => exact ih productive.1 guarded.1
  | next first calls ih =>
      rcases guarded.2 with advances | guarded
      · have read := first.eq_outcome productive.1
        exact .inl (calls.suffix.length_le.trans_lt (advances.shorter read.symm))
      · refine (ih (productive.2 _) (guarded _)).imp_left fun shorter => ?_
        exact shorter.trans_le (first.suffix _ rfl).length_le
  | first _ ih => exact ih productive.1 guarded.1
  | second _ _ ih => exact ih productive.2 guarded.2
  | absent _ ih | slice _ ih => exact ih productive guarded
  | step _ ih => exact ih (productive _).2 (guarded _)
  | again first calls ih =>
      have read := first.eq_outcome (productive _).2
      exact .inl (calls.suffix.length_le.trans_lt ((productive _).1.shorter read.symm))

/-- A recipe is evaluated to its end if the calls that it makes are. -/
theorem Recipe.evaluates_of_calls (e : Recipe ρ α) (productive : e.Productive) (s : List Char)
    (answers : ∀ {β : Type} (r : ρ β) t, Calls e s r t →
      Evaluates (.call r) t ((Named.parser r).outcome t)) :
    Evaluates e s (e.parser.outcome s) := by
  induction e generalizing s with
  | ret a => exact .ret a
  | fail => exact .fail
  | char c => exact .char c s
  | word text => exact .word text s
  | andThen first next ihFirst ihNext =>
      have start := ihFirst productive.1 s fun r t calls => answers r t (.start calls)
      rw [parser, outcome_bind]
      cases read : first.parser.outcome s with
      | none => exact .stop (read ▸ start)
      | some x =>
          rw [read] at start
          exact .go start (ihNext x.1 (productive.2 _) x.2 fun r t calls =>
            answers r t (.next start calls))
  | orElse first second ihFirst ihSecond =>
      have start := ihFirst productive.1 s fun r t calls => answers r t (.first calls)
      rw [parser, outcome_choice]
      cases read : first.parser.outcome s with
      | none =>
          rw [read] at start
          exact .second start (ihSecond productive.2 s fun r t calls =>
            answers r t (.second start calls))
      | some x => exact .first (read ▸ start)
  | absent inner ih =>
      have start := ih productive s fun r t calls => answers r t (.absent calls)
      rw [parser, outcome_absent]
      cases read : inner.parser.outcome s with
      | none => exact .absent (read ▸ start)
      | some x => exact .present (read ▸ start)
  | slice inner ih =>
      have start := ih productive s fun r t calls => answers r t (.slice calls)
      rw [parser, outcome_slice]
      cases read : inner.parser.outcome s with
      | none => exact .unsliced (read ▸ start)
      | some x => exact .slice (read ▸ start)
  | extend step a ih =>
      have advances := fun a => (productive a).1
      -- each step leaves less of the text
      induction length : s.length using Nat.strong_induction_on generalizing a s with
      | _ n shorter =>
          subst length
          have start := ih a (productive a).2 s fun r t calls => answers r t (.step calls)
          cases read : (step a).parser.outcome s with
          | none =>
              rw [parser, outcome_extend_of_none read]
              exact .enough (read ▸ start)
          | some x =>
              rw [read] at start
              have less := (advances a).shorter read
              rw [parser, outcome_extend_of_some read]
              exact .again start (shorter _ less x.1 productive x.2
                (fun r t calls => answers r t (.again start calls)) rfl)
  | call r => exact answers r s .here

end

/-! ## Open calls -/

/-- A call that is open: a rule and the text that it was called on. -/
structure Frame (ρ : Type → Type) where
  {α : Type}
  rule : ρ α
  text : List Char

namespace Frame

/-- Inside the call `f` the call `g` is made. -/
def Makes (f g : Frame ρ) : Prop :=
  Calls (Rulebook.recipe f.rule) f.text g.rule g.text

/-- The texts that are left and, for each, the ranks, in order. -/
def weight (f : Frame ρ) : Nat :=
  Rulebook.ranks ρ * f.text.length + Named.rank f.rule

variable {f g : Frame ρ}

/-- What is called inside a call has less text, or the same and a lower rank. -/
theorem Makes.shorter_or_lower (makes : f.Makes g) :
    g.text.length < f.text.length ∨
      g.text.length ≤ f.text.length ∧ Named.rank g.rule < Named.rank f.rule :=
  (Calls.shorter_or_lower makes (Rulebook.productive _) (Rulebook.guarded _)).imp_right
    fun lower => ⟨(Calls.suffix makes).length_le, lower⟩

theorem weight_lt (f : Frame ρ) : f.weight < Rulebook.ranks ρ * (f.text.length + 1) := by
  have := Rulebook.rank_lt f.rule
  rw [weight, Nat.mul_succ]
  omega

theorem Makes.weight_lt (makes : f.Makes g) : g.weight < f.weight := by
  rcases makes.shorter_or_lower with shorter | ⟨le, lower⟩
  · calc g.weight < Rulebook.ranks ρ * (g.text.length + 1) := g.weight_lt
      _ ≤ Rulebook.ranks ρ * f.text.length := Nat.mul_le_mul_left _ shorter
      _ ≤ f.weight := Nat.le_add_right _ _
  · exact Nat.add_lt_add_of_le_of_lt (Nat.mul_le_mul_left _ le) lower

theorem weight_lt_of_transGen (inside : Relation.TransGen Makes f g) : g.weight < f.weight := by
  induction inside with
  | single makes => exact makes.weight_lt
  | tail _ makes ih => exact makes.weight_lt.trans ih

theorem suffix_of_transGen (inside : Relation.TransGen Makes f g) : g.text <:+ f.text := by
  induction inside with
  | single makes => exact Calls.suffix makes
  | tail _ makes ih => exact (Calls.suffix makes).trans ih

/-- Before a rule is entered again, inside a call of it, at least one character has been read. -/
theorem shorter_of_transGen (inside : Relation.TransGen Makes f g)
    (same : Named.rank g.rule = Named.rank f.rule) : g.text.length < f.text.length := by
  have less := weight_lt_of_transGen inside
  rw [weight, weight, same] at less
  exact Nat.lt_of_mul_lt_mul_left (Nat.lt_of_add_lt_add_right less)

/-- Calls that are open inside one another. -/
theorem length_le_of_isChain {stack : List (Frame ρ)} (chain : (f :: stack).IsChain Makes) :
    (f :: stack).length ≤ Rulebook.ranks ρ * (f.text.length + 1) := by
  have bound : stack.length ≤ f.weight := by
    induction stack generalizing f with
    | nil => exact Nat.zero_le _
    | cons g stack ih =>
        obtain ⟨makes, chain⟩ := List.isChain_cons_cons.mp chain
        exact (ih chain).trans_lt makes.weight_lt
  exact (Nat.succ_le_succ bound).trans f.weight_lt

end Frame

/-- Every call of a rule is evaluated to its end. -/
theorem evaluates_call {α : Type} (r : ρ α) (s : List Char) :
    Evaluates (.call r) s ((Named.parser r).outcome s) := by
  induction weight : (Frame.mk r s).weight using Nat.strong_induction_on generalizing α s with
  | _ n ih =>
      subst weight
      rw [← Rulebook.agrees]
      refine .call (Recipe.evaluates_of_calls _ (Rulebook.productive r) s fun q t calls => ?_)
      have makes : (Frame.mk r s).Makes ⟨q, t⟩ := calls
      exact ih _ makes.weight_lt q t rfl

theorem evaluates_call_iff {α : Type} {r : ρ α} {s : List Char} {answer : Option (α × List Char)} :
    Evaluates (.call r) s answer ↔ answer = (Named.parser r).outcome s := by
  refine ⟨fun evaluates => evaluates.eq_outcome trivial, ?_⟩
  rintro rfl
  exact evaluates_call r s

end LineScript.Parse.Parser
