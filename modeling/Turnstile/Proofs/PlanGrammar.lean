import Turnstile.PlanText.Reader
import Turnstile.Proofs.Builds
import Turnstile.Proofs.Reading

/-!
# The grammar of plan text

Plan text is one phrase: a name with arguments between parentheses, which are separated by commas
and are numbers, strings, terms or such phrases again. What a phrase says is defined on its own,
from the inside out. The reader does both at once, looking a name up as soon as its parentheses
close, in rounds that bound its depth; here it is shown to read exactly the phrases that say
something, to return what they say, and never to run out of rounds.

The reader looks for the closing parenthesis before each argument, also after a comma. So a comma
may follow the last argument, which the grammar in words, `name(argument, argument)`, does not
allow. Phrases are therefore written in two ways: strictly, or with such commas.
-/

namespace Turnstile

namespace PlanText

open Build

/-! ## Phrases -/

/-- A piece of plan text by its structure. -/
inductive Phrase where
  /-- A number, a string or a term, as it is spelled. -/
  | literal (kind : Kind) (text : String)
  /-- A name with arguments. -/
  | call (name : String) (args : List Phrase)

/-- The kinds of tokens that are arguments by themselves. -/
def Kind.IsLiteral (kind : Kind) : Prop := kind = .int ∨ kind = .string ∨ kind = .backquoted

mutual

/-- How phrases are written. With `lax`, a comma may follow the last argument. -/
inductive Phrase.Written (lax : Prop) : Phrase → List Token → Prop
  /-- A token by itself. -/
  | literal {token : Token} (literal : token.kind.IsLiteral) :
    Phrase.Written lax (.literal token.kind token.text) [token]
  /-- A name with arguments between parentheses. -/
  | call {token opening closing : Token} {args : List Phrase} {tokens : List Token}
    (name : token.kind = .name) (opens : opening.kind = .char '(')
    (inside : WrittenAll lax args tokens) (closes : closing.kind = .char ')') :
    Phrase.Written lax (.call token.text args) (token :: opening :: (tokens ++ [closing]))

/-- How arguments are written. -/
inductive WrittenAll (lax : Prop) : List Phrase → List Token → Prop
  /-- No argument. -/
  | none : WrittenAll lax [] []
  /-- The last argument. -/
  | last {a : Phrase} {tokens : List Token} (here : a.Written lax tokens) :
    WrittenAll lax [a] tokens
  /-- An argument with a comma after it. -/
  | more {a : Phrase} {rest : List Phrase} {tokens tokens' : List Token} {comma : Token}
    (here : a.Written lax tokens) (separates : comma.kind = .char ',')
    (later : WrittenAll lax rest tokens') (ends : rest = [] → lax) :
    WrittenAll lax (a :: rest) (tokens ++ comma :: tokens')

end

/-- The plan of a name and the values of its arguments: two names combine plans, every other one
is a rule's and takes as many arguments as are declared, of the kinds that are declared. -/
inductive Combines (env : Environment) : String → List Value → Supply → Plan → Supply → Prop
  /-- The first plan followed by the others, one for each subgoal. -/
  | branch (first : Plan) (rest : List Plan) (s : Supply) :
    Combines env "branch" ((first :: rest).map .plan) s (.branch first rest) s
  /-- Plans one after the other. -/
  | sequence (first : Plan) (rest : List Plan) (s : Supply) :
    Combines env "sequence" ((first :: rest).map .plan) s (.sequence first rest) s
  /-- A rule. -/
  | rule {name : String} {d : Descriptor} {args : List Arg} {s s' : Supply} {p : Plan}
    (other : name ≠ "branch" ∧ name ≠ "sequence") (known : env.rule? name = some d)
    (built : (d.instantiate env.theory args).runFrom s = (.ok p, s')) :
    Combines env name (args.map .arg) s p s'

mutual

/-- The value of a phrase, and what is left of the supply: numbers fit a word, strings are well
formed and terms can be parsed. -/
inductive Phrase.Means (env : Environment) : Phrase → Supply → Value → Supply → Prop
  /-- A number. -/
  | int {text : String} {value : Nat} (s : Supply) (spells : decimal 0 text.toList = .ok value) :
    Phrase.Means env (.literal .int text) s (.arg (.int value)) s
  /-- A string. -/
  | string {text : String} {octets : Text.Octets} (s : Supply)
    (spells : Text.unquote? text = some octets) :
    Phrase.Means env (.literal .string text) s (.arg (.string octets)) s
  /-- A term. -/
  | term {text : String} {t : Term} {s s' : Supply}
    (parses : (env.parse (unbackquoted text)).runFrom s = (.ok t, s')) :
    Phrase.Means env (.literal .backquoted text) s (.arg (.term t)) s'
  /-- A call. -/
  | call {name : String} {args : List Phrase} {values : List Value} {s s₁ s' : Supply} {p : Plan}
    (arguments : MeansAll env args s values s₁) (combines : Combines env name values s₁ p s') :
    Phrase.Means env (.call name args) s (.plan p) s'

/-- The values of phrases, one after the other. -/
inductive MeansAll (env : Environment) : List Phrase → Supply → List Value → Supply → Prop
  /-- No phrase. -/
  | none (s : Supply) : MeansAll env [] s [] s
  /-- A phrase and further ones. -/
  | more {a : Phrase} {rest : List Phrase} {v : Value} {values : List Value} {s s₁ s' : Supply}
    (here : a.Means env s v s₁) (later : MeansAll env rest s₁ values s') :
    MeansAll env (a :: rest) s (v :: values) s'

end

variable {env : Environment} {lax : Prop} {phrase : Phrase} {phrases : List Phrase}
  {tokens rest : List Token} {token : Token} {values : List Value} {value : Value}
  {s s' : Supply} {p : Plan}

/-- A token whose kind and spelling are known. -/
theorem Phrase.Written.of_literal {kind : Kind} {text : String} (is : token.kind = kind)
    (spelled : token.text = text) (literal : kind.IsLiteral) :
    (Phrase.literal kind text).Written lax [token] := by
  subst is spelled
  exact .literal literal

/-- A name, arguments between parentheses and the call that they write. -/
theorem Phrase.Written.of_call {name : String} {opening closing : Token} (is : token.kind = .name)
    (spelled : token.text = name) (opens : opening.kind = .char '(')
    (inside : WrittenAll lax phrases tokens) (closes : closing.kind = .char ')') :
    (Phrase.call name phrases).Written lax (token :: opening :: (tokens ++ [closing])) := by
  subst spelled
  exact .call is opens inside closes

/-- What is written strictly is written in the lax way too. -/
theorem Phrase.Written.relaxed (written : phrase.Written False tokens) :
    phrase.Written True tokens := by
  refine @Phrase.Written.rec False (fun phrase tokens _ => phrase.Written True tokens)
    (fun phrases tokens _ => WrittenAll True phrases tokens) ?_ ?_ ?_ ?_ ?_ _ _ written
  · exact fun literal => .literal literal
  · exact fun name opens _ closes inside => .call name opens inside closes
  · exact .none
  · exact fun _ here => .last here
  · exact fun _ separates _ _ here later => .more here separates later fun _ => trivial

/-! ## Combining -/

/-- A sequence that begins with a computation and succeeded went through its result. -/
theorem lift_bind_ok {α β : Type} {result : Except Failure α} {next : α → Build β} {b : β}
    (run : (liftM result >>= next : Build β).runFrom s = (.ok b, s')) :
    ∃ a, result = .ok a ∧ (next a).runFrom s = (.ok b, s') := by
  obtain ⟨a, s₁, lifted, after⟩ := bind_ok run
  obtain ⟨is, rfl⟩ := lift_ok lifted
  exact ⟨a, is, after⟩

/-- Putting a value before a list that is computed. -/
theorem map_cons_ok {α : Type} {a : α} {result : Except Failure (List α)} {all : List α} :
    (a :: ·) <$> result = .ok all ↔ ∃ others, result = .ok others ∧ all = a :: others := by
  cases result with
  | error failure => simp [Functor.map, Except.map]
  | ok others => simp [Functor.map, Except.map, eq_comm]

/-- Values are taken for plans if all of them are plans. -/
theorem plansOf_ok {plans : List Plan} : ∀ {index : Nat},
    plansOf token index values = .ok plans ↔ values = plans.map .plan := by
  induction values generalizing plans with
  | nil => simp [plansOf, eq_comm]
  | cons v rest ih =>
    intro index
    cases v with
    | arg a => cases plans <;> simp [plansOf]
    | plan p =>
      rw [plansOf, map_cons_ok]
      cases plans with
      | nil => simp
      | cons q others =>
        rw [List.map_cons, List.cons.injEq, Value.plan.injEq, ← ih]
        constructor
        · rintro ⟨others', read, same⟩
          cases same
          exact ⟨rfl, read⟩
        · rintro ⟨rfl, read⟩
          exact ⟨others, read, rfl⟩

/-- Values are taken for arguments if none of them is a plan. -/
theorem argsOf_ok {args : List Arg} : argsOf token values = .ok args ↔ values = args.map .arg := by
  induction values generalizing args with
  | nil => simp [argsOf, eq_comm]
  | cons v rest ih =>
    cases v with
    | plan p => cases args <;> simp [argsOf]
    | arg a =>
      rw [argsOf, map_cons_ok]
      cases args with
      | nil => simp
      | cons b others =>
        rw [List.map_cons, List.cons.injEq, Value.arg.injEq, ← ih]
        constructor
        · rintro ⟨others', read, same⟩
          cases same
          exact ⟨rfl, read⟩
        · rintro ⟨rfl, read⟩
          exact ⟨others, read, rfl⟩

/-- The reader combines a name and values in exactly these ways. -/
theorem assemble_ok : (assemble env token values).runFrom s = (.ok p, s') ↔
    Combines env token.text values s p s' := by
  rw [assemble]
  constructor
  · intro run
    split at run
    next combining =>
      obtain ⟨plans, read, combined⟩ := lift_bind_ok run
      obtain rfl := plansOf_ok.mp read
      cases plans with
      | nil => cases combined
      | cons first rest =>
        dsimp only at combined
        split at combined
        next named =>
          cases combined
          rw [named]
          exact .sequence first rest _
        next other =>
          cases combined
          have named : token.text = "branch" := by simpa [other] using combining
          rw [named]
          exact .branch first rest _
    next other =>
      have names : token.text ≠ "branch" ∧ token.text ≠ "sequence" := by simpa using other
      split at run
      next => cases run
      next d known =>
        obtain ⟨args, read, caught⟩ := lift_bind_ok run
        obtain rfl := argsOf_ok.mp read
        rw [runFrom_tryCatch] at caught
        rcases built : (d.instantiate env.theory args).runFrom s with ⟨failure | q, s₂⟩ <;>
          rw [built] at caught <;> cases caught
        exact .rule names known built
  · intro combines
    generalize same : token.text = name at combines
    cases combines with
    | branch first rest =>
      rw [if_pos (by simp), plansOf_ok.mpr rfl]
      rfl
    | sequence first rest =>
      rw [if_pos (by simp), plansOf_ok.mpr rfl]
      rfl
    | rule other known built =>
      rw [if_neg (by simp [other]), known]
      dsimp only
      rw [argsOf_ok.mpr rfl]
      refine runFrom_bind_ok rfl |>.trans ?_
      rw [runFrom_tryCatch, built]

/-! ## Reading -/

/-- A token that is seen and does not end the text is passed over. -/
theorem peek_present (present : (peek tokens).kind ≠ .endOfInput) :
    tokens = peek tokens :: advance tokens := by
  cases tokens with
  | nil => exact absurd rfl present
  | cons token rest => exact congrArg (token :: ·) (if_neg present).symm

/-- One goes on past a token that is not the end. -/
theorem advance_cons (present : token.kind ≠ .endOfInput) : advance (token :: rest) = rest :=
  if_neg present

/-- A character is expected successfully if it is the next token. -/
theorem expect_ok {c : Char} : expect c tokens = .ok rest ↔
    ∃ token, token.kind = .char c ∧ tokens = token :: rest := by
  rw [expect]
  constructor
  · intro passed
    split at passed
    next is =>
      cases passed
      exact ⟨peek tokens, is, peek_present (by rw [is]; exact Kind.noConfusion)⟩
    next => cases passed
  · rintro ⟨token, is, rfl⟩
    rw [peek, if_pos is, advance_cons (by rw [is]; exact Kind.noConfusion)]

/-- A literal is not the end of the input. -/
theorem Kind.IsLiteral.present (literal : token.kind.IsLiteral) : token.kind ≠ .endOfInput := by
  rcases literal with is | is | is <;> rw [is] <;> exact Kind.noConfusion

/-! ### What is read is a phrase -/

/-- Some tokens begin with a phrase of the given value. -/
def Begins (env : Environment) (tokens : List Token) (s : Supply) (value : Value) (s' : Supply)
    (rest : List Token) : Prop :=
  ∃ (phrase : Phrase) (tokens' : List Token), tokens = tokens' ++ rest ∧
    phrase.Written True tokens' ∧ phrase.Means env s value s'

/-- What the reader reads within some rounds is written as a phrase of that value. -/
structure Sound (env : Environment) (rounds : Nat) : Prop where
  /-- A call. -/
  call : ∀ {tokens s p rest s'}, (call env rounds tokens).runFrom s = (.ok (p, rest), s') →
    Begins env tokens s (.plan p) s' rest
  /-- Arguments. -/
  arguments : ∀ {tokens s values rest s'},
    (arguments env rounds tokens).runFrom s = (.ok (values, rest), s') →
      ∃ phrases tokens', tokens = tokens' ++ rest ∧ WrittenAll True phrases tokens' ∧
        MeansAll env phrases s values s'
  /-- One argument. -/
  argument : ∀ {tokens s value rest s'},
    (argument env rounds tokens).runFrom s = (.ok (value, rest), s') →
      Begins env tokens s value s' rest

/-- With one more round a call is read only where one begins. -/
theorem Sound.call_succ {rounds : Nat} (sound : Sound env rounds)
    (run : (PlanText.call env (rounds + 1) tokens).runFrom s = (.ok (p, rest), s')) :
    Begins env tokens s (.plan p) s' rest := by
  rw [PlanText.call] at run
  dsimp only at run
  split at run
  next => cases run
  next named =>
    have name : (peek tokens).kind = .name := Decidable.not_not.mp named
    have front : tokens = peek tokens :: advance tokens :=
      peek_present (by rw [name]; exact Kind.noConfusion)
    obtain ⟨inner, opened, run⟩ := lift_bind_ok run
    obtain ⟨opening, opens, front'⟩ := expect_ok.mp opened
    obtain ⟨⟨values, after⟩, s₁, read, run⟩ := bind_ok run
    obtain ⟨closed, passed, run⟩ := lift_bind_ok run
    obtain ⟨closing, closes, rfl⟩ := expect_ok.mp passed
    obtain ⟨q, s₂, assembled, run⟩ := bind_ok run
    cases run
    obtain ⟨phrases, tokens', rfl, written, means⟩ := sound.arguments read
    refine ⟨.call (peek tokens).text phrases, peek tokens :: opening :: (tokens' ++ [closing]), ?_,
      .call name opens written closes, .call means (assemble_ok.mp assembled)⟩
    refine front.trans ?_
    rw [front']
    simp

/-- With one more round arguments are read only where they are written. -/
theorem Sound.arguments_succ {rounds : Nat} (sound : Sound env rounds)
    (run : (PlanText.arguments env (rounds + 1) tokens).runFrom s = (.ok (values, rest), s')) :
    ∃ phrases tokens', tokens = tokens' ++ rest ∧ WrittenAll True phrases tokens' ∧
      MeansAll env phrases s values s' := by
  rw [PlanText.arguments] at run
  split at run
  next =>
    cases run
    exact ⟨[], [], rfl, .none, .none s⟩
  next =>
    obtain ⟨⟨value, after⟩, s₁, read, continued⟩ := bind_ok run
    obtain ⟨phrase, tokens', rfl, written, means⟩ := sound.argument read
    dsimp only at continued
    split at continued
    next separated =>
      have front : after = peek after :: advance after :=
        peek_present (by rw [separated]; exact Kind.noConfusion)
      obtain ⟨⟨others, last⟩, s₂, further, ended⟩ := bind_ok continued
      cases ended
      obtain ⟨phrases, tokens'', cut, writtenAll, meansAll⟩ := sound.arguments further
      refine ⟨phrase :: phrases, tokens' ++ peek after :: tokens'', ?_,
        .more written separated writtenAll fun _ => trivial, .more means meansAll⟩
      rw [cut] at front
      rw [List.append_assoc]
      exact congrArg (tokens' ++ ·) front
    next =>
      cases continued
      exact ⟨[phrase], tokens', rfl, .last written, .more means (.none s')⟩

/-- With one more round an argument is read only where a phrase begins. -/
theorem Sound.argument_succ {rounds : Nat} (sound : Sound env rounds)
    (run : (PlanText.argument env (rounds + 1) tokens).runFrom s = (.ok (value, rest), s')) :
    Begins env tokens s value s' rest := by
  rw [PlanText.argument] at run
  dsimp only at run
  split at run
  next is =>
    have front : tokens = peek tokens :: advance tokens :=
      peek_present (by rw [is]; exact Kind.noConfusion)
    split at run
    next value spells =>
      cases run
      exact ⟨_, [peek tokens], front, .of_literal is rfl (.inl rfl), .int s spells⟩
    next => cases run
  next is =>
    have front : tokens = peek tokens :: advance tokens :=
      peek_present (by rw [is]; exact Kind.noConfusion)
    split at run
    next octets spells =>
      cases run
      exact ⟨_, [peek tokens], front, .of_literal is rfl (.inr (.inl rfl)), .string s spells⟩
    next => cases run
  next is =>
    have front : tokens = peek tokens :: advance tokens :=
      peek_present (by rw [is]; exact Kind.noConfusion)
    obtain ⟨t, s₁, caught, run⟩ := bind_ok run
    cases run
    rw [runFrom_tryCatch] at caught
    rcases parses : (env.parse (unbackquoted (peek tokens).text)).runFrom s with
      ⟨failure | u, s₂⟩ <;>
      rw [parses] at caught <;> cases caught
    exact ⟨_, [peek tokens], front, .of_literal is rfl (.inr (.inr rfl)), .term parses⟩
  next =>
    obtain ⟨⟨p, after⟩, s₁, read, run⟩ := bind_ok run
    cases run
    exact sound.call read
  next => cases run

/-- Within any number of rounds, what is read is a phrase. -/
theorem sound (env : Environment) : ∀ rounds, Sound env rounds
  | 0 => by
    constructor
    · intro tokens s p rest s' run
      rw [call] at run
      cases run
    · intro tokens s values rest s' run
      rw [arguments] at run
      cases run
    · intro tokens s value rest s' run
      rw [argument] at run
      cases run
  | rounds + 1 =>
    ⟨(sound env rounds).call_succ, (sound env rounds).arguments_succ,
      (sound env rounds).argument_succ⟩

/-! ### Phrases are read -/

/-- No phrase begins with a closing parenthesis. -/
theorem Phrase.Written.opens (written : phrase.Written lax tokens) (rest : List Token) :
    (peek (tokens ++ rest)).kind ≠ .char ')' := by
  cases written with
  | literal literal =>
    rcases literal with is | is | is <;> simp [peek, is]
  | call name => simp [peek, name]

/-- A call is read once its arguments are. -/
theorem call_of_arguments {opening closing : Token} {inner : List Token}
    {s₁ : Supply} {rounds : Nat}
    (name : token.kind = .name) (opens : opening.kind = .char '(')
    (closes : closing.kind = .char ')')
    (read : (arguments env rounds (inner ++ closing :: rest)).runFrom s =
      (.ok (values, closing :: rest), s₁))
    (combines : Combines env token.text values s₁ p s') :
    (call env (rounds + 1) (token :: opening :: (inner ++ closing :: rest))).runFrom s =
      (.ok (p, rest), s') := by
  have passed : advance (token :: opening :: (inner ++ closing :: rest)) =
      opening :: (inner ++ closing :: rest) :=
    advance_cons (by rw [name]; exact Kind.noConfusion)
  have opened : expect '(' (opening :: (inner ++ closing :: rest)) =
      .ok (inner ++ closing :: rest) :=
    expect_ok.mpr ⟨opening, opens, rfl⟩
  have closed : expect ')' (closing :: rest) = .ok rest := expect_ok.mpr ⟨closing, closes, rfl⟩
  rw [call]
  simp only [peek, name, passed, opened, ne_eq, not_true_eq_false, if_false]
  rw [runFrom_bind_ok (runFrom_lift (.ok _) s), runFrom_bind_ok read]
  dsimp only
  rw [closed, runFrom_bind_ok (runFrom_lift (.ok _) s₁), runFrom_bind_ok (assemble_ok.mpr combines)]
  rfl

mutual

/-- A phrase that says something is read as an argument, given three rounds for each token. -/
theorem Phrase.Written.read : ∀ {phrase : Phrase} {tokens : List Token},
    phrase.Written True tokens →
    ∀ {s value s'}, phrase.Means env s value s' → ∀ rounds, 3 * tokens.length ≤ rounds →
      ∀ rest, (argument env rounds (tokens ++ rest)).runFrom s = (.ok (value, rest), s')
  | _, _, @Phrase.Written.literal _ token literal, s, value, s', means, rounds, enough, rest => by
    obtain ⟨rounds, rfl⟩ : ∃ n, rounds = n + 1 := ⟨rounds - 1, by simp at enough; omega⟩
    have passed : advance (token :: rest) = rest := advance_cons literal.present
    generalize kind : token.kind = k at means
    rw [List.singleton_append, argument]
    cases means with
    | int _ spells => simp [peek, kind, spells, passed]
    | string _ spells => simp [peek, kind, spells, passed]
    | term parses =>
      simp only [peek, kind, passed]
      rw [runFrom_bind_ok]
      · rfl
      · rw [runFrom_tryCatch, parses]
  | _, _, @Phrase.Written.call _ token opening closing _ inner name opens inside closes, s, value,
      s', means, rounds, enough, rest => by
    simp only [List.length_cons, List.length_append, List.length_nil] at enough
    obtain ⟨rounds, rfl⟩ : ∃ n, rounds = n + 2 := ⟨rounds - 2, by omega⟩
    cases means with
    | call arguments combines =>
      have read := WrittenAll.read inside arguments rounds (by omega) (closing :: rest)
        closes
      have called := call_of_arguments name opens closes read combines
      have whole : token :: opening :: (inner ++ [closing]) ++ rest =
          token :: opening :: (inner ++ closing :: rest) := by simp
      rw [whole, argument]
      simp only [peek, name]
      rw [runFrom_bind_ok called]
      rfl

/-- Phrases that say something are read as arguments. -/
theorem WrittenAll.read : ∀ {phrases : List Phrase} {tokens : List Token},
    WrittenAll True phrases tokens → ∀ {s values s'}, MeansAll env phrases s values s' →
      ∀ rounds, 3 * tokens.length < rounds → ∀ rest, (peek rest).kind = .char ')' →
        (arguments env rounds (tokens ++ rest)).runFrom s = (.ok (values, rest), s')
  | _, _, .none, s, values, s', means, rounds, enough, rest, closes => by
    obtain ⟨rounds, rfl⟩ : ∃ n, rounds = n + 1 := ⟨rounds - 1, by simp at enough; omega⟩
    cases means
    rw [List.nil_append, arguments, if_pos closes]
    rfl
  | _, tokens, .last here, s, values, s', means, rounds, enough, rest, closes => by
    obtain ⟨rounds, rfl⟩ : ∃ n, rounds = n + 1 := ⟨rounds - 1, by omega⟩
    cases means with
    | more first none =>
      cases none
      have read := Phrase.Written.read here first rounds (by omega) rest
      rw [arguments, if_neg (here.opens rest), runFrom_bind_ok read]
      simp [closes]
  | _, _, @WrittenAll.more _ _ _ tokens tokens' comma here separates later _, s, values, s', means,
      rounds, enough, rest, closes => by
    simp only [List.length_cons, List.length_append] at enough
    obtain ⟨rounds, rfl⟩ : ∃ n, rounds = n + 1 := ⟨rounds - 1, by omega⟩
    cases means with
    | more first others =>
      have read := Phrase.Written.read here first rounds (by omega)
        (comma :: (tokens' ++ rest))
      have further := WrittenAll.read later others rounds (by omega) rest closes
      have passed : advance (comma :: (tokens' ++ rest)) = tokens' ++ rest :=
        advance_cons (by rw [separates]; exact Kind.noConfusion)
      rw [List.append_assoc, List.cons_append, arguments, if_neg (here.opens _),
        runFrom_bind_ok read]
      simp only [peek, separates, if_true, passed]
      rw [runFrom_bind_ok further]
      rfl

end

/-! ## Texts -/

/-- A token that begins with a character does not mark the end. -/
theorem extent_kind (c : Char) (cs : List Char) : (extent c cs).kind ≠ .endOfInput := by
  rw [extent]
  split
  · exact Kind.noConfusion
  split
  · exact Kind.noConfusion
  split
  · exact Kind.noConfusion
  split
  · rw [backquotedExtent]
    split <;> exact Kind.noConfusion
  · exact Kind.noConfusion

/-- Some tokens end with the only one that marks the end. -/
def Ended (tokens : List Token) : Prop :=
  ∃ before stop, tokens = before ++ [stop] ∧ stop.kind = .endOfInput ∧
    ∀ token ∈ before, token.kind ≠ .endOfInput

/-- A token before tokens that end. -/
theorem Ended.cons (present : token.kind ≠ .endOfInput) (ended : Ended tokens) :
    Ended (token :: tokens) := by
  obtain ⟨before, stop, rfl, ends, others⟩ := ended
  exact ⟨token :: before, stop, rfl, ends, List.forall_mem_cons.mpr ⟨present, others⟩⟩

/-- The end of the input ends. -/
theorem Ended.stop (ends : token.kind = .endOfInput) : Ended [token] :=
  ⟨[], token, rfl, ends, List.forall_mem_nil _⟩

/-- Tokens that are made of a text end. -/
theorem tokensFrom_ended : ∀ (rounds : Nat) (known : Option Misspelling) (p : Position)
    (cs : List Char), Ended (tokensFrom rounds known p cs)
  | 0, _, _, _ => .stop rfl
  | rounds + 1, known, p, cs => by
    rw [tokensFrom]
    dsimp only
    split
    · exact .stop rfl
    · exact .cons (extent_kind _ _) (tokensFrom_ended rounds _ _ _)

/-- The tokens of a text end with the only one that marks the end. -/
theorem tokens_ended (text : String) : Ended (PlanText.tokens text) := by
  rw [PlanText.tokens]
  split
  · exact .stop rfl
  · split <;> exact tokensFrom_ended _ _ _ _

/-- Where the tokens of a text are left at the mark of the end, only the mark is left. -/
theorem Ended.remaining (ended : Ended (tokens ++ rest))
    (present : ∀ t ∈ tokens, t.kind ≠ .endOfInput)
    (ends : (peek rest).kind = .endOfInput) : rest = [peek rest] := by
  obtain ⟨before, stop, whole, stops, others⟩ := ended
  induction tokens generalizing before with
  | nil =>
    cases before with
    | nil => 
      obtain rfl := whole
      rfl
    | cons first before =>
      obtain rfl := whole
      exact absurd ends (others first List.mem_cons_self)
  | cons token tokens ih =>
    cases before with
    | nil =>
      obtain ⟨rfl, -⟩ := List.cons.inj whole
      exact absurd stops (present _ List.mem_cons_self)
    | cons first before =>
      exact ih (fun t mem => present t (.tail _ mem)) before (List.cons.inj whole).2
        fun t mem => others t (.tail _ mem)

/-- A phrase does not go past the end of the text. -/
theorem Phrase.Written.present (written : phrase.Written lax tokens) :
    ∀ t ∈ tokens, t.kind ≠ .endOfInput := by
  have named : ∀ {t : Token} {k : Kind}, t.kind = k → k ≠ .endOfInput → t.kind ≠ .endOfInput := by
    rintro t k rfl
    exact id
  refine @Phrase.Written.rec lax (fun _ tokens _ => ∀ t ∈ tokens, t.kind ≠ .endOfInput)
    (fun _ tokens _ => ∀ t ∈ tokens, t.kind ≠ .endOfInput) ?_ ?_ ?_ ?_ ?_ _ _ written
  · intro token literal
    simpa using literal.present
  · intro token opening closing args tokens name opens inside closes present
    simp only [List.forall_mem_cons, List.forall_mem_append]
    exact ⟨named name Kind.noConfusion, named opens Kind.noConfusion, present,
      named closes Kind.noConfusion, List.forall_mem_nil _⟩
  · exact List.forall_mem_nil _
  · exact fun _ here => here
  · intro a rest tokens tokens' comma _ separates _ _ here later
    simp only [List.forall_mem_cons, List.forall_mem_append]
    exact ⟨here, named separates Kind.noConfusion, later⟩

end PlanText

/-! ## Failures -/

/-- Whether a failure is one of plan text, with the place where it was noticed. -/
def Failure.InPlanText : Failure → Prop
  | .plan _ _ _ => True
  | .planPart _ _ _ _ => True
  | _ => False

namespace PlanText

open Build

/-- Every failure is one of plan text. -/
def Complains {α : Type} (build : Build α) : Prop :=
  ∀ s failure s', build.runFrom s = (.error failure, s') → failure.InPlanText

section

variable {α β : Type}

/-- Returning a value does not fail. -/
theorem complains_pure (a : α) : Complains (pure a : Build α) := by
  rintro s failure s' run
  cases run

/-- A failure that is placed in the text of the plan may be reported. -/
theorem complains_throw {failure : Failure} (placed : failure.InPlanText) :
    Complains (throw failure : Build α) := by
  rintro s failed s' run
  cases run
  exact placed

/-- A computation whose failures are placed in the text of the plan complains at worst. -/
theorem complains_lift {result : Except Failure α}
    (placed : ∀ failure, result = .error failure → failure.InPlanText) :
    Complains (liftM result : Build α) := by
  rintro s failure s' run
  rw [runFrom_lift] at run
  exact placed failure (Prod.ext_iff.mp run).1

/-- If two builds complain at worst, then so do both together. -/
theorem Complains.bind {build : Build α} {next : α → Build β} (first : Complains build)
    (second : ∀ a, Complains (next a)) : Complains (build >>= next) := by
  intro s failure s' run
  rw [runFrom_bind] at run
  rcases ran : build.runFrom s with ⟨failed | a, s₁⟩ <;> rw [ran] at run
  · cases run
    exact first s _ _ ran
  · exact second a s₁ failure s' run

/-- A failure that is reported as a part of plan text is one of plan text. -/
theorem complains_reported (build : Build α) {report : Failure → Failure}
    (placed : ∀ failure, (report failure).InPlanText) :
    Complains (tryCatch build fun failure => throw (report failure)) := by
  intro s failure s' run
  rw [runFrom_tryCatch] at run
  rcases ran : build.runFrom s with ⟨failed | a, s₁⟩ <;> rw [ran] at run
  · cases run
    exact placed failed
  · cases run

end

/-- A complaint about a token is placed in the text of the plan. -/
theorem complaint_placed (token : Token) (fault : PlanFault) :
    (complaint token fault).InPlanText := by
  rw [complaint]
  split <;> trivial

/-- Expecting a character complains at worst. -/
theorem complains_expect (c : Char) (tokens : List Token) :
    Complains (liftM (expect c tokens) : Build (List Token)) := by
  refine complains_lift fun failure failed => ?_
  rw [expect] at failed
  split at failed
  · cases failed
  · cases failed
    exact complaint_placed _ _

/-- Where a value is no plan, the complaint is placed in the text of the plan. -/
theorem plansOf_error {failure : Failure} : ∀ {index : Nat} {values : List Value},
    plansOf token index values = .error failure → failure.InPlanText
  | _, [], failed => by cases failed
  | _, .arg _ :: _, failed => by cases failed; trivial
  | index, .plan _ :: rest, failed => by
    rw [plansOf] at failed
    rcases read : plansOf token (index + 1) rest with other | plans <;> rw [read] at failed <;>
      cases failed
    exact plansOf_error read

/-- Where a value is no argument, the complaint is placed in the text of the plan. -/
theorem argsOf_error {failure : Failure} : ∀ {values : List Value},
    argsOf token values = .error failure → failure.InPlanText
  | [], failed => by cases failed
  | .plan _ :: _, failed => by cases failed; trivial
  | .arg _ :: rest, failed => by
    rw [argsOf] at failed
    rcases read : argsOf token rest with other | args <;> rw [read] at failed <;> cases failed
    exact argsOf_error read

/-- Assembling a plan from a name and values complains at worst. -/
theorem complains_assemble (env : Environment) (token : Token) (values : List Value) :
    Complains (assemble env token values) := by
  rw [assemble]
  split
  · refine (complains_lift fun _ => plansOf_error).bind fun plans => ?_
    split
    · exact complains_throw trivial
    · split <;> exact complains_pure _
  · split
    · exact complains_throw trivial
    · exact (complains_lift fun _ => argsOf_error).bind fun args =>
        complains_reported _ fun _ => trivial

/-- Within any number of rounds, reading fails only in plan text. -/
theorem complains (env : Environment) : ∀ rounds tokens, Complains (call env rounds tokens) ∧
    Complains (arguments env rounds tokens) ∧ Complains (argument env rounds tokens)
  | 0, tokens => by
    rw [call, arguments, argument]
    exact ⟨complains_throw (complaint_placed _ _), complains_throw (complaint_placed _ _),
      complains_throw (complaint_placed _ _)⟩
  | rounds + 1, tokens => by
    have inner := complains env rounds
    refine ⟨?_, ?_, ?_⟩
    · rw [call]
      dsimp only
      split
      · exact complains_throw (complaint_placed _ _)
      · exact (complains_expect _ _).bind fun opened => (inner opened).2.1.bind fun read =>
          (complains_expect _ _).bind fun closed =>
            (complains_assemble env _ read.1).bind fun p => complains_pure _
    · rw [arguments]
      split
      · exact complains_pure _
      · refine (inner _).2.2.bind fun read => ?_
        dsimp only
        split
        · exact (inner _).2.1.bind fun others => complains_pure _
        · exact complains_pure _
    · rw [argument]
      dsimp only
      split
      · split
        · exact complains_pure _
        · exact complains_throw trivial
      · split
        · exact complains_pure _
        · exact complains_throw trivial
      · refine Complains.bind ?_ fun t => complains_pure _
        exact complains_reported _ fun _ => trivial
      · exact (inner _).1.bind fun read => complains_pure _
      · exact complains_throw (complaint_placed _ _)

end PlanText

namespace Environment

open PlanText Build

variable {env : Environment} {s s' : Supply} {p : Plan} {text : String}

/-- Evaluating a text succeeds exactly if the text is one phrase without misspellings that says a
plan, and returns that plan. -/
theorem evaluate_ok_iff : (env.evaluate text).runFrom s = (.ok p, s') ↔
    ∃ phrase ts stop, PlanText.tokens text = ts ++ [stop] ∧ stop.kind = .endOfInput ∧
      stop.misspelling = none ∧ Phrase.Written True phrase ts ∧
        phrase.Means env s (.plan p) s' := by
  rw [evaluate]
  constructor
  · intro run
    obtain ⟨⟨q, rest⟩, s₁, read, run⟩ := bind_ok run
    obtain ⟨phrase, ts, whole, written, means⟩ := (sound env _).call read
    dsimp only at run
    split at run
    next => cases run
    next ends =>
      have ends : (peek rest).kind = .endOfInput := Decidable.not_not.mp ends
      split at run
      next => cases run
      next spelled =>
        cases run
        have only := (whole ▸ tokens_ended text).remaining written.present ends
        exact ⟨phrase, ts, peek rest, only ▸ whole, ends, spelled, written, means⟩
  · rintro ⟨phrase, ts, stop, whole, ends, spelled, written, means⟩
    cases means with
    | call arguments combines =>
      cases written with
      | call name opens inside closes =>
        rename_i opening closing inner
        obtain ⟨rounds, enough⟩ : ∃ n, 3 * (PlanText.tokens text).length = n + 1 :=
          ⟨3 * (PlanText.tokens text).length - 1, by simp [whole]; omega⟩
        have read := inside.read arguments rounds
          (by simp [whole] at enough; omega) (closing :: [stop]) closes
        have called := call_of_arguments name opens closes read combines
        dsimp only
        rw [enough, whole, List.cons_append, List.cons_append, List.append_assoc,
          List.singleton_append, runFrom_bind_ok called]
        simp [peek, ends, spelled]

/-- Evaluating a text gives a plan, or a failure of plan text with its place. -/
theorem evaluate_complains (env : Environment) (text : String) : Complains (env.evaluate text) := by
  rw [evaluate]
  refine (complains env _ _).1.bind fun read => ?_
  dsimp only
  split
  · exact complains_throw (complaint_placed _ _)
  · split
    · exact complains_throw trivial
    · exact complains_pure _

/-- A comma after the last argument. -/
example : ∀ number comma : PlanText.Token, number = ⟨.int, "1", 1, 18, none⟩ →
    comma = ⟨.char ',', ",", 1, 19, none⟩ →
    [number, comma] <:+: PlanText.tokens "left_permutation(1,)" ∧
      WrittenAll True [.literal .int "1"] ([number] ++ comma :: []) := by
  rintro number comma rfl rfl
  exact ⟨by decide +kernel, .more (.of_literal rfl rfl (.inl rfl)) rfl .none fun _ => trivial⟩

end Environment

end Turnstile
