import Turnstile.Proofs.BuiltinRules
import Turnstile.Proofs.PlanLexing
import Turnstile.Proofs.RoundTrip

/-!
# Reading back plans

A plan that was read from a text is written as a text that is read as an alike plan, and that plan
is written as the same text again: what plans are written as is a fixed point of reading and
writing. Sequences come back as the branches that they stand for, names of rules come back as they
are registered, and terms come back with the most general types.
-/

namespace Turnstile

open Build PlanText

/-! ## Plans as phrases -/

/-- An argument as a phrase. -/
def Arg.phrase (write : Term → String) : Arg → Phrase
  | .int value => .literal .int (toString value)
  | .string value => .literal .string (Text.quoteOctets value)
  | .term value => .literal .backquoted ("`" ++ write value ++ "`")
  | .unknown => .literal (.char '?') "?"

/-- A call as a phrase. -/
def Call.phrase (write : Term → String) (call : Call) : Phrase :=
  .call call.name (call.args.map (Arg.phrase write))

mutual

/-- A plan as a phrase. -/
def Plan.phrase (write : Term → String) : Plan → Phrase
  | .assumption _ => .call "assumption" []
  | .rule call _ => call.phrase write
  | .compound call _ _ => call.phrase write
  | .branch first branches => .call "branch" (first.phrase write :: Plan.phraseAll write branches)

/-- Plans as phrases. -/
def Plan.phraseAll (write : Term → String) : List Plan → List Phrase
  | [] => []
  | p :: rest => p.phrase write :: Plan.phraseAll write rest

end

section Texts

variable {write : Term → String}

/-- The texts of phrases are the text of each. -/
theorem PlanText.textAll_eq_map (phrases : List Phrase) :
    textAll phrases = phrases.map Phrase.text := by
  induction phrases with
  | nil => rfl
  | cons a rest ih => rw [textAll, ih, List.map_cons]

/-- The text of an argument's phrase is how the argument is shown. -/
theorem Arg.phrase_text (a : Arg) : (a.phrase write).text = a.display write := by
  cases a <;> rfl

/-- The text of a call's phrase is how the call is shown. -/
theorem Call.phrase_text (call : Call) : (call.phrase write).text = call.display write := by
  rw [Call.phrase, Phrase.text, textAll_eq_map, List.map_map, Call.display]
  simp only [Function.comp_def, Arg.phrase_text]

mutual

/-- What a plan is written as is the text of its phrase. -/
theorem Plan.phrase_text : ∀ p : Plan, (p.phrase write).text = p.display write
  | .assumption _ => rfl
  | .rule call _ => call.phrase_text
  | .compound call _ _ => call.phrase_text
  | .branch first branches => by
    rw [Plan.phrase, Phrase.text, textAll, Plan.phrase_text first, Plan.phraseAll_text branches,
      Plan.display]
    rfl

/-- The texts of plans' phrases are how the plans are shown. -/
theorem Plan.phraseAll_text : ∀ plans : List Plan,
    textAll (Plan.phraseAll write plans) = Plan.displayAll write plans
  | [] => rfl
  | p :: rest => by
    rw [Plan.phraseAll, textAll, Plan.phrase_text p, Plan.phraseAll_text rest, Plan.displayAll]

end

/-- The phrase of a plan is a call. -/
theorem Plan.phrase_call (p : Plan) : ∃ name args, p.phrase write = .call name args := by
  cases p <;> exact ⟨_, _, rfl⟩

end Texts

/-! ## Alike plans -/

/-- Equal numbers, equal strings, and terms of which the first is an instance of the second. -/
inductive Arg.Alike : Arg → Arg → Prop
  | int (value : Int) : Alike (.int value) (.int value)
  | string (value : Text.Octets) : Alike (.string value) (.string value)
  | term {t t' : Term} (general : ∃ σ, t = t'.under σ) : Alike (.term t) (.term t')

/-- Plans of one shape whose calls have the same names and alike arguments. -/
inductive Plan.Alike : Plan → Plan → Prop
  | assumption (id id' : Nat) : Alike (.assumption id) (.assumption id')
  | rule {name : String} {args args' : List Arg} {apply apply' : Sequent → Build (List Sequent)}
    (arguments : List.Forall₂ Arg.Alike args args') :
    Alike (.rule ⟨name, args⟩ apply) (.rule ⟨name, args'⟩ apply')
  | compound {name : String} {args args' : List Arg} {check check' : Sequent → Build Unit}
    {expansion expansion' : Sequent → Plan} (arguments : List.Forall₂ Arg.Alike args args') :
    Alike (.compound ⟨name, args⟩ check expansion) (.compound ⟨name, args'⟩ check' expansion')
  | branch {first first' : Plan} {branches branches' : List Plan} (head : Alike first first')
    (rest : List.Forall₂ Alike branches branches') :
    Alike (.branch first branches) (.branch first' branches')

/-! ## What rules build -/

/-- A plan that is what a descriptor declares: an open goal, or a call of its name with the
arguments that it was given, as a rule or as a tactic. -/
def Plan.CalledAs (d : Descriptor) (args : List Arg) : Plan → Prop
  | .assumption _ => d.kind = .placeholder ∧ d.name = "assumption" ∧ args = []
  | .rule call _ => d.kind = .primitive ∧ call = ⟨d.name, args⟩
  | .compound call _ _ => d.kind = .compound ∧ call = ⟨d.name, args⟩
  | .branch _ _ => False

/-- From the arguments that it declares a descriptor builds what it declares, whatever was drawn
before and without drawing a type. -/
def Rule.Builds (d : Descriptor) : Prop := ∀ (th : Theory) (args : List Arg), d.Accepts args →
  ∀ s, ∃ p s', (d.build th args).runFrom s = (.ok p, s') ∧ p.CalledAs d args ∧
    s'.lastType = s.lastType

namespace Rule

variable {d : Descriptor}

/-- A rule without arguments builds plans that are called by its name. -/
theorem Builds.plain {f : Theory → Plan} (build : d.build = Rule.plain f) (declared : d.args = [])
    (called : ∀ th, (f th).CalledAs d []) : Builds d := by
  intro th args accepts s
  rw [Descriptor.Accepts, declared] at accepts
  obtain rfl := List.map_eq_nil_iff.mp accepts
  exact ⟨f th, s, by rw [build]; rfl, called th, rfl⟩

/-- A rule about a term builds plans that are called by its name with the term. -/
theorem Builds.onTerm {f : Theory → Term → Plan} (build : d.build = Rule.onTerm f)
    (declared : d.args = witnessArg) (called : ∀ th t, (f th t).CalledAs d [.term t]) :
    Builds d := by
  intro th args accepts s
  rw [Descriptor.Accepts, declared] at accepts
  obtain ⟨a, rfl, kind⟩ := List.map_eq_singleton_iff.mp accepts
  cases a with
  | term t => exact ⟨f th t, s, by rw [build]; rfl, called th t, rfl⟩
  | _ => cases kind

/-- A rule about a number builds plans that are called by its name with the number. -/
theorem Builds.onInt {f : Theory → Int → Plan} (build : d.build = Rule.onInt f)
    (declared : d.args = indexArg) (called : ∀ th i, (f th i).CalledAs d [.int i]) :
    Builds d := by
  intro th args accepts s
  rw [Descriptor.Accepts, declared] at accepts
  obtain ⟨a, rfl, kind⟩ := List.map_eq_singleton_iff.mp accepts
  cases a with
  | int i => exact ⟨f th i, s, by rw [build]; rfl, called th i, rfl⟩
  | _ => cases kind

/-- A rule about a name builds plans that are called by its name with the name. -/
theorem Builds.onString {f : Theory → Text.Octets → Plan} (build : d.build = Rule.onString f)
    (declared : d.args = nameArg) (called : ∀ th name, (f th name).CalledAs d [.string name]) :
    Builds d := by
  intro th args accepts s
  rw [Descriptor.Accepts, declared] at accepts
  obtain ⟨a, rfl, kind⟩ := List.map_eq_singleton_iff.mp accepts
  cases a with
  | string name => exact ⟨f th name, s, by rw [build]; rfl, called th name, rfl⟩
  | _ => cases kind

/-- The placeholder builds a new leaf. -/
theorem Builds.placeholder (build : d.build = fun _ _ => return .assumption (← freshAssumption))
    (kind : d.kind = .placeholder) (named : d.name = "assumption") (declared : d.args = []) :
    Builds d := by
  intro th args accepts s
  rw [Descriptor.Accepts, declared] at accepts
  obtain rfl := List.map_eq_nil_iff.mp accepts
  exact ⟨.assumption (s.lastAssumption + 1), { s with lastAssumption := s.lastAssumption + 1 },
    by rw [build]; rfl, ⟨kind, named, rfl⟩, rfl⟩

/-- The structural rules build what is called by their names. -/
theorem structuralRules_build : ∀ d ∈ structuralRules, Builds d := by
  simp only [structuralRules, List.forall_mem_cons, List.not_mem_nil, false_imp_iff, implies_true,
    and_true]
  exact ⟨.placeholder rfl rfl rfl rfl, .onInt rfl rfl fun _ _ => ⟨rfl, rfl⟩,
    .onInt rfl rfl fun _ _ => ⟨rfl, rfl⟩, .plain rfl rfl fun _ => ⟨rfl, rfl⟩,
    .plain rfl rfl fun _ => ⟨rfl, rfl⟩, .plain rfl rfl fun _ => ⟨rfl, rfl⟩,
    .plain rfl rfl fun _ => ⟨rfl, rfl⟩, .plain rfl rfl fun _ => ⟨rfl, rfl⟩⟩

/-- The logical rules build what is called by their names. -/
theorem logicalRules_build : ∀ d ∈ logicalRules, Builds d := by
  simp only [logicalRules, List.forall_mem_cons, List.not_mem_nil, false_imp_iff, implies_true,
    and_true]
  exact ⟨.plain rfl rfl fun _ => ⟨rfl, rfl⟩, .onTerm rfl rfl fun _ _ => ⟨rfl, rfl⟩,
    .plain rfl rfl fun _ => ⟨rfl, rfl⟩, .plain rfl rfl fun _ => ⟨rfl, rfl⟩,
    .plain rfl rfl fun _ => ⟨rfl, rfl⟩, .plain rfl rfl fun _ => ⟨rfl, rfl⟩,
    .onTerm rfl rfl fun _ _ => ⟨rfl, rfl⟩, .onTerm rfl rfl fun _ _ => ⟨rfl, rfl⟩,
    .onTerm rfl rfl fun _ _ => ⟨rfl, rfl⟩, .plain rfl rfl fun _ => ⟨rfl, rfl⟩,
    .plain rfl rfl fun _ => ⟨rfl, rfl⟩, .plain rfl rfl fun _ => ⟨rfl, rfl⟩,
    .plain rfl rfl fun _ => ⟨rfl, rfl⟩, .onString rfl rfl fun _ _ => ⟨rfl, rfl⟩,
    .onString rfl rfl fun _ _ => ⟨rfl, rfl⟩, .onString rfl rfl fun _ _ => ⟨rfl, rfl⟩⟩

/-- The tactics build what is called by their names. -/
theorem derivedRules_build : ∀ d ∈ derivedRules, Builds d := by
  simp only [derivedRules, List.forall_mem_cons, List.not_mem_nil, false_imp_iff, implies_true,
    and_true]
  exact ⟨.plain rfl rfl fun _ => ⟨rfl, rfl⟩, .plain rfl rfl fun _ => ⟨rfl, rfl⟩,
    .plain rfl rfl fun _ => ⟨rfl, rfl⟩, .plain rfl rfl fun _ => ⟨rfl, rfl⟩,
    .plain rfl rfl fun _ => ⟨rfl, rfl⟩, .plain rfl rfl fun _ => ⟨rfl, rfl⟩,
    .plain rfl rfl fun _ => ⟨rfl, rfl⟩, .onTerm rfl rfl fun _ _ => ⟨rfl, rfl⟩,
    .onTerm rfl rfl fun _ _ => ⟨rfl, rfl⟩, .plain rfl rfl fun _ => ⟨rfl, rfl⟩⟩

/-- The rules of set theory build what is called by their names. -/
theorem setRules_build : ∀ d ∈ setRules, Builds d := by
  simp only [setRules, List.forall_mem_cons, List.not_mem_nil, false_imp_iff, implies_true,
    and_true]
  exact ⟨.onTerm rfl rfl fun _ _ => ⟨rfl, rfl⟩, .onTerm rfl rfl fun _ _ => ⟨rfl, rfl⟩,
    .onTerm rfl rfl fun _ _ => ⟨rfl, rfl⟩, .plain rfl rfl fun _ => ⟨rfl, rfl⟩,
    .plain rfl rfl fun _ => ⟨rfl, rfl⟩, .plain rfl rfl fun _ => ⟨rfl, rfl⟩,
    .plain rfl rfl fun _ => ⟨rfl, rfl⟩⟩

/-- Every rule of the catalogue builds what it declares. -/
theorem catalogue_build : ∀ d ∈ catalogue, Builds d := by
  simp only [catalogue, List.forall_mem_append]
  exact ⟨⟨⟨structuralRules_build, logicalRules_build⟩, derivedRules_build⟩, setRules_build⟩

/-- The names of the catalogue can be read, and are not those that combine plans. -/
theorem catalogue_names : ∀ name ∈ catalogue.map Descriptor.name,
    Named name ∧ name ≠ "branch" ∧ name ≠ "sequence" := by
  decide +kernel

end Rule

namespace Descriptor

/-- Arguments of which none has the wrong kind have the kinds that are specified. -/
theorem kinds_of_wrongKind? : ∀ {specs : List ArgSpec} {args : List Arg},
    args.length = specs.length → wrongKind? specs args = none →
      args.map Arg.kind? = specs.map fun spec => some spec.kind
  | [], [], _, _ => rfl
  | spec :: specs, arg :: args, count, kinds => by
    rw [wrongKind?] at kinds
    split at kinds
    next kind =>
      rw [List.map_cons, List.map_cons, kind, kinds_of_wrongKind? (Nat.succ.inj count) kinds]
    next => cases kinds

/-- What a rule was instantiated from is what it accepts and is built from. -/
theorem instantiate_ok {d : Descriptor} {th : Theory} {args : List Arg} {s s' : Supply} {p : Plan}
    (run : (d.instantiate th args).runFrom s = (.ok p, s')) :
    d.Accepts args ∧ (d.build th args).runFrom s = (.ok p, s') := by
  rw [instantiate] at run
  split at run
  next => cases run
  next count =>
    split at run
    next => cases run
    next kinds => exact ⟨kinds_of_wrongKind? (not_not.mp count) kinds, run⟩

end Descriptor

/-! ## Texts of terms -/

namespace Formula

variable {x c : Char} {cs rest spelling : List Char} {kind : TokenKind}

/-- A character that occurs in no token of a formula and does not separate tokens either. -/
structure Foreign (x : Char) : Prop where
  /-- It is not part of a name. -/
  name : isNamePart x = false
  /-- It is no blank. -/
  solid : Text.isBlank x = false
  /-- It is not part of any other token. -/
  mark : ∀ entry ∈ punctuation, x ∉ entry.1

/-- A backquote is foreign to formulas. -/
theorem foreign_backquote : Foreign '\x60' :=
  ⟨by decide, by decide, by decide⟩

/-- A null character is foreign to formulas. -/
theorem foreign_null : Foreign '\x00' :=
  ⟨by decide, by decide, by decide⟩

/-- The token at the front of a text is spelled there, without foreign characters. -/
theorem Foreign.front (foreign : Foreign x)
    (found : frontToken? (c :: rest) = some (kind, spelling)) :
    ∃ parts more, spelling = c :: parts ∧ rest = parts ++ more ∧ x ∉ spelling := by
  rw [frontToken?] at found
  split at found
  next start =>
    obtain ⟨-, rfl⟩ := Prod.ext_iff.mp (Option.some.inj found)
    refine ⟨_, _, rfl, List.takeWhile_append_dropWhile.symm, fun inside => ?_⟩
    have part : isNamePart x = true := by
      rcases List.mem_cons.mp inside with rfl | later
      · simp [isNamePart, start]
      · exact List.all_eq_true.mp List.all_takeWhile x later
    rw [foreign.name] at part
    cases part
  next =>
    obtain ⟨entry, first, same⟩ := Option.map_eq_some_iff.mp found
    obtain ⟨-, rfl⟩ := Prod.ext_iff.mp same
    have listed := List.mem_of_find?_eq_some first
    have some : ∀ entry ∈ punctuation, entry.1 ≠ [] := by decide
    obtain ⟨d, parts, spelled⟩ := List.exists_cons_of_ne_nil (some entry listed)
    have fits : entry.1 <+: c :: rest := by simpa using List.find?_some first
    rw [spelled] at fits
    obtain ⟨rfl, more, is⟩ := List.cons_prefix_cons.mp fits
    exact ⟨parts, more, spelled, is.symm, foreign.mark entry listed⟩

/-- A text that is cut into tokens has no foreign characters. -/
theorem Foreign.not_mem_drop (foreign : Foreign x) : ∀ {cs : List Char} {skip : Nat} {p : Position}
    {tokens : List Token}, tokensFrom skip p cs = .ok tokens → x ∉ cs.drop skip := by
  intro cs
  induction cs with
  | nil => simp
  | cons c rest ih =>
    intro skip p tokens read
    cases skip with
    | succ skip =>
      rw [tokensFrom] at read
      exact ih read
    | zero =>
      rw [List.drop_zero]
      rw [tokensFrom] at read
      split at read
      next blank =>
        intro inside
        rcases List.mem_cons.mp inside with rfl | later
        · rw [foreign.solid] at blank
          cases blank
        · exact ih read later
      next =>
        split at read
        next => cases read
        next kind spelling found =>
          obtain ⟨others, further, -⟩ := bind_ok read
          obtain ⟨parts, more, rfl, rfl, apart⟩ := foreign.front found
          have behind := ih further
          rw [List.length_cons, Nat.add_sub_cancel, List.drop_left] at behind
          rw [← List.cons_append, List.mem_append, not_or]
          exact ⟨apart, behind⟩

/-- A foreign character does not occur in a text that is read. -/
theorem Foreign.not_mem (foreign : Foreign x) {text : String} {tokens : List Token}
    (read : Formula.tokens text = .ok tokens) : x ∉ text.toList :=
  foreign.not_mem_drop read

end Formula

/-- A text that is read as a term has no foreign characters. -/
theorem Vocabulary.foreign_of_parse {v : Vocabulary} {text : String} {t : Term} {s s' : Supply}
    (run : (v.parse text).runFrom s = (.ok t, s')) {x : Char} (foreign : Formula.Foreign x) :
    x ∉ text.toList := by
  rw [Vocabulary.parse] at run
  obtain ⟨tokens, s₁, cut, -⟩ := bind_ok run
  exact foreign.not_mem (lift_ok cut).1

/-! ## Reading back in an environment -/

/-- Terms that are read in an environment after so many types were drawn are read back, and its
rules are those of the catalogue. -/
structure Environment.Faithful (env : Environment) (low : Nat) : Prop where
  /-- What is read from what is written for a term is more general and is written alike. -/
  terms : ∀ {text : String} {t : Term} {u u' : Supply}, low ≤ u.lastType →
    (env.parse text).runFrom u = (.ok t, u') → ∀ w : Supply, low ≤ w.lastType →
      ∃ t' w', (env.parse (env.showTerm t)).runFrom w = (.ok t', w') ∧ (∃ σ, t = t'.under σ) ∧
        env.showTerm t' = env.showTerm t
  /-- The rules are in the catalogue. -/
  rules : ∀ d ∈ env.rules.rules, d ∈ Rule.catalogue

namespace PlanText

/-- A value as a phrase. -/
def Value.phrase (write : Term → String) : Value → Phrase
  | .arg a => a.phrase write
  | .plan p => p.phrase write

/-- Alike arguments and alike plans. -/
inductive Value.Alike : Value → Value → Prop
  | arg {a a' : Arg} (alike : a.Alike a') : Alike (.arg a) (.arg a')
  | plan {p p' : Plan} (alike : p.Alike p') : Alike (.plan p) (.plan p')

/-- What is written for a value can be cut into tokens, and means an alike value that is written in
the same way. -/
structure Value.Rereads (env : Environment) (low : Nat) (v : Value) : Prop where
  /-- The phrase can be written. -/
  clean : (v.phrase env.showTerm).Clean
  /-- The phrase means an alike value of the same phrase. -/
  again : ∀ w : Supply, low ≤ w.lastType → ∃ v' w', (v.phrase env.showTerm).Means env w v' w' ∧
    v.Alike v' ∧ v'.phrase env.showTerm = v.phrase env.showTerm ∧ w.lastType ≤ w'.lastType

variable {env : Environment} {low : Nat} {values : List Value} {first : Plan} {rest : List Plan}

/-- Clean phrases are clean together. -/
theorem cleanAll_of_forall {phrases : List Phrase} (each : ∀ a ∈ phrases, a.Clean) :
    CleanAll phrases := by
  induction phrases with
  | nil => trivial
  | cons a rest ih =>
    obtain ⟨here, later⟩ := List.forall_mem_cons.mp each
    exact ⟨here, ih later⟩

/-- Values are read back one after the other. -/
theorem rereads_all (each : ∀ v ∈ values, Value.Rereads env low v) : ∀ w : Supply,
    low ≤ w.lastType →
    ∃ values' w', MeansAll env (values.map (Value.phrase env.showTerm)) w values' w' ∧
      List.Forall₂ Value.Alike values values' ∧
      values'.map (Value.phrase env.showTerm) = values.map (Value.phrase env.showTerm) ∧
      w.lastType ≤ w'.lastType := by
  induction values with
  | nil => exact fun w _ => ⟨[], w, .none w, .nil, rfl, Nat.le_refl _⟩
  | cons v rest ih =>
    intro w later
    obtain ⟨here, others⟩ := List.forall_mem_cons.mp each
    obtain ⟨v', w₁, means, alike, same, grown⟩ := here.again w later
    obtain ⟨rest', w₂, meansAll, alikeAll, sameAll, grown'⟩ :=
      ih others w₁ (Nat.le_trans later grown)
    exact ⟨v' :: rest', w₂, .more means meansAll, .cons alike alikeAll,
      by rw [List.map_cons, List.map_cons, same, sameAll], Nat.le_trans grown grown'⟩

/-- What is alike to embedded items is embedded in its turn, if this holds item by item. -/
theorem alike_embedded {α : Type} {embed : α → Value} {S : α → α → Prop}
    (each : ∀ a v', (embed a).Alike v' → ∃ a', v' = embed a' ∧ S a a') : ∀ {items : List α}
    {values' : List Value}, List.Forall₂ Value.Alike (items.map embed) values' →
      ∃ items', values' = items'.map embed ∧ List.Forall₂ S items items'
  | [], _, alike => by
    cases alike
    exact ⟨[], rfl, .nil⟩
  | a :: items, _, alike => by
    cases alike with
    | cons here later =>
      obtain ⟨a', rfl, first⟩ := each a _ here
      obtain ⟨items', rfl, all⟩ := alike_embedded each later
      exact ⟨a' :: items', rfl, .cons first all⟩

/-- A value that is like a plan is a plan like it. -/
theorem alike_plan {p : Plan} {v' : Value} (alike : (Value.plan p).Alike v') :
    ∃ p', v' = .plan p' ∧ p.Alike p' := by
  cases alike with
  | plan alike => exact ⟨_, rfl, alike⟩

/-- A value that is like an argument is an argument like it. -/
theorem alike_arg {a : Arg} {v' : Value} (alike : (Value.arg a).Alike v') :
    ∃ a', v' = .arg a' ∧ a.Alike a' := by
  cases alike with
  | arg alike => exact ⟨_, rfl, alike⟩

/-! ### Plans that are combined -/

/-- The phrases of plans are the phrase of each. -/
theorem phraseAll_eq_map (write : Term → String) (plans : List Plan) :
    Plan.phraseAll write plans = plans.map (Plan.phrase write) := by
  induction plans with
  | nil => rfl
  | cons p rest ih => rw [Plan.phraseAll, ih, List.map_cons]

/-- The phrase of a branch is a call with the phrases of its plans. -/
theorem branch_phrase (write : Term → String) (first : Plan) (rest : List Plan) :
    (Plan.branch first rest).phrase write =
      .call "branch" (((first :: rest).map Value.plan).map (Value.phrase write)) := by
  rw [Plan.phrase, phraseAll_eq_map, List.map_map]
  rfl

/-- A branch is read back if its plans are. -/
theorem rereads_branch (each : ∀ p ∈ first :: rest, Value.Rereads env low (.plan p)) :
    Value.Rereads env low (.plan (.branch first rest)) := by
  have all : ∀ v ∈ (first :: rest).map Value.plan, Value.Rereads env low v :=
    List.forall_mem_map.mpr each
  constructor
  · rw [Value.phrase, branch_phrase, Phrase.Clean]
    refine ⟨by decide, cleanAll_of_forall (List.forall_mem_map.mpr fun v inside => ?_)⟩
    exact (all v inside).clean
  · intro w later
    obtain ⟨values', w', means, alike, same, grown⟩ := rereads_all all w later
    obtain ⟨plans', rfl, alikeAll⟩ := alike_embedded (fun _ _ => alike_plan) alike
    cases alikeAll with
    | cons head tail =>
      refine ⟨_, w', ?_, .plan (.branch head tail), ?_, grown⟩
      · rw [Value.phrase, branch_phrase]
        exact .call means (.branch _ _ w')
      · rw [Value.phrase, Value.phrase, branch_phrase, branch_phrase, same]

/-- A sequence is read back if its plans are. -/
theorem rereads_sequence : ∀ {rest : List Plan} {first : Plan},
    (∀ p ∈ first :: rest, Value.Rereads env low (.plan p)) →
      Value.Rereads env low (.plan (.sequence first rest))
  | [], first, each => each first List.mem_cons_self
  | next :: rest, first, each => by
    rw [Plan.sequence]
    obtain ⟨here, later⟩ := List.forall_mem_cons.mp each
    exact rereads_branch (List.forall_mem_cons.mpr
      ⟨here, List.forall_mem_singleton.mpr (rereads_sequence later)⟩)

/-! ### Rules -/

end PlanText

/-- Arguments that are alike are of one kind. -/
theorem Arg.Alike.kind? {a a' : Arg} (alike : a.Alike a') : a'.kind? = a.kind? := by
  cases alike <;> rfl

/-- Lists of arguments that are alike have the same kinds. -/
theorem Arg.alike_kinds {args args' : List Arg} (alike : List.Forall₂ Arg.Alike args args') :
    args'.map Arg.kind? = args.map Arg.kind? := by
  induction alike with
  | nil => rfl
  | cons here _ ih => rw [List.map_cons, List.map_cons, here.kind?, ih]

/-- A plan is written as it is called. -/
theorem Plan.CalledAs.phrase {d : Descriptor} {args : List Arg} {p : Plan}
    (called : p.CalledAs d args) (write : Term → String) :
    p.phrase write = .call d.name (args.map (Arg.phrase write)) := by
  cases p with
  | assumption id =>
    obtain ⟨-, named, rfl⟩ := called
    rw [named]
    rfl
  | rule call apply =>
    obtain ⟨-, rfl⟩ := called
    rfl
  | compound call check expansion =>
    obtain ⟨-, rfl⟩ := called
    rfl
  | branch first branches => exact called.elim

/-- The kind of rules that are made of plans of this form. -/
def Plan.ruleKind? : Plan → Option RuleKind
  | .assumption _ => some .placeholder
  | .rule _ _ => some .primitive
  | .compound _ _ _ => some .compound
  | .branch _ _ => none

/-- A plan that is called by a rule's name is of the rule's kind. -/
theorem Plan.CalledAs.kind {d : Descriptor} {args : List Arg} {p : Plan}
    (called : p.CalledAs d args) : p.ruleKind? = some d.kind := by
  cases p with
  | branch first branches => exact called.elim
  | _ => exact congrArg some called.1.symm

/-- What a rule builds from alike arguments is alike. -/
theorem Plan.CalledAs.alike {d : Descriptor} {args args' : List Arg} {p p' : Plan}
    (called : p.CalledAs d args) (called' : p'.CalledAs d args')
    (alike : List.Forall₂ Arg.Alike args args') : p.Alike p' := by
  have kind := called.kind
  rw [← called'.kind] at kind
  cases p with
  | assumption id =>
    cases p' with
    | assumption id' => exact .assumption id id'
    | _ => cases kind
  | rule call apply =>
    cases p' with
    | rule call' apply' =>
      obtain ⟨-, rfl⟩ := called
      obtain ⟨-, rfl⟩ := called'
      exact .rule alike
    | _ => cases kind
  | compound call check expansion =>
    cases p' with
    | compound call' check' expansion' =>
      obtain ⟨-, rfl⟩ := called
      obtain ⟨-, rfl⟩ := called'
      exact .compound alike
    | _ => cases kind
  | branch first branches => exact called.elim

/-- A rule that is found under a name is found under its own name. -/
theorem Environment.rule?_name {env : Environment} {name : String} {d : Descriptor}
    (known : env.rule? name = some d) : env.rule? d.name = some d := by
  have same : Text.snakeCase d.name = Text.snakeCase name := by
    simpa using List.find?_some known
  rw [Environment.rule?, Registry.lookup, same]
  exact known

namespace PlanText

variable {env : Environment} {low : Nat}

/-- What a rule builds of arguments that are read back is read back. -/
theorem rereads_rule {d : Descriptor} {args : List Arg} {p : Plan} {name : String}
    (listed : d ∈ Rule.catalogue) (known : env.rule? name = some d) (accepts : d.Accepts args)
    (called : p.CalledAs d args) (each : ∀ a ∈ args, Value.Rereads env low (.arg a)) :
    Value.Rereads env low (.plan p) := by
  obtain ⟨named, other⟩ := Rule.catalogue_names d.name (List.mem_map_of_mem listed)
  have all : ∀ v ∈ args.map Value.arg, Value.Rereads env low v := List.forall_mem_map.mpr each
  have phrase : ∀ {args : List Arg} {p : Plan}, p.CalledAs d args →
      (Value.plan p).phrase env.showTerm =
        .call d.name ((args.map Value.arg).map (Value.phrase env.showTerm)) := by
    intro args p called
    rw [List.map_map]
    exact called.phrase env.showTerm
  constructor
  · rw [phrase called, Phrase.Clean]
    refine ⟨named, cleanAll_of_forall (List.forall_mem_map.mpr fun v inside => ?_)⟩
    exact (all v inside).clean
  · intro w later
    obtain ⟨values', w₁, means, alike, same, grown⟩ := rereads_all all w later
    obtain ⟨args', rfl, alikeAll⟩ := alike_embedded (fun _ _ => alike_arg) alike
    have accepts' : d.Accepts args' := (Arg.alike_kinds alikeAll).trans accepts
    obtain ⟨p', w', built, called', types⟩ :=
      Rule.catalogue_build d listed env.theory args' accepts' w₁
    refine ⟨.plan p', w', ?_, .plan (called.alike called' alikeAll), ?_, types ▸ grown⟩
    · rw [phrase called]
      refine .call means (.rule other (Environment.rule?_name known) ?_)
      rw [accepts'.instantiate]
      exact built
    · rw [phrase called, phrase called', same]

/-! ### Arguments -/

/-- A number that fits into a word is read back. -/
theorem rereads_int {value : Nat} (fits : Word.fits value = true) :
    Value.Rereads env low (.arg (.int value)) where
  clean := by
    have null : '\x00' ∉ (toString value).toList := fun inside =>
      absurd (digit_of_mem_toString inside).digit (by decide)
    exact ⟨.inl rfl, null, scans_number value⟩
  again w _ := ⟨_, w, .int w (decimal_toString value fits), .arg (.int value), rfl, Nat.le_refl _⟩

/-- A string is read back. -/
theorem rereads_string (octets : Text.Octets) : Value.Rereads env low (.arg (.string octets)) where
  clean := ⟨.inr (.inl rfl), null_not_mem_quoteOctets octets,
    (scans_string octets).mono fun _ _ => trivial⟩
  again w _ := ⟨_, w, .string w (Text.unquote?_quoteOctets octets), .arg (.string octets), rfl,
    Nat.le_refl _⟩

/-- Reading a term only draws types. -/
theorem parse_grown {text : String} {t : Term} {s s' : Supply}
    (run : (env.parse text).runFrom s = (.ok t, s')) : s.lastType ≤ s'.lastType := by
  have grown := (env.vocabulary.grows_parse text s).types
  rwa [show env.vocabulary.parse text = env.parse text from rfl, run] at grown

/-- A term that was read is read back where the environment is faithful. -/
theorem rereads_term (faithful : env.Faithful low) {text : String} {t : Term} {u u' : Supply}
    (later : low ≤ u.lastType) (run : (env.parse text).runFrom u = (.ok t, u')) :
    Value.Rereads env low (.arg (.term t)) := by
  have again := faithful.terms later run
  obtain ⟨_, _, reread, -⟩ := again u later
  have unquoted := Vocabulary.foreign_of_parse reread Formula.foreign_backquote
  have unwritten := Vocabulary.foreign_of_parse reread Formula.foreign_null
  constructor
  · refine ⟨.inr (.inr rfl), ?_, (scans_backquoted unquoted).mono fun _ _ => trivial⟩
    rw [toList_backquoted]
    simp [unwritten]
  · intro w later
    obtain ⟨t', w', reread, general, same⟩ := again w later
    refine ⟨.arg (.term t'), w', .term ?_, .arg (.term general), ?_, ?_⟩
    · rw [unbackquoted_quoted unquoted]
      exact reread
    · change Phrase.literal .backquoted ("`" ++ env.showTerm t' ++ "`") = _
      rw [same]
      rfl
    · exact parse_grown reread

/-- What is read in digits fits into a word. -/
theorem decimal_fits : ∀ {cs : List Char} {start value : Nat}, decimal start cs = .ok value →
    Word.fits value = true
  | [], start, value, read => by
    rw [decimal] at read
    split at read
    next fits =>
      cases read
      exact fits
    next => cases read
  | c :: rest, start, value, read => by
    rw [decimal] at read
    split at read
    next =>
      dsimp only at read
      split at read
      · exact decimal_fits read
      · cases read
    next => cases read

/-- A plan that is combined from values is read back if the values are. -/
theorem Combines.rereads (faithful : env.Faithful low) {name : String} {values : List Value}
    {s s' : Supply} {p : Plan} (combines : Combines env name values s p s')
    (each : ∀ v ∈ values, Value.Rereads env low v) :
    Value.Rereads env low (.plan p) ∧ s'.lastType = s.lastType := by
  cases combines with
  | branch first rest => exact ⟨rereads_branch (List.forall_mem_map.mp each), rfl⟩
  | sequence first rest => exact ⟨rereads_sequence (List.forall_mem_map.mp each), rfl⟩
  | @rule _ d args _ _ _ _ known built =>
    have listed := faithful.rules d (List.mem_of_find?_eq_some known)
    obtain ⟨accepts, built⟩ := d.instantiate_ok built
    obtain ⟨q, s₁, builds, called, types⟩ := Rule.catalogue_build d listed env.theory args accepts s
    rw [built] at builds
    cases builds
    exact ⟨rereads_rule listed known accepts called (List.forall_mem_map.mp each), types⟩

mutual

/-- What a phrase means in a faithful environment is read back. -/
theorem Phrase.Means.rereads (faithful : env.Faithful low) : ∀ {phrase : Phrase} {v : Value}
    {s s' : Supply}, phrase.Means env s v s' → low ≤ s.lastType →
      Value.Rereads env low v ∧ s.lastType ≤ s'.lastType
  | _, _, _, _, .int s spells, _ => ⟨rereads_int (decimal_fits spells), Nat.le_refl _⟩
  | _, _, _, _, .string s _, _ => ⟨rereads_string _, Nat.le_refl _⟩
  | _, _, _, _, .term parses, later => ⟨rereads_term faithful later parses, parse_grown parses⟩
  | _, _, _, _, .call arguments combines, later => by
    obtain ⟨each, grown⟩ := MeansAll.rereads faithful arguments later
    obtain ⟨rereads, types⟩ := combines.rereads faithful each
    exact ⟨rereads, types ▸ grown⟩

/-- What phrases mean in a faithful environment is read back. -/
theorem MeansAll.rereads (faithful : env.Faithful low) : ∀ {phrases : List Phrase}
    {values : List Value} {s s' : Supply}, MeansAll env phrases s values s' → low ≤ s.lastType →
      (∀ v ∈ values, Value.Rereads env low v) ∧ s.lastType ≤ s'.lastType
  | _, _, _, _, .none s, _ => ⟨List.forall_mem_nil _, Nat.le_refl _⟩
  | _, _, _, _, .more here others, later => by
    obtain ⟨first, grown⟩ := Phrase.Means.rereads faithful here later
    obtain ⟨each, grown'⟩ := MeansAll.rereads faithful others (Nat.le_trans later grown)
    exact ⟨List.forall_mem_cons.mpr ⟨first, each⟩, Nat.le_trans grown grown'⟩

end

end PlanText

/-- In a faithful environment what a text is evaluated to is written as a text that evaluates to an
alike plan, which is written in the same way. -/
theorem Environment.Faithful.evaluate_showPlan {env : Environment} {low : Nat}
    (faithful : env.Faithful low) {text : String} {u u' w : Supply} {p : Plan}
    (later : low ≤ u.lastType) (run : (env.evaluate text).runFrom u = (.ok p, u'))
    (later' : low ≤ w.lastType) :
    ∃ p' w', (env.evaluate (env.showPlan p)).runFrom w = (.ok p', w') ∧ p.Alike p' ∧
      env.showPlan p' = env.showPlan p := by
  obtain ⟨phrase, _, _, _, _, _, _, means⟩ := Environment.evaluate_ok_iff.mp run
  obtain ⟨clean, again⟩ := (means.rereads faithful later).1
  obtain ⟨v', w', means', same', same, -⟩ := again w later'
  obtain ⟨p', rfl, alike⟩ := alike_plan same'
  obtain ⟨name, args, is⟩ : ∃ name args, p.phrase env.showTerm = .call name args := p.phrase_call
  have text : (Value.plan p).phrase env.showTerm = .call name args := is
  rw [text] at clean means' same
  obtain ⟨ts, stop, whole, ends, spelled, written⟩ := tokens_of_clean clean
  have shown : env.showPlan p = (Phrase.call name args).text := by
    rw [← is, Plan.phrase_text]
    rfl
  refine ⟨p', w', ?_, alike, ?_⟩
  · rw [shown]
    exact Environment.evaluate_ok_iff.mpr
      ⟨_, ts, stop, whole, ends, spelled, written.relaxed, means'⟩
  · have again : p'.phrase env.showTerm = p.phrase env.showTerm := same.trans is.symm
    have texts := congrArg Phrase.text again
    rwa [Plan.phrase_text, Plan.phrase_text] at texts

end Turnstile
