import Turnstile.Proofs.RuleMirroring

/-!
# Plans under a renaming

Two plans are renamed forms of each other if they make the same calls in the same places, on
renamed terms, and their open goals have renamed numbers. Reading a plan's text again gives a
renamed plan, and renamed plans mirror each other, so that whatever they are run on they leave the
same goals open up to the renaming.
-/

namespace Turnstile

open Build Renaming

variable {ρ : Renaming}

/-- An argument of a call, and the renamed argument. -/
inductive Renaming.TakesArg (ρ : Renaming) : Arg → Arg → Prop
  /-- The same number. -/
  | int (value : Int) : TakesArg ρ (.int value) (.int value)
  /-- The same string. -/
  | string (value : Text.Octets) : TakesArg ρ (.string value) (.string value)
  /-- A renamed term. -/
  | term {t t' : Term} (takes : ρ.Takes t t') : TakesArg ρ (.term t) (.term t')
  /-- The same argument of no kind. -/
  | unknown : TakesArg ρ .unknown .unknown

/-- A renaming leaves the kind of an argument. -/
theorem Renaming.TakesArg.kind? {arg arg' : Arg} (takes : ρ.TakesArg arg arg') :
    arg'.kind? = arg.kind? := by
  cases takes <;> rfl

/-! ## Descriptors -/

/-- A plan that is neither an open goal nor a branch. -/
def Plan.Atomic (p : Plan) : Prop := p.isAssumption = false ∧ p.isBranch = false

/-- A descriptor either draws the number of a new open goal, or builds a rule or a tactic without
drawing anything, and from renamed arguments a mirrored one. -/
inductive Rule.Steady (d : Descriptor) : Prop
  /-- The placeholder for an open goal. -/
  | placeholder (build : d.build = fun _ _ => return .assumption (← freshAssumption))
  /-- A rule or a tactic. -/
  | plan (mirrors : ∀ (ρ : Renaming) (th : Theory) (args args' : List Arg), th.FixedBy ρ →
      List.Forall₂ ρ.TakesArg args args' → ∃ p p', d.build th args = pure p ∧
        d.build th args' = pure p' ∧ p.Atomic ∧ Plan.Mirrors ρ p p')

namespace Rule

variable {d : Descriptor}

/-- Doing nothing is atomic. -/
theorem noop_atomic : noop.Atomic := ⟨rfl, rfl⟩

/-- A rule without arguments is steady if renamings take it to itself. -/
theorem Steady.plain {f : Theory → Plan} (build : d.build = Rule.plain f)
    (mirrors : ∀ (ρ : Renaming) (th : Theory), th.FixedBy ρ → Plan.Mirrors ρ (f th) (f th))
    (atomic : ∀ th, (f th).Atomic := by exact fun _ => ⟨rfl, rfl⟩) : Steady d :=
  .plan fun ρ th _ _ fixed _ => ⟨f th, f th, by rw [build, Rule.plain], by rw [build, Rule.plain],
    atomic th, mirrors ρ th fixed⟩

/-- A rule about a term is steady if renamings take it to the rule about the renamed term. -/
theorem Steady.onTerm {f : Theory → Term → Plan} (build : d.build = Rule.onTerm f)
    (mirrors : ∀ (ρ : Renaming) (th : Theory) (t t' : Term), th.FixedBy ρ → ρ.Takes t t' →
      Plan.Mirrors ρ (f th t) (f th t'))
    (atomic : ∀ th a, (f th a).Atomic := by exact fun _ _ => ⟨rfl, rfl⟩) : Steady d := by
  refine .plan fun ρ th args args' fixed takes => ?_
  rw [build]
  rcases takes with _ | ⟨first, _ | ⟨second, rest⟩⟩
  · exact ⟨noop, noop, rfl, rfl, noop_atomic, noop_mirrors⟩
  · cases first with
    | term taken => exact ⟨_, _, rfl, rfl, atomic _ _, mirrors ρ th _ _ fixed taken⟩
    | int value => exact ⟨noop, noop, rfl, rfl, noop_atomic, noop_mirrors⟩
    | string value => exact ⟨noop, noop, rfl, rfl, noop_atomic, noop_mirrors⟩
    | unknown => exact ⟨noop, noop, rfl, rfl, noop_atomic, noop_mirrors⟩
  · exact ⟨noop, noop, by simp [Rule.onTerm], by simp [Rule.onTerm], noop_atomic, noop_mirrors⟩

/-- A rule about a number is steady if renamings take it to itself. -/
theorem Steady.onInt {f : Theory → Int → Plan} (build : d.build = Rule.onInt f)
    (mirrors : ∀ (ρ : Renaming) (th : Theory) (i : Int), Plan.Mirrors ρ (f th i) (f th i))
    (atomic : ∀ th a, (f th a).Atomic := by exact fun _ _ => ⟨rfl, rfl⟩) : Steady d := by
  refine .plan fun ρ th args args' fixed takes => ?_
  rw [build]
  rcases takes with _ | ⟨first, _ | ⟨second, rest⟩⟩
  · exact ⟨noop, noop, rfl, rfl, noop_atomic, noop_mirrors⟩
  · cases first with
    | int value => exact ⟨_, _, rfl, rfl, atomic _ _, mirrors ρ th value⟩
    | term taken => exact ⟨noop, noop, rfl, rfl, noop_atomic, noop_mirrors⟩
    | string value => exact ⟨noop, noop, rfl, rfl, noop_atomic, noop_mirrors⟩
    | unknown => exact ⟨noop, noop, rfl, rfl, noop_atomic, noop_mirrors⟩
  · exact ⟨noop, noop, by simp [Rule.onInt], by simp [Rule.onInt], noop_atomic, noop_mirrors⟩

/-- A rule about a name is steady if renamings take it to itself. -/
theorem Steady.onString {f : Theory → Text.Octets → Plan} (build : d.build = Rule.onString f)
    (mirrors : ∀ (ρ : Renaming) (th : Theory) (name : Text.Octets), th.FixedBy ρ →
      Plan.Mirrors ρ (f th name) (f th name))
    (atomic : ∀ th a, (f th a).Atomic := by exact fun _ _ => ⟨rfl, rfl⟩) : Steady d := by
  refine .plan fun ρ th args args' fixed takes => ?_
  rw [build]
  rcases takes with _ | ⟨first, _ | ⟨second, rest⟩⟩
  · exact ⟨noop, noop, rfl, rfl, noop_atomic, noop_mirrors⟩
  · cases first with
    | string value => exact ⟨_, _, rfl, rfl, atomic _ _, mirrors ρ th value fixed⟩
    | term taken => exact ⟨noop, noop, rfl, rfl, noop_atomic, noop_mirrors⟩
    | int value => exact ⟨noop, noop, rfl, rfl, noop_atomic, noop_mirrors⟩
    | unknown => exact ⟨noop, noop, rfl, rfl, noop_atomic, noop_mirrors⟩
  · exact ⟨noop, noop, by simp [Rule.onString], by simp [Rule.onString], noop_atomic, noop_mirrors⟩

/-- The structural rules are steady. -/
theorem structuralRules_steady : ∀ d ∈ structuralRules, Steady d := by
  simp only [structuralRules, List.forall_mem_cons, List.not_mem_nil, false_imp_iff, implies_true,
    and_true]
  exact ⟨.placeholder rfl, .onInt rfl fun _ _ => leftPermutation_mirrors,
    .onInt rfl fun _ _ => rightPermutation_mirrors, .plain rfl fun _ _ _ => leftContraction_mirrors,
    .plain rfl fun _ _ _ => rightContraction_mirrors, .plain rfl fun _ _ _ => leftWeakening_mirrors,
    .plain rfl fun _ _ _ => rightWeakening_mirrors, .plain rfl fun _ _ _ => noop_mirrors⟩

/-- The logical rules are steady. -/
theorem logicalRules_steady : ∀ d ∈ logicalRules, Steady d := by
  simp only [logicalRules, List.forall_mem_cons, List.not_mem_nil, false_imp_iff, implies_true,
    and_true]
  exact ⟨.plain rfl fun _ _ _ => close_mirrors, .onTerm rfl fun _ _ _ _ _ => cut_mirrors,
    .plain rfl fun _ _ => leftNegation_mirrors, .plain rfl fun _ _ => rightNegation_mirrors,
    .plain rfl fun _ _ => leftDisjunction_mirrors, .plain rfl fun _ _ => rightDisjunction_mirrors,
    .onTerm rfl fun _ _ _ _ => leftUniversal_mirrors,
    .onTerm rfl fun _ _ _ _ => rightUniversal_mirrors,
    .onTerm rfl fun _ _ _ _ => leftSchema_mirrors,
    .plain rfl fun _ _ => leftSubstitution_mirrors, .plain rfl fun _ _ => rightSubstitution_mirrors,
    .plain rfl fun _ _ => leftSymmetry_mirrors, .plain rfl fun _ _ => rightSymmetry_mirrors,
    .onString rfl fun _ _ name fixed => theoremCut_mirrors fixed name,
    .onString rfl fun _ _ name fixed => leftExpand_mirrors fixed name,
    .onString rfl fun _ _ name fixed => rightExpand_mirrors fixed name⟩

/-- The tactics are steady. -/
theorem derivedRules_steady : ∀ d ∈ derivedRules, Steady d := by
  simp only [derivedRules, List.forall_mem_cons, List.not_mem_nil, false_imp_iff, implies_true,
    and_true]
  exact ⟨.plain rfl fun _ _ _ => qed_mirrors, .plain rfl fun _ _ => leftConjunction_mirrors,
    .plain rfl fun _ _ => rightConjunction_mirrors, .plain rfl fun _ _ => leftImplication_mirrors,
    .plain rfl fun _ _ => rightImplication_mirrors, .plain rfl fun _ _ => leftBidirectional_mirrors,
    .plain rfl fun _ _ => rightBidirectional_mirrors,
    .onTerm rfl fun _ _ _ _ => leftExistential_mirrors,
    .onTerm rfl fun _ _ _ _ => rightExistential_mirrors,
    .plain rfl fun _ _ => excludedMiddle_mirrors⟩

/-- The rules of set theory are steady. -/
theorem setRules_steady : ∀ d ∈ setRules, Steady d := by
  simp only [setRules, List.forall_mem_cons, List.not_mem_nil, false_imp_iff, implies_true,
    and_true]
  exact ⟨.onTerm rfl fun _ _ _ _ => rightExtension_mirrors,
    .onTerm rfl fun _ _ _ _ => leftSubset_mirrors, .onTerm rfl fun _ _ _ _ => rightSubset_mirrors,
    .plain rfl fun _ _ => leftPowerset_mirrors, .plain rfl fun _ _ => rightPowerset_mirrors,
    .plain rfl fun _ _ => leftSeparation_mirrors, .plain rfl fun _ _ => rightSeparation_mirrors⟩

/-- Every descriptor of the catalogue is steady. -/
theorem catalogue_steady : ∀ d ∈ catalogue, Steady d := by
  simp only [catalogue, List.forall_mem_append]
  exact ⟨⟨⟨structuralRules_steady, logicalRules_steady⟩, derivedRules_steady⟩, setRules_steady⟩

/-- Arguments have the declared kinds if their renamed forms do. -/
theorem takes_wrongKind? {args args' : List Arg} (takes : List.Forall₂ ρ.TakesArg args args') :
    ∀ specs, (Descriptor.wrongKind? specs args').isNone =
      (Descriptor.wrongKind? specs args).isNone := by
  induction takes with
  | nil =>
    intro specs
    cases specs <;> rfl
  | cons first _ ih =>
    intro specs
    cases specs with
    | nil => rfl
    | cons spec specs =>
      rw [Descriptor.wrongKind?, Descriptor.wrongKind?, first.kind?]
      split
      · exact ih specs
      · rfl

/-- What returns a value without drawing anything is not what fails, and returns one value. -/
theorem pure_inj {p q : Plan} (same : (pure p : Build Plan) = pure q) : p = q := by
  have runs := congrArg (fun build => (build.runFrom default).1) same
  cases runs
  rfl

/-- A failure is no value. -/
theorem throw_ne_pure (failure : Failure) (p : Plan) : (throw failure : Build Plan) ≠ pure p := by
  intro same
  have runs := congrArg (fun build => (build.runFrom default).1) same
  cases runs

/-- A plan that a descriptor returns without drawing anything is what it builds. -/
theorem build_of_instantiate {th : Theory} {args : List Arg} {p : Plan}
    (built : d.instantiate th args = pure p) :
    args.length = d.args.length ∧ (Descriptor.wrongKind? d.args args).isNone ∧
      d.build th args = pure p := by
  rw [Descriptor.instantiate] at built
  split at built
  · exact absurd built (throw_ne_pure _ _)
  next count =>
    split at built
    · exact absurd built (throw_ne_pure _ _)
    next fits => exact ⟨not_not.mp count, by rw [fits, Option.isNone_none], built⟩

/-- Arguments of the right number and kinds are handed to the rule. -/
theorem instantiate_eq (th : Theory) {args : List Arg} (count : args.length = d.args.length)
    (kinds : (Descriptor.wrongKind? d.args args).isNone) :
    d.instantiate th args = d.build th args := by
  rw [Descriptor.instantiate, if_neg (not_not.mpr count), Option.isNone_iff_eq_none.mp kinds]

/-- Drawing the number of an open goal is drawing something. -/
theorem fresh_ne_pure (p : Plan) :
    (do return .assumption (← freshAssumption) : Build Plan) ≠ pure p := by
  intro same
  have drawn : ((0 : Nat) + 1) = 0 :=
    congrArg (fun build : Build Plan => (build.runFrom Supply.initial).2.lastAssumption) same
  cases drawn

/-- What is instantiated from arguments is instantiated from renamed arguments, as a mirrored
plan. -/
theorem Steady.instantiate (steady : Steady d) {th : Theory} (fixed : th.FixedBy ρ)
    {args args' : List Arg} (takes : List.Forall₂ ρ.TakesArg args args') {p : Plan}
    (built : d.instantiate th args = pure p) :
    ∃ p', d.instantiate th args' = pure p' ∧ p.Atomic ∧ Plan.Mirrors ρ p p' := by
  obtain ⟨count, kinds, build⟩ := build_of_instantiate built
  cases steady with
  | placeholder placeholder =>
    rw [placeholder] at build
    exact absurd build (fresh_ne_pure p)
  | plan mirrors =>
    obtain ⟨q, p', buildQ, build', atomic, mirrored⟩ := mirrors ρ th args args' fixed takes
    obtain rfl := pure_inj (buildQ.symm.trans build)
    refine ⟨p', ?_, atomic, mirrored⟩
    rw [instantiate_eq th (takes.length_eq.symm.trans count)
      (by rw [takes_wrongKind? takes, kinds]),
      build']

end Rule

/-! ## Renamed plans -/

/-- Two plans that make the same calls in the same places, on renamed terms, and whose open goals
have renamed numbers. -/
inductive Plan.Renamed (env : Environment) (ρ : Renaming) : Plan → Plan → Prop
  /-- An open goal. -/
  | assumption (id : Nat) : Renamed env ρ (.assumption id) (.assumption (ρ.assumption id))
  /-- A call of a rule that the environment has. -/
  | call {d : Descriptor} {args args' : List Arg} {p p' : Plan} (listed : d ∈ env.rules.rules)
    (takes : List.Forall₂ ρ.TakesArg args args') (built : d.instantiate env.theory args = pure p)
    (built' : d.instantiate env.theory args' = pure p') : Renamed env ρ p p'
  /-- A branch. -/
  | branch {first first' : Plan} {branches branches' : List Plan}
      (head : Renamed env ρ first first')
    (rest : List.Forall₂ (Renamed env ρ) branches branches') :
    Renamed env ρ (.branch first branches) (.branch first' branches')

/-- A renaming leaves the terms of an environment as they are, and its rules are steady. -/
structure Environment.FixedBy (env : Environment) (ρ : Renaming) : Prop where
  /-- The terms that rules know. -/
  theory : env.theory.FixedBy ρ
  /-- The rules. -/
  rules : ∀ d ∈ env.rules.rules, Rule.Steady d

variable {env : Environment}

/-- A sequence of renamed plans is renamed. -/
theorem Plan.Renamed.sequence {rest rest' : List Plan}
    (tail : List.Forall₂ (Plan.Renamed env ρ) rest rest') :
    ∀ {first first' : Plan}, Plan.Renamed env ρ first first' →
      Plan.Renamed env ρ (Plan.sequence first rest) (Plan.sequence first' rest') := by
  induction tail with
  | nil => exact fun head => head
  | cons next _ ih => exact fun head => .branch head (.cons (ih next) .nil)

mutual

/-- Renamed plans mirror each other. -/
theorem Plan.Renamed.mirrors (fixed : env.FixedBy ρ) {p p' : Plan} :
    Plan.Renamed env ρ p p' → Plan.Mirrors ρ p p'
  | .assumption id => .assumption id _
  | .call listed takes built built' => by
    obtain ⟨q, other, _, mirrored⟩ := (fixed.rules _ listed).instantiate fixed.theory takes built
    obtain rfl := Rule.pure_inj (other.symm.trans built')
    exact mirrored
  | .branch head rest => .branch (head.mirrors fixed) (Plan.Renamed.mirrorsAll fixed rest)

/-- Renamed plans mirror each other one by one. -/
theorem Plan.Renamed.mirrorsAll (fixed : env.FixedBy ρ) {plans plans' : List Plan} :
    List.Forall₂ (Plan.Renamed env ρ) plans plans' → List.Forall₂ (Plan.Mirrors ρ) plans plans'
  | .nil => .nil
  | .cons first rest => .cons (first.mirrors fixed) (Plan.Renamed.mirrorsAll fixed rest)

end

/-! ## Plan texts -/

/-- Instantiating a descriptor the environment has from renamed arguments gives a renamed plan. -/
theorem Environment.FixedBy.instantiate (fixed : env.FixedBy ρ) {d : Descriptor}
    (listed : d ∈ env.rules.rules) {args args' : List Arg}
    (takes : List.Forall₂ ρ.TakesArg args args') :
    Mirrors ρ (Plan.Renamed env ρ) (d.instantiate env.theory args)
      (d.instantiate env.theory args') := by
  by_cases fits : args.length = d.args.length ∧ (Descriptor.wrongKind? d.args args).isNone
  · have fits' : (Descriptor.wrongKind? d.args args').isNone := by
      rw [Rule.takes_wrongKind? takes, fits.2]
    have same := Rule.instantiate_eq env.theory fits.1 fits.2
    have same' := Rule.instantiate_eq env.theory (takes.length_eq.symm.trans fits.1) fits'
    cases fixed.rules d listed with
    | placeholder build =>
      rw [same, same', build]
      refine mirrors_freshAssumption.bind ?_
      rintro id _ rfl
      exact mirrors_pure (.assumption id)
    | plan mirrors =>
      obtain ⟨p, p', build, build', _, _⟩ := mirrors ρ env.theory args args' fixed.theory takes
      rw [build] at same
      rw [build'] at same'
      rw [same, same']
      exact mirrors_pure (.call listed takes same same')
  · rw [Descriptor.instantiate]
    split
    · exact mirrors_throw _ _
    next count =>
      split
      · exact mirrors_throw _ _
      next kinds => exact absurd ⟨not_not.mp count, by rw [kinds, Option.isNone_none]⟩ fits

namespace PlanText

/-- An argument or a plan, and the renamed one. -/
inductive Value.Renamed (env : Environment) (ρ : Renaming) : Value → Value → Prop
  /-- Arguments. -/
  | arg {a a' : Arg} (takes : ρ.TakesArg a a') : Renamed env ρ (.arg a) (.arg a')
  /-- Plans. -/
  | plan {p p' : Plan} (renamed : Plan.Renamed env ρ p p') : Renamed env ρ (.plan p) (.plan p')

variable {token : Token} {values values' : List Value}

/-- Renamed values are taken for renamed plans. -/
theorem plansOf_follows (renamed : List.Forall₂ (Value.Renamed env ρ) values values') :
    ∀ index, Follows (List.Forall₂ (Plan.Renamed env ρ)) (plansOf token index values)
      (plansOf token index values') := by
  induction renamed with
  | nil => exact fun _ => follows_ok .nil
  | cons first _ ih =>
    intro index
    cases first with
    | arg _ => exact follows_error _ _
    | plan renamedP => exact (ih (index + 1)).map fun _ _ later => .cons renamedP later

/-- Renamed values are taken for renamed arguments. -/
theorem argsOf_follows (renamed : List.Forall₂ (Value.Renamed env ρ) values values') :
    Follows (List.Forall₂ ρ.TakesArg) (argsOf token values) (argsOf token values') := by
  induction renamed with
  | nil => exact follows_ok .nil
  | cons first _ ih =>
    cases first with
    | plan _ => exact follows_error _ _
    | arg takes => exact ih.map fun _ _ later => .cons takes later

/-- The plan of a call is the renamed plan if its arguments are the renamed ones. -/
theorem assemble_mirrors (fixed : env.FixedBy ρ)
    (renamed : List.Forall₂ (Value.Renamed env ρ) values values') :
    Mirrors ρ (Plan.Renamed env ρ) (assemble env token values) (assemble env token values') := by
  rw [assemble, assemble]
  split
  · refine (mirrors_lift (plansOf_follows renamed 1)).bind fun plans plans' all => ?_
    cases all with
    | nil => exact mirrors_throw _ _
    | cons head tail =>
      dsimp only
      split
      · exact mirrors_pure (Plan.Renamed.sequence tail head)
      · exact mirrors_pure (.branch head tail)
  · split
    next => exact mirrors_throw _ _
    next d found =>
      refine (mirrors_lift (argsOf_follows renamed)).bind fun args args' takes => ?_
      exact (fixed.instantiate (List.mem_of_find?_eq_some found) takes).reported _ _

/-- Reading a part of a text again, within some rounds, gives the renamed part and the same rest. -/
structure Steadily (env : Environment) (ρ : Renaming) (rounds : Nat) : Prop where
  /-- A call. -/
  call : ∀ tokens, Mirrors ρ (fun r r' => Plan.Renamed env ρ r.1 r'.1 ∧ r'.2 = r.2)
    (call env rounds tokens) (call env rounds tokens)
  /-- Arguments. -/
  arguments : ∀ tokens,
    Mirrors ρ (fun r r' => List.Forall₂ (Value.Renamed env ρ) r.1 r'.1 ∧ r'.2 = r.2)
      (arguments env rounds tokens) (arguments env rounds tokens)
  /-- One argument. -/
  argument : ∀ tokens, Mirrors ρ (fun r r' => Value.Renamed env ρ r.1 r'.1 ∧ r'.2 = r.2)
    (argument env rounds tokens) (argument env rounds tokens)

/-- A computation that draws nothing is mirrored by itself. -/
theorem mirrors_self {α : Type} (result : Except Failure α) :
    Mirrors ρ (fun a a' => a' = a) (liftM result : Build α) (liftM result : Build α) :=
  mirrors_lift fun a done => ⟨a, done, rfl⟩

/-- With one more round the reading of an argument is mirrored. -/
theorem Steadily.argument_succ {rounds : Nat} (fixed : env.FixedBy ρ)
    (steadily : Steadily env ρ rounds) (tokens : List Token) :
    Mirrors ρ (fun r r' => Value.Renamed env ρ r.1 r'.1 ∧ r'.2 = r.2)
      (PlanText.argument env (rounds + 1) tokens) (PlanText.argument env (rounds + 1) tokens) := by
  rw [PlanText.argument]
  dsimp only
  split
  · split
    · exact mirrors_pure ⟨.arg (.int _), rfl⟩
    · exact mirrors_throw _ _
  · split
    · exact mirrors_pure ⟨.arg (.string _), rfl⟩
    · exact mirrors_throw _ _
  · refine ((fixed.theory.vocabulary.parse _).reported _ _).bind fun t t' takes => ?_
    exact mirrors_pure ⟨.arg (.term takes), rfl⟩
  · refine (steadily.call tokens).bind ?_
    rintro ⟨p, rest⟩ ⟨p', _⟩ ⟨renamed, rfl⟩
    exact mirrors_pure ⟨.plan renamed, rfl⟩
  · exact mirrors_throw _ _

/-- With any number of rounds reading is mirrored. -/
theorem steadily (fixed : env.FixedBy ρ) (rounds : Nat) : Steadily env ρ rounds := by
  induction rounds with
  | zero =>
    constructor
    · intro tokens
      rw [call]
      exact mirrors_throw _ _
    · intro tokens
      rw [arguments]
      exact mirrors_throw _ _
    · intro tokens
      rw [argument]
      exact mirrors_throw _ _
  | succ rounds ih =>
    constructor
    · intro tokens
      rw [call]
      dsimp only
      split
      · exact mirrors_throw _ _
      · refine (mirrors_self _).bind ?_
        rintro _ tokens' rfl
        refine (ih.arguments tokens').bind ?_
        rintro ⟨values, tokens''⟩ ⟨values', _⟩ ⟨renamed, rfl⟩
        refine (mirrors_self _).bind ?_
        rintro _ rest rfl
        refine (assemble_mirrors fixed renamed).bind fun p p' renamedP => ?_
        exact mirrors_pure ⟨renamedP, rfl⟩
    · intro tokens
      rw [arguments]
      split
      · exact mirrors_pure ⟨.nil, rfl⟩
      · refine (ih.argument tokens).bind ?_
        rintro ⟨value, tokens'⟩ ⟨value', _⟩ ⟨renamed, rfl⟩
        dsimp only
        split
        · refine (ih.arguments _).bind ?_
          rintro ⟨values, rest⟩ ⟨values', _⟩ ⟨others, rfl⟩
          exact mirrors_pure ⟨.cons renamed others, rfl⟩
        · exact mirrors_pure ⟨.cons renamed .nil, rfl⟩
    · exact fun tokens => ih.argument_succ fixed tokens

end PlanText

/-- Reading a plan's text again gives the renamed plan. -/
theorem Environment.FixedBy.evaluate (fixed : env.FixedBy ρ) (text : String) :
    Mirrors ρ (Plan.Renamed env ρ) (env.evaluate text) (env.evaluate text) := by
  rw [Environment.evaluate]
  dsimp only
  refine ((PlanText.steadily fixed _).call _).bind ?_
  rintro ⟨p, rest⟩ ⟨p', _⟩ ⟨renamed, rfl⟩
  dsimp only
  split
  · exact mirrors_throw _ _
  · split
    · exact mirrors_throw _ _
    · exact mirrors_pure renamed

end Turnstile
