import Turnstile.Proofs.Caching
import Turnstile.Proofs.PlanRoundTrip

/-!
# Plans in the built-in environments

What theories declare is legible if names are identifiers, operators bind within the bounds and set
builders that share their membership word are for one constant. The words that are made of legible
declarations can be read and written, and the types of the constants that they stand for were drawn
while the declarations were loaded. So terms that are read in the environment afterwards are read
back, and plans with them.

The built-in theories are legible, in whatever order and however often they are named.
-/

namespace Turnstile

open Build Formula

/-! ## Legible declarations -/

/-- What is declared can be told when it is read. -/
structure Declarations.Legible (d : Declarations) : Prop where
  /-- Types are named by identifiers. -/
  types : ∀ name ∈ d.types, Identifier name
  /-- So are operators, and they bind within the bounds. -/
  operators : ∀ o ∈ d.operators, Identifier o.name ∧ 1 ≤ o.precedence ∧ o.precedence < loosest
  /-- So are binders. -/
  binders : ∀ name ∈ d.binders, Identifier name
  /-- So are the constants of set builders. -/
  setBuilders : ∀ b ∈ d.setBuilders, Identifier b.constant
  /-- A membership word belongs to one constant. -/
  members : ∀ b ∈ d.setBuilders, ∀ b' ∈ d.setBuilders, b.member = b'.member →
    b.constant = b'.constant

/-- What is declared is declared by others too. -/
structure Declarations.Inside (d e : Declarations) : Prop where
  types : d.types ⊆ e.types
  operators : d.operators ⊆ e.operators
  binders : d.binders ⊆ e.binders
  setBuilders : d.setBuilders ⊆ e.setBuilders

namespace Declarations

variable {d d' e : Declarations} {constants : List Symbol}

/-- Declarations that are part of legible ones are legible. -/
theorem Legible.inside (legible : e.Legible) (inside : d.Inside e) : d.Legible where
  types name listed := legible.types name (inside.types listed)
  operators o listed := legible.operators o (inside.operators listed)
  binders name listed := legible.binders name (inside.binders listed)
  setBuilders b listed := legible.setBuilders b (inside.setBuilders listed)
  members b listed b' listed' :=
    legible.members b (inside.setBuilders listed) b' (inside.setBuilders listed')

/-- Nothing is part of everything. -/
theorem inside_nothing : Inside {} e :=
  ⟨List.nil_subset _, List.nil_subset _, List.nil_subset _, List.nil_subset _⟩

/-- Two parts together are a part. -/
theorem Inside.append (first : d.Inside e) (second : d'.Inside e) : (d ++ d').Inside e :=
  ⟨List.append_subset.mpr ⟨first.types, second.types⟩,
    List.append_subset.mpr ⟨first.operators, second.operators⟩,
    List.append_subset.mpr ⟨first.binders, second.binders⟩,
    List.append_subset.mpr ⟨first.setBuilders, second.setBuilders⟩⟩

/-- The constant that is found for a name has it. -/
theorem constantFor_name {kind name : String} {c : Symbol}
    (found : constantFor constants kind name = .ok c) : c.name = name := by
  rw [constantFor] at found
  split at found
  next c' listed =>
    cases found
    simpa using List.find?_some listed
  next => cases found

/-- Where a word that is declared comes from. -/
inductive Source (d : Declarations) : Word → Prop
  /-- The name of a type. -/
  | type {w : Word} (listed : w ∈ d.typeWords) : Source d w
  /-- The declaration of an operator. -/
  | operator {o : OperatorDecl} {op : Operator} (listed : o ∈ d.operators)
    (named : op.constant.name = o.name) (binds : op.precedence = o.precedence) :
    Source d (.operator op)
  /-- The declaration of a binder. -/
  | binder {c : Symbol} (listed : c.name ∈ d.binders) : Source d (.binder c)
  /-- The declaration of a set builder. -/
  | setBuilder {b : SetBuilderDecl} {builder : SetBuilder} (listed : b ∈ d.setBuilders)
    (named : builder.constant.name = b.constant) (separates : builder.member = b.member) :
    Source d (.setBuilder builder)

/-- Every word of some declarations comes from one of them. -/
theorem words_source {words : List Word} (made : d.words constants = .ok words) :
    ∀ w ∈ words, d.Source w := by
  rw [Declarations.words] at made
  obtain ⟨operators, madeOperators, made⟩ := Formula.bind_ok made
  obtain ⟨binders, madeBinders, made⟩ := Formula.bind_ok made
  obtain ⟨builders, madeBuilders, made⟩ := Formula.bind_ok made
  cases made
  intro w member
  simp only [List.mem_append] at member
  rcases member with ((isType | isOperator) | isBinder) | isBuilder
  · exact .type isType
  · obtain ⟨o, listed, is⟩ := mem_mapM madeOperators w isOperator
    obtain ⟨c, found, is⟩ := Formula.bind_ok is
    split at is
    · cases is
      exact .operator listed (constantFor_name found) rfl
    · cases is
  · obtain ⟨name, listed, is⟩ := mem_mapM madeBinders w isBinder
    obtain ⟨c, found, is⟩ := Formula.bind_ok is
    cases is
    exact .binder (constantFor_name found ▸ listed)
  · obtain ⟨b, listed, is⟩ := mem_mapM madeBuilders w isBuilder
    obtain ⟨c, found, is⟩ := Formula.bind_ok is
    cases is
    exact .setBuilder listed (constantFor_name found) rfl

/-- A word of legible declarations is named by an identifier. -/
theorem Legible.identifier (legible : d.Legible) {w : Word} (source : d.Source w) :
    Identifier w.name := by
  cases source with
  | type listed =>
    simp only [typeWords, List.mem_cons, List.mem_map] at listed
    rcases listed with rfl | rfl | ⟨name, listed, rfl⟩
    · exact show Identifier "obj" by decide
    · exact show Identifier "bool" by decide
    · exact legible.types name listed
  | @operator o op listed named =>
    change Identifier op.constant.name
    exact named ▸ (legible.operators o listed).1
  | @binder c listed => exact legible.binders c.name listed
  | @setBuilder b builder listed named =>
    change Identifier builder.constant.name
    exact named ▸ legible.setBuilders b listed

/-- A vocabulary that was made of legible declarations can be read and written. -/
theorem Legible.readable (legible : d.Legible) {words : List Word} {v : Vocabulary}
    (made : d.words constants = .ok words) (declared : Vocabulary.ofWords words = .ok v)
    (regular : v.Regular) : v.Readable := by
  have source : ∀ w ∈ v.words, d.Source w := fun w listed =>
    words_source made w (Vocabulary.mem_ofWords declared listed)
  have identifiers : ∀ w ∈ v.words, Identifier w.name := fun w listed =>
    legible.identifier (source w listed)
  have writable := (Vocabulary.writable_of_words declared regular identifiers).1
  refine Vocabulary.readable_of_words declared regular identifiers ?_ ?_
  · intro op listed
    cases source _ (Vocabulary.mem_operators.mp listed) with
    | type isType => simp [typeWords] at isType
    | operator inside _ binds => exact binds ▸ (legible.operators _ inside).2
  · intro builder listed builder' listed' same
    have inside := Vocabulary.mem_setBuilders.mp listed
    have inside' := Vocabulary.mem_setBuilders.mp listed'
    have names : builder.constant.name = builder'.constant.name := by
      cases source _ inside with
      | type isType => simp [typeWords] at isType
      | setBuilder known named separates =>
        cases source _ inside' with
        | type isType => simp [typeWords] at isType
        | setBuilder known' named' separates' =>
          rw [named, named']
          exact legible.members _ known _ known' (by rw [← separates, ← separates', same])
    exact Word.setBuilder.inj (writable.word_unique inside inside' names)

/-! ## What was drawn for the constants -/

/-- The type variables of a constant that is read are drawn while it is read. -/
theorem readConstant_drawn {types : Vocabulary} (labelled : types.Labelled) {signature : String}
    {s s' : Supply} {c : Symbol} (run : (readConstant types signature).runFrom s = (.ok c, s')) :
    Unifier.VarsIn (· ≤ s'.lastType) c.type := by
  rw [readConstant, runFrom_within] at run
  split at run
  case h_2 => cases run
  next constant _ inner =>
  cases run
  obtain ⟨t, s₁, parsed, run⟩ := bind_ok inner
  have drawn : t.VarsIn (· ≤ (s₁.lastType : Int)) := by
    refine (labelled.parse_own parsed).mono fun id own => ?_
    rcases own with none | ⟨-, before⟩
    · cases none
    · exact before
  split at run
  · cases run
    exact drawn
  · cases run
    exact drawn
  · cases run

/-- The types of constants that were read mention only variables that were drawn by then. -/
theorem readConstants_drawn {types : Vocabulary} (labelled : types.Labelled) :
    ∀ {signatures : List String} {s s' : Supply} {constants : List Symbol},
      (signatures.mapM (readConstant types)).runFrom s = (.ok constants, s') →
      ∀ c ∈ constants, Unifier.VarsIn (· ≤ s'.lastType) c.type
  | [], _, _, _, run => by
    cases run
    simp
  | signature :: rest, _, s', _, run => by
    rw [List.mapM_cons] at run
    obtain ⟨c, s₁, here, run⟩ := bind_ok run
    obtain ⟨others, s₂, later, run⟩ := bind_ok run
    cases run
    have grown := grows_mapM (grows_readConstant types) rest s₁
    rw [later] at grown
    refine List.forall_mem_cons.mpr ⟨?_, readConstants_drawn labelled later⟩
    exact (readConstant_drawn labelled here).mono fun id before =>
      before.trans (by exact_mod_cast grown.types)

end Declarations

/-! ## Reading back -/

namespace Printer

variable {v : Vocabulary} {p : Printer} {s s' u u' w : Supply} {text : String} {t : Term}

/-- A term that was read after the printer was made is read back from what is written for it. -/
theorem Made.term_again (made : p.Made v s s') (readable : v.Readable) (drawn : v.Drawn s)
    (before : s.Before s') (later : s'.lastType ≤ u.lastType)
    (run : (v.parse text).runFrom u = (.ok t, u')) (later' : s'.lastType ≤ w.lastType) :
    ∃ t' w', (v.parse (p.term t)).runFrom w = (.ok t', w') ∧ (∃ σ, t = t'.under σ) ∧
      p.term t' = p.term t := by
  have writable := readable.toWritable
  have drawnFrom : ∀ {x : Supply}, s'.lastType ≤ x.lastType → v.Drawn x := fun after =>
    drawn.later (Nat.le_trans before.types after)
  have writes : Writes v s s' t := writes_of_parse writable (drawnFrom later) (.inl later) run
  obtain ⟨t', w', again, σ, rfl⟩ := Vocabulary.parse_again writable.toRegular
    (term_written made readable t writes) writes.read.proper.toGood w
  have writes' : Writes v s s' t' :=
    writes_of_parse writable (drawnFrom later') (.inl later') again
  exact ⟨t', w', again, ⟨σ, rfl⟩, (term_under made writable t' writes' writes).symm⟩

end Printer

/-- Terms that are read in the environment of legible declarations are read back. -/
theorem Declarations.Legible.faithful {d : Declarations} (legible : d.Legible) {s s' : Supply}
    {env : Environment} (loaded : d.load.runFrom s = (.ok env, s')) :
    env.Faithful s'.lastType := by
  obtain ⟨types, constants, words, s₁, s₂, s₃, s₄, madeTypes, read, madeWords, made, printed,
    defined, postulated, shaped, -⟩ := load_stages loaded
  have labelled := typeWords_labelled madeTypes
  have plain : ∀ c ∈ constants, c.type.Plain := gives_mapM (fun signature _ =>
    readConstant_gives labelled.toPlain signature) _ _ _ read
  have readable := legible.readable madeWords made
    (Vocabulary.ofWords_regular (words_regular plain madeWords) made)
  have drawn : env.vocabulary.Drawn s₁ := by
    rintro c ⟨w, listed, is⟩
    rcases words_made madeWords w (Vocabulary.mem_ofWords made listed) with
      isType | ⟨c', known, is', -⟩
    · simp only [typeWords, List.mem_cons, List.mem_map] at isType
      rcases isType with rfl | rfl | ⟨name, -, rfl⟩ <;> cases is
    · rw [is] at is'
      cases is'
      exact readConstants_drawn labelled read c known
  obtain ⟨before, printer⟩ := Printer.made_of_run readable.toWritable drawn printed
  have definitions := grows_mapM (grows_readDefinition env.vocabulary) d.definitions s₂
  have postulates := grows_mapM (grows_readPostulate env.vocabulary) d.postulates s₃
  have shapes := grows_shapesOf env.vocabulary s₄
  rw [defined] at definitions
  rw [postulated] at postulates
  rw [shaped] at shapes
  have grown : s₂.lastType ≤ s'.lastType :=
    definitions.types.trans (postulates.types.trans shapes.types)
  refine ⟨fun later run w later' => ?_, fun rule listed => ?_⟩
  · exact printer.term_again readable drawn before (grown.trans later) run (grown.trans later')
  · rw [(load_standard d _ _ _ loaded).2] at listed
    exact (List.mem_filter.mp (Registry.mem_ofList listed)).1

/-- A rule of the theories that accepts some arguments makes a plan of them. -/
theorem Environment.combines_standard (env : Environment) {theories : List String}
    (rules : env.rules = Rules.standard theories) {name : String} {specs : List ArgSpec}
    (other : name ≠ "branch" ∧ name ≠ "sequence")
    (known : ((Rules.standard theories).lookup name).map Descriptor.args = some specs)
    (args : List Arg) (kinds : args.map Arg.kind? = specs.map fun spec => some spec.kind)
    (s : Supply) : ∃ p s', PlanText.Combines env name (args.map .arg) s p s' := by
  obtain ⟨d, found, rfl⟩ := Option.map_eq_some_iff.mp known
  have listed := (List.mem_filter.mp (Registry.mem_ofList (List.mem_of_find?_eq_some found))).1
  have accepts : d.Accepts args := kinds
  obtain ⟨p, s', built, -⟩ := Rule.catalogue_build d listed env.theory args accepts s
  refine ⟨p, s', .rule other (rules ▸ found) ?_⟩
  rw [accepts.instantiate]
  exact built

namespace Library

variable {files : Access Id} {theories : List String} {s s' : Supply} {env : Environment}

/-- Both built-in theories. -/
theorem builtin_legible : (Theories.logic ++ Theories.sets).Legible := by
  constructor <;> decide

/-- Every built-in theory is part of logic and set theory. -/
theorem builtinTheory_inside {name : String} {d : Declarations}
    (found : builtinTheory name = .ok d) : d.Inside (Theories.logic ++ Theories.sets) := by
  have each : ∀ entry ∈ builtinTheories, entry.2.Inside (Theories.logic ++ Theories.sets) := by
    have logic : Theories.logic.Inside (Theories.logic ++ Theories.sets) := by
      constructor <;> exact List.subset_append_left _ _
    have sets : Theories.sets.Inside (Theories.logic ++ Theories.sets) := by
      constructor <;> exact List.subset_append_right _ _
    simp [builtinTheories, logic, sets]
  rw [builtinTheory] at found
  split at found
  · split at found
    next known =>
      cases found
      obtain ⟨before, after, is, -⟩ := List.lookup_eq_some_iff.mp known
      exact each (name, d) (by simp [is])
    next => cases found
  · cases found

/-- A list of built-in theories declares nothing but what these declare. -/
theorem builtin_inside : ∀ {theories : List String} {d : Declarations},
    builtin.declared files theories = .ok d → d.Inside (Theories.logic ++ Theories.sets)
  | [], _, found => by
    cases found
    exact Declarations.inside_nothing
  | name :: rest, d, found => by
    rw [declared, declarations] at found
    change Id.run _ = _ at found
    rw [Id.run_bind] at found
    split at found
    · cases found
    next own first =>
      change (builtin.declared files rest).map (own ++ ·) = .ok d at found
      cases others : builtin.declared files rest with
      | error failure => rw [others] at found; cases found
      | ok more =>
        rw [others] at found
        cases found
        exact (builtinTheory_inside first).append (builtin_inside others)

/-- In an environment of built-in theories what a text is evaluated to is written as a text that
evaluates to an alike plan, which is written in the same way. -/
theorem builtin_evaluate_showPlan {text : String} {u u' w : Supply} {p : Plan}
    (loaded : (builtin.loading files theories).runFrom s = (.ok env, s'))
    (later : s'.lastType ≤ u.lastType) (run : (env.evaluate text).runFrom u = (.ok p, u'))
    (later' : s'.lastType ≤ w.lastType) :
    ∃ p' w', (env.evaluate (env.showPlan p)).runFrom w = (.ok p', w') ∧ p.Alike p' ∧
      env.showPlan p' = env.showPlan p := by
  obtain ⟨d, _, found, loaded⟩ := bind_ok loaded
  have legible := builtin_legible.inside (builtin_inside (lift_ok found).1)
  exact (legible.faithful loaded).evaluate_showPlan later run later'

/-- Logic is found under its name. -/
theorem builtin_logic (files : Access Id) :
    builtin.declared files ["logic"] = .ok Theories.logic := by
  have found : builtinTheory "logic" = .ok Theories.logic := by
    rw [builtinTheory, if_pos inner_logic]
    rfl
  rw [declared, declarations]
  change Id.run _ = _
  rw [Id.run_bind]
  rw [show Id.run (builtin.theory files "logic") = .ok Theories.logic from found]
  rfl

/-- A sequence of two rules, the second of them called by another spelling of its name. -/
def spacedText : String := "sequence(cut(`for_all y:obj . y = x`), leftPermutation( 7 ))"

/-- The formula in the text can be read in logic. -/
theorem spacedText_reads : ((Theories.logic.load >>= fun env =>
    env.parse "for_all y:obj . y = x").runFrom .initial).1.toOption.isSome = true := by
  decide +kernel

/-- Logic has both rules. -/
theorem spacedText_rules :
    ((Rules.standard ["logic"]).lookup "cut").map Descriptor.args = some Rule.witnessArg ∧
      ((Rules.standard ["logic"]).lookup "leftPermutation").map Descriptor.args =
        some Rule.indexArg := by
  decide +kernel

open PlanText in
/-- The text is a sequence of two calls. -/
theorem spacedText_written : ∃ ts stop, PlanText.tokens spacedText = ts ++ [stop] ∧
    stop.kind = .endOfInput ∧ stop.misspelling = none ∧
    Phrase.Written True (.call "sequence" [
      .call "cut" [.literal .backquoted "\x60for_all y:obj . y = x\x60"],
      .call "leftPermutation" [.literal .int "7"]]) ts := by
  have cut : PlanText.tokens spacedText =
      (⟨.name, "sequence", 1, 1, none⟩ :: ⟨.char '(', "(", 1, 9, none⟩ ::
        (((⟨.name, "cut", 1, 10, none⟩ :: ⟨.char '(', "(", 1, 13, none⟩ ::
            ([⟨.backquoted, "\x60for_all y:obj . y = x\x60", 1, 14, none⟩] ++
              [⟨.char ')', ")", 1, 37, none⟩])) ++
          ⟨.char ',', ",", 1, 38, none⟩ ::
          (⟨.name, "leftPermutation", 1, 40, none⟩ :: ⟨.char '(', "(", 1, 55, none⟩ ::
            ([⟨.int, "7", 1, 57, none⟩] ++ [⟨.char ')', ")", 1, 59, none⟩]))) ++
          [⟨.char ')', ")", 1, 60, none⟩])) ++ [⟨.endOfInput, "", 1, 61, none⟩] := by
    decide +kernel
  refine ⟨_, _, cut, rfl, rfl, .of_call rfl rfl rfl (.more ?_ rfl (.last ?_) nofun) rfl⟩
  · exact .of_call rfl rfl rfl (.last (.of_literal rfl rfl (.inr (.inr rfl)))) rfl
  · exact .of_call rfl rfl rfl (.last (.of_literal rfl rfl (.inl rfl))) rfl

/-- What is written for the plan of the text is evaluated in logic. -/
theorem builtin_evaluate_showPlan_logic : ∃ env s p u,
    (builtin.loading Cache.noFiles ["logic"]).runFrom .initial = (.ok env, s) ∧
      (env.evaluate spacedText).runFrom s = (.ok p, u) ∧
      ∃ p' w, (env.evaluate (env.showPlan p)).runFrom s = (.ok p', w) ∧ p.Alike p' ∧
        env.showPlan p' = env.showPlan p := by
  obtain ⟨t, s₁, reads⟩ := exists_of_isSome spacedText_reads
  obtain ⟨env, s, run, parsed⟩ := Build.bind_ok reads
  have rules := (Declarations.load_standard _ _ _ _ run).2
  rw [show Theories.logic.theories = ["logic"] from rfl] at rules
  obtain ⟨first, s₂, cuts⟩ := env.combines_standard rules (by decide) spacedText_rules.1
    [.term t] rfl s₁
  obtain ⟨second, s₃, permutes⟩ := env.combines_standard rules (by decide) spacedText_rules.2
    [.int 7] rfl s₂
  have loaded : (builtin.loading Cache.noFiles ["logic"]).runFrom .initial = (.ok env, s) := by
    rw [loading, builtin_logic, runFrom_bind_ok (runFrom_lift _ _)]
    exact run
  have evaluated : (env.evaluate spacedText).runFrom s = (.ok (.sequence first [second]), s₃) := by
    obtain ⟨ts, stop, cut, ends, spelled, written⟩ := spacedText_written
    refine Environment.evaluate_ok_iff.mpr ⟨_, ts, stop, cut, ends, spelled, written, ?_⟩
    refine .call (.more (.call (.more (.term ?_) (.none _)) cuts) (.more (.call (.more
      (.int _ ?_) (.none _)) permutes) (.none _))) (.sequence first [second] s₃)
    · rw [show PlanText.unbackquoted "\x60for_all y:obj . y = x\x60" = "for_all y:obj . y = x" by
        decide +kernel]
      exact parsed
    · decide +kernel
  exact ⟨env, s, _, s₃, loaded, evaluated,
    builtin_evaluate_showPlan loaded le_rfl evaluated le_rfl⟩

end Library

end Turnstile
