import Turnstile.Proofs.PlanMirroring

/-!
# What loading draws

The terms of an environment mention no type variables but those that loading it drew. A renaming
that leaves these as they are therefore leaves the environment as it is, and whatever is read or
run in the environment later is determined up to the type variables that are drawn from then on.
-/

namespace Turnstile

open Build Renaming

variable {ρ : Renaming}

/-- A renaming leaves everything as it is that was drawn before a supply. -/
structure Renaming.Fixes (ρ : Renaming) (s : Supply) : Prop where
  /-- The type variables. -/
  types : ∀ id : Int, id ≤ s.lastType → ρ.type id = id
  /-- The assumptions. -/
  assumptions : ∀ id : Nat, id ≤ s.lastAssumption → ρ.assumption id = id
  /-- Choices are taken along. -/
  choosing : ρ.choosing
  /-- The choices are not changed by renaming the term. -/
  choices : ∀ n : Nat, n ≤ s.lastChoice → ∀ name t,
    s.choices n name (t.under ρ.types) = s.choices n name t

namespace Renaming

variable {s t : Supply}

/-- A renaming that fixes what was drawn by a time fixes what was drawn before. -/
theorem Fixes.of_before (fixes : ρ.Fixes t) (before : s.Before t) : ρ.Fixes s where
  types := by
    intro id early
    have types := before.types
    exact fixes.types id (by omega)
  assumptions := by
    intro id early
    exact fixes.assumptions id (Nat.le_trans early before.assumptions)
  choosing := fixes.choosing
  choices := by
    intro n early name t
    rw [← before.choices]
    exact fixes.choices n (Nat.le_trans early before.made) name t

/-- The renaming that changes nothing leaves everything as it is. -/
theorem id_fixes (s : Supply) : Renaming.id.Fixes s where
  types _ _ := rfl
  assumptions _ _ := rfl
  choosing := trivial
  choices n _ name t := by rw [id_types, Term.under_self]

/-- What is drawn up to a supply stays where it is. -/
theorem Fixes.carries (fixes : ρ.Fixes t) (before : s.Before t) : ρ.Carries s t s where
  types := by
    intro n after early
    rw [fixes.types n (by omega)]
    omega
  assumptions := by
    intro n after early
    rw [fixes.assumptions n early]
    omega
  choices := by
    intro _ n after early name f
    have time : s.lastChoice + (n - s.lastChoice) = n := by omega
    rw [time, ← before.choices]
    exact fixes.choices n early name f
  depth := rfl

/-- A term is its own renamed form if it is sound and renaming leaves it as it is. -/
theorem takes_self {t : Term} : ρ.Takes t t ↔ t.Sound ∧ t.under ρ.types = t :=
  ⟨fun takes => ⟨takes.sound, takes.renamed.symm⟩, fun h => ⟨h.1, h.2.symm⟩⟩

end Renaming

namespace Build

variable {α β : Type} {P : Renaming → α → Prop} {Q : Renaming → β → Prop}

/-- What a run returns is its own renamed form if the renaming leaves what it drew as it is. -/
theorem Mirrors.self {R : α → α → Prop} {build : Build α} (mirrors : Mirrors ρ R build build)
    {s t : Supply} {a : α} (run : build.runFrom s = (.ok a, t)) (fixes : ρ.Fixes t) : R a a := by
  obtain ⟨b, related, run'⟩ := mirrors.follows s a t run s (fixes.carries (mirrors.before run))
  rw [run] at run'
  obtain rfl : a = b := Except.ok.inj (Prod.mk.inj run').1
  exact related

/-- What every run returns has a property for the renamings that leave what it drew as it is. -/
def Settles (P : Renaming → α → Prop) (build : Build α) : Prop :=
  ∀ s a t, build.runFrom s = (.ok a, t) → ∀ ρ : Renaming, ρ.Fixes t → P ρ a

/-- A value that has a property for every renaming is returned. -/
theorem settles_pure {a : α} (holds : ∀ ρ : Renaming, ρ.choosing → P ρ a) :
    Settles P (pure a) := by
  rintro s _ _ ⟨⟩ ρ fixes
  exact holds ρ fixes.choosing

/-- A build that fails returns nothing, so that all holds of what it returns. -/
theorem settles_throw (failure : Failure) : Settles P (throw failure) := by
  rintro s _ _ ⟨⟩

/-- If every renaming takes a build to itself, then what it returns is fixed by the renamings that
fix what it drew. -/
theorem settles_of_mirrors {R : Renaming → α → α → Prop} {build : Build α}
    (mirrors : ∀ ρ, Mirrors ρ (R ρ) build build) : Settles (fun ρ a => R ρ a a) build :=
  fun _ _ _ run ρ fixes => (mirrors ρ).self run fixes

/-- Properties of what is returned are handed on from a build to the next one. -/
theorem Settles.bind {build : Build α} {next : α → Build β} (first : Settles P build)
    (grows : ∀ a, Grows (next a)) (second : ∀ a, Settles (fun ρ b => P ρ a → Q ρ b) (next a)) :
    Settles Q (build >>= next) := by
  intro s b u run ρ fixes
  rw [runFrom_bind] at run
  rcases ran : build.runFrom s with ⟨failure | a, t⟩ <;> rw [ran] at run
  · cases run
  · dsimp only at run
    have grown := grows a t
    rw [run] at grown
    exact second a t b u run ρ fixes (first s a t ran ρ (fixes.of_before grown))

/-- Reporting failures in another way does not change what is returned. -/
theorem Settles.reported {build : Build α} (settles : Settles P build)
    (report : Failure → Failure) :
    Settles P (tryCatch build fun failure => throw (report failure)) := fun s a t run =>
  settles s a t (runFrom_reported.mp run)

/-- What is done for each item is done for all items. -/
theorem settles_mapM {γ : Type} {f : γ → Build α} (each : ∀ c, Settles P (f c))
    (grows : ∀ c, Grows (f c)) : ∀ items : List γ,
      Settles (fun ρ results => ∀ a ∈ results, P ρ a) (items.mapM f)
  | [] => settles_pure (by simp)
  | c :: rest => by
    rw [List.mapM_cons]
    refine (each c).bind (fun a => (grows_mapM grows rest).bind fun _ _ _ _ => grows_pure _) ?_
    intro a
    refine (settles_mapM each grows rest).bind (fun _ => grows_pure _) fun results => ?_
    exact settles_pure fun ρ _ holds here => List.forall_mem_cons.mpr ⟨here, holds⟩

/-- An attempt draws what the build draws. -/
theorem grows_attempt {build : Build α} (grows : Grows build) : Grows build.attempt := by
  intro s
  rw [runFrom_attempt]
  exact grows s

/-- An attempt that succeeds has what the build returned. -/
theorem settles_attempt {build : Build α} (settles : Settles P build) :
    Settles (fun ρ result => ∀ a, result = .ok a → P ρ a) build.attempt := by
  intro s result t run ρ fixes a is
  rw [runFrom_attempt] at run
  cases run
  exact settles s a _ (Prod.ext is rfl) ρ fixes

end Build

/-! ## Reading -/

/-- Reading a term never goes back in the supply. -/
theorem Vocabulary.grows_parse (v : Vocabulary) (text : String) : Grows (v.parse text) := by
  refine (grows_lift _).bind fun _ tokens _ _ => ?_
  rw [Vocabulary.settle.eq_def]
  split
  · exact Typing.grows_within (Expr.grows_infer _)
  · exact (Typing.grows_within (Expr.grows_inferAll _)).bind fun _ _ _ _ => grows_throw _

/-- A term that was read is its own renamed form for renamings that leave what was drawn as it
is. -/
theorem Vocabulary.Labelled.parse_settles {v : Vocabulary} (labelled : v.Labelled) (text : String) :
    Settles (fun ρ t => ρ.Takes t t) (v.parse text) :=
  settles_of_mirrors fun _ => labelled.parse text

/-! ## Making a printer -/

/-- Drawing the pattern variable of a name never goes back in the supply. -/
theorem grows_patternVar (name : String) : Grows (patternVar name) :=
  grows_freshType.bind fun _ _ _ _ => grows_pure _

/-- Building the form of an operator never goes back in the supply. -/
theorem Operator.grows_form (op : Operator) : Grows op.form := by
  refine Grows.reported ?_ _
  split
  · refine (grows_patternVar _).bind fun _ _ _ _ => ?_
    exact (Term.grows_mkApp _ _).bind fun _ _ _ _ => grows_pure _
  · split
    · refine (grows_patternVar _).bind fun _ _ _ _ => (grows_patternVar _).bind fun _ _ _ _ => ?_
      exact (Term.grows_mkApps _ _).bind fun _ _ _ _ => grows_pure _
    · exact grows_throw _

/-- Building the form of a binder never goes back in the supply. -/
theorem Symbol.grows_binderForm (binder : Symbol) : Grows binder.binderForm := by
  refine Grows.reported ?_ _
  refine (grows_patternVar _).bind fun _ _ _ _ => (grows_patternVar _).bind fun _ _ _ _ => ?_
  refine Grows.bind ?_ fun _ _ _ _ => grows_pure _
  exact (grows_lift _).bind fun _ _ _ _ => Term.grows_mkApp _ _

/-- Building the form of a set builder never goes back in the supply. -/
theorem SetBuilder.grows_form (builder : SetBuilder) : Grows builder.form := by
  refine Grows.reported ?_ _
  refine (grows_patternVar _).bind fun _ _ _ _ => (grows_patternVar _).bind fun _ _ _ _ => ?_
  refine (grows_lift _).bind fun _ _ _ _ => (grows_patternVar _).bind fun _ _ _ _ => ?_
  exact (Term.grows_mkApps _ _).bind fun _ _ _ _ => grows_pure _

/-- Making a printer never goes back in the supply. -/
theorem Printer.grows_ofVocabulary (v : Vocabulary) : Grows (Printer.ofVocabulary v) := by
  refine (grows_mapM Operator.grows_form _).bind fun _ _ _ _ => ?_
  refine (grows_mapM Symbol.grows_binderForm _).bind fun _ _ _ _ => ?_
  exact (grows_mapM SetBuilder.grows_form _).bind fun _ _ _ _ => grows_pure _

/-! ## Loading -/

namespace Declarations

variable {d : Declarations} {constants : List Symbol} {v : Vocabulary}

/-- The words for types, as a vocabulary, have types of plain names. -/
theorem typeWords_labelled (made : Vocabulary.ofWords d.typeWords = .ok v) : v.Labelled := by
  refine ⟨Vocabulary.ofWords_regular typeWords_regular made, ?_⟩
  rintro c ⟨w, member, is⟩
  have declared := Vocabulary.mem_ofWords made member
  simp only [typeWords, List.mem_cons, List.mem_map] at declared
  rcases declared with rfl | rfl | ⟨name, _, rfl⟩ <;> cases is

/-- The words of declared constants have plain names if the constants have. -/
theorem words_labelled {words : List Word} (plain : ∀ c ∈ constants, c.Plain)
    (made : d.words constants = .ok words) (made' : Vocabulary.ofWords words = .ok v) :
    v.Labelled := by
  have regular := words_regular (fun c listed => (plain c listed).type) made
  refine ⟨Vocabulary.ofWords_regular regular made', ?_⟩
  rintro c ⟨w, member, is⟩
  rcases words_made made w (Vocabulary.mem_ofWords made' member) with isType | ⟨c', listed, is', _⟩
  · simp only [typeWords, List.mem_cons, List.mem_map] at isType
    rcases isType with rfl | rfl | ⟨name, _, rfl⟩ <;> cases is
  · rw [is] at is'
    cases is'
    exact (plain c listed).name

/-- A constant that was read has a plain type. -/
theorem readConstant_plain {types : Vocabulary} (labelled : types.Labelled) (signature : String) :
    (readConstant types signature).Gives Symbol.Plain := by
  refine Gives.within ?_ _
  have sound : (types.parse signature).Gives Term.Sound := fun s t a run =>
    ((labelled.parse (ρ := .id) signature).self run (id_fixes _)).sound
  refine sound.bind fun t sound => ?_
  split
  · exact gives_pure ⟨sound.labelled, sound.plain⟩
  · exact gives_pure ⟨sound.labelled, sound.plain⟩
  · exact gives_throw _

/-- The arguments of a term that is its own renamed form are their own renamed forms. -/
theorem takes_args {t : Term} (takes : ρ.Takes t t) : ∀ x ∈ t.args, ρ.Takes x x := by
  induction t with
  | const s => exact fun x inside => nomatch inside
  | var s => exact fun x inside => nomatch inside
  | app f x ihF ihX =>
    obtain ⟨sound, same⟩ := takes_self.mp takes
    rw [Term.under_app, Term.app.injEq] at same
    intro y inside
    rcases List.mem_append.mp inside with first | last
    · exact ihF (takes_self.mpr ⟨sound.function, same.1⟩) y first
    · rw [List.mem_singleton.mp last]
      exact takes_self.mpr ⟨sound.argument, same.2⟩
  | lam v body ih => exact fun x inside => nomatch inside

/-- Reading a definition never goes back in the supply. -/
theorem grows_readDefinition (v : Vocabulary) (text : String) : Grows (readDefinition v text) := by
  refine ((v.grows_parse text).reported _).bind fun _ equation _ _ => ?_
  split
  · split
    · exact grows_throw _
    · split
      · split
        · exact grows_pure _
        · exact grows_throw _
      · exact grows_throw _
  · exact grows_throw _

/-- Renamings that fix what was drawn fix the value of a definition that was read. -/
theorem readDefinition_settles (labelled : v.Labelled) (text : String) :
    Settles (fun ρ d => ρ.Takes d.value d.value) (readDefinition v text) := by
  refine Settles.bind ((labelled.parse_settles text).reported _) ?_ ?_
  · intro equation
    split
    · split
      · exact grows_throw _
      · split
        · split
          · exact grows_pure _
          · exact grows_throw _
        · exact grows_throw _
    · exact grows_throw _
  · intro equation
    split
    next atom value is =>
      split
      · exact settles_throw _
      · split
        · split
          · refine settles_pure fun ρ _ takes => ?_
            exact takes_args takes value (by simp [is])
          · exact settles_throw _
        · exact settles_throw _
    · exact settles_throw _

/-- They fix the formula of a postulate that was read. -/
theorem readPostulate_settles (labelled : v.Labelled) (p : PostulateDecl) :
    Settles (fun ρ p => ρ.Takes p.formula p.formula) (readPostulate v p) :=
  ((labelled.parse_settles p.formula).reported _).bind (fun _ => grows_pure _) fun _ =>
    settles_pure fun _ _ takes => takes

/-- Reading a postulate never goes back in the supply. -/
theorem grows_readPostulate (v : Vocabulary) (p : PostulateDecl) : Grows (readPostulate v p) :=
  ((v.grows_parse p.formula).reported _).bind fun _ _ _ _ => grows_pure _

/-- They fix the terms that show the shapes. -/
theorem shapesOf_settles (labelled : v.Labelled) :
    Settles (fun ρ shapes => ∀ entry ∈ shapes, ρ.Takes entry.2 entry.2) (Theory.shapesOf v) := by
  have each : ∀ s : Shape,
      Settles (fun ρ (entry : Shape × Except Failure Term) =>
        ∀ t, entry.2 = .ok t → ρ.Takes t t) (do return (s, ← (v.parse s.pattern).attempt)) :=
    fun s => (settles_attempt (labelled.parse_settles s.pattern)).bind (fun _ => grows_pure _)
      fun result => settles_pure fun _ _ holds => holds
  have grows : ∀ s : Shape,
      Grows (do return (s, ← (v.parse s.pattern).attempt) : Build (Shape × Except Failure Term)) :=
    fun s => (grows_attempt (v.grows_parse s.pattern)).bind fun _ _ _ _ => grows_pure _
  refine (settles_mapM each grows _).bind (fun _ => grows_pure _) fun read => ?_
  refine settles_pure fun ρ _ holds entry member => ?_
  obtain ⟨⟨s, result⟩, inside, is⟩ := List.mem_filterMap.mp member
  cases result with
  | error failure => cases is
  | ok t =>
    cases is
    exact holds _ inside t rfl

/-- Reading the shapes never goes back in the supply. -/
theorem grows_shapesOf (v : Vocabulary) : Grows (Theory.shapesOf v) := by
  refine Grows.bind (grows_mapM (fun s => ?_) _) fun _ _ _ _ => grows_pure _
  exact (grows_attempt (v.grows_parse s.pattern)).bind fun _ _ _ _ => grows_pure _

/-- Reading a constant never goes back in the supply. -/
theorem grows_readConstant (types : Vocabulary) (signature : String) :
    Grows (readConstant types signature) := by
  refine Grows.reported ((types.grows_parse signature).bind fun _ t _ _ => ?_) _
  split
  · exact grows_pure _
  · exact grows_pure _
  · exact grows_throw _

/-- Loading gives nothing back. -/
theorem grows_load (d : Declarations) : Grows d.load := by
  rw [load]
  refine (grows_lift _).bind fun _ types _ _ => ?_
  refine (grows_mapM (grows_readConstant types) _).bind fun _ constants _ _ => ?_
  refine (grows_lift _).bind fun _ words _ _ => (grows_lift _).bind fun _ v _ _ => ?_
  refine (Printer.grows_ofVocabulary v).bind fun _ printer _ _ => ?_
  refine (grows_mapM (grows_readDefinition v) _).bind fun _ definitions _ _ => ?_
  refine (grows_mapM (grows_readPostulate v) _).bind fun _ postulates _ _ => ?_
  exact (grows_shapesOf v).bind fun _ shapes _ _ => grows_pure _

end Declarations

/-- The rules for some theories are functions of the goal. -/
theorem Rules.standard_steady (theories : List String) :
    ∀ d ∈ (Rules.standard theories).rules, Rule.Steady d := by
  intro d member
  exact Rule.catalogue_steady d (List.mem_filter.mp (Registry.mem_ofList member)).1

/-- Renamings that leave as it is what loading drew leave the environment as it is. -/
theorem Declarations.load_settles (d : Declarations) :
    d.load.Settles fun ρ env => env.FixedBy ρ := by
  intro s env t run ρ fixes
  rw [load] at run
  obtain ⟨types, s₁, made, run⟩ := bind_ok run
  have labelledTypes : types.Labelled := typeWords_labelled (Prod.mk.inj made).1
  obtain ⟨constants, s₂, read, run⟩ := bind_ok run
  have plain := gives_mapM (fun signature _ => readConstant_plain labelledTypes signature)
    _ _ _ read
  obtain ⟨words, s₃, madeWords, run⟩ := bind_ok run
  obtain ⟨v, s₄, madeV, run⟩ := bind_ok run
  have labelled : v.Labelled := words_labelled plain (Prod.mk.inj madeWords).1 (Prod.mk.inj madeV).1
  obtain ⟨printer, s₅, _, run⟩ := bind_ok run
  have growsP := grows_mapM (grows_readPostulate v) d.postulates
  have growsS := grows_shapesOf v
  refine Settles.bind (P := fun ρ definitions => ∀ d ∈ definitions, ρ.Takes d.value d.value)
    (Q := fun ρ (env : Environment) => env.FixedBy ρ)
    (settles_mapM (readDefinition_settles labelled) (grows_readDefinition v) _) ?_ ?_ s₅ env t run
    ρ fixes
  · exact fun definitions => growsP.bind fun _ postulates _ _ =>
      growsS.bind fun _ shapes _ _ => grows_pure _
  · intro definitions
    refine Settles.bind (settles_mapM (readPostulate_settles labelled) (grows_readPostulate v) _)
      (fun postulates => growsS.bind fun _ shapes _ _ => grows_pure _) fun postulates => ?_
    refine (shapesOf_settles labelled).bind (fun _ => grows_pure _) fun shapes => ?_
    refine settles_pure fun ρ choosing shapes postulates definitions => ?_
    exact ⟨⟨choosing, labelled, shapes, definitions, postulates⟩, Rules.standard_steady d.theories⟩

end Turnstile
