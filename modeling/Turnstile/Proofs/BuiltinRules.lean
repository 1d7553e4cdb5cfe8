import Turnstile.Proofs.EnvironmentMirroring
import Turnstile.Proofs.LogicTheory
import Turnstile.Proofs.Relocation
import Turnstile.Proofs.RoundTrip
import Turnstile.Proofs.RuleOutcomes

/-!
# Rules of the built-in theories

The vocabularies of logic and of logic with sets have words for all the shapes in which their rules
are interested, so that in the environments of these theories every rule leaves a number of
subgoals that depends on the rule alone, or stops: never does one of their tactics come to a branch
with a plan too many or too few.

The shapes are read after the definitions and postulates. That they can be read then is concluded
from their being read right after the vocabulary was made: whether a text can be read does not
depend on what was drawn before.
-/

namespace Turnstile

open Build Renaming

/-! ## Registries of different names -/

namespace Registry

variable {normal : String → String} {d : Descriptor}

/-- A rule of a new name is registered last. -/
theorem register_rules {r : Registry normal}
    (new : ∀ old ∈ r.rules, normal old.name ≠ normal d.name) :
    (r.register d).rules = r.rules ++ [d] := by
  have missing : r.lookup d.name = none := by
    rw [lookup, List.find?_eq_none]
    exact fun old inside same => new old inside (beq_iff_eq.mp same)
  rw [register, missing]
  rfl

/-- Rules with different names are registered one after the other. -/
theorem foldl_register : ∀ (rules : List Descriptor) (r : Registry normal),
    ((r.rules ++ rules).map fun d => normal d.name).Nodup →
      (rules.foldl register r).rules = r.rules ++ rules
  | [], r, _ => (List.append_nil _).symm
  | d :: rest, r, distinct => by
    have registered : (r.register d).rules = r.rules ++ [d] := by
      refine register_rules fun old inside => ?_
      rw [List.map_append, List.nodup_append] at distinct
      exact distinct.2.2 _ (List.mem_map_of_mem inside) _ (by simp)
    rw [List.append_cons] at distinct
    rw [List.foldl_cons, foldl_register rest _ (by rwa [registered]), registered,
      List.append_assoc]
    rfl

/-- Rules of different names are all registered, in order. -/
theorem ofList_rules {rules : List Descriptor}
    (distinct : (rules.map fun d => normal d.name).Nodup) :
    (ofList rules : Registry normal).rules = rules :=
  foldl_register rules empty distinct

end Registry

/-! ## Reading from another supply -/

/-- What is drawn between two supplies can be drawn from any other one by a renaming that takes no
choices along. -/
theorem Renaming.exists_carries {s s' u : Supply} (run : s.Before s') (depth : u.depth = s.depth) :
    ∃ ρ : Renaming, ρ.Carries s s' u := by
  -- Nothing is asked of the choices, so that they may be forgotten.
  let plain : Supply → Supply := fun s => { Supply.orderly with
    lastType := s.lastType, lastAssumption := s.lastAssumption, depth := s.depth }
  let origin : Supply := { Supply.orderly with lastType := 0, depth := s.depth }
  have steady : origin.Steady := Supply.orderly_steady
  have first : origin.Before (plain s) :=
    ⟨Nat.zero_le _, Nat.zero_le _, Nat.le_refl _, rfl, rfl⟩
  have other : origin.Before (plain u) :=
    ⟨Nat.zero_le _, Nat.zero_le _, Nat.le_refl _, depth, rfl⟩
  have drawn : (plain s).Before (plain s') :=
    ⟨run.types, run.assumptions, Nat.le_refl _, run.depth, rfl⟩
  obtain ⟨σ, makes⟩ :=
    ((Move.placed_nil steady first other).arranged_cons drawn).exists_makes
  exact ⟨{ σ with choosing := False }, makes.head.types, makes.head.assumptions,
    fun choosing => choosing.elim, depth⟩

/-- A text that can be read from one supply can be read from every other one of its depth. -/
theorem Vocabulary.Labelled.parse_anywhere {v : Vocabulary} (labelled : v.Labelled) {text : String}
    {s s' : Supply} {t : Term} (run : (v.parse text).runFrom s = (.ok t, s')) {u : Supply}
    (depth : u.depth = s.depth) : ∃ t' u', (v.parse text).runFrom u = (.ok t', u') := by
  have grown := v.grows_parse text s
  rw [run] at grown
  obtain ⟨ρ, carries⟩ := Renaming.exists_carries grown depth
  obtain ⟨t', -, run'⟩ := (labelled.parse text).follows s t s' run u carries
  exact ⟨t', _, run'⟩

namespace Theory

variable {v : Vocabulary}

/-- Shapes whose formulas can all be read are found with their terms. -/
theorem readShapes (labelled : v.Labelled) {depth : Nat} :
    ∀ shapes : List Shape, (∀ s ∈ shapes, ∀ u : Supply, u.depth = depth →
      ∃ t u', (v.parse s.pattern).runFrom u = (.ok t, u')) → ∀ u : Supply, u.depth = depth →
    ∃ read u', (shapes.mapM fun s => do return (s, ← (v.parse s.pattern).attempt) :
        Build (List (Shape × Except Failure Term))).runFrom u = (.ok read, u') ∧
      ∀ s ∈ shapes, ∃ t, (s, Except.ok t) ∈ read
  | [], _, u, _ => ⟨[], u, rfl, by simp⟩
  | s :: rest, each, u, same => by
    obtain ⟨t, u₁, run⟩ := each s (by simp) u same
    have grown := v.grows_parse s.pattern u
    rw [run] at grown
    obtain ⟨read, u₂, runs, found⟩ := readShapes labelled rest
      (fun s' inside => each s' (by simp [inside])) u₁ (grown.depth.trans same)
    have here : ((do return (s, ← (v.parse s.pattern).attempt) :
        Build (Shape × Except Failure Term))).runFrom u = (.ok (s, .ok t), u₁) := by
      rw [runFrom_bind, runFrom_attempt, run]
      rfl
    refine ⟨(s, .ok t) :: read, u₂, ?_, ?_⟩
    · rw [List.mapM_cons, runFrom_bind, here]
      dsimp only
      rw [runFrom_bind, runs]
      rfl
    · intro s' inside
      rcases List.mem_cons.mp inside with rfl | later
      · exact ⟨t, by simp⟩
      · obtain ⟨t', member⟩ := found s' later
        exact ⟨t', by simp [member]⟩

/-- A shape that has an entry is found. -/
theorem exists_lookup {shape : Shape} {t : Term} {entries : List (Shape × Term)}
    (member : (shape, t) ∈ entries) : ∃ pattern, entries.lookup shape = some pattern := by
  cases found : entries.lookup shape with
  | some pattern => exact ⟨pattern, rfl⟩
  | none => exact absurd rfl (bne_iff_ne.mp (List.lookup_eq_none_iff.mp found _ member))

/-- Shapes whose formulas can be read from one supply are shown, from whatever supply of its depth
they are read. -/
theorem shapesOf_shows (labelled : v.Labelled) {s : Supply}
    (readable : ∀ shape : Shape, ∃ t s', (v.parse shape.pattern).runFrom s = (.ok t, s'))
    {u u' : Supply} (depth : u.depth = s.depth) {shapes : List (Shape × Term)}
    (run : (shapesOf v).runFrom u = (.ok shapes, u')) (shape : Shape) :
    ∃ pattern, shapes.lookup shape = some pattern := by
  have each : ∀ shape ∈ Shape.all, ∀ w : Supply, w.depth = s.depth →
      ∃ t w', (v.parse shape.pattern).runFrom w = (.ok t, w') := by
    intro shape _ w same
    obtain ⟨t, s', found⟩ := readable shape
    exact labelled.parse_anywhere found same
  obtain ⟨read, w, runs, found⟩ := readShapes labelled Shape.all each u depth
  rw [shapesOf, runFrom_bind_ok runs] at run
  cases run
  obtain ⟨t, member⟩ := found shape (by cases shape <;> decide)
  exact exists_lookup (List.mem_filterMap.mpr ⟨_, member, rfl⟩)

end Theory

/-! ## The built-in environments -/

/-- Loading makes the vocabulary first and reads the shapes last. -/
theorem Declarations.builtin_stages {s s' : Supply} {env : Environment}
    (loaded : (Theories.logic ++ Theories.sets).load.runFrom s = (.ok env, s')) :
    ∃ s₁ s₂, builtinVocabulary.runFrom s = (.ok env.vocabulary, s₁) ∧ s₁.Before s₂ ∧
      (Theory.shapesOf env.vocabulary).runFrom s₂ = (.ok env.theory.shapes, s') := by
  obtain ⟨types, constants, words, s₁, s₂, s₃, s₄, madeTypes, read, madeWords, made, printed,
    defined, postulated, shaped, -⟩ := load_stages loaded
  refine ⟨s₁, s₄, ?_, ?_, shaped⟩
  · rw [builtinVocabulary, madeTypes, runFrom_bind_ok (runFrom_lift _ s), runFrom_bind_ok read,
      madeWords, runFrom_bind_ok (runFrom_lift _ s₁), made]
    rfl
  · have afterPrinter := Printer.grows_ofVocabulary env.vocabulary s₁
    have afterDefinitions := grows_mapM (grows_readDefinition env.vocabulary)
      (Theories.logic ++ Theories.sets).definitions s₂
    have afterPostulates := grows_mapM (grows_readPostulate env.vocabulary)
      (Theories.logic ++ Theories.sets).postulates s₃
    rw [printed] at afterPrinter
    rw [defined] at afterDefinitions
    rw [postulated] at afterPostulates
    exact (afterPrinter.trans afterDefinitions).trans afterPostulates

/-- The built-in vocabulary has words for every shape. -/
theorem builtinVocabulary_reads :
    (match builtinVocabulary.runFrom Supply.initial with
    | (.ok v, s) => Shape.all.all fun shape =>
        ((v.parse shape.pattern).runFrom s).1.toOption.isSome
    | _ => false) = true := by
  decide +kernel

/-- With both theories every shape is shown. -/
theorem Theories.shows_all {env : Environment} {s : Supply}
    (loaded : (Theories.logic ++ Theories.sets).load.runFrom Supply.initial = (.ok env, s))
    (shape : Shape) : env.theory.Shows shape := by
  obtain ⟨s₁, s₂, made, later, read⟩ := Declarations.builtin_stages loaded
  have labelled : env.vocabulary.Labelled :=
    (Declarations.load_settles _ _ _ _ loaded Renaming.id (id_fixes s)).theory.vocabulary
  have checked := builtinVocabulary_reads
  rw [made] at checked
  have readable : ∀ shape : Shape,
      ∃ t s', (env.vocabulary.parse shape.pattern).runFrom s₁ = (.ok t, s') := by
    intro shape
    have reads := List.all_eq_true.mp checked shape (by cases shape <;> decide)
    rcases run : (env.vocabulary.parse shape.pattern).runFrom s₁ with ⟨failure | t, s'⟩
    · rw [run] at reads
      cases reads
    · exact ⟨t, s', rfl⟩
  exact Theory.shapesOf_shows labelled readable later.depth read shape

/-- In logic the shapes of logic are shown. -/
theorem Theory.OfLogic.showsLogic {th : Theory} (logic : th.OfLogic) : th.ShowsLogic := by
  obtain ⟨t, shapes⟩ := logic.shapes
  have shows : ∀ entry ∈ Logic.shapes t, th.Shows entry.1 := by
    intro entry listed
    rw [← shapes] at listed
    exact Theory.exists_lookup listed
  simp only [Logic.shapes, List.forall_mem_cons] at shows
  obtain ⟨negation, disjunction, universal, existential, schema, equation, -⟩ := shows
  exact ⟨⟨negation, disjunction, universal⟩, existential, schema, equation⟩

/-- The rules of logic in the order of the catalogue. -/
theorem Rules.standard_logic : (Rules.standard ["logic"]).rules =
    Rule.catalogue.filter fun d => d.theory.isEmpty || ["logic"].contains d.theory := by
  have distinct : ((Rule.catalogue.filter fun d => d.theory.isEmpty || ["logic"].contains
      d.theory).map fun d => Text.snakeCase d.name).Nodup := by
    decide +kernel
  exact Registry.ofList_rules distinct

/-- In the environment of logic every rule leaves a fixed number of subgoals or stops. -/
theorem Environment.OfLogic.counted {env : Environment} (logic : env.OfLogic) : env.Counted :=
  fun d registered => Rule.logicRules_count logic.theory.showsLogic d (logic.rules d registered)

/-- So it does in the environment of logic and sets. -/
theorem Theories.counted {env : Environment} {s : Supply}
    (loaded : (Theories.logic ++ Theories.sets).load.runFrom Supply.initial = (.ok env, s)) :
    env.Counted := by
  intro d registered
  rw [(Declarations.load_standard _ _ _ _ loaded).2] at registered
  exact Rule.catalogue_count (shows_all loaded) d
    (List.mem_filter.mp (Registry.mem_ofList registered)).1

end Turnstile
