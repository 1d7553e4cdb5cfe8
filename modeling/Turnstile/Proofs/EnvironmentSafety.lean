import Turnstile.Proofs.PrecedenceTable
import Turnstile.Proofs.ReadingSafety

/-!
# Environments keep terms proper

Whatever is declared, the environment it amounts to reads proper terms only, and the plans that
texts describe in it lead from proper goals to proper goals.
-/

namespace Turnstile

open Build

/-! ## Environments -/

/-- An environment in which terms stay proper. -/
structure Environment.Proper (env : Environment) : Prop where
  /-- The reserved words have plain types. -/
  vocabulary : env.vocabulary.Regular
  /-- Definitions and postulates are proper. -/
  theory : env.theory.Proper
  /-- Every rule keeps goals proper. -/
  rules : ∀ d ∈ env.rules.rules, Rule.Safe d

namespace Registry

variable {normal : String → String} {d : Descriptor}

/-- After a registration there are the rules that were there and the new one. -/
theorem mem_register {r : Registry normal} {new : Descriptor}
    (member : d ∈ (r.register new).rules) : d ∈ r.rules ∨ d = new := by
  rw [register] at member
  split at member
  · obtain ⟨old, inside, is⟩ := List.mem_map.mp member
    split at is
    · exact .inr is.symm
    · exact .inl (is ▸ inside)
  · simpa using member

/-- Every registered rule is one of those given. -/
theorem mem_ofList {rules : List Descriptor}
    (member : d ∈ (ofList rules : Registry normal).rules) : d ∈ rules := by
  have registered : ∀ (rules : List Descriptor) (r : Registry normal),
      d ∈ (rules.foldl register r).rules → d ∈ r.rules ∨ d ∈ rules := by
    intro rules
    induction rules with
    | nil => exact fun r inside => .inl inside
    | cons new rest ih =>
      intro r inside
      rcases ih _ inside with old | later
      · rcases mem_register old with old | rfl
        · exact .inl old
        · exact .inr (by simp)
      · exact .inr (by simp [later])
  simpa [empty] using registered rules empty member

end Registry

/-- The rules for some theories keep goals proper. -/
theorem Rules.standard_safe (theories : List String) :
    ∀ d ∈ (Rules.standard theories).rules, Rule.Safe d := by
  intro d member
  exact Rule.catalogue_safe d (List.mem_filter.mp (Registry.mem_ofList member)).1

/-! ## Plan texts -/

namespace PlanText

/-- Terms are proper and plans keep goals proper. -/
def Value.Safe : Value → Prop
  | arg a => ∀ t, a = .term t → t.Proper
  | plan p => p.Keeps Sequent.Proper

variable {env : Environment} {token : Token} {values : List Value}

/-- Safe values that are plans are plans that keep goals proper. -/
theorem plansOf_safe (safe : ∀ v ∈ values, v.Safe) :
    ∀ {index : Nat} {plans : List Plan}, plansOf token index values = .ok plans →
      ∀ p ∈ plans, p.Keeps Sequent.Proper := by
  induction values with
  | nil =>
    intro index plans read
    cases read
    simp
  | cons value rest ih =>
    intro index plans read
    match value with
    | .arg a => cases read
    | .plan p =>
      rw [plansOf] at read
      cases others : plansOf token (index + 1) rest with
      | error failure => rw [others] at read; cases read
      | ok ps =>
        rw [others] at read
        cases read
        have keeps : p.Keeps Sequent.Proper := safe (.plan p) (by simp)
        simpa using ⟨keeps, ih (fun v inside => safe v (by simp [inside])) others⟩

/-- Safe values are proper arguments. -/
theorem argsOf_safe (safe : ∀ v ∈ values, v.Safe) :
    ∀ {args : List Arg}, argsOf token values = .ok args → Rule.ProperArgs args := by
  induction values with
  | nil =>
    intro args read
    cases read
    intro t member
    cases member
  | cons value rest ih =>
    intro args read
    match value with
    | .plan p => cases read
    | .arg a =>
      rw [argsOf] at read
      cases others : argsOf token rest with
      | error failure => rw [others] at read; cases read
      | ok as =>
        rw [others] at read
        cases read
        intro t member
        rcases List.mem_cons.mp member with here | later
        · exact safe (.arg a) (by simp) t here.symm
        · exact ih (fun v inside => safe v (by simp [inside])) others t later

/-- The plan of a call keeps goals proper. -/
theorem assemble_gives (proper : env.Proper) (safe : ∀ v ∈ values, v.Safe) :
    (assemble env token values).Gives (Plan.Keeps Sequent.Proper) := by
  rw [assemble]
  split
  · refine (gives_lift fun plans read => plansOf_safe safe read).bind fun plans keeps => ?_
    match plans with
    | [] => exact gives_throw _
    | first :: rest =>
      have head := keeps first (by simp)
      have tail : ∀ p ∈ rest, p.Keeps Sequent.Proper := fun p inside => keeps p (by simp [inside])
      dsimp only
      split
      · exact gives_pure (Plan.keeps_sequence head tail)
      · exact gives_pure ⟨head, Plan.keepsAll_iff.mpr tail⟩
  · split
    next => exact gives_throw _
    next d found =>
      refine (gives_lift fun args read => argsOf_safe safe read).bind fun args propers => ?_
      refine Gives.reported ?_ _
      rw [Descriptor.instantiate]
      split
      · exact gives_throw _
      · split
        · exact gives_throw _
        · exact proper.rules d (List.mem_of_find?_eq_some found)
            env.theory proper.theory args propers

/-- What reading a plan's text gives within some rounds. -/
structure Safely (env : Environment) (rounds : Nat) : Prop where
  /-- A call. -/
  call : ∀ tokens, (call env rounds tokens).Gives fun r => r.1.Keeps Sequent.Proper
  /-- Arguments. -/
  arguments : ∀ tokens, (arguments env rounds tokens).Gives fun r => ∀ v ∈ r.1, v.Safe
  /-- One argument. -/
  argument : ∀ tokens, (argument env rounds tokens).Gives fun r => r.1.Safe

/-- With one more round an argument is read safely if it is read safely with fewer. -/
theorem Safely.argument_succ {rounds : Nat} (proper : env.Proper) (safely : Safely env rounds)
    (tokens : List Token) :
    (PlanText.argument env (rounds + 1) tokens).Gives fun r => r.1.Safe := by
  rw [PlanText.argument]
  dsimp only
  split
  · split
    · exact gives_pure fun t is => by cases is
    · exact gives_throw _
  · split
    · exact gives_pure fun t is => by cases is
    · exact gives_throw _
  · refine (Gives.reported (proper.vocabulary.toPlain.parse _) _).bind fun t properT =>
      gives_pure ?_
    intro t' is
    cases is
    exact properT
  · exact (safely.call tokens).bind fun r keeps => gives_pure keeps
  · exact gives_throw _

/-- Within any number of rounds, plans that are read keep goals proper. -/
theorem safely (proper : env.Proper) (rounds : Nat) : Safely env rounds := by
  induction rounds with
  | zero =>
    constructor
    · intro tokens
      rw [call]
      exact gives_throw _
    · intro tokens
      rw [arguments]
      exact gives_throw _
    · intro tokens
      rw [argument]
      exact gives_throw _
  | succ rounds ih =>
    constructor
    · intro tokens
      rw [call]
      dsimp only
      split
      · exact gives_throw _
      · refine (gives_any _).bind fun tokens _ => ?_
        refine (ih.arguments tokens).bind fun r safe => ?_
        refine (gives_any _).bind fun tokens _ => ?_
        exact (assemble_gives proper safe).bind fun p keeps => gives_pure keeps
    · intro tokens
      rw [arguments]
      split
      · exact gives_pure (by simp)
      · refine (ih.argument tokens).bind fun r safe => ?_
        dsimp only
        split
        · refine (ih.arguments _).bind fun others safeOthers => gives_pure ?_
          simpa using ⟨safe, safeOthers⟩
        · exact gives_pure (by simpa using safe)
    · exact fun tokens => ih.argument_succ proper tokens

end PlanText

namespace Environment

variable {env : Environment}

/-- The plan that a text describes keeps goals proper. -/
theorem Proper.evaluate (proper : env.Proper) (text : String) :
    (env.evaluate text).Gives (Plan.Keeps Sequent.Proper) := by
  rw [Environment.evaluate]
  refine ((PlanText.safely proper _).call _).bind fun r keeps => ?_
  dsimp only
  split
  · exact gives_throw _
  · split
    · exact gives_throw _
    · exact gives_pure keeps

/-- Working on an open goal of a plan keeps goals proper. -/
theorem Proper.advance (proper : env.Proper) {p : Plan} (keeps : p.Keeps Sequent.Proper)
    (goal : Sequent) (index : Int) (text : String) :
    (env.advance p goal index text).Gives (Plan.Keeps Sequent.Proper) := by
  rw [Environment.advance]
  split
  · exact gives_throw _
  · refine (proper.evaluate text).bind fun sub keepsSub => ?_
    exact Plan.Keeps.normalize _ (Plan.Keeps.replace _ keepsSub p keeps) goal

end Environment

/-! ## Loading -/

/-- A type with a plain name is plain and has no variables, and a constant's type is plain. -/
structure Word.Regular (w : Word) : Prop where
  /-- The word stands for a plain type without variables. -/
  types : ∀ t, w.type? = some t → isPlain w.name = true → t.Plain ∧ t.vars = []
  /-- The word stands for a constant of a plain type. -/
  constants : ∀ c, w.constant? = some c → c.type.Plain

/-- A vocabulary of regular words is regular. -/
theorem Vocabulary.regular_of_words {v : Vocabulary} (regular : ∀ w ∈ v.words, w.Regular) :
    v.Regular := by
  have types : ∀ name t, isPlain name = true → v.type? name = some t → t.Plain ∧ t.vars = [] := by
    intro name t spelled found
    obtain ⟨w, looked, is⟩ := Option.bind_eq_some_iff.mp found
    have named : w.name = name := by simpa using List.find?_some looked
    exact (regular w (lookup_mem looked)).types t is (named ▸ spelled)
  refine ⟨⟨fun name t spelled found => (types name t spelled found).1, ?_⟩,
    fun name t spelled found => (types name t spelled found).2⟩
  rintro c ⟨w, member, is⟩
  exact (regular w member).constants c is

/-- Regular words make a regular vocabulary. -/
theorem Vocabulary.ofWords_regular {declared : List Word} {v : Vocabulary}
    (regular : ∀ w ∈ declared, w.Regular) (made : Vocabulary.ofWords declared = .ok v) :
    v.Regular :=
  regular_of_words fun w member => regular w (mem_ofWords made member)

namespace Declarations

variable {d : Declarations} {constants : List Symbol}

/-- The words for types are regular. -/
theorem typeWords_regular : ∀ w ∈ d.typeWords, w.Regular := by
  have word : ∀ name : String, Word.Regular (.type name (.const name)) := fun name =>
    ⟨fun t is spelled => by cases is; exact ⟨spelled, rfl⟩, fun c is => nomatch is⟩
  intro w member
  simp only [typeWords, List.mem_cons, List.mem_map] at member
  rcases member with rfl | rfl | ⟨name, _, rfl⟩
  · exact word "obj"
  · exact word "bool"
  · exact word name

/-- The constant that is found for a name is one of the constants. -/
theorem constantFor_mem {kind name : String} {c : Symbol}
    (found : constantFor constants kind name = .ok c) : c ∈ constants := by
  rw [constantFor] at found
  split at found
  next c' listed =>
    cases found
    exact List.mem_reverse.mp (List.mem_of_find?_eq_some listed)
  next => cases found

/-- The word declared for a constant is plain if the constants are. -/
theorem word_regular {w : Word} {c : Symbol} (plain : ∀ c ∈ constants, c.type.Plain)
    (listed : c ∈ constants) (is : w.constant? = some c) (notType : w.type? = none) :
    w.Regular := by
  constructor
  · intro t isType
    rw [notType] at isType
    cases isType
  · intro c' is'
    rw [is] at is'
    cases is'
    exact plain c listed

/-- Every result is that of an item. -/
theorem mem_mapM {α β : Type} {f : α → Except Failure β} :
    ∀ {items : List α} {results : List β}, items.mapM f = .ok results →
      ∀ b ∈ results, ∃ a ∈ items, f a = .ok b := by
  intro items
  induction items with
  | nil =>
    intro results done b member
    cases done
    cases member
  | cons a rest ih =>
    intro results done b member
    rw [List.mapM_cons] at done
    obtain ⟨first, here, done⟩ := Formula.bind_ok done
    obtain ⟨others, later, done⟩ := Formula.bind_ok done
    cases done
    rcases List.mem_cons.mp member with rfl | inside
    · exact ⟨a, by simp, here⟩
    · obtain ⟨a', inside', is⟩ := ih later b inside
      exact ⟨a', by simp [inside'], is⟩

/-- A word that is declared is a type's name or stands for the constant chosen for some name. -/
theorem words_chosen {words : List Word} (made : d.words constants = .ok words) :
    ∀ w ∈ words, w ∈ d.typeWords ∨ ∃ c kind name, constantFor constants kind name = .ok c ∧
      w.constant? = some c ∧ w.type? = none := by
  rw [Declarations.words] at made
  obtain ⟨operators, madeOperators, made⟩ := Formula.bind_ok made
  obtain ⟨binders, madeBinders, made⟩ := Formula.bind_ok made
  obtain ⟨builders, madeBuilders, made⟩ := Formula.bind_ok made
  cases made
  intro w member
  simp only [List.mem_append] at member
  rcases member with ((isType | isOperator) | isBinder) | isBuilder
  · exact .inl isType
  · obtain ⟨o, _, is⟩ := mem_mapM madeOperators w isOperator
    obtain ⟨c, found, is⟩ := Formula.bind_ok is
    split at is
    · cases is
      exact .inr ⟨c, _, _, found, rfl, rfl⟩
    · cases is
  · obtain ⟨name, _, is⟩ := mem_mapM madeBinders w isBinder
    obtain ⟨c, found, is⟩ := Formula.bind_ok is
    cases is
    exact .inr ⟨c, _, _, found, rfl, rfl⟩
  · obtain ⟨b, _, is⟩ := mem_mapM madeBuilders w isBuilder
    obtain ⟨c, found, is⟩ := Formula.bind_ok is
    cases is
    exact .inr ⟨c, _, _, found, rfl, rfl⟩

/-- A word that is declared is a type's name or stands for one of the constants. -/
theorem words_made {words : List Word} (made : d.words constants = .ok words) :
    ∀ w ∈ words, w ∈ d.typeWords ∨ ∃ c ∈ constants, w.constant? = some c ∧ w.type? = none := by
  intro w member
  rcases words_chosen made w member with isType | ⟨c, _, _, found, is⟩
  · exact .inl isType
  · exact .inr ⟨c, constantFor_mem found, is⟩

/-- Constants with plain types give regular words. -/
theorem words_regular {words : List Word} (plain : ∀ c ∈ constants, c.type.Plain)
    (made : d.words constants = .ok words) : ∀ w ∈ words, w.Regular := by
  intro w member
  rcases words_made made w member with isType | ⟨c, listed, is, notType⟩
  · exact typeWords_regular w isType
  · exact word_regular plain listed is notType

/-- A constant that is read in a plain vocabulary has a plain type. -/
theorem readConstant_gives {types : Vocabulary} (plain : types.Plain) (signature : String) :
    (readConstant types signature).Gives fun c => c.type.Plain := by
  refine Gives.within ?_ _
  refine (plain.parse signature).bind fun t proper => ?_
  split
  · exact gives_pure proper.plain
  · exact gives_pure proper.plain
  · exact gives_throw _

/-- The arguments of a proper term are proper. -/
theorem args_proper {t : Term} (proper : t.Proper) : ∀ x ∈ t.args, x.Proper := by
  induction t with
  | const s => exact fun x inside => nomatch inside
  | var s => exact fun x inside => nomatch inside
  | app f x ihF ihX =>
    intro y inside
    rcases List.mem_append.mp inside with first | last
    · exact ihF proper.function y first
    · exact List.mem_singleton.mp last ▸ proper.argument
  | lam v body ih => exact fun x inside => nomatch inside

/-- A definition that is read in a plain vocabulary is made of proper terms. -/
theorem readDefinition_gives {v : Vocabulary} (plain : v.Plain) (text : String) :
    (readDefinition v text).Gives fun d => d.atom.Proper ∧ d.value.Proper ∧ d.equation.Proper := by
  refine ((plain.parse text).within _).bind fun equation proper => ?_
  split
  next atom value is =>
    have properAtom : atom.Proper := args_proper proper atom (by simp [is])
    have properValue : value.Proper := args_proper proper value (by simp [is])
    split
    · exact gives_throw _
    · split
      · split
        · exact gives_pure ⟨properAtom, properValue, proper⟩
        · exact gives_throw _
      · exact gives_throw _
  next => exact gives_throw _

/-- A postulate that is read in a plain vocabulary is a proper formula. -/
theorem readPostulate_gives {v : Vocabulary} (plain : v.Plain) (p : PostulateDecl) :
    (readPostulate v p).Gives fun p => p.formula.Proper :=
  ((plain.parse p.formula).within _).bind fun _ proper => gives_pure proper

/-- The shapes that could be read are proper. -/
theorem shapesOf_gives {v : Vocabulary} (plain : v.Plain) :
    (Theory.shapesOf v).Gives fun shapes => ∀ entry ∈ shapes, entry.2.Proper := by
  have each : ∀ s ∈ Shape.all,
      Build.Gives (fun entry : Shape × Except Failure Term => ∀ t, entry.2 = .ok t → t.Proper)
        (do return (s, ← (v.parse s.pattern).attempt)) := by
    intro s _
    have attempted : (v.parse s.pattern).attempt.Gives fun result =>
        ∀ t, result = .ok t → t.Proper := by
      intro supply supply' result run t is
      rw [runFrom_attempt] at run
      cases run
      exact plain.parse s.pattern supply _ t (Prod.ext is rfl)
    exact attempted.bind fun result propers => gives_pure propers
  refine (gives_mapM each).bind fun read propers => gives_pure fun entry member => ?_
  obtain ⟨⟨s, result⟩, inside, is⟩ := List.mem_filterMap.mp member
  cases result with
  | error failure => cases is
  | ok t =>
    cases is
    exact propers _ inside t rfl

/-- Whatever is declared, the environment it amounts to keeps terms proper. -/
theorem load_gives (d : Declarations) : d.load.Gives Environment.Proper := by
  rw [load]
  refine (gives_lift fun types made => Vocabulary.ofWords_regular typeWords_regular made).bind
    fun types regularTypes => ?_
  refine (gives_mapM fun signature _ => readConstant_gives regularTypes.toPlain signature).bind
    fun constants plainConstants => ?_
  refine (gives_lift fun words made => words_regular plainConstants made).bind
    fun words regularWords => ?_
  refine (gives_lift fun v made => Vocabulary.ofWords_regular regularWords made).bind
    fun v regular => ?_
  have plain := regular.toPlain
  refine (gives_any _).bind fun printer _ => ?_
  refine (gives_mapM fun text _ => readDefinition_gives plain text).bind
    fun definitions propers => ?_
  refine (gives_mapM fun p _ => readPostulate_gives plain p).bind fun postulates propers' => ?_
  refine (shapesOf_gives plain).bind fun shapes properShapes => gives_pure ?_
  constructor
  · exact regular
  · exact ⟨properShapes, propers, propers'⟩
  · exact Rules.standard_safe d.theories

end Declarations

/-! ## Everything that is reached -/

/-- The plans that come up in an environment: new ones, those that texts describe, and those that
come of working on an open goal. -/
inductive Environment.Reaches (env : Environment) : Plan → Prop
  /-- Nothing has been done to the goal. -/
  | start (id : Nat) : env.Reaches (.assumption id)
  /-- The plan that a text describes. -/
  | evaluate {text : String} {s s' : Supply} {p : Plan}
    (run : (env.evaluate text).runFrom s = (.ok p, s')) : env.Reaches p
  /-- A plan that was worked on. -/
  | advance {p q : Plan} {goal : Sequent} {index : Int} {text : String} {s s' : Supply}
    (before : env.Reaches p) (run : (env.advance p goal index text).runFrom s = (.ok q, s')) :
    env.Reaches q

/-- Every plan that an environment reaches keeps goals proper. -/
theorem Environment.Reaches.keeps {env : Environment} (proper : env.Proper) {p : Plan}
    (reached : env.Reaches p) : p.Keeps Sequent.Proper := by
  induction reached with
  | start id => trivial
  | evaluate run => exact proper.evaluate _ _ _ _ run
  | advance _ run ih => exact proper.advance ih _ _ _ _ _ _ run

/-- Terms, goals and steps that come up in an environment are proper. -/
structure Environment.TypeSafe (env : Environment) : Prop where
  /-- Terms that texts spell. -/
  parse : ∀ text, (env.parse text).Gives Term.Proper
  /-- Sequents that texts spell. -/
  parseSequent : ∀ text, (env.parseSequent text).Gives Sequent.Proper
  /-- Shapes, definitions and postulates. -/
  theory : env.theory.Proper
  /-- The goals that a plan leaves open. -/
  subgoals : ∀ p, env.Reaches p → ∀ goal : Sequent, goal.Proper →
    (p.subgoals goal).Gives fun goals => ∀ g ∈ goals, g.Proper
  /-- The goals that a run visits, whether it succeeds or fails later. -/
  trace : ∀ p, env.Reaches p → ∀ goal : Sequent, goal.Proper → ∀ s,
    Plan.Visits Sequent.Proper ((p.trace goal).run s).1.events
  /-- The goals of the steps that a run keeps. -/
  step : ∀ p, env.Reaches p → ∀ goal : Sequent, goal.Proper →
    (p.step goal).Gives (Step.All Sequent.Proper)

/-- A proper environment is safe: what it reads and the goals that it reaches are proper. -/
theorem Environment.Proper.typeSafe {env : Environment} (proper : env.Proper) :
    env.TypeSafe where
  parse := proper.vocabulary.toPlain.parse
  parseSequent := proper.vocabulary.toPlain.parseSequent
  theory := proper.theory
  subgoals := fun p reached _ properG => Plan.Keeps.subgoals p (reached.keeps proper) properG
  trace := fun p reached _ properG s => Plan.Keeps.visits p (reached.keeps proper) properG s
  step := fun p reached _ properG => Plan.Keeps.step p (reached.keeps proper) properG

/-- Proper terms are good terms of plain types, and they stay so: whatever is read with plain types
is proper; applications, abstractions, binders, common types, substitutions and reductions of
proper terms are proper, and completing an application needs no check; and in every environment
only proper terms and goals come up. -/
theorem terms_stay_proper :
    (∀ v : Vocabulary, v.Plain → ∀ text, (v.parse text).Gives Term.Proper) ∧
    (∀ f x : Term, f.Proper → x.Proper → (f.mkApp x).Gives Term.Proper ∧
      ∀ s, (f.mkApp x).runFrom s = (f.mkAppUnchecked x).runFrom s) ∧
    (∀ bound body t : Term, bound.Proper → body.Proper → Term.mkLam bound body = .ok t →
      t.Proper) ∧
    (∀ (f : Term) (xs : List Term), f.Proper → (∀ x ∈ xs, x.Proper) →
      (f.mkApps xs).Gives Term.Proper) ∧
    (∀ binder bound body : Term, binder.Proper → bound.Proper → body.Proper →
      (binder.mkBinder bound body).Gives Term.Proper) ∧
    (∀ terms results : List Term, (∀ t ∈ terms, t.Proper) → unifyTypes terms = .ok results →
      (∀ t ∈ results, t.Proper) ∧ Uniform (freeIn results)) ∧
    (∀ t value pattern : Term, t.Proper → value.Proper →
      (t.substitute value pattern).Gives Term.Proper) ∧
    (∀ t : Term, t.Proper → t.betaReduce.Gives Term.Proper) ∧
    (∀ d : Declarations, d.load.Gives Environment.TypeSafe) := by
  refine ⟨fun v plain text => plain.parse text, ?_, ?_, ?_, ?_, ?_, ?_, ?_, ?_⟩
  · exact fun f x proper properX => ⟨proper.mkApp properX, proper.mkApp_unchecked properX⟩
  · exact fun bound body t properBound proper built => properBound.mkLam proper built
  · exact fun f xs proper propers => proper.mkApps propers
  · exact fun binder bound body proper properBound properB => proper.mkBinder properBound properB
  · exact fun terms results propers unified => Term.unifyTypes_proper propers unified
  · exact fun t value pattern proper properV => proper.substitute properV pattern
  · exact fun t proper => proper.betaReduce
  · exact fun d => d.load_gives.mono fun env proper => proper.typeSafe

/-- The words for types that are always there. -/
def standardTypes : Vocabulary := ⟨Declarations.typeWords {}, []⟩

/-- The identity on objects is read and is proper. -/
theorem terms_stay_proper_identity :
    standardTypes.Plain ∧
      ((standardTypes.parse "\\x:obj. x").runFrom Supply.initial).1.toOption =
        some (.lam ⟨"x", .obj⟩ (.var ⟨"x", .obj⟩)) ∧
      (Term.lam ⟨"x", .obj⟩ (.var ⟨"x", .obj⟩)).Proper := by
  have plain : standardTypes.Plain :=
    (Vocabulary.regular_of_words Declarations.typeWords_regular).toPlain
  have read : ((standardTypes.parse "\\x:obj. x").runFrom Supply.initial).1.toOption =
      some (.lam ⟨"x", .obj⟩ (.var ⟨"x", .obj⟩)) := by
    decide +kernel
  exact ⟨plain, read, (terms_stay_proper.1 standardTypes plain _).of_toOption read⟩

/-- Two types that are written alike although they differ. -/
def crossedWords : List Word :=
  [.type "s" (.arrow (.const "a,'b") (.const "c")), .type "t" (.arrow (.const "a") (.const "b,'c"))]

/-- With types of other names, a term can be read whose bound variable has another type than its
binder, and two parts with one type can fail to be joined. -/
theorem crossed_reads_bad_term :
    (∃ t : Term, ((do (← Vocabulary.ofWords crossedWords).parse "\\x:s. x:t" :
      Build Term).runFrom Supply.initial).1.toOption = some t ∧ ¬ t.Good) ∧
    ∃ f x : Term, f.Good ∧ x.Good ∧
      ((f.mkApp x).runFrom Supply.initial).1.toOption = none ∧
      ((f.mkAppUnchecked x).runFrom Supply.initial).1.toOption = some (.app f x) := by
  constructor
  · refine ⟨.lam ⟨"x", .arrow (.const "a,'b") (.const "c")⟩
      (.var ⟨"x", .arrow (.const "a") (.const "b,'c")⟩), by decide +kernel, fun good => ?_⟩
    have same := good.wellTyped.2 ⟨"x", .arrow (.const "a") (.const "b,'c")⟩
        (by simp [Term.free]) rfl
    exact absurd same (by decide)
  · refine ⟨.var ⟨"f", .arrow (.arrow (.const "a,'b") (.const "c")) .obj⟩,
      .var ⟨"x", .arrow (.const "a") (.const "b,'c")⟩, ⟨trivial, ?_⟩, ⟨trivial, ?_⟩,
      by decide, by decide +kernel⟩
    · simp [Uniform, Term.free]
    · simp [Uniform, Term.free]

end Turnstile
