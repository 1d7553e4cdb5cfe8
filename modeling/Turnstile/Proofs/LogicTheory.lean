import Turnstile.Proofs.EnvironmentSafety
import Turnstile.Proofs.SubstitutionMeaning
import Turnstile.Theories.Logic

/-!
# The theory of logic

What the environment of logic consists of: the formulas that show the shapes, the values of the
four definitions, and no postulates. A defined constant means what the value of its definition
means.
-/

namespace Turnstile

open Build

universe u

/-! ## The definitions -/

namespace Logic

/-- A negation. -/
def neg (a : Term) : Term := .app (.const ⟨"not", .arrow .bool .bool⟩) a

/-- A connective between two formulas. -/
def join (name : String) (a b : Term) : Term :=
  .app (.app (.const ⟨name, .arrow .bool (.arrow .bool .bool)⟩) a) b

/-- A universal. -/
def forAll (v : Symbol) (b : Term) : Term :=
  .app (.const ⟨"for_all", .arrow (.arrow .obj .bool) .bool⟩) (.lam v b)

/-- The first formula of a defined connective. -/
abbrev first : Symbol := ⟨"x", .bool⟩

/-- The second formula of a defined connective. -/
abbrev second : Symbol := ⟨"y", .bool⟩

/-- The predicate of a defined quantifier. -/
abbrev predicate : Symbol := ⟨"x", .arrow .obj .bool⟩

/-- The object of a defined quantifier. -/
abbrev object : Symbol := ⟨"y", .obj⟩

/-- The defined constants with the values of their definitions. -/
def definitions : List (Symbol × Term) := [
  (⟨"and", .arrow .bool (.arrow .bool .bool)⟩,
    .lam first (.lam second (neg (join "or" (neg (.var first)) (neg (.var second)))))),
  (⟨"implies", .arrow .bool (.arrow .bool .bool)⟩,
    .lam first (.lam second (join "or" (neg (.var first)) (.var second)))),
  (⟨"iff", .arrow .bool (.arrow .bool .bool)⟩,
    .lam first (.lam second (join "and" (join "implies" (.var first) (.var second))
      (join "implies" (.var second) (.var first))))),
  (⟨"exists", .arrow (.arrow .obj .bool) .bool⟩,
    .lam predicate (neg (forAll object (neg (.app (.var predicate) (.var object))))))]

variable {M : Model.{u}} {ρ : M.Assignment}

/-- A negation is true if what it denies is not. -/
@[simp] theorem denote_neg (a : Term) :
    M.denote (neg a) ρ = M.truth (¬ (M.denote a ρ).IsTrue) := rfl

/-- A disjunction is true if one of its parts is. -/
@[simp] theorem denote_or (a b : Term) : M.denote (join "or" a b) ρ =
    M.truth ((M.denote a ρ).IsTrue ∨ (M.denote b ρ).IsTrue) := rfl

/-- A conjunction is true as its definition says. -/
@[simp] theorem denote_and (a b : Term) : M.denote (join "and" a b) ρ =
    M.truth (¬ (¬ (M.denote a ρ).IsTrue ∨ ¬ (M.denote b ρ).IsTrue)) := rfl

/-- An implication is true as its definition says. -/
@[simp] theorem denote_implies (a b : Term) : M.denote (join "implies" a b) ρ =
    M.truth (¬ (M.denote a ρ).IsTrue ∨ (M.denote b ρ).IsTrue) := rfl

/-- The value of an abstraction at an argument is that of its body. -/
theorem denote_lam_apply {v : Symbol} {b : Term} (a : M.Carrier v.type)
    (typed : (M.denote b (ρ.set v a)).type = b.type) :
    (M.denote (.lam v b) ρ).apply ⟨v.type, a⟩ = M.denote b (ρ.set v a) := by
  rw [Model.denote, Model.Value.apply_mk, Model.Value.as_mk, ← Model.Value.eq_mk typed]

/-- The value of an abstraction over two formulas is a connective. -/
theorem denote_connective {b : Term} {f : Prop → Prop → Prop} (formula : b.type = .bool)
    (body : ∀ p q : M.Carrier .bool, M.denote b ((ρ.set first p).set second q) =
      M.truth (f (Model.Value.IsTrue ⟨.bool, p⟩) (Model.Value.IsTrue ⟨.bool, q⟩))) :
    M.denote (.lam first (.lam second b)) ρ = M.connective₂ f := by
  have type : (Term.lam second b).type = .arrow .bool .bool := by rw [Term.type, formula]
  refine Model.Value.ext_arrow (d := .bool) (c := .arrow .bool .bool) ?_ rfl fun p => ?_
  · rw [Model.denote, type]
  have outer : (M.denote (.lam first (.lam second b)) ρ).apply ⟨.bool, p⟩ =
      M.denote (.lam second b) (ρ.set first p) := denote_lam_apply (v := first) p rfl
  rw [outer]
  refine Model.Value.ext_arrow (d := .bool) (c := .bool) type rfl fun q => ?_
  have inner : (M.denote (.lam second b) (ρ.set first p)).apply ⟨.bool, q⟩ =
      M.denote b ((ρ.set first p).set second q) := by
    refine denote_lam_apply (v := second) q ?_
    rw [body, formula]
    rfl
  rw [inner, body, Model.connective₂_apply]

/-- The value of an abstraction over a predicate is a quantifier. -/
theorem denote_quantifier {b : Term} {f : (M.Carrier .obj → Prop) → Prop}
    (formula : b.type = .bool)
    (body : ∀ p : M.Carrier (.arrow .obj .bool), M.denote b (ρ.set predicate p) =
      M.truth (f fun a => ULift.down (p a))) :
    M.denote (.lam predicate b) ρ = M.quantifier .obj f := by
  refine Model.Value.ext_arrow (d := .arrow .obj .bool) (c := .bool) ?_ rfl fun p => ?_
  · rw [Model.denote, formula]
  have value : (M.denote (.lam predicate b) ρ).apply ⟨.arrow .obj .bool, p⟩ =
      M.denote b (ρ.set predicate p) := by
    refine denote_lam_apply (v := predicate) p ?_
    rw [body, formula]
    rfl
  rw [value, body, Model.quantifier_apply]

/-- A defined constant means what its definition says. -/
theorem constant_eq_denote {c : Symbol} {value : Term} (defined : (c, value) ∈ definitions) :
    M.constant c = M.denote value ρ := by
  have firstValue : ∀ p q : M.Carrier .bool,
      M.denote (.var first) ((ρ.set first p).set second q) = ⟨.bool, p⟩ := by
    intro p q
    rw [Model.denote, Model.Assignment.set_other (by decide), Model.Assignment.set_same]
  have secondValue : ∀ p q : M.Carrier .bool,
      M.denote (.var second) ((ρ.set first p).set second q) = ⟨.bool, q⟩ := by
    intro p q
    rw [Model.denote, Model.Assignment.set_same]
  simp only [definitions, List.mem_cons, Prod.mk.injEq, List.not_mem_nil, or_false] at defined
  rcases defined with ⟨rfl, rfl⟩ | ⟨rfl, rfl⟩ | ⟨rfl, rfl⟩ | ⟨rfl, rfl⟩
  · change M.connective₂ (fun a b => ¬ (¬ a ∨ ¬ b)) = _
    symm
    refine denote_connective rfl fun p q => ?_
    simp only [denote_neg, denote_or, Model.isTrue_truth, firstValue, secondValue]
  · change M.connective₂ (fun a b => ¬ a ∨ b) = _
    symm
    refine denote_connective rfl fun p q => ?_
    simp only [denote_neg, denote_or, Model.isTrue_truth, firstValue, secondValue]
  · change M.connective₂ (fun a b => ¬ (¬ (¬ a ∨ b) ∨ ¬ (¬ b ∨ a))) = _
    symm
    refine denote_connective rfl fun p q => ?_
    simp only [denote_and, denote_implies, Model.isTrue_truth, firstValue, secondValue]
  · change M.quantifier .obj (fun p => ¬ ∀ x, ¬ p x) = _
    symm
    refine denote_quantifier rfl fun p => ?_
    have atom : ∀ a : M.Carrier .obj, M.denote (.app (.var predicate) (.var object))
        ((ρ.set predicate p).set object a) = ⟨.bool, p a⟩ := by
      intro a
      rw [Model.denote, Model.denote, Model.denote, Model.Assignment.set_same,
        Model.Assignment.set_other (by decide), Model.Assignment.set_same]
      rw [Model.Value.apply_mk, Model.Value.as_mk]
    have inner : (M.denote (forAll object (neg (.app (.var predicate) (.var object))))
        (ρ.set predicate p)).IsTrue ↔ ∀ a, ¬ ULift.down (p a) := by
      refine (Model.holds_quantifier (f := fun p => ∀ x, p x) rfl rfl).trans ?_
      refine forall_congr' fun a => ?_
      rw [Model.Holds, denote_neg, Model.isTrue_truth]
      exact not_congr ((iff_of_eq (congrArg Model.Value.IsTrue (atom a))).trans
        (Model.Value.isTrue_mk _))
    rw [denote_neg, inner]

/-! ## The environment -/

/-- The formulas that show the shapes, with a type for the sides of an equation. -/
def shapes (t : Ty) : List (Shape × Term) := [
  (.negation, neg (.var ⟨"a", .bool⟩)),
  (.disjunction, join "or" (.var ⟨"a", .bool⟩) (.var ⟨"b", .bool⟩)),
  (.universal, forAll ⟨"x", .obj⟩ (.var ⟨"phi", .bool⟩)),
  (.existential, .app (.const ⟨"exists", .arrow (.arrow .obj .bool) .bool⟩)
    (.lam ⟨"x", .obj⟩ (.var ⟨"phi", .bool⟩))),
  (.schema, .app (.const ⟨"schema", .arrow (.arrow (.arrow .obj .bool) .bool) .bool⟩)
    (.lam ⟨"phi", .arrow .obj .bool⟩ (.var ⟨"psi", .bool⟩))),
  (.equation, .app (.app (.const ⟨"=", .arrow t (.arrow t .bool)⟩) (.var ⟨"a", t⟩))
    (.var ⟨"b", t⟩))]

/-- The constants that have words, with a type for the sides of an equation. -/
def constants (t : Ty) : List Symbol := [
  ⟨"not", .arrow .bool .bool⟩,
  ⟨"and", .arrow .bool (.arrow .bool .bool)⟩,
  ⟨"or", .arrow .bool (.arrow .bool .bool)⟩,
  ⟨"implies", .arrow .bool (.arrow .bool .bool)⟩,
  ⟨"iff", .arrow .bool (.arrow .bool .bool)⟩,
  ⟨"=", .arrow t (.arrow t .bool)⟩,
  ⟨"schema", .arrow (.arrow (.arrow .obj .bool) .bool) .bool⟩,
  ⟨"for_all", .arrow (.arrow .obj .bool) .bool⟩,
  ⟨"exists", .arrow (.arrow .obj .bool) .bool⟩]

end Logic

/-- What the rules know in logic. -/
structure Theory.OfLogic (th : Theory) : Prop where
  /-- The shapes. -/
  shapes : ∃ t, th.shapes = Logic.shapes t
  /-- The definitions. -/
  definitions : th.definitions.map (fun d => (d.name, d.value)) =
    Logic.definitions.map fun entry => (entry.1.name, entry.2)
  /-- Nothing is postulated. -/
  postulates : th.postulates = []

/-- The environment of logic. -/
structure Environment.OfLogic (env : Environment) : Prop where
  /-- What the rules know. -/
  theory : env.theory.OfLogic
  /-- Terms stay proper. -/
  proper : env.Proper
  /-- The constants that have words. -/
  constants : ∃ t, env.vocabulary.words.filterMap Word.constant? = Logic.constants t
  /-- The rules are those of logic. -/
  rules : ∀ d ∈ env.rules.rules,
    d ∈ Rule.structuralRules ++ Rule.logicalRules ++ Rule.derivedRules

namespace Logic

/-- What the environment of logic has apart from its rules, as a new run loads it. -/
theorem load_eq : (Theories.logic.load.runFrom Supply.initial).1.toOption.map (fun env =>
      (env.theory.shapes, env.theory.definitions.map (fun d => (d.name, d.value)),
        env.theory.postulates.isEmpty, env.vocabulary.words.filterMap Word.constant?)) =
    some (shapes (.var 1000000052), definitions.map (fun entry => (entry.1.name, entry.2)),
      true, constants (.var 1000000001)) := by
  decide +kernel

/-- The rules of logic are the structural ones, the logical ones and the tactics. -/
theorem load_rules : Theories.logic.load.Gives fun env => ∀ d ∈ env.rules.rules,
    d ∈ Rule.structuralRules ++ Rule.logicalRules ++ Rule.derivedRules := by
  refine (Declarations.load_standard _).mono fun env standard d registered => ?_
  rw [standard.2] at registered
  obtain ⟨listed, offered⟩ := List.mem_filter.mp (Registry.mem_ofList registered)
  rcases List.mem_append.mp listed with ours | sets
  · exact ours
  -- No rule of set theory relies on logic alone.
  · have theory : d.theory = "set" := by
      simp only [Rule.setRules, List.mem_cons, List.not_mem_nil, or_false] at sets
      rcases sets with rfl | rfl | rfl | rfl | rfl | rfl | rfl <;> rfl
    rw [theory] at offered
    exact absurd offered (by decide)

/-- What a new run loads is the environment of logic. -/
theorem ofLogic {env : Environment}
    (loaded : (Theories.logic.load.runFrom Supply.initial).1 = .ok env) : env.OfLogic := by
  have found : (Theories.logic.load.runFrom Supply.initial).1.toOption = some env := by
    rw [loaded]
    rfl
  have parts := load_eq
  rw [found] at parts
  simp only [Option.map_some, Option.some.injEq, Prod.mk.injEq] at parts
  obtain ⟨shapes, definitions, postulates, constants⟩ := parts
  have none : env.theory.postulates = [] := List.isEmpty_iff.mp postulates
  exact ⟨⟨⟨_, shapes⟩, definitions, none⟩, (Declarations.load_gives _).of_toOption found,
    ⟨_, constants⟩, load_rules.of_toOption found⟩

end Logic

/-! ## Parts of formulas -/

section

variable {th : Theory} {goal : Sequent} {side : Side} {index : Nat} {shape : Shape} {m : Bindings}
  {s s' : Supply} {t : Term} {p a b : Symbol}

/-- The parts of a formula come of matching it with the shape. -/
theorem Theory.parts_ok {pattern : Term} (known : th.shapes.lookup shape = some pattern)
    (run : (th.parts goal side index shape).runFrom s = (.ok m, s')) :
    ∃ formula, (goal.side side)[index]? = some formula ∧ pattern.matchWith formula = .ok m ∧
      s' = s := by
  rw [Theory.parts] at run
  split at run
  next => cases run
  next formula found =>
    rw [Theory.shape, known] at run
    refine ⟨formula, found, ?_⟩
    obtain ⟨pattern', s₁, shown, run⟩ := Build.bind_ok run
    cases shown
    split at run
    next bindings done =>
      cases run
      exact ⟨done, rfl⟩
    next => cases run

/-- A name that is not bound yet is bound last. -/
theorem Term.bindPattern_ok {bindings : Bindings} (unbound : bindings.lookup a.name = none)
    (bound : Term.bindPattern bindings a t = .ok m) : m = bindings ++ [(a.name, t)] := by
  rw [Term.bindPattern] at bound
  split at bound
  · rw [unbound] at bound
    cases bound
    rfl
  · cases bound

/-- Two variables of different names are bound one after the other. -/
theorem Term.bindPattern_pair {x y : Term} {between : Bindings} (apart : b.name ≠ a.name)
    (first : Term.bindPattern [] a x = .ok between)
    (second : Term.bindPattern between b y = .ok m) :
    Rule.part m a.name = x ∧ Rule.part m b.name = y := by
  have other : (b.name == a.name) = false := beq_false_of_ne apart
  have bound := Term.bindPattern_ok rfl first
  subst bound
  have unbound : List.lookup b.name [(a.name, x)] = none := by simp [List.lookup_cons, other]
  rw [Term.bindPattern_ok unbound second]
  constructor
  · simp [Rule.part, Bindings.value]
  · simp [Rule.part, Bindings.value, List.lookup_cons, other]

/-- The constant of a pattern matches constants of its name and binds nothing. -/
theorem Term.matchFrom_const {bindings : Bindings}
    (done : Term.matchFrom bindings (.const p) t = .ok m) :
    ∃ c, t = .const c ∧ c.name = p.name ∧ m = bindings := by
  match t with
  | .const c =>
    rw [Term.matchFrom] at done
    split at done
    next same =>
      cases done
      rw [Bool.and_eq_true, beq_iff_eq] at same
      exact ⟨c, rfl, same.1.symm, rfl⟩
    next => cases done
  | .var _ | .app _ _ | .lam _ _ => cases done

/-- An application of a pattern matches applications, the function first. -/
theorem Term.matchFrom_app {bindings : Bindings} {f x : Term}
    (done : Term.matchFrom bindings (.app f x) t = .ok m) :
    ∃ g y between, t = .app g y ∧ Term.matchFrom bindings f g = .ok between ∧
      Term.matchFrom between x y = .ok m := by
  match t with
  | .app g y =>
    rw [Term.matchFrom] at done
    obtain ⟨between, first, second⟩ := Formula.bind_ok done
    exact ⟨g, y, between, rfl, first, second⟩
  | .const _ | .var _ | .lam _ _ => cases done

/-- A constant with one argument. -/
theorem Term.matchWith_unary (done : (Term.app (.const p) (.var a)).matchWith t = .ok m) :
    ∃ c x, t = .app (.const c) x ∧ c.name = p.name ∧ Rule.part m a.name = x := by
  obtain ⟨g, x, between, rfl, first, second⟩ := Term.matchFrom_app done
  obtain ⟨c, rfl, named, rfl⟩ := Term.matchFrom_const first
  rw [Term.matchFrom] at second
  refine ⟨c, x, rfl, named, ?_⟩
  rw [Term.bindPattern_ok rfl second]
  simp [Rule.part, Bindings.value]

/-- A constant with two arguments. -/
theorem Term.matchWith_binary (apart : b.name ≠ a.name)
    (done : (Term.app (.app (.const p) (.var a)) (.var b)).matchWith t = .ok m) :
    ∃ c x y, t = .app (.app (.const c) x) y ∧ c.name = p.name ∧ Rule.part m a.name = x ∧
      Rule.part m b.name = y := by
  obtain ⟨g, y, between, rfl, first, second⟩ := Term.matchFrom_app done
  obtain ⟨g', x, between', rfl, third, first⟩ := Term.matchFrom_app first
  obtain ⟨c, rfl, named, rfl⟩ := Term.matchFrom_const third
  rw [Term.matchFrom] at first second
  exact ⟨c, x, y, rfl, named, Term.bindPattern_pair apart first second⟩

/-- A constant applied to an abstraction. -/
theorem Term.matchWith_binder (apart : b.name ≠ a.name)
    (done : (Term.app (.const p) (.lam a (.var b))).matchWith t = .ok m) :
    ∃ c v body, t = .app (.const c) (.lam v body) ∧ c.name = p.name ∧
      Rule.part m a.name = .var v ∧ Rule.part m b.name = body := by
  obtain ⟨g, x, between, rfl, first, second⟩ := Term.matchFrom_app done
  obtain ⟨c, rfl, named, rfl⟩ := Term.matchFrom_const first
  match x with
  | .lam v body =>
    rw [Term.matchFrom] at second
    obtain ⟨middle, third, second⟩ := Formula.bind_ok second
    rw [Term.matchFrom] at second
    exact ⟨c, v, body, rfl, named, Term.bindPattern_pair apart third second⟩
  | .const _ | .var _ | .app _ _ => cases second

end

end Turnstile
