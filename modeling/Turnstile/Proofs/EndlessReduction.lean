import Turnstile.Proofs.BuiltinRules
import Turnstile.Proofs.Untouched

/-!
# Endless reductions

Substitution does not always end. Where a bound variable is renamed to the very variable that is
replaced, its occurrences are replaced as well, and in this way a value can get into a function
whose reduction puts the value for the same variable in the value once more. There is a term of
simple types for which this never stops: putting it for a variable in itself nests deeper than any
depth. A goal of logic in which this term stands is a goal whose rules cannot be listed.
-/

namespace Turnstile

open Build

/-! ## Substitutions that nest too deeply -/

namespace Term

variable {f f' x body argument value pattern : Term} {bound : Symbol} {depth : Nat}

/-- The substitution nests deeper than allowed, from whatever supply. -/
def Deep (depth : Nat) (t value pattern : Term) : Prop :=
  ∀ s, ((t.substituteWithin depth value pattern).runFrom s).1 = .error .tooDeep

/-- Where nothing may nest every substitution is too deep. -/
theorem deep_zero (t value pattern : Term) : Deep 0 t value pattern := fun _ => by
  rw [substituteWithin]
  rfl

/-- An application is as deep as its argument. -/
theorem deep_argument (function : Settles value pattern f f')
    (deep : ∀ d < depth, Deep d x value pattern) : Deep depth (.app f x) value pattern := by
  intro s
  cases depth with
  | zero => exact deep_zero _ _ _ s
  | succ depth =>
    rw [substituteWithin]
    rcases function.or_deep depth s with run | tooDeep
    · rw [runFrom_bind_ok run]
      exact runFrom_bind_error (deep depth (Nat.lt_succ_self _) s)
    · exact runFrom_bind_error tooDeep

/-- An abstraction is as deep as its body. -/
theorem deep_body (apart : pattern.hasFree bound = false) (unused : bound.name ∉ value.freeNames)
    (deep : ∀ d < depth, Deep d body value pattern) :
    Deep depth (.lam bound body) value pattern := by
  intro s
  cases depth with
  | zero => exact deep_zero _ _ _ s
  | succ depth =>
    have absent : ¬ value.freeNames.contains bound.name = true := by simpa using unused
    rw [substituteWithin, if_neg (ne_true_of_eq_false apart), if_neg absent]
    exact runFrom_bind_error (deep depth (Nat.lt_succ_self _) s)

/-- An application that becomes reducible is as deep as its reduction. -/
theorem deep_redex (function : Settles value pattern f (.lam bound body))
    (operand : Settles value pattern x argument) (proper : (app (.lam bound body) argument).Proper)
    (deep : ∀ d < depth, Deep d body argument (.var bound)) :
    Deep depth (.app f x) value pattern := by
  intro s
  cases depth with
  | zero => exact deep_zero _ _ _ s
  | succ depth =>
    rw [substituteWithin]
    rcases function.or_deep depth s with run | tooDeep
    · rw [runFrom_bind_ok run]
      rcases operand.or_deep depth s with run | tooDeep
      · rw [runFrom_bind_ok run, runFrom_bind_ok (proper.mkApp_good s)]
        exact deep depth (Nat.lt_succ_self _) s
      · exact runFrom_bind_error tooDeep
    · exact runFrom_bind_error tooDeep

end Term

/-! ## A term that returns to itself -/

namespace Endless

open Term

variable {name : String} {other : Term}

/-- The variable that is free in the value and bound in the function and the argument. -/
def object : Symbol := ⟨"x", .obj⟩

/-- The variable that is replaced, which is what `object` is renamed to. -/
def target : Symbol := ⟨"x1", .obj⟩

/-- The bound variable of the function. It may have almost any name. -/
def step (name : String) : Symbol := ⟨name, .arrow .obj .obj⟩

/-- What keeps the application out of reach of reductions elsewhere. -/
def guard : Symbol := ⟨"q", .arrow .obj (.arrow (.arrow (step "").type (step "").type) .obj)⟩

/-- The function of the application that is reduced again and again. -/
def function (name : String) : Term :=
  .lam (step name) (.lam object (.app (.var (step name)) (.var object)))

/-- Its argument. -/
def identity : Term := .lam object (.var object)

/-- The value, in which `object` is free and the application stands below a binder of `step`. -/
def value (name : String) : Term :=
  .app (.app (.var guard) (.var object)) (.lam (step name) (.app (function name) identity))

/-- The function once the value is put for `target` in it: the bound `object` has become `target`
and has been replaced. -/
def unfolded (name : String) : Term :=
  .lam (step name) (.lam target (.app (.var (step name)) (value name)))

/-- The argument once the value is put for `target` in it. -/
def constant (name : String) : Term := .lam target (value name)

/-- A name that none of the other variables has. -/
def Apart (name : String) : Prop := name ∉ ["q", "x", "x1"]

instance (name : String) : Decidable (Apart name) := inferInstanceAs (Decidable (name ∉ _))

/-- All of these are parts of a proper term. -/
theorem unfolded_proper (apart : Apart name) : (app (unfolded name) (constant name)).Proper := by
  simp only [Apart, List.mem_cons, List.not_mem_nil, not_or, or_false] at apart
  obtain ⟨apartQ, apartX, apartX1⟩ := apart
  refine ⟨⟨?_, ?_⟩, ?_⟩
  · simp [unfolded, value, constant, function, identity, step, object, guard, target, WellTyped,
      type, free, Ty.resultType, apartX, apartX1, Ne.symm apartQ, Ne.symm apartX, or_imp,
      forall_and]
  · simp [Uniform, unfolded, value, constant, function, identity, step, object, guard, target, free,
      or_imp, forall_and]
  · simp [unfolded, value, constant, function, identity, step, object, guard, target, Plain,
      Ty.Plain, Ty.plain_obj]

/-- The value may be put for `target` in itself. -/
theorem redex_proper (apart : Apart name) : (app (constant name) (value name)).Proper := by
  obtain ⟨good, plain⟩ := (unfolded_proper apart).argument
  have valued := (unfolded_proper apart).argument.body
  refine ⟨⟨⟨good.wellTyped, valued.wellTyped, .obj, rfl⟩, ?_⟩, plain, valued.plain⟩
  simp [Uniform, value, constant, function, identity, object, guard, target, free, or_imp,
    forall_and]

/-- The value is proper. -/
theorem value_proper (apart : Apart name) : (value name).Proper :=
  (unfolded_proper apart).argument.body

/-- What is free in the value. -/
theorem value_free (name : String) : (value name).free = [guard, object] := by
  simp [value, function, identity, free, guard, object]

/-- The names that are free in the value. -/
theorem value_freeNames (name : String) : (value name).freeNames = ["q", "x"] := by
  rw [freeNames, value_free]
  rfl

/-- The same names are free in the argument that has become constant. -/
theorem constant_freeNames (name : String) : (constant name).freeNames = ["q", "x"] := by
  rw [freeNames, constant, free, value_free]
  decide

/-- Below the binder of the function `object` becomes `target` when the value comes in. -/
theorem renamed_function (apart : Apart name) :
    renamedBound object (.app (.var (step name)) (.var object)) (value name).freeNames =
      target := by
  have numbered : (List.range 5).map (numberedName "x") = ["x", "x1", "x2", "x3", "x4"] := by
    decide
  have free : "x1" ≠ name := by
    rintro rfl
    exact apart (by simp)
  rw [value_freeNames]
  change (⟨(((List.range 5).map (numberedName "x")).find?
    fun n => !List.contains [name, "x", "q", "x"] n).getD "x", .obj⟩ : Symbol) = target
  rw [numbered]
  simp [target, free]

/-- So it does in the argument. -/
theorem renamed_identity : renamedBound object (.var object) (value name).freeNames = target := by
  rw [value_freeNames]
  decide

/-- A binder of `step` does not hide `target`. -/
theorem target_apart (name : String) : (var target).hasFree (step name) = false :=
  hasFree_var_of_ne Ty.plain_obj ⟨Ty.plain_obj, Ty.plain_obj⟩ (by
    simp [target, step, Ty.obj])

/-- Nor does a binder of `target` hide `step`. -/
theorem step_apart (name : String) : (var (step name)).hasFree target = false :=
  hasFree_var_of_ne ⟨Ty.plain_obj, Ty.plain_obj⟩ Ty.plain_obj (by
    simp [target, step, Ty.obj])

/-- A binder of `step` does not hide anything that is free in the value. -/
theorem step_unused (apart : Apart name) : (step name).name ∉ (value name).freeNames := by
  rw [value_freeNames]
  simp only [Apart, List.mem_cons, List.not_mem_nil, not_or, or_false] at apart
  simp [step, apart]

/-- The name of `object` is free in the value. -/
theorem object_used (name : String) : object.name ∈ (value name).freeNames := by
  rw [value_freeNames]
  decide

/-- What becomes of the function. -/
theorem function_settles (apart : Apart name) :
    Settles (value name) (.var target) (function name) (unfolded name) := by
  have proper := (unfolded_proper apart).function
  have before := (value_proper apart).argument.body.function.body.body
  have differs : ∀ v : Symbol, v.type = .obj → step name ≠ v := by
    rintro v typed rfl
    cases typed
  have unheard : (app (var (step name)) (var object)).Unheard target.name := by
    intro a inside
    rcases List.mem_pair.mp inside with rfl | rfl
    · rintro rfl
      exact apart (by decide)
    · decide
  have renamed : Settles (var target) (var object) (.app (.var (step name)) (.var object))
      (relabel object target (.app (.var (step name)) (.var object))) :=
    settles_relabel before (by simp [Term.Normal]) Ty.plain_obj Ty.plain_obj rfl unheard
  rw [relabel, relabel, relabel, if_neg (differs object rfl), if_pos rfl] at renamed
  have replaced : Settles (value name) (.var target) (.app (.var (step name)) (.var target))
      (.app (.var (step name)) (value name)) :=
    settles_app (settles_var (mt var.inj (differs target rfl))) (settles_value rfl) proper.body.body
      (by simp)
  have inner := settles_renamed (by decide) (object_used name) (renamed_function apart) renamed
    replaced proper.body
  exact settles_lam (target_apart name) (step_unused apart) inner proper

/-- What becomes of the argument. -/
theorem identity_settles (apart : Apart name) :
    Settles (value name) (.var target) identity (constant name) :=
  settles_renamed (by decide) (object_used name) renamed_identity (settles_value rfl)
    (settles_value rfl) (unfolded_proper apart).argument

/-- Putting an argument for `step` does not change the value. -/
theorem value_kept (apart : Apart name) (argument : Term) :
    Settles argument (.var (step name)) (value name) (value name) := by
  have proper := value_proper apart
  have head : Settles argument (.var (step name)) (.app (.var guard) (.var object))
      (.app (.var guard) (.var object)) :=
    settles_app (settles_var (by simp [step, guard, Ty.obj]))
      (settles_var (by simp [step, object, Ty.obj])) proper.function (by simp)
  exact settles_app head (settles_hidden (hasFree_var _)) proper (by simp)

/-- However deep it may nest, putting the value for `target` in the value itself nests deeper: it
comes down to doing just this again. -/
theorem value_deep (apart : Apart name) (depth : Nat) :
    Deep depth (value name) (value name) (.var target) := by
  induction depth using Nat.strongRecOn with
  | ind depth again =>
    have proper := unfolded_proper apart
    have head : Settles (value name) (.var target) (.app (.var guard) (.var object))
        (.app (.var guard) (.var object)) :=
      settles_app (settles_var (by decide)) (settles_var (by decide))
        (value_proper apart).function (by simp)
    refine deep_argument head fun d₁ less₁ => ?_
    refine deep_body (target_apart name) (step_unused apart) fun d₂ less₂ => ?_
    refine deep_redex (function_settles apart) (identity_settles apart) proper fun d₃ less₃ => ?_
    refine deep_body (step_apart name) ?_ fun d₄ less₄ => ?_
    · rw [constant_freeNames]
      decide
    refine deep_redex (settles_value rfl) (value_kept apart _) (redex_proper apart)
      fun d₅ less₅ => ?_
    exact again d₅ (by omega)

/-! ## A goal whose rules cannot be listed -/

/-- A formula about the value. -/
def formula : Term := .app (.var ⟨"r", .arrow .obj .bool⟩) (value "y")

/-- The equation that puts the value for `target`. -/
def equation : Term :=
  .app (.app (.const ⟨"=", .arrow .obj (.arrow .obj .bool)⟩) (.var target)) (value "y")

/-- The goal in which the equation stands after the formula. -/
def goal : Sequent := ⟨[formula, equation], []⟩

/-- The formula as it is written. -/
def text : String :=
  "r:(obj->bool)(q:(obj->((obj->obj)->(obj->obj))->obj)(x:obj)" ++
    "(\\y:(obj->obj). (\\y:(obj->obj). \\x:obj. y(x))(\\x:obj. x)))"

/-- The text is read as the formula. -/
theorem text_reads :
    ((standardTypes.parse text).runFrom Supply.initial).1.toOption = some formula := by
  decide +kernel

/-- The goal is one of proper terms. -/
theorem goal_proper : goal.Proper := by
  have plain : standardTypes.Plain :=
    (Vocabulary.regular_of_words Declarations.typeWords_regular).toPlain
  have properF : formula.Proper := (plain.parse text).of_toOption text_reads
  have properE : equation.Proper := by
    have equality : (Term.const ⟨"=", .arrow .obj (.arrow .obj .bool)⟩).Proper :=
      Term.proper_const ⟨by rfl, by rfl, by rfl⟩
    have variable' : (Term.var target).Proper := Term.proper_var (by rfl)
    have applied : (Term.mkApps (.const ⟨"=", .arrow .obj (.arrow .obj .bool)⟩)
        [.var target, value "y"]).Gives Term.Proper :=
      equality.mkApps (by simpa using ⟨variable', properF.argument⟩)
    exact applied.of_toOption (s := Supply.initial) (by decide)
  exact Sequent.proper_mk (by simpa using ⟨properF, properE⟩) (by simp)

/-- Putting the value for `target` in the formula comes down to putting it in the value. -/
theorem formula_deep (depth : Nat) : Deep depth formula (value "y") (.var target) :=
  deep_argument (settles_var (by decide)) fun d _ => value_deep (by decide) d

variable {th : Theory} {pattern : Term} {env : Environment}

/-- On this goal the rule that puts equals for equals never finishes, where the second formula is
taken for the equation that it is. -/
theorem leftSubstitution_deep (shown : th.shapes.lookup .equation = some pattern)
    (fits : pattern.matchWith equation = .ok [("a", .var target), ("b", value "y")])
    (s : Supply) : (((Rule.leftSubstitution th).subgoals goal).runFrom s).1 = .error .tooDeep := by
  rw [Rule.leftSubstitution]
  refine Rule.primitive_deep ?_
  rw [runFrom_bind_ok (Theory.parts_of_match rfl shown fits s)]
  exact runFrom_bind_error (formula_deep s.depth s)

/-- The rule is one of those of logic. -/
theorem leftSubstitution_listed {s s' : Supply}
    (loaded : Theories.logic.load.runFrom s = (.ok env, s')) :
    ∃ d ∈ env.rules.rules, d.build = Rule.plain Rule.leftSubstitution ∧ d.args = [] ∧
      d.applicability = .byRunning := by
  have rules := (Declarations.load_standard _ _ _ _ loaded).2
  rw [show Theories.logic.theories = ["logic"] from rfl] at rules
  rw [rules, Rules.standard_logic]
  have inside : Rule.logicalRules[9] ∈ Rule.catalogue :=
    List.mem_append_left _ (List.mem_append_left _ (List.mem_append_right _
      (List.getElem_mem _)))
  exact ⟨Rule.logicalRules[9], List.mem_filter.mpr ⟨inside, rfl⟩, rfl, rfl, rfl⟩

/-- In logic the second formula of the goal is an equation. -/
theorem equation_shown {s₀ : Supply}
    (loaded : Theories.logic.load.runFrom Supply.initial = (.ok env, s₀)) :
    ∃ pattern, env.theory.shapes.lookup .equation = some pattern ∧
      pattern.matchWith equation = .ok [("a", .var target), ("b", value "y")] := by
  have parts := Logic.load_eq
  rw [loaded] at parts
  have shapes : env.theory.shapes = Logic.shapes (.var 1000000052) :=
    (Prod.mk.inj (Option.some.inj parts)).1
  rw [shapes]
  exact ⟨_, rfl, Except.ok_of_toOption (by decide)⟩

/-- However deep reductions may nest, the rules of logic that apply to this goal are never listed:
the listing nests too deeply. -/
theorem listing_deep {s₀ : Supply}
    (loaded : Theories.logic.load.runFrom Supply.initial = (.ok env, s₀)) (s : Supply) :
    ∃ failure s', (env.applicableRules goal).runFrom s = (.error failure, s') ∧
      failure.cause = .tooDeep := by
  have logic : env.OfLogic := Logic.ofLogic (by rw [loaded])
  obtain ⟨pattern, shown, fits⟩ := equation_shown loaded
  rcases run : (env.applicableRules goal).runFrom s with ⟨failure | rules, s'⟩
  · exact ⟨failure, s', rfl, logic.counted.applicableRules goal _ _ _ run⟩
  · obtain ⟨d, listed, build, args, running⟩ := leftSubstitution_listed loaded
    obtain ⟨kept, s₁, tried, -⟩ := bind_ok run
    obtain ⟨u, b, u', ran⟩ := filterAuxM_ok tried d listed
    have deep : ((d.appliesTo env.theory goal).runFrom u).1 = .error .tooDeep := by
      rw [Descriptor.appliesTo, running, args, build]
      exact succeeds_deep (leftSubstitution_deep shown fits u)
    rw [Environment.offers, runFrom_within] at ran
    rcases ran' : (d.appliesTo env.theory goal).runFrom u with ⟨failure | applies, u''⟩ <;>
      rw [ran'] at deep ran <;> cases deep
    cases ran

end Endless

end Turnstile
