import Turnstile.Proofs.EndlessReduction
import Turnstile.Proofs.OpenGoals
import Turnstile.Proofs.RuleSoundness
import Turnstile.Proofs.Unfoldings

/-!
# The connectives by their derived rules

Each tactic for a defined connective unfolds the connective in the first formula of a side and then
takes apart what has come of it. After the unfolding nothing can go wrong that is not a matter of
form: the primitive rules of a tactic succeed on a formula of the form in which the connective is
defined and on no other, and what they leave is the parts of that formula beside the other formulas
of the goal, as they were.

Unfolding goes by names and does not tell a variable from a constant. So all this is about formulas
in which no variable has the name of a connective that is unfolded.
-/

namespace Turnstile

open Build Logic

namespace Term

variable {a b : Term} {c : Symbol}

/-- Types that are put for variables do not matter to the constants of logic. -/
theorem Declared.under {t : Term} (declared : t.Declared) (θ : Int → Ty) :
    (t.under θ).Declared := by
  induction t with
  | const c =>
    change Logical (c.under θ)
    cases declared with
    | not => exact .not
    | connective known => exact .connective known
    | quantifier known => exact .quantifier known
    | schema => exact .schema
    | equality t => exact .equality (t.mapVars θ)
  | var s => exact trivial
  | app f x ihF ihX => exact ⟨ihF declared.1, ihX declared.2⟩
  | lam v b ih => exact ih declared

/-- An application of negation is a negation. -/
theorem Declared.eq_neg (declared : (app (const c) a).Declared) (named : c.name = "not") :
    app (const c) a = neg a := by
  have is : c = ⟨"not", .arrow .bool .bool⟩ :=
    Symbol.ext_iff'.mpr ⟨named, Logical.type_not declared.1 named⟩
  rw [is, neg]

/-- An application of disjunction to two formulas is a disjunction. -/
theorem Declared.eq_or (declared : (app (app (const c) a) b).Declared) (named : c.name = "or") :
    app (app (const c) a) b = Logic.join "or" a b := by
  have is : c = connective "or" := Symbol.ext_iff'.mpr ⟨named, Logical.type_or declared.1.1 named⟩
  rw [is, Logic.join]

/-- What is denied is a formula. -/
theorem Proper.neg_type (proper : (Logic.neg a).Proper) : a.type = .bool := by
  obtain ⟨codomain, typed⟩ := proper.wellTyped.2.2
  exact (Ty.arrow.inj typed).1.symm

/-- The operands of a connective are formulas. -/
theorem Proper.join_types {name : String} (proper : (Logic.join name a b).Proper) :
    a.type = .bool ∧ b.type = .bool := by
  obtain ⟨codomain, typed⟩ := proper.wellTyped.2.2
  obtain ⟨codomain', typed'⟩ := proper.wellTyped.1.2.2
  exact ⟨(Ty.arrow.inj typed').1.symm, (Ty.arrow.inj typed).1.symm⟩

end Term

/-! ## Goals -/

/-- The goal with formulas on one side and formulas on the other. -/
def Side.goal : Side → (here there : List Term) → Sequent
  | .left, here, there => ⟨here, there⟩
  | .right, here, there => ⟨there, here⟩

namespace Sequent

variable {goal : Sequent} {l r here there : List Term} {t f x P Q : Term} {side : Side}
  {names : List String}

/-- A sequent of proper terms over the constants of logic in which names have one type each. -/
structure OverLogic (goal : Sequent) : Prop where
  /-- The terms are proper. -/
  proper : goal.Proper
  /-- Their constants are those of logic. -/
  declared : ∀ t ∈ goal.left ++ goal.right, t.Declared
  /-- Free variables of one name have one type. -/
  uniform : Uniform (freeIn (goal.left ++ goal.right))

/-- A term that can stand beside the formulas of a sequent. -/
structure Offers (goal : Sequent) (t : Term) : Prop where
  /-- It is proper. -/
  proper : t.Proper
  /-- Its constants are those of logic. -/
  declared : t.Declared
  /-- Its variables are those of the sequent. -/
  free : t.free ⊆ freeIn (goal.left ++ goal.right)

/-- The function of an application may stand there. -/
theorem Offers.function (offers : goal.Offers (.app f x)) : goal.Offers f :=
  ⟨offers.proper.function, offers.declared.1,
    fun _ inside => offers.free (List.mem_append_left _ inside)⟩

/-- So may its argument. -/
theorem Offers.argument (offers : goal.Offers (.app f x)) : goal.Offers x :=
  ⟨offers.proper.argument, offers.declared.2,
    fun _ inside => offers.free (List.mem_append_right _ inside)⟩

/-- The formulas on the side of a goal. -/
@[simp] theorem side_goal (side : Side) (here there : List Term) :
    (side.goal here there).side side = here := by
  cases side <;> rfl

/-- The formulas of a goal are those on its two sides. -/
theorem mem_goal : t ∈ (side.goal here there).left ++ (side.goal here there).right ↔
    t ∈ here ∨ t ∈ there := by
  cases side <;> simp [Side.goal, or_comm]

/-- The formulas on one side of a sequent. -/
theorem OverLogic.offers_here (overLogic : (side.goal here there).OverLogic) :
    ∀ t ∈ here, (side.goal here there).Offers t := fun t member =>
  have inside := mem_goal.mpr (.inl member)
  ⟨overLogic.proper t inside, overLogic.declared t inside,
    fun _ occurs => List.mem_flatMap.mpr ⟨t, inside, occurs⟩⟩

/-- The first formula of a side may stand there. -/
theorem OverLogic.offers_first (overLogic : (side.goal (t :: here) there).OverLogic) :
    (side.goal (t :: here) there).Offers t :=
  overLogic.offers_here t List.mem_cons_self

/-- The formulas on the other side. -/
theorem OverLogic.offers_there (overLogic : (side.goal here there).OverLogic) :
    ∀ t ∈ there, (side.goal here there).Offers t := fun t member =>
  have inside := mem_goal.mpr (.inr member)
  ⟨overLogic.proper t inside, overLogic.declared t inside,
    fun _ occurs => List.mem_flatMap.mpr ⟨t, inside, occurs⟩⟩

/-- What putting the value of a defined constant settles on may stand where the formula did, and it
spares the names of defined constants that the formula spared. -/
theorem Offers.reduces {c : Symbol} {value : Term} (offers : goal.Offers t)
    (spares : t.Spares names) (defined : names ⊆ Logic.defined) (unfoldable : Unfoldable c value)
    (reduces : Term.Reduces value (.const c) t x) : goal.Offers x ∧ x.Spares names := by
  have speaks := reduces.speaks names defined (Term.speaks_iff.mpr ⟨offers.declared, spares⟩)
    (unfoldable.speaks.mono defined)
  obtain ⟨declared, spared⟩ := Term.speaks_iff.mp speaks
  exact ⟨⟨reduces.proper, declared, fun _ inside =>
    offers.free (reduces.free_subset unfoldable inside)⟩, spared⟩

/-- A term that can stand beside the formulas of a sequent and spares the names of the
connectives. -/
structure Admits (goal : Sequent) (t : Term) : Prop extends goal.Offers t where
  /-- No variable has the name of a connective. -/
  spares : t.Spares Logic.propositional

/-- Its constants are those of logic, too. -/
theorem Admits.speaks (admits : goal.Admits t) : t.Speaks Logic.propositional :=
  Term.speaks_iff.mpr ⟨admits.declared, admits.spares⟩

/-- The function of an application may stand there. -/
theorem Admits.function (admits : goal.Admits (.app f x)) : goal.Admits f :=
  ⟨admits.toOffers.function, fun v inside => admits.spares v (List.mem_append_left _ inside)⟩

/-- So may its argument. -/
theorem Admits.argument (admits : goal.Admits (.app f x)) : goal.Admits x :=
  ⟨admits.toOffers.argument, fun v inside => admits.spares v (List.mem_append_right _ inside)⟩

/-- It spares the name of each connective. -/
theorem Admits.spares_one {name : String} (admits : goal.Admits t)
    (taken : name ∈ Logic.propositional) : t.Spares [name] :=
  admits.spares.mono (List.cons_subset.mpr ⟨taken, List.nil_subset _⟩)

/-- Terms that can stand beside the formulas of a sequent make sequents. -/
theorem OverLogic.of_offers (overLogic : goal.OverLogic) (side : Side)
    (left : ∀ t ∈ here, goal.Offers t) (right : ∀ t ∈ there, goal.Offers t) :
    (side.goal here there).OverLogic := by
  have offers : ∀ t ∈ (side.goal here there).left ++ (side.goal here there).right,
      goal.Offers t := fun t member => (mem_goal.mp member).elim (left t) (right t)
  refine ⟨fun t member => (offers t member).proper, fun t member => (offers t member).declared, ?_⟩
  refine overLogic.uniform.subset fun s member => ?_
  obtain ⟨t, inside, occurs⟩ := List.mem_flatMap.mp member
  exact (offers t inside).free occurs

/-- What a negation on the left denies may stand on the right. -/
theorem OverLogic.left_neg (overLogic : (⟨neg P :: l, r⟩ : Sequent).OverLogic) :
    (⟨l, P :: r⟩ : Sequent).OverLogic := by
  have overLogic : (Side.left.goal (neg P :: l) r).OverLogic := overLogic
  obtain ⟨formula, here⟩ := List.forall_mem_cons.mp overLogic.offers_here
  exact overLogic.of_offers .left here
    (List.forall_mem_cons.mpr ⟨formula.argument, overLogic.offers_there⟩)

/-- What a negation on the right denies may stand on the left. -/
theorem OverLogic.right_neg (overLogic : (⟨l, neg P :: r⟩ : Sequent).OverLogic) :
    (⟨P :: l, r⟩ : Sequent).OverLogic := by
  have overLogic : (Side.right.goal (neg P :: r) l).OverLogic := overLogic
  obtain ⟨formula, here⟩ := List.forall_mem_cons.mp overLogic.offers_here
  exact overLogic.of_offers .right here
    (List.forall_mem_cons.mpr ⟨formula.argument, overLogic.offers_there⟩)

/-- Either part of a disjunction on the left may stand in its place. -/
theorem OverLogic.left_or (overLogic : (⟨join "or" P Q :: l, r⟩ : Sequent).OverLogic) :
    (⟨P :: l, r⟩ : Sequent).OverLogic ∧ (⟨Q :: l, r⟩ : Sequent).OverLogic := by
  have overLogic : (Side.left.goal (join "or" P Q :: l) r).OverLogic := overLogic
  obtain ⟨formula, here⟩ := List.forall_mem_cons.mp overLogic.offers_here
  have part : ∀ t, (Side.left.goal (join "or" P Q :: l) r).Offers t →
      (Side.left.goal (t :: l) r).OverLogic := fun t offered =>
    overLogic.of_offers .left (List.forall_mem_cons.mpr ⟨offered, here⟩) overLogic.offers_there
  exact ⟨part P formula.function.argument, part Q formula.argument⟩

/-- Both parts of a disjunction on the right may stand in its place. -/
theorem OverLogic.right_or (overLogic : (⟨l, join "or" P Q :: r⟩ : Sequent).OverLogic) :
    (⟨l, P :: Q :: r⟩ : Sequent).OverLogic := by
  have overLogic : (Side.right.goal (join "or" P Q :: r) l).OverLogic := overLogic
  obtain ⟨formula, here⟩ := List.forall_mem_cons.mp overLogic.offers_here
  exact overLogic.of_offers .right (List.forall_mem_cons.mpr
    ⟨formula.function.argument, List.forall_mem_cons.mpr ⟨formula.argument, here⟩⟩)
    overLogic.offers_there

/-- Formulas of a side may be exchanged. -/
theorem OverLogic.swap (overLogic : (side.goal (P :: Q :: here) there).OverLogic) :
    (side.goal (Q :: P :: here) there).OverLogic := by
  obtain ⟨first, rest⟩ := List.forall_mem_cons.mp overLogic.offers_here
  obtain ⟨second, rest⟩ := List.forall_mem_cons.mp rest
  exact overLogic.of_offers side
    (List.forall_mem_cons.mpr ⟨second, List.forall_mem_cons.mpr ⟨first, rest⟩⟩)
    overLogic.offers_there

/-- The first two formulas on the left may be exchanged. -/
theorem OverLogic.left_swap (overLogic : (⟨P :: Q :: l, r⟩ : Sequent).OverLogic) :
    (⟨Q :: P :: l, r⟩ : Sequent).OverLogic := by
  have overLogic : (Side.left.goal (P :: Q :: l) r).OverLogic := overLogic
  exact overLogic.swap

/-- The first two formulas on the right may be exchanged. -/
theorem OverLogic.right_swap (overLogic : (⟨l, P :: Q :: r⟩ : Sequent).OverLogic) :
    (⟨l, Q :: P :: r⟩ : Sequent).OverLogic := by
  have overLogic : (Side.right.goal (P :: Q :: r) l).OverLogic := overLogic
  exact overLogic.swap

/-- A sequent of proper terms in which names have one type each is made as it is. -/
theorem make_self (propers : ∀ t ∈ l ++ r, t.Proper) (uniform : Uniform (freeIn (l ++ r))) :
    make l r = .ok ⟨l, r⟩ := by
  rw [Sequent.make]
  split
  · rfl
  · have plain := plain_freeIn fun t member => (propers t member).plain
    obtain ⟨u, joined, apply⟩ := Term.jointTypes_uniform plain uniform
    rw [joined]
    change Except.ok (⟨l.map (Term.applyTypes u), r.map (Term.applyTypes u)⟩ : Sequent) = _
    rw [Term.applyTypes_self apply, List.map_id, List.map_id]

/-- Making a sequent puts types for type variables; after that names have one type each. -/
theorem make_under (propers : ∀ t ∈ l ++ r, t.Proper) (made : make l r = .ok goal) :
    ∃ θ, goal = ⟨l.map (Term.under θ), r.map (Term.under θ)⟩ ∧ goal.Proper ∧
      Uniform (freeIn (goal.left ++ goal.right)) := by
  rw [Sequent.make] at made
  split at made
  next few =>
    cases made
    refine ⟨.var, ?_, propers, ?_⟩
    · rw [show Term.under .var = id from funext Term.under_self, List.map_id, List.map_id]
    · change Uniform (freeIn (l ++ r))
      rw [← List.length_append] at few
      rcases terms : l ++ r with _ | ⟨t, _ | ⟨t', rest⟩⟩
      · intro s member
        cases member
      · have uniform := (propers t (by rw [terms]; simp)).uniform
        simpa [freeIn] using uniform
      · rw [terms] at few
        simp at few
  next =>
    obtain ⟨u, joined, made⟩ := Formula.bind_ok made
    cases made
    have unified : unifyTypes (l ++ r) = .ok ((l ++ r).map (Term.applyTypes u)) := by
      rw [unifyTypes, joined]
      rfl
    have results := Term.unifyTypes_proper propers unified
    rw [List.map_append] at results
    have solution := jointTypes_solution fun t member => (propers t member).plain
    rw [joined] at solution
    cases solution with
    | found apply most =>
      rw [show Term.applyTypes u = _ from funext (Term.applyTypes_eq apply)] at results ⊢
      exact ⟨_, rfl, results⟩

/-- Such a sequent is made as it is. -/
theorem OverLogic.make (overLogic : (⟨l, r⟩ : Sequent).OverLogic) : make l r = .ok ⟨l, r⟩ :=
  make_self overLogic.proper overLogic.uniform

/-- The sequent that is made of good terms over the constants of logic. -/
theorem make_overLogic (left : ∀ t ∈ l, t.Proper ∧ t.Declared)
    (right : ∀ t ∈ r, t.Proper ∧ t.Declared) (made : make l r = .ok goal) : goal.OverLogic := by
  have all : ∀ t ∈ l ++ r, t.Proper ∧ t.Declared := fun t member =>
    (List.mem_append.mp member).elim (left t) (right t)
  obtain ⟨θ, rfl, propers, uniform⟩ := make_under (fun t member => (all t member).1) made
  refine ⟨propers, fun t member => ?_, uniform⟩
  rw [← List.map_append] at member
  obtain ⟨t', inside, rfl⟩ := List.mem_map.mp member
  exact (all t' inside).2.under θ

end Sequent

/-! ## Runs of plans -/

namespace Plan

variable {first next : Plan} {plans : List Plan} {goal goal' : Sequent}
  {goals here there : List Sequent} {s s' s₁ s₂ : Supply}

/-- A branch that succeeds has a head that does. -/
theorem head_ok (run : ((branch first plans).subgoals goal).runFrom s = (.ok goals, s')) :
    ∃ goals s₁, (first.subgoals goal).runFrom s = (.ok goals, s₁) := by
  obtain ⟨goals, s₁, head, -⟩ := subgoals_branch_ok.mp run
  exact ⟨goals, s₁, head⟩

/-- A plan that leaves one goal is continued on it. -/
theorem runFrom_branch_one (head : (first.subgoals goal).runFrom s = (.ok [goal'], s₁)) :
    ((branch first [next]).subgoals goal).runFrom s = (next.subgoals goal').runFrom s₁ := by
  rw [subgoals, runFrom_bind_ok head]
  change (subgoalsOf [next] [goal']).runFrom s₁ = _
  rw [subgoalsOf, runFrom_bind]
  rcases (next.subgoals goal').runFrom s₁ with ⟨failure | left, s₂⟩
  · rfl
  · rw [subgoalsOf]
    · simp
    · simp

/-- A plan that leaves two goals is continued on one after the other. -/
theorem runFrom_branch_two {goal₁ goal₂ : Sequent} {next' : Plan}
    (head : (first.subgoals goal).runFrom s = (.ok [goal₁, goal₂], s₁))
    (one : (next.subgoals goal₁).runFrom s₁ = (.ok here, s₂))
    (two : (next'.subgoals goal₂).runFrom s₂ = (.ok there, s')) :
    ((branch first [next, next']).subgoals goal).runFrom s = (.ok (here ++ there), s') := by
  refine subgoals_branch_ok.mpr ⟨_, _, head, rfl, ?_⟩
  refine runAll_cons_ok.mpr ⟨here, s₂, there, one, ?_, rfl⟩
  refine runAll_cons_ok.mpr ⟨there, s', [], two, rfl, by simp⟩

end Plan

namespace Rule

variable {th : Theory} {goal : Sequent} {goals : List Sequent} {side : Side} {Γ Δ : List Term}
  {F P Q form value : Term} {c : Symbol} {s s' : Supply} {name : String} {args : List Arg}

/-! ## Primitive rules -/

/-- A primitive rule runs as its function does. -/
theorem runFrom_primitive {apply : Sequent → Build (List Sequent)}
    (run : (apply goal).runFrom s = (.ok goals, s')) :
    ((primitive name args apply).subgoals goal).runFrom s = (.ok goals, s') := by
  rw [primitive, Plan.subgoals, runFrom_tryCatch, run]

/-- A primitive rule puts its name to its refusals. -/
theorem runFrom_primitive_error {apply : Sequent → Build (List Sequent)} {e : Failure}
    (run : (apply goal).runFrom s = (.error e, s')) :
    ((primitive name args apply).subgoals goal).runFrom s = (.error (e.named name), s') := by
  rw [primitive, Plan.subgoals, runFrom_tryCatch, run]
  rfl

/-- A primitive rule leaves goals exactly when its function does. -/
theorem primitive_ok_iff {apply : Sequent → Build (List Sequent)} :
    ((primitive name args apply).subgoals goal).runFrom s = (.ok goals, s') ↔
      (apply goal).runFrom s = (.ok goals, s') := by
  refine ⟨fun run => ?_, runFrom_primitive⟩
  rw [primitive, Plan.subgoals, runFrom_tryCatch] at run
  rcases ran : (apply goal).runFrom s with ⟨failure | done, s₁⟩ <;> rw [ran] at run
  · cases run
  · exact run

/-- A sequent that is made as it is, as a build. -/
theorem runFrom_make {l r : List Term} (made : Sequent.make l r = .ok ⟨l, r⟩) (s : Supply) :
    (liftM (Sequent.make l r) : Build Sequent).runFrom s = (.ok ⟨l, r⟩, s) := by
  rw [runFrom_lift, made]

/-- So is the only goal that a rule leaves. -/
theorem runFrom_one {l r : List Term} (made : Sequent.make l r = .ok ⟨l, r⟩) (s : Supply) :
    (liftM (one l r) : Build (List Sequent)).runFrom s = (.ok [⟨l, r⟩], s) := by
  rw [runFrom_lift, one, made]
  rfl

/-- A negation is taken apart. -/
theorem negation_parts (logic : th.OfLogic) (typed : P.type = .bool)
    (found : (goal.side side)[0]? = some (neg P)) (s : Supply) :
    (th.parts goal side 0 .negation).runFrom s = (.ok [("a", P)], s) := by
  obtain ⟨t, shapes⟩ := logic.shapes
  have known : th.shapes.lookup .negation = some (neg (.var ⟨"a", .bool⟩)) := by
    rw [shapes]
    rfl
  have matched : (neg (.var ⟨"a", .bool⟩)).matchWith (neg P) = .ok [("a", P)] := by
    have bound : Term.bindPattern [] ⟨"a", .bool⟩ P = .ok [("a", P)] := by
      rw [Term.bindPattern, typed]
      rfl
    exact bound
  rw [Theory.parts, found, Theory.shape, known]
  simp only [pure_bind, matched]
  rfl

/-- A disjunction is taken apart. -/
theorem disjunction_parts (logic : th.OfLogic) (typed : P.type = .bool) (typed' : Q.type = .bool)
    (found : (goal.side side)[0]? = some (join "or" P Q)) (s : Supply) :
    (th.parts goal side 0 .disjunction).runFrom s = (.ok [("a", P), ("b", Q)], s) := by
  obtain ⟨t, shapes⟩ := logic.shapes
  have known : th.shapes.lookup .disjunction =
      some (join "or" (.var ⟨"a", .bool⟩) (.var ⟨"b", .bool⟩)) := by
    rw [shapes]
    rfl
  have matched : (join "or" (.var ⟨"a", .bool⟩) (.var ⟨"b", .bool⟩)).matchWith (join "or" P Q) =
      .ok [("a", P), ("b", Q)] := by
    have left : Term.bindPattern [] ⟨"a", .bool⟩ P = .ok [("a", P)] := by
      rw [Term.bindPattern, typed]
      rfl
    have right : Term.bindPattern [("a", P)] ⟨"b", .bool⟩ Q = .ok [("a", P), ("b", Q)] := by
      rw [Term.bindPattern, typed']
      rfl
    have first : Term.matchFrom [] (.app (.const (connective "or")) (.var ⟨"a", .bool⟩))
        (.app (.const (connective "or")) P) = .ok [("a", P)] := left
    rw [Term.matchWith, join, join, Term.matchFrom, first]
    exact right
  rw [Theory.parts, found, Theory.shape, known]
  simp only [pure_bind, matched]
  rfl

/-- A plan that takes apart the first formula of a side, whatever else there is in the goal: it
succeeds on the formulas of one form and leaves certain goals that are made from the parts. -/
structure TakesApart {α : Type} (plan : Plan) (side : Side) (form : α → Term)
    (leaves : α → List Term → List Term → List Sequent) : Prop where
  /-- It leaves these goals. -/
  run : ∀ {a : α} {here there : List Term}, (side.goal (form a :: here) there).OverLogic →
    ∀ s, (plan.subgoals (side.goal (form a :: here) there)).runFrom s =
      (.ok (leaves a here there), s)
  /-- It succeeds on no other formula. -/
  applies : ∀ {F : Term} {here there : List Term} {s s' : Supply} {goals : List Sequent},
    (side.goal (F :: here) there).OverLogic →
    (plan.subgoals (side.goal (F :: here) there)).runFrom s = (.ok goals, s') → ∃ a, F = form a

section

variable {α : Type} {plan next next' : Plan} {form : α → Term} {here there : List Term}

/-- After a plan that takes apart a formula and leaves one goal comes what is done to this goal. -/
theorem TakesApart.continued {g : α → List Term → List Term → Sequent}
    (first : TakesApart plan side form fun a here there => [g a here there])
    (overLogic : (side.goal (F :: here) there).OverLogic)
    (run : ((Plan.branch plan [next]).subgoals (side.goal (F :: here) there)).runFrom s =
      (.ok goals, s')) :
    ∃ a, F = form a ∧ (next.subgoals (g a here there)).runFrom s = (.ok goals, s') := by
  obtain ⟨_, _, head⟩ := Plan.head_ok run
  obtain ⟨a, rfl⟩ := first.applies overLogic head
  exact ⟨a, rfl, (Plan.runFrom_branch_one (first.run overLogic s)).symm.trans run⟩

/-- After a plan that takes apart a formula and leaves two goals comes what is done to these. -/
theorem TakesApart.split {g g' : α → List Term → List Term → Sequent}
    (first : TakesApart plan side form fun a here there => [g a here there, g' a here there])
    (overLogic : (side.goal (F :: here) there).OverLogic)
    (run : ((Plan.branch plan [next, next']).subgoals (side.goal (F :: here) there)).runFrom s =
      (.ok goals, s')) :
    ∃ a, F = form a ∧ ∃ s₁ s₂ left right,
      (next.subgoals (g a here there)).runFrom s = (.ok left, s₁) ∧
      (next'.subgoals (g' a here there)).runFrom s₁ = (.ok right, s₂) := by
  obtain ⟨_, _, head⟩ := Plan.head_ok run
  obtain ⟨a, rfl⟩ := first.applies overLogic head
  obtain ⟨both, s₁, head, fits, run⟩ := Plan.subgoals_branch_ok.mp run
  rw [first.run overLogic s] at head
  cases head
  obtain ⟨left, s₂, right, one, run, -⟩ := Plan.runAll_cons_ok.mp run
  obtain ⟨right, s₃, -, two, -⟩ := Plan.runAll_cons_ok.mp run
  exact ⟨a, rfl, s₂, s₃, left, right, one, two⟩

end

/-- A negation on the left is taken apart by its rule. -/
theorem leftNegation_takesApart (logic : th.OfLogic) :
    TakesApart (leftNegation th) .left neg fun P here there => [⟨here, P :: there⟩] where
  run overLogic s := by
    refine runFrom_primitive ?_
    rw [runFrom_bind_ok (negation_parts logic overLogic.offers_first.proper.neg_type rfl s)]
    exact runFrom_one overLogic.left_neg.make s
  applies overLogic run := by
    obtain ⟨m, s₁, parts, -⟩ := bind_ok (primitive_ok_iff.mp run)
    obtain ⟨c, P, found, named, -⟩ := logic.negation parts
    cases found
    exact ⟨P, overLogic.offers_first.declared.eq_neg named⟩

/-- A negation on the right is taken apart by its rule. -/
theorem rightNegation_takesApart (logic : th.OfLogic) :
    TakesApart (rightNegation th) .right neg fun P here there => [⟨P :: there, here⟩] where
  run overLogic s := by
    refine runFrom_primitive ?_
    rw [runFrom_bind_ok (negation_parts logic overLogic.offers_first.proper.neg_type rfl s)]
    exact runFrom_one overLogic.right_neg.make s
  applies overLogic run := by
    obtain ⟨m, s₁, parts, -⟩ := bind_ok (primitive_ok_iff.mp run)
    obtain ⟨c, P, found, named, -⟩ := logic.negation parts
    cases found
    exact ⟨P, overLogic.offers_first.declared.eq_neg named⟩

/-- A disjunction on the left is taken apart by its rule. -/
theorem leftDisjunction_takesApart (logic : th.OfLogic) :
    TakesApart (leftDisjunction th) .left (fun parts : Term × Term => join "or" parts.1 parts.2)
      fun parts here there => [⟨parts.1 :: here, there⟩, ⟨parts.2 :: here, there⟩] where
  run overLogic s := by
    obtain ⟨typed, typed'⟩ := overLogic.offers_first.proper.join_types
    obtain ⟨first, second⟩ := overLogic.left_or
    refine runFrom_primitive ?_
    rw [runFrom_bind_ok (disjunction_parts logic typed typed' rfl s)]
    exact (runFrom_bind_ok (runFrom_make first.make s)).trans
      (runFrom_bind_ok (runFrom_make second.make s))
  applies overLogic run := by
    obtain ⟨m, s₁, parts, -⟩ := bind_ok (primitive_ok_iff.mp run)
    obtain ⟨c, P, Q, found, named, -⟩ := logic.disjunction parts
    cases found
    exact ⟨(P, Q), overLogic.offers_first.declared.eq_or named⟩

/-- A disjunction on the right is taken apart by its rule. -/
theorem rightDisjunction_takesApart (logic : th.OfLogic) :
    TakesApart (rightDisjunction th) .right (fun parts : Term × Term => join "or" parts.1 parts.2)
      fun parts here there => [⟨there, parts.1 :: parts.2 :: here⟩] where
  run overLogic s := by
    obtain ⟨typed, typed'⟩ := overLogic.offers_first.proper.join_types
    refine runFrom_primitive ?_
    rw [runFrom_bind_ok (disjunction_parts logic typed typed' rfl s)]
    exact runFrom_one overLogic.right_or.make s
  applies overLogic run := by
    obtain ⟨m, s₁, parts, -⟩ := bind_ok (primitive_ok_iff.mp run)
    obtain ⟨c, P, Q, found, named, -⟩ := logic.disjunction parts
    cases found
    exact ⟨(P, Q), overLogic.offers_first.declared.eq_or named⟩

/-- Doing nothing leaves the goal. -/
theorem runFrom_noop (goal : Sequent) (s : Supply) :
    (noop.subgoals goal).runFrom s = (.ok [goal], s) := runFrom_primitive rfl

/-- The second formula on the left comes to the front. -/
theorem runFrom_leftPermutation (overLogic : (⟨P :: Q :: Γ, Δ⟩ : Sequent).OverLogic) (s : Supply) :
    ((leftPermutation 1).subgoals ⟨P :: Q :: Γ, Δ⟩).runFrom s = (.ok [⟨Q :: P :: Γ, Δ⟩], s) := by
  have moved : (liftM (permuted (P :: Q :: Γ) 1) : Build (List Term)).runFrom s =
      (.ok (Q :: P :: Γ), s) := rfl
  exact runFrom_primitive ((runFrom_bind_ok moved).trans (runFrom_one overLogic.left_swap.make s))

/-- The second formula on the right comes to the front. -/
theorem runFrom_rightPermutation (overLogic : (⟨Γ, P :: Q :: Δ⟩ : Sequent).OverLogic) (s : Supply) :
    ((rightPermutation 1).subgoals ⟨Γ, P :: Q :: Δ⟩).runFrom s = (.ok [⟨Γ, Q :: P :: Δ⟩], s) := by
  have moved : (liftM (permuted (P :: Q :: Δ) 1) : Build (List Term)).runFrom s =
      (.ok (Q :: P :: Δ), s) := rfl
  exact runFrom_primitive ((runFrom_bind_ok moved).trans (runFrom_one overLogic.right_swap.make s))

/-! ## What is done after unfolding -/

/-- Two formulas neither of which is denied. -/
def both (parts : Term × Term) : Term := neg (join "or" (neg parts.1) (neg parts.2))

/-- A formula that is denied or another one that holds. -/
def either (parts : Term × Term) : Term := join "or" (neg parts.1) parts.2

/-- The rest of the tactic for a conjunction on the left takes apart the formula that comes of it.
-/
theorem leftConjunction_takesApart (logic : th.OfLogic) :
    TakesApart (.sequence (leftNegation th) [rightDisjunction th, rightNegation th,
        rightNegation th, leftPermutation 1]) .left both
      fun parts here there => [⟨parts.1 :: parts.2 :: here, there⟩] where
  run overLogic s := by
    have over₁ := Sequent.OverLogic.left_neg overLogic
    have over₂ := over₁.right_or
    have over₃ := over₂.right_neg
    refine (Plan.runFrom_branch_one ((leftNegation_takesApart logic).run overLogic s)).trans ?_
    refine (Plan.runFrom_branch_one
      ((rightDisjunction_takesApart logic).run (a := (_, _)) over₁ s)).trans ?_
    refine (Plan.runFrom_branch_one ((rightNegation_takesApart logic).run over₂ s)).trans ?_
    refine (Plan.runFrom_branch_one ((rightNegation_takesApart logic).run over₃ s)).trans ?_
    exact runFrom_leftPermutation over₃.right_neg s
  applies overLogic run := by
    obtain ⟨X, rfl, run₁⟩ := (leftNegation_takesApart logic).continued overLogic run
    have over₁ := Sequent.OverLogic.left_neg overLogic
    obtain ⟨⟨Y, Z⟩, rfl, run₂⟩ := (rightDisjunction_takesApart logic).continued over₁ run₁
    have over₂ := over₁.right_or
    obtain ⟨P, rfl, run₃⟩ := (rightNegation_takesApart logic).continued over₂ run₂
    have over₃ := over₂.right_neg
    obtain ⟨Q, rfl, -⟩ := (rightNegation_takesApart logic).continued over₃ run₃
    exact ⟨(P, Q), rfl⟩

/-- The rest of the tactic for a conjunction on the right takes apart the formula that comes of it.
-/
theorem rightConjunction_takesApart (logic : th.OfLogic) :
    TakesApart (.sequence (rightNegation th) [.branch (leftDisjunction th)
        [leftNegation th, leftNegation th]]) .right both
      fun parts here there => [⟨there, parts.1 :: here⟩, ⟨there, parts.2 :: here⟩] where
  run overLogic s := by
    have over₁ := Sequent.OverLogic.right_neg overLogic
    obtain ⟨first, second⟩ := over₁.left_or
    refine (Plan.runFrom_branch_one ((rightNegation_takesApart logic).run overLogic s)).trans ?_
    exact Plan.runFrom_branch_two ((leftDisjunction_takesApart logic).run (a := (_, _)) over₁ s)
      ((leftNegation_takesApart logic).run first s) ((leftNegation_takesApart logic).run second s)
  applies overLogic run := by
    obtain ⟨X, rfl, run₁⟩ := (rightNegation_takesApart logic).continued overLogic run
    have over₁ := Sequent.OverLogic.right_neg overLogic
    obtain ⟨⟨Y, Z⟩, rfl, s₁, s₂, here, there, one, two⟩ :=
      (leftDisjunction_takesApart logic).split over₁ run₁
    obtain ⟨first, second⟩ := over₁.left_or
    obtain ⟨P, rfl⟩ := (leftNegation_takesApart logic).applies first one
    obtain ⟨Q, rfl⟩ := (leftNegation_takesApart logic).applies second two
    exact ⟨(P, Q), rfl⟩

/-- The rest of the tactic for an implication on the left takes apart the formula that comes of it.
-/
theorem leftImplication_takesApart (logic : th.OfLogic) :
    TakesApart (.branch (leftDisjunction th) [leftNegation th, noop]) .left either
      fun parts here there => [⟨here, parts.1 :: there⟩, ⟨parts.2 :: here, there⟩] where
  run overLogic s := by
    obtain ⟨first, second⟩ := Sequent.OverLogic.left_or overLogic
    exact Plan.runFrom_branch_two ((leftDisjunction_takesApart logic).run (a := (_, _)) overLogic s)
      ((leftNegation_takesApart logic).run first s) (runFrom_noop _ s)
  applies overLogic run := by
    obtain ⟨⟨Y, Q⟩, rfl, s₁, s₂, here, there, one, -⟩ :=
      (leftDisjunction_takesApart logic).split overLogic run
    obtain ⟨P, rfl⟩ :=
      (leftNegation_takesApart logic).applies (Sequent.OverLogic.left_or overLogic).1 one
    exact ⟨(P, Q), rfl⟩

/-- The rest of the tactic for an implication on the right takes apart the formula that comes of it.
-/
theorem rightImplication_takesApart (logic : th.OfLogic) :
    TakesApart (.sequence (rightDisjunction th) [rightNegation th]) .right either
      fun parts here there => [⟨parts.1 :: there, parts.2 :: here⟩] where
  run overLogic s := by
    have over₁ := Sequent.OverLogic.right_or overLogic
    exact (Plan.runFrom_branch_one
      ((rightDisjunction_takesApart logic).run (a := (_, _)) overLogic s)).trans
      ((rightNegation_takesApart logic).run over₁ s)
  applies overLogic run := by
    obtain ⟨⟨Y, Q⟩, rfl, run₁⟩ := (rightDisjunction_takesApart logic).continued overLogic run
    obtain ⟨P, rfl⟩ :=
      (rightNegation_takesApart logic).applies (Sequent.OverLogic.right_or overLogic) run₁
    exact ⟨(P, Q), rfl⟩

/-! ## Unfolding first -/

/-- Unfold a connective in the first formula of a side. -/
def unfolding (th : Theory) : Side → String → Plan
  | .left, name => leftUnfold th name
  | .right, name => rightUnfold th name

/-- No variable of the first formula, free or bound, has one of some names. -/
def FirstSpares (names : List String) (formulas : List Term) : Prop :=
  ∀ F ∈ formulas.head?, F.Spares names

/-- The first formula of a side spares names if it does. -/
@[simp] theorem firstSpares_cons {names : List String} {rest : List Term} :
    FirstSpares names (F :: rest) ↔ F.Spares names := by
  simp [FirstSpares]

/-- An unfolded formula may stand where the formula did. -/
theorem unfolded_overLogic {here there : List Term} (logic : th.OfLogic)
    (overLogic : (side.goal (F :: here) there).OverLogic) (spares : F.Spares [name])
    (taken : name ∈ Logic.propositional)
    (run : (unfold th F (.ofString name)).runFrom s = (.ok form, s')) :
    (side.goal (form :: here) there).OverLogic ∧ s' = s := by
  obtain ⟨formula, rest⟩ := List.forall_mem_cons.mp overLogic.offers_here
  have speaks := Term.speaks_iff.mpr ⟨formula.declared, spares⟩
  obtain ⟨c, value, unfoldable, reduces, rfl⟩ :=
    unfold_ok logic formula.proper speaks List.mem_cons_self run
  have defined : [name] ⊆ Logic.defined :=
    List.cons_subset.mpr ⟨Logic.propositional_subset taken, List.nil_subset _⟩
  have unfolded := formula.reduces spares defined unfoldable reduces
  exact ⟨overLogic.of_offers side (List.forall_mem_cons.mpr ⟨unfolded.1, rest⟩)
    overLogic.offers_there, rfl⟩

/-- The first formula is replaced by what it is unfolded to. -/
theorem runFrom_unfolding {here there : List Term} (logic : th.OfLogic)
    (overLogic : (side.goal (F :: here) there).OverLogic) (spares : F.Spares [name])
    (taken : name ∈ Logic.propositional)
    (run : (unfold th F (.ofString name)).runFrom s = (.ok form, s')) :
    ((unfolding th side name).subgoals (side.goal (F :: here) there)).runFrom s =
      (.ok [side.goal (form :: here) there], s') := by
  have over' := (unfolded_overLogic logic overLogic spares taken run).1
  match side with
  | .left => exact runFrom_primitive ((runFrom_bind_ok run).trans (runFrom_one over'.make s'))
  | .right => exact runFrom_primitive ((runFrom_bind_ok run).trans (runFrom_one over'.make s'))

/-- Something is unfolded only in a first formula. -/
theorem unfolding_ok {all there : List Term}
    (run : ((unfolding th side name).subgoals (side.goal all there)).runFrom s = (.ok goals, s')) :
    ∃ F here form s₁, all = F :: here ∧
      (unfold th F (.ofString name)).runFrom s = (.ok form, s₁) := by
  match side, all with
  | .left, [] | .right, [] => cases primitive_ok_iff.mp run
  | .left, F :: here | .right, F :: here =>
    obtain ⟨form, s₁, unfolded, -⟩ := bind_ok (primitive_ok_iff.mp run)
    exact ⟨F, here, form, s₁, rfl, unfolded⟩

/-- A tactic that unfolds a connective and takes apart what has come of it succeeds exactly on
formulas that are unfolded to a formula of the form. -/
theorem TakesApart.unfolded_iff {α : Type} {plan : Plan} {shape : α → Term}
    {leaves : α → List Term → List Term → List Sequent} {all there : List Term} {tactic : String}
    (tail : TakesApart plan side shape leaves) (logic : th.OfLogic)
    (overLogic : (side.goal all there).OverLogic) (spares : FirstSpares [name] all)
    (taken : name ∈ Logic.propositional) :
    ((fixed tactic [] (.branch (unfolding th side name) [plan])).subgoals
        (side.goal all there)).runFrom s = (.ok goals, s') ↔
      ∃ F here a, all = F :: here ∧
        (unfold th F (.ofString name)).runFrom s = (.ok (shape a), s') ∧
        goals = leaves a here there := by
  change ((Plan.branch (unfolding th side name) [plan]).subgoals (side.goal all there)).runFrom s =
    (.ok goals, s') ↔ _
  constructor
  · intro run
    obtain ⟨_, _, head⟩ := Plan.head_ok run
    obtain ⟨F, here, form, s₁, rfl, unfolded⟩ := unfolding_ok head
    have spares := firstSpares_cons.mp spares
    obtain ⟨over', rfl⟩ := unfolded_overLogic logic overLogic spares taken unfolded
    have first := runFrom_unfolding logic overLogic spares taken unfolded
    have rest := (Plan.runFrom_branch_one first).symm.trans run
    obtain ⟨a, rfl⟩ := tail.applies over' rest
    have done := (tail.run over' s₁).symm.trans rest
    obtain ⟨left, rfl⟩ := Prod.mk.inj done
    exact ⟨F, here, a, rfl, unfolded, (Except.ok.inj left).symm⟩
  · rintro ⟨F, here, a, rfl, unfolded, rfl⟩
    have spares := firstSpares_cons.mp spares
    obtain ⟨over', rfl⟩ := unfolded_overLogic logic overLogic spares taken unfolded
    exact (Plan.runFrom_branch_one (runFrom_unfolding logic overLogic spares taken unfolded)).trans
      (tail.run over' _)

/-- Where recursion may go deep enough, such a tactic succeeds on every application of its
connective to two operands. -/
theorem TakesApart.unfolded_applies {α : Type} {plan : Plan} {shape : α → Term} {p : Scheme}
    {leaves : α → List Term → List Term → List Sequent} {here there : List Term} {tactic : String}
    {A B : Term} (tail : TakesApart plan side shape leaves) (logic : th.OfLogic)
    (overLogic : (side.goal (join name A B :: here) there).OverLogic)
    (spares : (join name A B).Spares [name]) (known : (name, p) ∈ connectives)
    (fits : ∀ P Q, ∃ a, p.of P Q = shape a) :
    ∃ depth, ∀ s : Supply, depth ≤ s.depth → ∃ goals,
      ((fixed tactic [] (.branch (unfolding th side name) [plan])).subgoals
        (side.goal (join name A B :: here) there)).runFrom s = (.ok goals, s) := by
  have formula := overLogic.offers_first
  have speaks := Term.speaks_iff.mpr ⟨formula.declared, spares⟩
  obtain ⟨P, Q, -, depth, unfolded⟩ :=
    unfolds_connective logic known formula.proper speaks List.mem_cons_self
  obtain ⟨a, is⟩ := fits P Q
  refine ⟨depth, fun s enough => ⟨leaves a here there, ?_⟩⟩
  exact (tail.unfolded_iff logic overLogic (firstSpares_cons.mpr spares)
    (connectives_propositional known)).mpr ⟨_, here, a, rfl, is ▸ unfolded s enough, rfl⟩

/-- A goal is closed if its first formulas are one. -/
theorem close_ok_iff : (close.subgoals ⟨P :: Γ, Q :: Δ⟩).runFrom s = (.ok goals, s') ↔
    P = Q ∧ goals = [] ∧ s' = s := by
  rw [close, primitive_ok_iff]
  dsimp only
  split
  next same =>
    constructor
    · rintro ⟨⟩
      exact ⟨same, rfl, rfl⟩
    · rintro ⟨-, rfl, rfl⟩
      rfl
  next differs =>
    constructor
    · intro run
      cases run
    · exact fun ⟨same, _⟩ => absurd same differs

/-- The excluded middle is proved for disjunctions of a formula with its negation, in this order. -/
theorem excludedMiddle_iff (logic : th.OfLogic) (overLogic : goal.OverLogic) :
    ((excludedMiddle th).subgoals goal).runFrom s = (.ok goals, s') ↔
      ∃ P Δ, goal.right = join "or" P (neg P) :: Δ ∧ goals = [] ∧ s' = s := by
  obtain ⟨Γ, right⟩ := goal
  change ((Plan.sequence (rightDisjunction th)
    [rightPermutation 1, rightNegation th, close]).subgoals ⟨Γ, right⟩).runFrom s = _ ↔ _
  constructor
  · intro run
    obtain ⟨_, _, head⟩ := Plan.head_ok run
    obtain ⟨m, s₁, parts, -⟩ := bind_ok (primitive_ok_iff.mp head)
    obtain ⟨c, P, Q, found, -⟩ := logic.disjunction parts
    match right with
    | F :: Δ =>
      have overLogic : (Side.right.goal (F :: Δ) Γ).OverLogic := overLogic
      obtain ⟨⟨P, Q⟩, rfl, run₁⟩ := (rightDisjunction_takesApart logic).continued overLogic run
      have over₁ := overLogic.right_or
      have run₂ := (Plan.runFrom_branch_one (runFrom_rightPermutation over₁ s)).symm.trans run₁
      obtain ⟨Z, rfl, run₃⟩ := (rightNegation_takesApart logic).continued over₁.right_swap run₂
      obtain ⟨rfl, rfl, rfl⟩ := close_ok_iff.mp run₃
      exact ⟨Z, Δ, rfl, rfl, rfl⟩
  · rintro ⟨P, Δ, rfl, rfl, rfl⟩
    have over₁ := overLogic.right_or
    refine (Plan.runFrom_branch_one
      ((rightDisjunction_takesApart logic).run (a := (_, _)) overLogic s')).trans ?_
    refine (Plan.runFrom_branch_one (runFrom_rightPermutation over₁ s')).trans ?_
    refine (Plan.runFrom_branch_one
      ((rightNegation_takesApart logic).run over₁.right_swap s')).trans ?_
    exact close_ok_iff.mpr ⟨rfl, rfl, rfl⟩

/-! ## What the tactics do -/

/-- What the tactics for the connectives do to a goal. -/
structure Textbook (th : Theory) (goal : Sequent) : Prop where
  /-- Left of the turnstile a conjunction becomes its two parts. -/
  leftConjunction : FirstSpares ["and"] goal.left → ∀ s goals s',
    ((leftConjunction th).subgoals goal).runFrom s = (.ok goals, s') ↔
      ∃ F Γ P Q, goal.left = F :: Γ ∧
        (unfold th F (.ofString "and")).runFrom s =
          (.ok (neg (join "or" (neg P) (neg Q))), s') ∧
        goals = [⟨P :: Q :: Γ, goal.right⟩]
  /-- On the right its parts are shown one after the other. -/
  rightConjunction : FirstSpares ["and"] goal.right → ∀ s goals s',
    ((rightConjunction th).subgoals goal).runFrom s = (.ok goals, s') ↔
      ∃ F Δ P Q, goal.right = F :: Δ ∧
        (unfold th F (.ofString "and")).runFrom s =
          (.ok (neg (join "or" (neg P) (neg Q))), s') ∧
        goals = [⟨goal.left, P :: Δ⟩, ⟨goal.left, Q :: Δ⟩]
  /-- The premise of an implication on the left is shown, then its conclusion is used. -/
  leftImplication : FirstSpares ["implies"] goal.left → ∀ s goals s',
    ((leftImplication th).subgoals goal).runFrom s = (.ok goals, s') ↔
      ∃ F Γ P Q, goal.left = F :: Γ ∧
        (unfold th F (.ofString "implies")).runFrom s = (.ok (join "or" (neg P) Q), s') ∧
        goals = [⟨Γ, P :: goal.right⟩, ⟨Q :: Γ, goal.right⟩]
  /-- The premise of an implication on the right is assumed. -/
  rightImplication : FirstSpares ["implies"] goal.right → ∀ s goals s',
    ((rightImplication th).subgoals goal).runFrom s = (.ok goals, s') ↔
      ∃ F Δ P Q, goal.right = F :: Δ ∧
        (unfold th F (.ofString "implies")).runFrom s = (.ok (join "or" (neg P) Q), s') ∧
        goals = [⟨P :: goal.left, Q :: Δ⟩]
  /-- Where recursion may go deep enough, every conjunction on the left is taken apart. -/
  leftConjunction_applies : FirstSpares ["and"] goal.left → ∀ A B Γ,
    goal.left = join "and" A B :: Γ → ∃ depth,
    ∀ s : Supply, depth ≤ s.depth →
      ∃ goals, ((Rule.leftConjunction th).subgoals goal).runFrom s = (.ok goals, s)
  /-- So is every conjunction on the right. -/
  rightConjunction_applies : FirstSpares ["and"] goal.right → ∀ A B Δ,
    goal.right = join "and" A B :: Δ → ∃ depth,
    ∀ s : Supply, depth ≤ s.depth →
      ∃ goals, ((Rule.rightConjunction th).subgoals goal).runFrom s = (.ok goals, s)
  /-- So is every implication on the left. -/
  leftImplication_applies : FirstSpares ["implies"] goal.left → ∀ A B Γ,
    goal.left = join "implies" A B :: Γ → ∃ depth,
    ∀ s : Supply, depth ≤ s.depth →
      ∃ goals, ((Rule.leftImplication th).subgoals goal).runFrom s = (.ok goals, s)
  /-- So is every implication on the right. -/
  rightImplication_applies : FirstSpares ["implies"] goal.right → ∀ A B Δ,
    goal.right = join "implies" A B :: Δ → ∃ depth,
    ∀ s : Supply, depth ≤ s.depth →
      ∃ goals, ((Rule.rightImplication th).subgoals goal).runFrom s = (.ok goals, s)
  /-- An equivalence on the right is shown in both directions: it is unfolded to a conjunction of
  implications, the conjunction is taken apart, and the premise of each of the two is assumed. -/
  rightBidirectional : FirstSpares Logic.propositional goal.right → ∀ A B Δ,
    goal.right = join "iff" A B :: Δ → ∃ P Q X Y A₁ B₁ A₂ B₂,
    Unfolds th (join "iff" A B) "iff" (join "and" (join "implies" P Q) (join "implies" Q P)) ∧
    Unfolds th (join "and" (join "implies" P Q) (join "implies" Q P)) "and"
      (neg (join "or" (neg X) (neg Y))) ∧
    Unfolds th X "implies" (join "or" (neg A₁) B₁) ∧
    Unfolds th Y "implies" (join "or" (neg B₂) A₂) ∧
    ∃ depth, ∀ s : Supply, depth ≤ s.depth →
      ((Rule.rightBidirectional th).subgoals goal).runFrom s =
        (.ok [⟨A₁ :: goal.left, B₁ :: Δ⟩, ⟨B₂ :: goal.left, A₂ :: Δ⟩], s)
  /-- A disjunction of a formula with its negation is proved, and nothing else. -/
  excludedMiddle : ∀ s goals s',
    ((excludedMiddle th).subgoals goal).runFrom s = (.ok goals, s') ↔
      ∃ P Δ, goal.right = join "or" P (neg P) :: Δ ∧ goals = [] ∧ s' = s

/-- An unfolded formula may stand where the formula did. -/
theorem Unfolds.admits (unfolds : Unfolds th F name form) (logic : th.OfLogic)
    (admits : goal.Admits F) (taken : name ∈ Logic.propositional) : goal.Admits form := by
  obtain ⟨depth, run⟩ := unfolds
  obtain ⟨c, value, unfoldable, reduces, -⟩ := unfold_ok logic admits.proper admits.speaks taken
    (run { Supply.initial with depth := depth } (Nat.le_refl _))
  obtain ⟨offers, spares⟩ :=
    admits.toOffers.reduces admits.spares Logic.propositional_subset unfoldable reduces
  exact ⟨offers, spares⟩

/-- What an equivalence becomes when its connective is unfolded, then the conjunction, then both
implications. -/
theorem unfolds_equivalence {A B : Term} (logic : th.OfLogic)
    (admits : goal.Admits (join "iff" A B)) : ∃ P Q X Y A₁ B₁ A₂ B₂,
      Unfolds th (join "iff" A B) "iff" (join "and" (join "implies" P Q) (join "implies" Q P)) ∧
      Unfolds th (join "and" (join "implies" P Q) (join "implies" Q P)) "and"
        (neg (join "or" (neg X) (neg Y))) ∧
      Unfolds th X "implies" (join "or" (neg A₁) B₁) ∧
      Unfolds th Y "implies" (join "or" (neg B₂) A₂) := by
  have iffs := connectives_propositional iff_known
  have ands := connectives_propositional and_known
  have arrows := connectives_propositional implies_known
  obtain ⟨P, Q, -, first⟩ := unfolds_connective logic iff_known admits.proper admits.speaks iffs
  have admits₁ := first.admits logic admits iffs
  obtain ⟨X, Y, operands, second⟩ :=
    unfolds_connective logic and_known admits₁.proper admits₁.speaks ands
  have admits₂ := second.admits logic admits₁ ands
  have admitsX : goal.Admits X := admits₂.argument.function.argument.argument
  have admitsY : goal.Admits Y := admits₂.argument.argument.argument
  -- Unfolding the conjunction leaves the implications in their places.
  have unfoldable := definitions_unfoldable (connectives_defined and_known)
  obtain ⟨X₁, X₂, rfl⟩ :=
    operands.join admits₁.function.argument.proper unfoldable (by decide)
  obtain ⟨Y₁, Y₂, rfl⟩ := operands.second.join admits₁.argument.proper unfoldable (by decide)
  obtain ⟨A₁, B₁, -, third⟩ :=
    unfolds_connective logic implies_known admitsX.proper admitsX.speaks arrows
  obtain ⟨B₂, A₂, -, fourth⟩ :=
    unfolds_connective logic implies_known admitsY.proper admitsY.speaks arrows
  exact ⟨P, Q, _, _, A₁, B₁, A₂, B₂, first, second, third, fourth⟩

/-- The premises of both implications are assumed. -/
theorem rightBidirectional_runs {A B E X Y A₁ B₁ A₂ B₂ : Term} (logic : th.OfLogic)
    (overLogic : (⟨Γ, join "iff" A B :: Δ⟩ : Sequent).OverLogic)
    (spares : (join "iff" A B).Spares Logic.propositional)
    (first : Unfolds th (join "iff" A B) "iff" E)
    (second : Unfolds th E "and" (neg (join "or" (neg X) (neg Y))))
    (third : Unfolds th X "implies" (join "or" (neg A₁) B₁))
    (fourth : Unfolds th Y "implies" (join "or" (neg B₂) A₂)) :
    ∃ depth, ∀ s : Supply, depth ≤ s.depth →
      ((rightBidirectional th).subgoals ⟨Γ, join "iff" A B :: Δ⟩).runFrom s =
        (.ok [⟨A₁ :: Γ, B₁ :: Δ⟩, ⟨B₂ :: Γ, A₂ :: Δ⟩], s) := by
  have iffs := connectives_propositional iff_known
  have ands := connectives_propositional and_known
  have arrows := connectives_propositional implies_known
  have overLogic : (Side.right.goal (join "iff" A B :: Δ) Γ).OverLogic := overLogic
  have admits : (Side.right.goal (join "iff" A B :: Δ) Γ).Admits _ :=
    ⟨overLogic.offers_first, spares⟩
  have admits₁ := first.admits logic admits iffs
  have admits₂ := second.admits logic admits₁ ands
  have admitsX := admits₂.argument.function.argument.argument
  have admitsY := admits₂.argument.argument.argument
  obtain ⟨n₁, first⟩ := first
  obtain ⟨n₂, second⟩ := second
  obtain ⟨n₃, third⟩ := third
  obtain ⟨n₄, fourth⟩ := fourth
  refine ⟨n₁ + n₂ + n₃ + n₄, fun s enough => ?_⟩
  have spares := admits.spares_one iffs
  have spares₁ := admits₁.spares_one ands
  obtain ⟨over₁, -⟩ := unfolded_overLogic logic overLogic spares iffs (first s (by omega))
  obtain ⟨over₂, -⟩ := unfolded_overLogic logic over₁ spares₁ ands (second s (by omega))
  obtain ⟨overX, overY⟩ := (Sequent.OverLogic.right_neg over₂).left_or
  have conjunction : ((rightConjunction th).subgoals ⟨Γ, E :: Δ⟩).runFrom s =
      (.ok [⟨Γ, X :: Δ⟩, ⟨Γ, Y :: Δ⟩], s) :=
    ((rightConjunction_takesApart logic).unfolded_iff logic over₁ (firstSpares_cons.mpr spares₁)
      ands).mpr ⟨E, Δ, (X, Y), rfl, second s (by omega), rfl⟩
  have forth : ((rightImplication th).subgoals ⟨Γ, X :: Δ⟩).runFrom s =
      (.ok [⟨A₁ :: Γ, B₁ :: Δ⟩], s) :=
    ((rightImplication_takesApart logic).unfolded_iff logic overX.left_neg
      (firstSpares_cons.mpr (admitsX.spares_one arrows)) arrows).mpr
        ⟨X, Δ, (A₁, B₁), rfl, third s (by omega), rfl⟩
  have back : ((rightImplication th).subgoals ⟨Γ, Y :: Δ⟩).runFrom s =
      (.ok [⟨B₂ :: Γ, A₂ :: Δ⟩], s) :=
    ((rightImplication_takesApart logic).unfolded_iff logic overY.left_neg
      (firstSpares_cons.mpr (admitsY.spares_one arrows)) arrows).mpr
        ⟨Y, Δ, (B₂, A₂), rfl, fourth s (by omega), rfl⟩
  have head := runFrom_unfolding logic overLogic spares iffs (first s (by omega))
  exact (Plan.runFrom_branch_one head).trans (Plan.runFrom_branch_two conjunction forth back)

/-- On a goal over the constants of logic the tactics do what the textbook says. -/
theorem textbook (logic : th.OfLogic) (overLogic : goal.OverLogic) : Textbook th goal where
  leftConjunction spares s goals s' :=
    ((leftConjunction_takesApart logic).unfolded_iff logic overLogic spares
      (connectives_propositional and_known)).trans
      (exists₂_congr fun _ _ => Prod.exists)
  rightConjunction spares s goals s' :=
    ((rightConjunction_takesApart logic).unfolded_iff logic overLogic spares
      (connectives_propositional and_known)).trans
      (exists₂_congr fun _ _ => Prod.exists)
  leftImplication spares s goals s' :=
    ((leftImplication_takesApart logic).unfolded_iff logic overLogic spares
      (connectives_propositional implies_known)).trans
      (exists₂_congr fun _ _ => Prod.exists)
  rightImplication spares s goals s' :=
    ((rightImplication_takesApart logic).unfolded_iff logic overLogic spares
      (connectives_propositional implies_known)).trans
      (exists₂_congr fun _ _ => Prod.exists)
  leftConjunction_applies spares A B Γ first := by
    obtain ⟨left, right⟩ := goal
    obtain rfl : left = join "and" A B :: Γ := first
    exact (leftConjunction_takesApart logic).unfolded_applies logic overLogic
      (firstSpares_cons.mp spares) and_known fun P Q => ⟨(P, Q), rfl⟩
  rightConjunction_applies spares A B Δ first := by
    obtain ⟨left, right⟩ := goal
    obtain rfl : right = join "and" A B :: Δ := first
    exact (rightConjunction_takesApart logic).unfolded_applies logic overLogic
      (firstSpares_cons.mp spares) and_known fun P Q => ⟨(P, Q), rfl⟩
  leftImplication_applies spares A B Γ first := by
    obtain ⟨left, right⟩ := goal
    obtain rfl : left = join "implies" A B :: Γ := first
    exact (leftImplication_takesApart logic).unfolded_applies logic overLogic
      (firstSpares_cons.mp spares) implies_known fun P Q => ⟨(P, Q), rfl⟩
  rightImplication_applies spares A B Δ first := by
    obtain ⟨left, right⟩ := goal
    obtain rfl : right = join "implies" A B :: Δ := first
    exact (rightImplication_takesApart logic).unfolded_applies logic overLogic
      (firstSpares_cons.mp spares) implies_known fun P Q => ⟨(P, Q), rfl⟩
  rightBidirectional spares A B Δ first := by
    obtain ⟨left, right⟩ := goal
    obtain rfl : right = join "iff" A B :: Δ := first
    have spares := firstSpares_cons.mp spares
    have over' : (Side.right.goal (join "iff" A B :: Δ) left).OverLogic := overLogic
    obtain ⟨P, Q, X, Y, A₁, B₁, A₂, B₂, first, second, third, fourth⟩ :=
      unfolds_equivalence logic ⟨over'.offers_first, spares⟩
    refine ⟨P, Q, X, Y, A₁, B₁, A₂, B₂, first, second, third, fourth, ?_⟩
    exact rightBidirectional_runs logic overLogic spares first second third fourth
  excludedMiddle s goals s' := excludedMiddle_iff logic overLogic

/-- In the environment of logic the tactics do this to every sequent that is made of good terms. -/
theorem connectives_textbook {env : Environment} {l r : List Term}
    (loaded : (Theories.logic.load.runFrom Supply.initial).1 = .ok env)
    (left : ∀ t ∈ l, t.Proper ∧ t.Declared) (right : ∀ t ∈ r, t.Proper ∧ t.Declared)
    (made : Sequent.make l r = .ok goal) : Textbook env.theory goal :=
  textbook (Logic.ofLogic loaded).theory (Sequent.make_overLogic left right made)

/-- The equivalence of `for_all y . p(y)` and `p(y)`. -/
def instanceEquivalence : Term :=
  join "iff" (forAll object (.app (.var ⟨"p", .arrow .obj .bool⟩) (.var object)))
    (.app (.var ⟨"p", .arrow .obj .bool⟩) (.var object))

/-- They do it where this equivalence is to be shown and a conjunction with it is assumed. -/
theorem connectives_textbook_instance : ∃ env,
    (Theories.logic.load.runFrom Supply.initial).1 = .ok env ∧
    FirstSpares propositional [join "and" (.var first) instanceEquivalence] ∧
    FirstSpares propositional [instanceEquivalence] ∧
    Textbook env.theory ⟨[join "and" (.var first) instanceEquivalence], [instanceEquivalence]⟩ := by
  obtain ⟨env, found, -⟩ := Option.map_eq_some_iff.mp Logic.load_eq
  have loaded := Except.ok_of_toOption found
  have good : ∀ t ∈ [join "and" (.var first) instanceEquivalence, instanceEquivalence],
      t.Proper ∧ t.Declared := by
    intro t member
    simp only [List.mem_cons, List.not_mem_nil, or_false] at member
    rcases member with rfl | rfl
    all_goals
      refine ⟨⟨⟨?_, by unfold Uniform; decide⟩, ?_⟩, ?_⟩
      · simp [instanceEquivalence, join, forAll, Term.WellTyped, Term.type, Term.free,
          Ty.resultType]
      · simp [instanceEquivalence, join, forAll, Term.Plain, Ty.Plain, Ty.plain_bool, Ty.plain_obj]
      · simp [instanceEquivalence, join, forAll, Term.Declared, Logical.connective,
          Logical.quantifier]
  have made : Sequent.make [join "and" (.var first) instanceEquivalence] [instanceEquivalence] =
      .ok ⟨[join "and" (.var first) instanceEquivalence], [instanceEquivalence]⟩ :=
    Except.ok_of_toOption (by decide)
  refine ⟨env, loaded, ?_, ?_, connectives_textbook loaded ?_ ?_ made⟩
  · simp [instanceEquivalence, join, forAll, Term.Spares, Term.atoms, propositional, or_imp,
      forall_and]
  · simp [instanceEquivalence, join, forAll, Term.Spares, Term.atoms, propositional, or_imp,
      forall_and]
  · exact List.forall_mem_singleton.mpr (good _ (by simp))
  · exact List.forall_mem_singleton.mpr (good _ (by simp))

/-! ## Variables with the names of connectives -/

/-- Unfolding fails where one of the substitutions does. -/
theorem unfold_fails (logic : th.OfLogic) (defined : (c, value) ∈ definitions)
    (fails : ((arrange F c.name >>= fun atoms =>
      atoms.foldlM (unfoldAtom value) (F, false)).runFrom s).1.toOption = none) :
    ((unfold th F (.ofString c.name)).runFrom s).1.toOption = none := by
  obtain ⟨d, found, named, rfl⟩ := definition_found logic defined
  rcases run : (unfold th F (.ofString c.name)).runFrom s with ⟨failure | form, s'⟩
  · rfl
  · rw [unfold, found] at run
    simp only [named] at run
    obtain ⟨atoms, s₁, arranged, run⟩ := bind_ok run
    obtain ⟨state, s₂, folded, run⟩ := bind_ok run
    rw [runFrom_bind_ok arranged, folded] at fails
    cases fails

/-- The tactic does not succeed where implication cannot be unfolded. -/
theorem rightImplication_fails
    (fails : ((unfold th F (.ofString "implies")).runFrom s).1.toOption = none) :
    ((rightImplication th).subgoals ⟨Γ, F :: Δ⟩).runFrom s ≠ (.ok goals, s') := by
  intro run
  change ((Plan.branch (unfolding th .right "implies") [_]).subgoals
    (Side.right.goal (F :: Δ) Γ)).runFrom s = (.ok goals, s') at run
  obtain ⟨_, _, head⟩ := Plan.head_ok run
  obtain ⟨F', here, form, s₁, same, unfolded⟩ := unfolding_ok head
  obtain ⟨rfl, -⟩ := List.cons.inj same
  rw [unfolded] at fails
  cases fails

/-- A formula `name` and the formula `a` are joined by a connective. -/
def homonym (side : Side) (connective name : String) : Sequent :=
  side.goal [join connective (.var ⟨name, .bool⟩) (.var ⟨"a", .bool⟩)] []

/-- The formula `p(name)`, where it is not said what `p` speaks of. -/
def schematic (name : String) : Term :=
  .app (.var ⟨"p", .arrow (.var 1) .bool⟩) (.var ⟨name, .var 1⟩)

/-- A connective joins `p(connective)` and `a`, and there is `p(b)` beside it. -/
def schematicHomonym (side : Side) (connective : String) : Sequent :=
  side.goal [join connective (schematic connective) (.var ⟨"a", .bool⟩), schematic "b"] []

/-- The tactics for one connective, each with the side of the formula that it takes apart. -/
def dismantlings : List ((Theory → Plan) × Side × String) :=
  [(leftConjunction, .left, "and"), (rightConjunction, .right, "and"),
    (leftImplication, .left, "implies"), (rightImplication, .right, "implies")]

/-- The tactics, each with the side and the connective of the formula that it takes apart and a
connective that it unfolds there. -/
def unfoldings : List ((Theory → Plan) × Side × String × String) :=
  dismantlings.map (fun (tactic, side, connective) => (tactic, side, connective, connective)) ++
    propositional.map fun name => (rightBidirectional, .right, "iff", name)

/-- Does every tactic fail where a formula has the name of the connective that it unfolds, and do
those for one connective lose the formula beside it where something of any type has the name? -/
def misled (th : Theory) : Bool :=
  (unfoldings.all fun (tactic, side, connective, name) =>
    !(((tactic th).subgoals (homonym side connective name)).runFrom .initial).1.isOk) &&
  dismantlings.all fun (tactic, side, connective) =>
    (((tactic th).subgoals (schematicHomonym side connective)).runFrom .initial).1.toOption.any
      fun goals => goals.all fun left => !(left.left ++ left.right).contains (schematic "b")

/-- Each of these tactics fails or loses a formula. -/
theorem misled_iff : misled th = true ↔
    (∀ tactic side connective name, (tactic, side, connective, name) ∈ unfoldings → ∀ goals s',
      ((tactic th).subgoals (homonym side connective name)).runFrom .initial ≠ (.ok goals, s')) ∧
    ∀ tactic side connective, (tactic, side, connective) ∈ dismantlings → ∃ goals s',
      ((tactic th).subgoals (schematicHomonym side connective)).runFrom .initial =
        (.ok goals, s') ∧ ∀ left ∈ goals, schematic "b" ∉ left.left ++ left.right := by
  have fails : ∀ (tactic : Plan) (goal : Sequent),
      (!((tactic.subgoals goal).runFrom .initial).1.isOk) = true ↔
        ∀ goals s', (tactic.subgoals goal).runFrom .initial ≠ (.ok goals, s') := by
    intro tactic goal
    rcases (tactic.subgoals goal).runFrom .initial with ⟨failure | goals, s⟩ <;>
      simp [Except.isOk, Except.toBool]
  have loses : ∀ (tactic : Plan) (goal : Sequent) (formula : Term),
      (((tactic.subgoals goal).runFrom .initial).1.toOption.any fun goals =>
        goals.all fun left => !(left.left ++ left.right).contains formula) = true ↔
      ∃ goals s', (tactic.subgoals goal).runFrom .initial = (.ok goals, s') ∧
        ∀ left ∈ goals, formula ∉ left.left ++ left.right := by
    intro tactic goal formula
    rcases (tactic.subgoals goal).runFrom .initial with ⟨failure | goals, s⟩ <;>
      simp [Except.toOption]
  simp only [misled, Bool.and_eq_true, List.all_eq_true, Prod.forall, fails, loses]

/-- Load logic and try the tactics. -/
def tryHomonyms : Build (Environment × Bool) := do
  let env ← Theories.logic.load
  return (env, misled env.theory)

/-- They are tried in the environment of logic. -/
theorem tryHomonyms_ok {env : Environment} {outcome : Bool}
    (run : tryHomonyms.runFrom s = (.ok (env, outcome), s')) :
    (Theories.logic.load.runFrom s).1 = .ok env ∧ outcome = misled env.theory := by
  obtain ⟨env', s₁, loaded, finished⟩ := bind_ok run
  rw [runFrom_pure] at finished
  obtain ⟨rfl, tried⟩ := Prod.mk.inj (Except.ok.inj (Prod.mk.inj finished).1)
  exact ⟨congrArg Prod.fst loaded, tried.symm⟩

/-- An implication to a formula about an application that reduces to a term that returns to itself.
The term binds a variable `implies`. -/
def boundHomonym : Term :=
  join "implies" (.var ⟨"a", .bool⟩) (.app (.var ⟨"r", .arrow .obj .bool⟩)
    (.app (Endless.constant "implies") (Endless.value "implies")))

/-- Formulas on one side make a goal over the constants of logic. -/
theorem overLogic_goal (formulas : ∀ t ∈ here, t.WellTyped ∧ t.Plain ∧ t.Declared)
    (uniform : Uniform (freeIn here)) : (side.goal here []).OverLogic := by
  have same : (side.goal here []).left ++ (side.goal here []).right = here := by
    cases side <;> simp [Side.goal]
  refine ⟨fun t inside => ?_, fun t inside => ?_, by rwa [same]⟩ <;> rw [same] at inside
  · obtain ⟨wellTyped, plain, -⟩ := formulas t inside
    exact ⟨⟨wellTyped, uniform.subset fun _ occurs => List.mem_flatMap.mpr ⟨t, inside, occurs⟩⟩,
      plain⟩
  · exact (formulas t inside).2.2

/-- The goals are made of good formulas over the constants of logic. -/
theorem homonym_overLogic {connective : String} (joined : connective ∈ propositional)
    (named : name ∈ propositional) : (homonym side connective name).OverLogic := by
  have known : connective ∈ ["or", "and", "implies", "iff"] := .tail _ joined
  refine overLogic_goal ?_ ?_
  · simp [join, Term.WellTyped, Term.type, Ty.resultType, Term.Plain, Ty.Plain, Ty.plain_bool,
      Term.Declared, Logical.connective known]
  · simp only [propositional, List.mem_cons, List.not_mem_nil, or_false] at named
    rcases named with rfl | rfl | rfl <;> simp [freeIn, join, Term.free, Uniform]

/-- So are the others. -/
theorem schematicHomonym_overLogic {connective : String} (joined : connective ∈ propositional) :
    (schematicHomonym side connective).OverLogic := by
  have known : connective ∈ ["or", "and", "implies", "iff"] := .tail _ joined
  refine overLogic_goal ?_ ?_
  · simp [schematic, join, Term.WellTyped, Term.type, Ty.resultType, Term.Plain, Ty.Plain,
      Ty.plain_bool, Term.Declared, Logical.connective known]
  · simp only [propositional, List.mem_cons, List.not_mem_nil, or_false] at joined
    rcases joined with rfl | rfl | rfl <;> simp [schematic, freeIn, join, Term.free, Uniform]

/-- The implication with the bound variable is a good formula of logic, too. -/
theorem boundHomonym_good : boundHomonym.Proper ∧ boundHomonym.Declared := by
  have apart : Endless.Apart "implies" := by decide
  have redex := Endless.redex_proper apart
  refine ⟨⟨⟨?_, by unfold Uniform; decide⟩, ?_⟩, ?_⟩
  · exact ⟨⟨trivial, trivial, _, rfl⟩, ⟨trivial, redex.wellTyped, _, rfl⟩, _, rfl⟩
  · simp [boundHomonym, join, Term.Plain, Ty.Plain, Ty.plain_bool, Ty.plain_obj, redex.plain.1,
      redex.plain.2]
  · simp [boundHomonym, join, Endless.constant, Endless.value, Endless.function, Endless.identity,
      Term.Declared, Logical.connective]

/-- Where the bound variable is visited first, the value that the reduction puts for `x1` still has
something to reduce, and putting it never ends. -/
theorem boundHomonym_deep (depth : Nat) :
    Term.Deep depth boundHomonym Scheme.implies.value (.var (Endless.step "implies")) := by
  have apart : Endless.Apart "implies" := by decide
  have redex := Endless.redex_proper apart
  have closed : Scheme.implies.value.free = [] := by decide
  have premise : Term.Settles Scheme.implies.value (.var (Endless.step "implies"))
      (.app (.const (connective "implies")) (.var ⟨"a", .bool⟩))
      (.app (.const (connective "implies")) (.var ⟨"a", .bool⟩)) :=
    Term.settles_app (Term.settles_const (by simp)) (Term.settles_var (by decide))
      boundHomonym_good.1.function (by simp)
  have kept : Term.Settles Scheme.implies.value (.var (Endless.step "implies"))
      (Endless.constant "implies") (Endless.constant "implies") :=
    Term.settles_lam (Endless.step_apart _) (by simp [Term.freeNames, closed])
      (Endless.value_kept apart _) redex.function
  refine Term.deep_argument premise fun d₁ _ => ?_
  refine Term.deep_argument (Term.settles_var (by decide)) fun d₂ _ => ?_
  exact Term.deep_redex kept (Endless.value_kept apart _) redex fun d₃ _ =>
    Endless.value_deep apart d₃

/-- The tactic never succeeds on the implication where the bound variable is visited first. -/
theorem boundHomonym_fails (logic : th.OfLogic) : ∃ choices, ∀ depth goals s',
    ((rightImplication th).subgoals ⟨[], [boundHomonym]⟩).runFrom
      { Supply.initial with choices := choices, depth := depth } ≠ (.ok goals, s') := by
  have atoms : atomsNamed boundHomonym "implies" =
      [.const (connective "implies"), .var (Endless.step "implies")] := by decide
  have swapped : [.var (Endless.step "implies"), .const (connective "implies")].Perm
      (atomsNamed boundHomonym "implies") := by
    rw [atoms]
    exact .swap ..
  obtain ⟨choices, arranged⟩ := arrange_reaches (by rw [atoms]; decide) swapped
  have endless : ∀ s, ((boundHomonym.substitute Scheme.implies.value
      (.var (Endless.step "implies"))).runFrom s).1 = .error .tooDeep :=
    fun s => boundHomonym_deep s.depth s
  refine ⟨choices, fun depth goals s' => rightImplication_fails
    (unfold_fails logic (connectives_defined implies_known) ?_)⟩
  rw [runFrom_bind_ok (arranged _ rfl), List.foldlM_cons, unfoldAtom,
    runFrom_bind_error (runFrom_bind_error (endless _))]
  rfl

/-- A variable with the name of a connective is unfolded like the connective. Free, it makes types
clash, or it is given the type of the connective and the formulas beside it are changed with it;
bound, it may hide something from reductions that a substitution finds later and never finishes. So
there are goals of good formulas on which the tactics fail, and others on which they leave something
else than the parts of a formula beside the other formulas. -/
theorem connectives_textbook_homonym : ∃ env,
    (Theories.logic.load.runFrom Supply.initial).1 = .ok env ∧
    (∀ tactic side connective name, (tactic, side, connective, name) ∈ unfoldings →
      (homonym side connective name).OverLogic ∧ ∀ goals s',
        ((tactic env.theory).subgoals (homonym side connective name)).runFrom .initial ≠
          (.ok goals, s')) ∧
    (∀ tactic side connective, (tactic, side, connective) ∈ dismantlings →
      (schematicHomonym side connective).OverLogic ∧ ∃ goals s',
        ((tactic env.theory).subgoals (schematicHomonym side connective)).runFrom .initial =
          (.ok goals, s') ∧ ∀ left ∈ goals, schematic "b" ∉ left.left ++ left.right) ∧
    (boundHomonym.Proper ∧ boundHomonym.Declared) ∧
      Sequent.make [] [boundHomonym] = .ok ⟨[], [boundHomonym]⟩ ∧
      (∀ v ∈ boundHomonym.free, v.name ∉ propositional) ∧
      ∃ choices, ∀ depth goals s',
        ((rightImplication env.theory).subgoals ⟨[], [boundHomonym]⟩).runFrom
          { Supply.initial with choices := choices, depth := depth } ≠ (.ok goals, s') := by
  have done : ((tryHomonyms.runFrom .initial).1.toOption.map Prod.snd) = some true := by
    decide +kernel
  obtain ⟨⟨env, outcome⟩, s, run, rfl⟩ := exists_of_map done
  obtain ⟨loaded, outcome⟩ := tryHomonyms_ok run
  obtain ⟨fails, loses⟩ := misled_iff.mp outcome.symm
  have unfolded : ∀ names ∈ unfoldings.map (fun tried => tried.2.2),
      names.1 ∈ propositional ∧ names.2 ∈ propositional := by decide
  have dismantled : ∀ name ∈ dismantlings.map (fun tried => tried.2.2),
      name ∈ propositional := by decide
  refine ⟨env, loaded, fun tactic side connective name inside => ?_,
    fun tactic side connective inside => ?_, boundHomonym_good, rfl, by decide,
    boundHomonym_fails (Logic.ofLogic loaded).theory⟩
  · obtain ⟨joined, named⟩ := unfolded _ (List.mem_map_of_mem inside)
    exact ⟨homonym_overLogic joined named, fails _ _ _ _ inside⟩
  · have joined := dismantled _ (List.mem_map_of_mem inside)
    exact ⟨schematicHomonym_overLogic joined, loses _ _ _ inside⟩

end Rule

end Turnstile
