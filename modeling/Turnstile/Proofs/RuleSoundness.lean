import Turnstile.Proofs.LogicTheory
import Turnstile.Proofs.PlanSoundness

/-!
# The rules of logic are sound

Each rule reduces a goal to goals that entail it. The structural rules only choose among the
formulas of a goal; the others take apart a formula by what its shape means. A rule that
substitutes is sound unless the substitution goes wrong by renaming.
-/

namespace Turnstile

open Build

universe u

/-! ## Formulas of a shape -/

namespace Logical

variable {c : Symbol}

/-- The logical constant `not` is a function on truth values. -/
theorem type_not (logical : Logical c) (named : c.name = "not") :
    c.type = .arrow .bool .bool := by
  cases logical <;> simp_all

/-- The logical constant `or` is a function of two truth values. -/
theorem type_or (logical : Logical c) (named : c.name = "or") :
    c.type = .arrow .bool (.arrow .bool .bool) := by
  cases logical <;> simp_all

/-- The logical constant `for_all` takes predicates on objects. -/
theorem type_forAll (logical : Logical c) (named : c.name = "for_all") :
    c.type = .arrow (.arrow .obj .bool) .bool := by
  cases logical <;> simp_all

/-- The logical constant `schema` takes conditions on predicates. -/
theorem type_schema (logical : Logical c) (named : c.name = "schema") :
    c.type = .arrow (.arrow (.arrow .obj .bool) .bool) .bool := by
  cases logical <;> simp_all

/-- The logical constant `=` compares values of one type. -/
theorem type_equality (logical : Logical c) (named : c.name = "=") :
    ∃ t, c.type = .arrow t (.arrow t .bool) := by
  cases logical <;> simp_all

end Logical

namespace Term.Meaningful

variable {c v : Symbol} {f x y b : Term}

/-- A function is applied to an argument of the type it takes. -/
theorem applied_types {domain codomain : Ty} (meaningful : (Term.app f x).Meaningful)
    (typed : f.type = .arrow domain codomain) :
    x.type = domain ∧ (Term.app f x).type = codomain := by
  obtain ⟨_, same⟩ := meaningful.proper.wellTyped.2.2
  rw [typed] at same
  refine ⟨(Ty.arrow.inj same).1.symm, ?_⟩
  rw [Term.type, typed]
  rfl

/-- What is denied is a truth value, and so is the denial. -/
theorem negation_types (meaningful : (Term.app (.const c) x).Meaningful)
    (named : c.name = "not") : x.type = .bool ∧ (Term.app (.const c) x).type = .bool :=
  meaningful.applied_types (Logical.type_not meaningful.function.speaks named)

/-- The parts of a disjunction are truth values, and so is the disjunction. -/
theorem disjunction_types (meaningful : (Term.app (.app (.const c) x) y).Meaningful)
    (named : c.name = "or") :
    x.type = .bool ∧ y.type = .bool ∧ (Term.app (.app (.const c) x) y).type = .bool := by
  obtain ⟨left, partial'⟩ := meaningful.function.applied_types
    (Logical.type_or meaningful.function.function.speaks named)
  exact ⟨left, meaningful.applied_types partial'⟩

/-- The variable and the body of a quantified formula. -/
theorem binder_types {t : Ty} (meaningful : (Term.app (.const c) (.lam v b)).Meaningful)
    (typed : c.type = .arrow (.arrow t .bool) .bool) :
    v.type = t ∧ b.type = .bool ∧ (Term.app (.const c) (.lam v b)).type = .bool := by
  obtain ⟨abstraction, formula⟩ := meaningful.applied_types (f := .const c) typed
  exact ⟨(Ty.arrow.inj abstraction).1, (Ty.arrow.inj abstraction).2, formula⟩

/-- The sides of an equation have one type, and the equation is a truth value. -/
theorem equation_types (meaningful : (Term.app (.app (.const c) x) y).Meaningful)
    (named : c.name = "=") : c.type = .arrow x.type (.arrow x.type .bool) ∧ y.type = x.type ∧
      (Term.app (.app (.const c) x) y).type = .bool := by
  obtain ⟨t, typed⟩ := Logical.type_equality meaningful.function.function.speaks named
  obtain ⟨left, partial'⟩ := meaningful.function.applied_types typed
  obtain ⟨right, formula⟩ := meaningful.applied_types partial'
  rw [left]
  exact ⟨typed, right, formula⟩

/-- An equation is true if its sides have one value. -/
theorem holds_equation (meaningful : (Term.app (.app (.const c) x) y).Meaningful)
    (named : c.name = "=") {M : Model.{u}} {ρ : M.Assignment} :
    M.Holds ρ (.app (.app (.const c) x) y) ↔ M.denote x ρ = M.denote y ρ := by
  obtain ⟨typed, right, _⟩ := meaningful.equation_types named
  refine Model.holds_equation named typed (meaningful.function.argument.denote_type ρ) ?_
  rw [meaningful.argument.denote_type, right]

end Term.Meaningful

section

variable {th : Theory} {goal : Sequent} {side : Side} {index : Nat} {m : Bindings}
  {s s' : Supply}

namespace Theory.OfLogic

/-- The parts of a negation. -/
theorem negation (logic : th.OfLogic)
    (run : (th.parts goal side index .negation).runFrom s = (.ok m, s')) :
    ∃ c x, (goal.side side)[index]? = some (.app (.const c) x) ∧ c.name = "not" ∧
      Rule.part m "a" = x := by
  obtain ⟨t, shapes⟩ := logic.shapes
  obtain ⟨formula, found, done, _⟩ := Theory.parts_ok (by rw [shapes]; rfl) run
  obtain ⟨c, x, rfl, named, a⟩ := Term.matchWith_unary done
  exact ⟨c, x, found, named, a⟩

/-- The parts of a disjunction. -/
theorem disjunction (logic : th.OfLogic)
    (run : (th.parts goal side index .disjunction).runFrom s = (.ok m, s')) :
    ∃ c x y, (goal.side side)[index]? = some (.app (.app (.const c) x) y) ∧ c.name = "or" ∧
      Rule.part m "a" = x ∧ Rule.part m "b" = y := by
  obtain ⟨t, shapes⟩ := logic.shapes
  obtain ⟨formula, found, done, _⟩ := Theory.parts_ok (by rw [shapes]; rfl) run
  obtain ⟨c, x, y, rfl, named, a, b⟩ := Term.matchWith_binary (by decide) done
  exact ⟨c, x, y, found, named, a, b⟩

/-- The parts of a universal. -/
theorem universal (logic : th.OfLogic)
    (run : (th.parts goal side index .universal).runFrom s = (.ok m, s')) :
    ∃ c v b, (goal.side side)[index]? = some (.app (.const c) (.lam v b)) ∧
      c.name = "for_all" ∧ Rule.part m "x" = .var v ∧ Rule.part m "phi" = b := by
  obtain ⟨t, shapes⟩ := logic.shapes
  obtain ⟨formula, found, done, _⟩ := Theory.parts_ok (by rw [shapes]; rfl) run
  obtain ⟨c, v, b, rfl, named, bound, body⟩ := Term.matchWith_binder (by decide) done
  exact ⟨c, v, b, found, named, bound, body⟩

/-- The parts of a schema. -/
theorem schema (logic : th.OfLogic)
    (run : (th.parts goal side index .schema).runFrom s = (.ok m, s')) :
    ∃ c v b, (goal.side side)[index]? = some (.app (.const c) (.lam v b)) ∧
      c.name = "schema" ∧ Rule.part m "phi" = .var v ∧ Rule.part m "psi" = b := by
  obtain ⟨t, shapes⟩ := logic.shapes
  obtain ⟨formula, found, done, _⟩ := Theory.parts_ok (by rw [shapes]; rfl) run
  obtain ⟨c, v, b, rfl, named, bound, body⟩ := Term.matchWith_binder (by decide) done
  exact ⟨c, v, b, found, named, bound, body⟩

/-- The parts of an equation. -/
theorem equation (logic : th.OfLogic)
    (run : (th.parts goal side index .equation).runFrom s = (.ok m, s')) :
    ∃ c x y, (goal.side side)[index]? = some (.app (.app (.const c) x) y) ∧ c.name = "=" ∧
      Rule.part m "a" = x ∧ Rule.part m "b" = y := by
  obtain ⟨t, shapes⟩ := logic.shapes
  obtain ⟨formula, found, done, _⟩ := Theory.parts_ok (by rw [shapes]; rfl) run
  obtain ⟨c, x, y, rfl, named, a, b⟩ := Term.matchWith_binary (show "b" ≠ "a" by decide) done
  exact ⟨c, x, y, found, named, a, b⟩

end Theory.OfLogic

end

/-! ## Goals that are made -/

/-- Terms without type variables are put together as they are. -/
theorem Sequent.make_ok {l r : List Term} {goal : Sequent} (left : ∀ t ∈ l, t.Meaningful)
    (right : ∀ t ∈ r, t.Meaningful) (made : Sequent.make l r = .ok goal) : goal = ⟨l, r⟩ := by
  rw [Sequent.make] at made
  split at made
  · cases made
    rfl
  · obtain ⟨u, joined, made⟩ := Formula.bind_ok made
    cases made
    have plain : ∀ t ∈ l ++ r, t.Plain := by
      intro t member
      rcases List.mem_append.mp member with inLeft | inRight
      · exact (left t inLeft).proper.plain
      · exact (right t inRight).proper.plain
    have solution := jointTypes_solution plain
    rw [joined] at solution
    cases solution with
    | found apply most =>
      have same : ∀ terms : List Term, (∀ t ∈ terms, t.Meaningful) →
          terms.map (Term.applyTypes u) = terms := by
        intro terms meaningful
        refine (List.map_congr_left fun t member => ?_).trans (List.map_id terms)
        rw [Term.applyTypes_eq apply]
        exact (meaningful t member).ground.under_eq _
      rw [same l left, same r right]

/-- More formulas on either side make a sequent no less true. -/
theorem Sequent.TrueAt.mono {l l' r r' : List Term} {M : Model.{u}} {ρ : M.Assignment}
    (left : l' ⊆ l) (right : r' ⊆ r) (holds : (⟨l', r'⟩ : Sequent).TrueAt ρ) :
    (⟨l, r⟩ : Sequent).TrueAt ρ := by
  intro assumed
  obtain ⟨t, member, true'⟩ := holds fun t member => assumed t (left member)
  exact ⟨t, right member, true'⟩

namespace Rule

variable {th : Theory} {goal : Sequent} {goals : List Sequent} {l r : List Term}
  {s s' : Supply} {captured : Bool}

/-- A primitive rule is sound if each of its runs is. -/
theorem primitive_sound {name : String} {args : List Arg}
    {apply : Sequent → Build (List Sequent)}
    (sound : ∀ goal s goals s', goal.OfLogic → (apply goal).runFrom s = (.ok goals, s') →
      Reduces.{u} goal goals (captures th ⟨name, args⟩ goal s)) :
    Plan.Sound.{u} th (primitive name args apply) := by
  intro goal s goals s' ofLogic run
  rw [runFrom_tryCatch] at run
  rcases ran : (apply goal).runFrom s with ⟨failure | done, s₁⟩ <;> rw [ran] at run
  · cases run
  · cases run
    exact sound goal s goals s' ofLogic ran

/-- A rule that leaves one goal. -/
theorem one_reduces (left : ∀ t ∈ l, t.Meaningful)
    (right : ∀ t ∈ r, t.Meaningful ∧ t.type = .bool)
    (entailed : captured = false → Sequent.Entailed.{u} ⟨l, r⟩ → Sequent.Entailed.{u} goal)
    (run : (liftM (one l r) : Build (List Sequent)).runFrom s = (.ok goals, s')) :
    Reduces.{u} goal goals captured := by
  obtain ⟨new, made, done⟩ := Formula.bind_ok (Build.lift_ok run).1
  obtain rfl := Sequent.make_ok left (fun t member => (right t member).1) made
  cases done
  refine ⟨?_, fun clear all => entailed clear (all _ (by simp))⟩
  intro g member
  rw [List.mem_singleton.mp member]
  exact ⟨left, right⟩

/-- A rule that leaves two goals. -/
theorem two_reduces {l' r' : List Term} {first second : Sequent} (left : ∀ t ∈ l, t.Meaningful)
    (right : ∀ t ∈ r, t.Meaningful ∧ t.type = .bool) (left' : ∀ t ∈ l', t.Meaningful)
    (right' : ∀ t ∈ r', t.Meaningful ∧ t.type = .bool)
    (truth : ∀ (M : Model.{u}) (ρ : M.Assignment), (⟨l, r⟩ : Sequent).TrueAt ρ →
      (⟨l', r'⟩ : Sequent).TrueAt ρ → goal.TrueAt ρ)
    (made : Sequent.make l r = .ok first) (made' : Sequent.make l' r' = .ok second) :
    Reduces.{u} goal [first, second] captured := by
  obtain rfl := Sequent.make_ok left (fun t member => (right t member).1) made
  obtain rfl := Sequent.make_ok left' (fun t member => (right' t member).1) made'
  refine ⟨?_, fun _ all M ρ => truth M ρ (all _ (by simp) M ρ) (all _ (by simp) M ρ)⟩
  intro g member
  simp only [List.mem_cons, List.not_mem_nil, or_false] at member
  rcases member with rfl | rfl
  · exact ⟨left, right⟩
  · exact ⟨left', right'⟩

/-- The front of a side. -/
theorem side_eq_cons {formulas : List Term} {formula : Term}
    (found : formulas[0]? = some formula) : formulas = formula :: formulas.tail := by
  match formulas with
  | [] => cases found
  | _ :: _ =>
    cases found
    rfl

/-! ## Structural rules -/

/-- A rule that leaves formulas of the goal. -/
theorem chosen_reduces (ofLogic : goal.OfLogic) (left : l ⊆ goal.left) (right : r ⊆ goal.right)
    (run : (liftM (one l r) : Build (List Sequent)).runFrom s = (.ok goals, s')) :
    Reduces.{u} goal goals captured :=
  one_reduces (fun t member => ofLogic.left t (left member))
    (fun t member => ofLogic.right t (right member))
    (fun _ valid M ρ => (valid M ρ).mono left right) run

/-- Permutation on the left is sound. -/
theorem leftPermutation_sound (index : Int) : Plan.Sound.{u} th (leftPermutation index) := by
  refine primitive_sound fun goal s goals s' ofLogic run => ?_
  obtain ⟨formulas, s₁, done, run⟩ := Build.bind_ok run
  have inside := permuted_subset (Build.lift_ok done).1
  exact chosen_reduces ofLogic inside (List.Subset.refl _) run

/-- Permutation on the right is sound. -/
theorem rightPermutation_sound (index : Int) : Plan.Sound.{u} th (rightPermutation index) := by
  refine primitive_sound fun goal s goals s' ofLogic run => ?_
  obtain ⟨formulas, s₁, done, run⟩ := Build.bind_ok run
  have inside := permuted_subset (Build.lift_ok done).1
  exact chosen_reduces ofLogic (List.Subset.refl _) inside run

/-- Contraction on the left is sound. -/
theorem leftContraction_sound : Plan.Sound.{u} th leftContraction := by
  refine primitive_sound fun goal s goals s' ofLogic run => ?_
  obtain ⟨formulas, s₁, done, run⟩ := Build.bind_ok run
  have inside := contracted_subset (Build.lift_ok done).1
  exact chosen_reduces ofLogic inside (List.Subset.refl _) run

/-- Contraction on the right is sound. -/
theorem rightContraction_sound : Plan.Sound.{u} th rightContraction := by
  refine primitive_sound fun goal s goals s' ofLogic run => ?_
  obtain ⟨formulas, s₁, done, run⟩ := Build.bind_ok run
  have inside := contracted_subset (Build.lift_ok done).1
  exact chosen_reduces ofLogic (List.Subset.refl _) inside run

/-- Weakening on the left is sound. -/
theorem leftWeakening_sound : Plan.Sound.{u} th leftWeakening := by
  refine primitive_sound fun goal s goals s' ofLogic run => ?_
  obtain ⟨formulas, s₁, done, run⟩ := Build.bind_ok run
  have inside := weakened_subset (Build.lift_ok done).1
  exact chosen_reduces ofLogic inside (List.Subset.refl _) run

/-- Weakening on the right is sound. -/
theorem rightWeakening_sound : Plan.Sound.{u} th rightWeakening := by
  refine primitive_sound fun goal s goals s' ofLogic run => ?_
  obtain ⟨formulas, s₁, done, run⟩ := Build.bind_ok run
  have inside := weakened_subset (Build.lift_ok done).1
  exact chosen_reduces ofLogic (List.Subset.refl _) inside run

/-- Doing nothing is sound. -/
theorem noop_sound : Plan.Sound.{u} th noop := by
  refine primitive_sound fun goal s goals s' ofLogic run => ?_
  cases run
  exact ⟨by simpa using ofLogic, fun _ all => all goal (by simp)⟩

/-! ## Propositions -/

/-- Closing a goal is sound. -/
theorem close_sound : Plan.Sound.{u} th close := by
  refine primitive_sound fun goal s goals s' ofLogic run => ?_
  split at run
  next l left r right inLeft inRight =>
    split at run
    next same =>
      cases run
      subst same
      refine ⟨by simp, fun _ _ M ρ assumed => ?_⟩
      have inside : l ∈ goal.right := by simp [inRight]
      exact ⟨l, inside, assumed l (by simp [inLeft]) (ofLogic.right l inside).2⟩
    next => cases (Build.lift_ok run).1
  next => cases (Build.lift_ok run).1

/-- A cut with a meaningful formula is sound. -/
theorem cut_sound {witness : Term} (meaningful : witness.Meaningful)
    (formula : witness.type = .bool) : Plan.Sound.{u} th (cut witness) := by
  refine primitive_sound fun goal s goals s' ofLogic run => ?_
  obtain ⟨prove, s₁, made, run⟩ := Build.bind_ok run
  obtain ⟨use, s₂, made', run⟩ := Build.bind_ok run
  cases run
  refine two_reduces ofLogic.left (List.forall_mem_cons.mpr ⟨⟨meaningful, formula⟩, ofLogic.right⟩)
    (List.forall_mem_cons.mpr ⟨meaningful, ofLogic.left⟩) ofLogic.right (fun M ρ proved used => ?_)
    (Build.lift_ok made).1 (Build.lift_ok made').1
  intro assumed
  obtain ⟨t, member, holds⟩ := proved assumed
  rcases List.mem_cons.mp member with rfl | later
  · exact used (List.forall_mem_cons.mpr ⟨fun _ => holds, assumed⟩)
  · exact ⟨t, later, holds⟩

/-- Negation on the left is sound. -/
theorem leftNegation_sound (logic : th.OfLogic) : Plan.Sound.{u} th (leftNegation th) := by
  refine primitive_sound fun goal s goals s' ofLogic run => ?_
  obtain ⟨m, s₁, parts, run⟩ := Build.bind_ok run
  obtain ⟨c, x, found, named, is⟩ := logic.negation parts
  have front : goal.left = _ :: goal.left.tail := side_eq_cons found
  have lefts := ofLogic.left
  rw [front, List.forall_mem_cons] at lefts
  obtain ⟨inner, formula⟩ := lefts.1.negation_types named
  rw [is] at run
  refine one_reduces lefts.2
    (List.forall_mem_cons.mpr ⟨⟨lefts.1.argument, inner⟩, ofLogic.right⟩)
    (fun _ valid M ρ assumed => ?_) run
  rw [front, List.forall_mem_cons, Model.holds_not named] at assumed
  obtain ⟨t, member, holds⟩ := valid M ρ assumed.2
  rcases List.mem_cons.mp member with rfl | later
  · exact absurd holds (assumed.1 formula)
  · exact ⟨t, later, holds⟩

/-- Negation on the right is sound. -/
theorem rightNegation_sound (logic : th.OfLogic) : Plan.Sound.{u} th (rightNegation th) := by
  refine primitive_sound fun goal s goals s' ofLogic run => ?_
  obtain ⟨m, s₁, parts, run⟩ := Build.bind_ok run
  obtain ⟨c, x, found, named, is⟩ := logic.negation parts
  have front : goal.right = _ :: goal.right.tail := side_eq_cons found
  have rights := ofLogic.right
  rw [front, List.forall_mem_cons] at rights
  rw [is] at run
  refine one_reduces (List.forall_mem_cons.mpr ⟨rights.1.1.argument, ofLogic.left⟩) rights.2
    (fun _ valid M ρ assumed => ?_) run
  rw [front]
  by_cases holds : M.Holds ρ x
  · obtain ⟨t, member, true'⟩ := valid M ρ (List.forall_mem_cons.mpr ⟨fun _ => holds, assumed⟩)
    exact ⟨t, List.mem_cons_of_mem _ member, true'⟩
  · exact ⟨_, List.mem_cons_self, (Model.holds_not named).mpr holds⟩

/-- Disjunction on the left is sound. -/
theorem leftDisjunction_sound (logic : th.OfLogic) :
    Plan.Sound.{u} th (leftDisjunction th) := by
  refine primitive_sound fun goal s goals s' ofLogic run => ?_
  obtain ⟨m, s₁, parts, run⟩ := Build.bind_ok run
  obtain ⟨first, s₂, made, run⟩ := Build.bind_ok run
  obtain ⟨second, s₃, made', run⟩ := Build.bind_ok run
  cases run
  obtain ⟨c, x, y, found, named, isX, isY⟩ := logic.disjunction parts
  have front : goal.left = _ :: goal.left.tail := side_eq_cons found
  have lefts := ofLogic.left
  rw [front, List.forall_mem_cons] at lefts
  obtain ⟨_, _, formula⟩ := lefts.1.disjunction_types named
  rw [isX] at made
  rw [isY] at made'
  refine two_reduces (List.forall_mem_cons.mpr ⟨lefts.1.function.argument, lefts.2⟩) ofLogic.right
    (List.forall_mem_cons.mpr ⟨lefts.1.argument, lefts.2⟩) ofLogic.right
    (fun M ρ one two => ?_) (Build.lift_ok made).1 (Build.lift_ok made').1
  intro assumed
  rw [front, List.forall_mem_cons, Model.holds_or named] at assumed
  rcases assumed.1 formula with holds | holds
  · exact one (List.forall_mem_cons.mpr ⟨fun _ => holds, assumed.2⟩)
  · exact two (List.forall_mem_cons.mpr ⟨fun _ => holds, assumed.2⟩)

/-- Disjunction on the right is sound. -/
theorem rightDisjunction_sound (logic : th.OfLogic) :
    Plan.Sound.{u} th (rightDisjunction th) := by
  refine primitive_sound fun goal s goals s' ofLogic run => ?_
  obtain ⟨m, s₁, parts, run⟩ := Build.bind_ok run
  obtain ⟨c, x, y, found, named, isX, isY⟩ := logic.disjunction parts
  have front : goal.right = _ :: goal.right.tail := side_eq_cons found
  have rights := ofLogic.right
  rw [front, List.forall_mem_cons] at rights
  obtain ⟨first, second, _⟩ := rights.1.1.disjunction_types named
  rw [isX, isY] at run
  refine one_reduces ofLogic.left (List.forall_mem_cons.mpr
      ⟨⟨rights.1.1.function.argument, first⟩, List.forall_mem_cons.mpr
        ⟨⟨rights.1.1.argument, second⟩, rights.2⟩⟩)
    (fun _ valid M ρ assumed => ?_) run
  rw [front]
  obtain ⟨t, member, holds⟩ := valid M ρ assumed
  simp only [List.mem_cons] at member
  rcases member with rfl | rfl | later
  · exact ⟨_, List.mem_cons_self, (Model.holds_or named).mpr (.inl holds)⟩
  · exact ⟨_, List.mem_cons_self, (Model.holds_or named).mpr (.inr holds)⟩
  · exact ⟨t, List.mem_cons_of_mem _ later, holds⟩

/-! ## Quantifiers -/

/-- An instance of a universal is a formula. -/
theorem instance_formula {v : Symbol} {b witness t' : Term} (bound : v.type = .obj)
    (formula : b.type = .bool)
    (substituted : Term.Substituted.{u} witness (.var v) b t' captured) :
    t'.type = .bool ∧ (captured = false → Term.Replaces.{u} witness (.var v) b t') := by
  rcases substituted.outcome with ⟨types, replaces⟩ | strays
  · exact ⟨types.trans formula, replaces⟩
  · rw [formula, Term.type, bound] at strays
    exact strays.not_bool.elim

/-- An instance on the left is sound for a meaningful witness. -/
theorem leftUniversal_sound (logic : th.OfLogic) {witness : Term}
    (meaningful : witness.Meaningful) : Plan.Sound.{u} th (leftUniversal th witness) := by
  refine primitive_sound fun goal s goals s' ofLogic run => ?_
  obtain ⟨m, s₁, parts, run⟩ := Build.bind_ok run
  obtain ⟨t', s₂, instantiated, run⟩ := Build.bind_ok run
  have clearness : captures th ⟨"left_universal", [.term witness]⟩ goal s =
      (part m "phi").captures witness (part m "x") s₁ := Build.leadsTo_of_run parts _
  obtain ⟨c, v, b, found, named, isV, isB⟩ := logic.universal parts
  rw [clearness, isV, isB]
  rw [isV, isB] at instantiated
  have front : goal.left = _ :: goal.left.tail := side_eq_cons found
  have lefts := ofLogic.left
  rw [front, List.forall_mem_cons] at lefts
  obtain ⟨bound, body, formula⟩ :=
    lefts.1.binder_types (Logical.type_forAll lefts.1.function.speaks named)
  have apt : Term.Apt witness (.var v) := .inr (.inl bound)
  have substituted := lefts.1.argument.body.substituted.{u} meaningful apt instantiated
  obtain ⟨type, replaces⟩ := instance_formula bound body substituted
  refine one_reduces (List.forall_mem_cons.mpr ⟨substituted.meaningful, ofLogic.left⟩)
    ofLogic.right (fun clear valid M ρ assumed => ?_) run
  refine valid M ρ (List.forall_mem_cons.mpr ⟨fun _ => ?_, assumed⟩)
  rw [front, List.forall_mem_cons] at assumed
  have all := (Model.holds_forAll named bound body).mp (assumed.1 formula)
  have instance' := all ((M.denote witness ρ).as v.type)
  rw [Model.Holds, ← replaces clear M ρ _ (Term.Reads.assigned meaningful ρ)] at instance'
  exact instance'

/-- An instance of a schema is sound for a meaningful predicate. -/
theorem leftSchema_sound (logic : th.OfLogic) {witness : Term}
    (meaningful : witness.Meaningful) : Plan.Sound.{u} th (leftSchema th witness) := by
  refine primitive_sound fun goal s goals s' ofLogic run => ?_
  obtain ⟨m, s₁, parts, run⟩ := Build.bind_ok run
  obtain ⟨t', s₂, instantiated, run⟩ := Build.bind_ok run
  have clearness : captures th ⟨"left_schema", [.term witness]⟩ goal s =
      (part m "psi").captures witness (part m "phi") s₁ := Build.leadsTo_of_run parts _
  obtain ⟨c, v, b, found, named, isV, isB⟩ := logic.schema parts
  rw [clearness, isV, isB]
  rw [isV, isB] at instantiated
  have front : goal.left = _ :: goal.left.tail := side_eq_cons found
  have lefts := ofLogic.left
  rw [front, List.forall_mem_cons] at lefts
  obtain ⟨bound, body, formula⟩ :=
    lefts.1.binder_types (Logical.type_schema lefts.1.function.speaks named)
  have apt : Term.Apt witness (.var v) := .inr (.inr bound)
  have substituted := lefts.1.argument.body.substituted.{u} meaningful apt instantiated
  refine one_reduces (List.forall_mem_cons.mpr ⟨substituted.meaningful, ofLogic.left⟩)
    ofLogic.right (fun clear valid M ρ assumed => ?_) run
  refine valid M ρ (List.forall_mem_cons.mpr ⟨fun type => ?_, assumed⟩)
  rcases substituted.outcome with ⟨_, replaces⟩ | strays
  · rw [front, List.forall_mem_cons] at assumed
    have all := (Model.holds_schema named bound body).mp (assumed.1 formula)
    have instance' := all ((M.denote witness ρ).as v.type)
    rw [Model.Holds, ← replaces clear M ρ _ (Term.Reads.assigned meaningful ρ)] at instance'
    exact instance'
  -- The instance is no formula and so is not assumed.
  · exact absurd (body.trans type.symm) strays.ne

/-- What an instance with a new variable says for a suitable value of it, the body says for any
value of the bound variable. -/
theorem fresh_instance {v w : Symbol} {b t' : Term} (meaningful : (Term.lam v b).Meaningful)
    (meaningfulW : (Term.var w).Meaningful) (replaces : Term.Replaces.{u} (.var w) (.var v) b t')
    (unused : w.name ∉ (Term.lam v b).freeNames) {M : Model.{u}} (ρ : M.Assignment)
    (a : M.Carrier v.type) : ∃ ρ' : M.Assignment, (∀ r, r.name ≠ w.name → ρ' r = ρ r) ∧
      M.denote t' ρ' = M.denote b (ρ.set v a) := by
  by_cases typed : w.type = v.type
  · obtain ⟨name, _⟩ := w
    cases typed
    refine ⟨ρ.set ⟨name, v.type⟩ a, fun r apart => Model.Assignment.set_other fun same =>
      apart (same ▸ rfl), ?_⟩
    rw [replaces M _ _ (Term.Reads.assigned meaningfulW _)]
    have plain := meaningful.proper.plain
    refine meaningful.body.denote_congr fun r member => ?_
    by_cases same : r = v
    · subst same
      rw [Model.Assignment.set_same, Model.Assignment.set_same, Model.denote,
        Model.Assignment.set_same, Model.Value.as_mk]
    · have other : r ≠ ⟨name, v.type⟩ := by
        rintro rfl
        exact unused (List.mem_map_of_mem (plain.mem_free_lam.mpr ⟨member, same⟩))
      rw [Model.Assignment.set_other same, Model.Assignment.set_other same,
        Model.Assignment.set_other other]
  -- A variable of another type stands nowhere in the instance.
  · have reads : Term.Reads (.var w) (.var v) ρ (ρ.set v a) :=
      ⟨fun r apart => Model.Assignment.set_other fun same => apart (same ▸ rfl),
        fun _ same => absurd same.symm typed⟩
    exact ⟨ρ, fun _ _ => rfl, replaces M ρ _ reads⟩

/-- The name of a new variable is free nowhere in the goal. -/
theorem unused_of_fresh {w : Symbol} (fresh :
      ¬ (goal.free.map Symbol.name).contains w.name = true) :
    ∀ t ∈ goal.left ++ goal.right, w.name ∉ t.freeNames := by
  intro t member used
  obtain ⟨r, free, named⟩ := List.mem_map.mp used
  refine fresh (List.contains_iff_mem.mpr (List.mem_map.mpr ⟨r, ?_, named⟩))
  exact List.mem_flatMap.mpr ⟨t, member, free⟩

/-- An instance on the right is sound for a meaningful witness that is not used elsewhere. -/
theorem rightUniversal_sound (logic : th.OfLogic) {witness : Term}
    (meaningful : witness.Meaningful) : Plan.Sound.{u} th (rightUniversal th witness) := by
  refine primitive_sound fun goal s goals s' ofLogic run => ?_
  obtain ⟨m, s₁, parts, run⟩ := Build.bind_ok run
  have clearness : captures th ⟨"right_universal", [.term witness]⟩ goal s =
      (part m "phi").captures witness (part m "x") s₁ := Build.leadsTo_of_run parts _
  obtain ⟨c, v, b, found, named, isV, isB⟩ := logic.universal parts
  rw [clearness, isV, isB]
  have front : goal.right = _ :: goal.right.tail := side_eq_cons found
  have rights := ofLogic.right
  rw [front, List.forall_mem_cons] at rights
  obtain ⟨bound, body, _⟩ :=
    rights.1.1.binder_types (Logical.type_forAll rights.1.1.function.speaks named)
  match witness with
  | .var w =>
    dsimp only at run
    split at run
    next => cases (Build.lift_ok run).1
    next fresh =>
      obtain ⟨t', s₂, instantiated, run⟩ := Build.bind_ok run
      rw [isV, isB] at instantiated
      have apt : Term.Apt (.var w) (.var v) := .inr (.inl bound)
      have substituted := rights.1.1.argument.body.substituted.{u} meaningful apt instantiated
      obtain ⟨type, replaces⟩ := instance_formula bound body substituted
      have unused := unused_of_fresh fresh
      rw [List.forall_mem_append, front, List.forall_mem_cons] at unused
      refine one_reduces ofLogic.left
        (List.forall_mem_cons.mpr ⟨⟨substituted.meaningful, type⟩, rights.2⟩)
        (fun clear valid M ρ assumed => ?_) run
      rw [front]
      by_cases others : ∃ t ∈ goal.right.tail, M.Holds ρ t
      · obtain ⟨t, member, holds⟩ := others
        exact ⟨t, List.mem_cons_of_mem _ member, holds⟩
      refine ⟨_, List.mem_cons_self, (Model.holds_forAll named bound body).mpr fun a => ?_⟩
      have unusedBody : w.name ∉ (Term.lam v b).freeNames := by
        simpa [Term.freeNames, Term.free] using unused.2.1
      obtain ⟨ρ', agree, same⟩ := fresh_instance rights.1.1.argument meaningful
        (replaces clear) unusedBody ρ a
      -- The other formulas mean the same under both assignments.
      have elsewhere : ∀ t : Term, t.Meaningful → w.name ∉ t.freeNames →
          (M.Holds ρ' t ↔ M.Holds ρ t) := by
        intro t meaningfulT absent
        have values : M.denote t ρ' = M.denote t ρ := meaningfulT.denote_congr fun r free =>
          agree r fun names => absent (names ▸ List.mem_map_of_mem free)
        rw [Model.Holds, Model.Holds, values]
      obtain ⟨t, member, holds⟩ := valid M ρ' fun t member formula =>
        (elsewhere t (ofLogic.left t member) (unused.1 t member)).mpr (assumed t member formula)
      rcases List.mem_cons.mp member with rfl | later
      · rw [Model.Holds, same] at holds
        exact holds
      · exact absurd ⟨t, later, (elsewhere t (rights.2 t later).1 (unused.2.2 t later)).mp holds⟩
          others
  | .const _ | .app _ _ | .lam _ _ => cases (Build.lift_ok run).1

end Rule

end Turnstile
