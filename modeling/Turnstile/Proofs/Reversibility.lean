import Turnstile.Proofs.Connectives

/-!
# What the propositional rules keep

The structural rules and the primitive rules for negation, disjunction and equations move formulas,
repeat them and take them apart, and change none of those they do not take apart. A valuation
satisfies a goal if a formula on the left is false or one on the right is true. All of these rules
but weakening can be taken back: whatever satisfies the goal satisfies every goal that is left, and
whatever satisfies all of these satisfies the goal.
-/

namespace Turnstile

open Build Logic

universe u

/-- An equation under the equality of a type. -/
def Logic.equation (t : Ty) (a b : Term) : Term :=
  .app (.app (.const ⟨"=", .arrow t (.arrow t .bool)⟩) a) b

/-! ## Goals over the constants of logic -/

namespace Term

variable {c : Symbol} {a b : Term}

/-- An equality of two declared terms is an equation of some type. -/
theorem Declared.eq_equation (declared : (app (app (const c) a) b).Declared)
    (named : c.name = "=") : ∃ t, app (app (const c) a) b = equation t a b := by
  obtain ⟨t, typed⟩ := Logical.type_equality declared.1.1 named
  have is : c = ⟨"=", .arrow t (.arrow t .bool)⟩ := Symbol.ext_iff'.mpr ⟨named, typed⟩
  exact ⟨t, by rw [is, equation]⟩

/-- An equation may be read from either side. -/
theorem Proper.equation_symm {t : Ty} (proper : (equation t a b).Proper) :
    (equation t b a).Proper := by
  obtain ⟨codomain, typed⟩ := proper.wellTyped.2.2
  obtain ⟨codomain', typed'⟩ := proper.wellTyped.1.2.2
  have left : a.type = t := (Ty.arrow.inj typed').1.symm
  have right : b.type = t := (Ty.arrow.inj typed).1.symm
  refine ⟨⟨?_, proper.uniform.subset fun s member => ?_⟩, ?_⟩
  · refine ⟨⟨trivial, proper.argument.wellTyped, .arrow t .bool, ?_⟩,
      proper.function.argument.wellTyped, .bool, ?_⟩
    · rw [right]
      rfl
    · rw [left]
      rfl
  · simp only [equation, free, List.nil_append, List.mem_append] at member ⊢
    exact member.symm
  · exact ⟨⟨proper.plain.1.1, proper.plain.2⟩, proper.plain.1.2⟩

end Term

/-! ## Valuations -/

/-- Truth values for formulas that respect negation, disjunction and the symmetry of equality. -/
structure Valuation where
  /-- Whether a formula is true. -/
  holds : Term → Bool
  /-- A negation is true if what is denied is not. -/
  neg : ∀ {P}, (Logic.neg P).Proper → holds (Logic.neg P) = !holds P
  /-- A disjunction is true if one of its parts is. -/
  or : ∀ {P Q}, (join "or" P Q).Proper → holds (join "or" P Q) = (holds P || holds Q)
  /-- An equation is as true as the one with its sides exchanged. -/
  symm : ∀ {t a b}, (equation t a b).Proper → holds (equation t a b) = holds (equation t b a)

/-- The truth value of a formula that satisfies a goal from this side. -/
def Side.satisfying : Side → Bool
  | .left => false
  | .right => true

namespace Valuation

variable {v : Valuation} {side : Side} {here there : List Term}

/-- A valuation satisfies a goal if a formula on the left is false or one on the right is true. -/
def Satisfies (v : Valuation) (goal : Sequent) : Prop :=
  (∃ P ∈ goal.left, v.holds P = false) ∨ ∃ P ∈ goal.right, v.holds P = true

/-- A sequent holds if one of its formulas is as its side wants it. -/
theorem satisfies_goal : v.Satisfies (side.goal here there) ↔
    (∃ P ∈ here, v.holds P = side.satisfying) ∨ ∃ P ∈ there, v.holds P = !side.satisfying := by
  cases side with
  | left => rfl
  | right => exact or_comm

end Valuation

open Classical in
/-- What is true in a model under an assignment. -/
noncomputable def Model.valuation (M : Model.{u}) (ρ : M.Assignment) : Valuation where
  holds t := decide (M.Holds ρ t)
  neg _ := by
    rw [Bool.eq_iff_iff]
    simp [Logic.neg, Model.holds_not]
  or _ := by
    rw [Bool.eq_iff_iff]
    simp [join, Model.holds_or]
  symm _ := by
    rw [Bool.eq_iff_iff]
    simp [equation, Model.Holds, Model.denote, Model.constant, Ty.domain, eq_comm]

/-- A goal is valid if what is true in a model always satisfies it. -/
theorem Sequent.valid_iff {goal : Sequent} : Sequent.Valid.{u} goal ↔
    ∀ (M : Model.{u}) (ρ : M.Assignment), (M.valuation ρ).Satisfies goal := by
  refine forall₂_congr fun M ρ => ?_
  simp only [Valuation.Satisfies, Model.valuation, decide_eq_false_iff_not, decide_eq_true_eq]
  rw [imp_iff_not_or, not_forall₂]
  simp only [exists_prop]

/-! ## The rules and what they leave -/

namespace Rule

/-- The structural rules and the primitive rules for propositions and equations. -/
inductive Propositional
  | noop
  | close
  | permutation (side : Side) (index : Int)
  | contraction (side : Side)
  | weakening (side : Side)
  | negation (side : Side)
  | disjunction (side : Side)
  | symmetry (side : Side)
  deriving DecidableEq

namespace Propositional

/-- The rule of a theory. -/
def plan (th : Theory) : Propositional → Plan
  | noop => Rule.noop
  | close => Rule.close
  | permutation .left index => leftPermutation index
  | permutation .right index => rightPermutation index
  | contraction .left => leftContraction
  | contraction .right => rightContraction
  | weakening .left => leftWeakening
  | weakening .right => rightWeakening
  | negation .left => leftNegation th
  | negation .right => rightNegation th
  | disjunction .left => leftDisjunction th
  | disjunction .right => rightDisjunction th
  | symmetry .left => leftSymmetry th
  | symmetry .right => rightSymmetry th

/-- The rule neither drops a formula nor closes the goal. -/
def Reversible : Propositional → Prop
  | close | weakening _ => False
  | _ => True

/-- What a rule leaves of a goal, formula by formula. -/
inductive Leaves : Propositional → Sequent → List Sequent → Prop
  | noop {goal} : Leaves noop goal [goal]
  | close {P Γ Δ} : Leaves close ⟨P :: Γ, P :: Δ⟩ []
  | permutation (side) {before P after there} :
    Leaves (permutation side (before.length : Nat)) (side.goal (before ++ P :: after) there)
      [side.goal (P :: (before ++ after)) there]
  | contraction (side) {P here there} :
    Leaves (contraction side) (side.goal (P :: here) there) [side.goal (P :: P :: here) there]
  | weakening (side) {P here there} :
    Leaves (weakening side) (side.goal (P :: here) there) [side.goal here there]
  | negation (side) {P here there} :
    Leaves (negation side) (side.goal (neg P :: here) there) [side.goal here (P :: there)]
  | leftDisjunction {P Q Γ Δ} :
    Leaves (disjunction .left) ⟨join "or" P Q :: Γ, Δ⟩ [⟨P :: Γ, Δ⟩, ⟨Q :: Γ, Δ⟩]
  | rightDisjunction {P Q Γ Δ} :
    Leaves (disjunction .right) ⟨Γ, join "or" P Q :: Δ⟩ [⟨Γ, P :: Q :: Δ⟩]
  | symmetry (side) {t a b here there} :
    Leaves (symmetry side) (side.goal (equation t a b :: here) there)
      [side.goal (equation t b a :: here) there]

variable {rule : Propositional} {goal : Sequent} {goals : List Sequent} {v : Valuation}

/-- The goals that are left are over the constants of logic. -/
theorem Leaves.overLogic (leaves : Leaves rule goal goals) (overLogic : goal.OverLogic) :
    ∀ g ∈ goals, g.OverLogic := by
  cases leaves with
  | noop => exact List.forall_mem_singleton.mpr overLogic
  | close => exact List.forall_mem_nil _
  | permutation =>
    obtain ⟨before, rest⟩ := List.forall_mem_append.mp overLogic.offers_here
    obtain ⟨formula, after⟩ := List.forall_mem_cons.mp rest
    refine List.forall_mem_singleton.mpr (overLogic.of_offers _ ?_ overLogic.offers_there)
    exact List.forall_mem_cons.mpr ⟨formula, List.forall_mem_append.mpr ⟨before, after⟩⟩
  | contraction =>
    refine List.forall_mem_singleton.mpr (overLogic.of_offers _ ?_ overLogic.offers_there)
    exact List.forall_mem_cons.mpr ⟨overLogic.offers_first, overLogic.offers_here⟩
  | weakening =>
    obtain ⟨-, rest⟩ := List.forall_mem_cons.mp overLogic.offers_here
    exact List.forall_mem_singleton.mpr (overLogic.of_offers _ rest overLogic.offers_there)
  | negation =>
    obtain ⟨formula, rest⟩ := List.forall_mem_cons.mp overLogic.offers_here
    refine List.forall_mem_singleton.mpr (overLogic.of_offers _ rest ?_)
    exact List.forall_mem_cons.mpr ⟨formula.argument, overLogic.offers_there⟩
  | leftDisjunction =>
    have overLogic : (Side.left.goal _ _).OverLogic := overLogic
    obtain ⟨formula, rest⟩ := List.forall_mem_cons.mp overLogic.offers_here
    have part : ∀ t, (⟨_ :: _, _⟩ : Sequent).Offers t → (Side.left.goal (t :: _) _).OverLogic :=
      fun t offered => overLogic.of_offers .left (List.forall_mem_cons.mpr ⟨offered, rest⟩)
        overLogic.offers_there
    exact List.forall_mem_cons.mpr ⟨part _ formula.function.argument,
      List.forall_mem_singleton.mpr (part _ formula.argument)⟩
  | rightDisjunction =>
    have overLogic : (Side.right.goal _ _).OverLogic := overLogic
    obtain ⟨formula, rest⟩ := List.forall_mem_cons.mp overLogic.offers_here
    refine List.forall_mem_singleton.mpr
      (overLogic.of_offers .right ?_ overLogic.offers_there)
    exact List.forall_mem_cons.mpr
      ⟨formula.function.argument, List.forall_mem_cons.mpr ⟨formula.argument, rest⟩⟩
  | symmetry =>
    obtain ⟨formula, rest⟩ := List.forall_mem_cons.mp overLogic.offers_here
    refine List.forall_mem_singleton.mpr (overLogic.of_offers _ ?_ overLogic.offers_there)
    refine List.forall_mem_cons.mpr ⟨⟨formula.proper.equation_symm, ?_, ?_⟩, rest⟩
    · obtain ⟨⟨equality, left⟩, right⟩ := formula.declared
      exact ⟨⟨equality, right⟩, left⟩
    · refine fun s occurs => formula.free ?_
      simp only [equation, Term.free, List.nil_append, List.mem_append] at occurs ⊢
      exact occurs.symm

/-- A reversible rule leaves goals that are satisfied together exactly if the goal was. -/
theorem Leaves.satisfies_iff (leaves : Leaves rule goal goals) (reversible : rule.Reversible)
    (overLogic : goal.OverLogic) : v.Satisfies goal ↔ ∀ g ∈ goals, v.Satisfies g := by
  cases leaves with
  | noop => exact List.forall_mem_singleton.symm
  | close | weakening => exact reversible.elim
  | permutation =>
    simp only [List.forall_mem_singleton, Valuation.satisfies_goal, List.mem_append, or_and_right,
      exists_or, List.exists_mem_cons_iff]
    exact or_congr_left or_left_comm
  | contraction =>
    simp only [List.forall_mem_singleton, Valuation.satisfies_goal, List.exists_mem_cons_iff,
      or_self_left]
  | negation =>
    have flipped := v.neg overLogic.offers_first.proper
    simp only [List.forall_mem_singleton, Valuation.satisfies_goal, List.exists_mem_cons_iff,
      flipped, Bool.not_eq_eq_eq_not]
    rw [or_assoc, or_left_comm]
  | leftDisjunction =>
    have overLogic : (Side.left.goal _ _).OverLogic := overLogic
    have either := v.or overLogic.offers_first.proper
    rw [List.forall_mem_cons, List.forall_mem_singleton]
    simp only [Valuation.Satisfies, List.exists_mem_cons_iff, either, Bool.or_eq_false_iff]
    rw [and_or_right, and_or_right]
  | rightDisjunction =>
    have overLogic : (Side.right.goal _ _).OverLogic := overLogic
    have either := v.or overLogic.offers_first.proper
    simp only [List.forall_mem_singleton, Valuation.Satisfies, List.exists_mem_cons_iff, either,
      Bool.or_eq_true_iff, or_assoc]
  | symmetry =>
    have exchanged := v.symm overLogic.offers_first.proper
    simp only [List.forall_mem_singleton, Valuation.satisfies_goal, List.exists_mem_cons_iff,
      exchanged]

/-- What satisfies a goal without one of its formulas satisfies the goal. -/
theorem Leaves.satisfies_of_weakening {side : Side} (leaves : Leaves (.weakening side) goal goals) :
    ∃ g, goals = [g] ∧ ∀ v : Valuation, v.Satisfies g → v.Satisfies goal := by
  cases leaves with
  | weakening =>
    refine ⟨_, rfl, fun v satisfied => ?_⟩
    rw [Valuation.satisfies_goal] at satisfied
    rw [Valuation.satisfies_goal, List.exists_mem_cons_iff, or_assoc]
    exact .inr satisfied

/-- A goal that can be closed is satisfied. -/
theorem Leaves.satisfies_of_close (leaves : Leaves .close goal goals) : v.Satisfies goal := by
  cases leaves with
  | @close P Γ Δ =>
    cases value : v.holds P with
    | false => exact .inl ⟨P, List.mem_cons_self, value⟩
    | true => exact .inr ⟨P, List.mem_cons_self, value⟩

/-! ## Runs -/

section

variable {th : Theory} {l r : List Term} {a b : Term} {t : Ty} {m : Bindings} {s s' : Supply}

/-- A formula is moved from its place to the front. -/
theorem permuted_ok {formulas moved : List Term} {index : Int}
    (done : permuted formulas index = .ok moved) : ∃ before P after,
      formulas = before ++ P :: after ∧ index = before.length ∧ moved = P :: (before ++ after) := by
  rw [permuted] at done
  split at done
  next => cases done
  next nonneg =>
    split at done
    next => cases done
    next P found =>
      cases done
      obtain ⟨inside, rfl⟩ := List.getElem?_eq_some_iff.mp found
      refine ⟨formulas.take index.toNat, formulas[index.toNat], formulas.drop (index.toNat + 1),
        ?_, ?_, ?_⟩
      · rw [← List.drop_eq_getElem_cons, List.take_append_drop]
      · rw [List.length_take]
        omega
      · rw [List.eraseIdx_eq_take_drop_succ]

/-- Permuting to the place of a formula brings it to the front. -/
theorem permuted_middle (before after : List Term) (P : Term) :
    permuted (before ++ P :: after) (before.length : Nat) = .ok (P :: (before ++ after)) := by
  rw [permuted, if_neg (by omega)]
  simp only [Int.toNat_natCast, List.getElem?_append_right (Nat.le_refl _), Nat.sub_self,
    List.getElem?_cons_zero]
  rw [List.eraseIdx_append_of_length_le (Nat.le_refl _), Nat.sub_self, List.eraseIdx_cons_zero]

/-- The sides of an equation are exchanged under its own equality. -/
theorem flipped_equation (proper : (equation t a b).Proper) (left : part m "a" = a)
    (right : part m "b" = b) (s : Supply) :
    (flipped (equation t a b) m).runFrom s = (.ok (equation t b a), s) := by
  have symm := proper.equation_symm
  rw [flipped, left, right]
  change ((Term.const ⟨"=", .arrow t (.arrow t .bool)⟩).mkApps [b, a]).runFrom s = _
  rw [Term.mkApps, runFrom_bind_ok (symm.function.mkApp_good s), Term.mkApps,
    runFrom_bind_ok (symm.mkApp_good s)]
  rfl

/-- The one goal that a rule leaves has the formulas as they are. -/
theorem Leaves.of_one (leaves : Leaves rule goal [⟨l, r⟩]) (overLogic : goal.OverLogic)
    (run : (liftM (one l r) : Build (List Sequent)).runFrom s = (.ok goals, s')) :
    Leaves rule goal goals := by
  have good := leaves.overLogic overLogic _ (List.mem_singleton_self _)
  cases (runFrom_one good.make s).symm.trans run
  exact leaves

/-- The first formula of a side. -/
theorem eq_goal_of_found {side : Side} {P : Term} (found : (goal.side side)[0]? = some P) :
    ∃ here there, goal = side.goal (P :: here) there := by
  obtain ⟨Γ, Δ⟩ := goal
  cases side with
  | left => exact ⟨_, Δ, congrArg (Sequent.mk · Δ) (side_eq_cons found)⟩
  | right => exact ⟨_, Γ, congrArg (Sequent.mk Γ) (side_eq_cons found)⟩

section

variable {side : Side} (logic : th.OfLogic) (overLogic : goal.OverLogic)

include logic overLogic

/-- A goal with the parts of a negation begins with the negation. -/
theorem eq_goal_of_negation
    (parts : (th.parts goal side 0 .negation).runFrom s = (.ok m, s')) :
    ∃ here there, goal = side.goal (neg (part m "a") :: here) there := by
  obtain ⟨c, P, found, named, rfl⟩ := logic.negation parts
  obtain ⟨here, there, rfl⟩ := eq_goal_of_found found
  refine ⟨here, there, ?_⟩
  rw [overLogic.offers_first.declared.eq_neg named]

/-- A goal with the parts of a disjunction begins with the disjunction. -/
theorem eq_goal_of_disjunction
    (parts : (th.parts goal side 0 .disjunction).runFrom s = (.ok m, s')) :
    ∃ here there, goal = side.goal (join "or" (part m "a") (part m "b") :: here) there := by
  obtain ⟨c, P, Q, found, named, rfl, rfl⟩ := logic.disjunction parts
  obtain ⟨here, there, rfl⟩ := eq_goal_of_found found
  refine ⟨here, there, ?_⟩
  rw [overLogic.offers_first.declared.eq_or named]

/-- A goal with the parts of an equation begins with the equation. -/
theorem eq_goal_of_equation
    (parts : (th.parts goal side 0 .equation).runFrom s = (.ok m, s')) :
    ∃ t here there, goal = side.goal (equation t (part m "a") (part m "b") :: here) there := by
  obtain ⟨c, a, b, found, named, rfl, rfl⟩ := logic.equation parts
  obtain ⟨here, there, rfl⟩ := eq_goal_of_found found
  obtain ⟨t, is⟩ := overLogic.offers_first.declared.eq_equation named
  exact ⟨t, here, there, by rw [is]⟩

/-- What a structural or propositional rule leaves where it runs. -/
theorem leaves_of_run (run : ((rule.plan th).subgoals goal).runFrom s = (.ok goals, s')) :
    Leaves rule goal goals := by
  match rule, goal with
  | .noop, goal =>
    cases (runFrom_noop goal s).symm.trans run
    exact .noop
  | .close, ⟨[], _⟩ | .close, ⟨_ :: _, []⟩ => cases primitive_ok_iff.mp run
  | .close, ⟨P :: Γ, Q :: Δ⟩ =>
    obtain ⟨rfl, rfl, -⟩ := close_ok_iff.mp run
    exact .close
  | .permutation .left _, ⟨Γ, Δ⟩ =>
    obtain ⟨moved, s₁, done, made⟩ := bind_ok (primitive_ok_iff.mp run)
    obtain ⟨before, P, after, rfl, rfl, rfl⟩ := permuted_ok (lift_ok done).1
    exact (Leaves.permutation .left).of_one overLogic made
  | .permutation .right _, ⟨Γ, Δ⟩ =>
    obtain ⟨moved, s₁, done, made⟩ := bind_ok (primitive_ok_iff.mp run)
    obtain ⟨before, P, after, rfl, rfl, rfl⟩ := permuted_ok (lift_ok done).1
    exact (Leaves.permutation .right).of_one overLogic made
  | .contraction .left, ⟨[], _⟩ | .contraction .right, ⟨_, []⟩ => cases primitive_ok_iff.mp run
  | .contraction .left, ⟨P :: Γ, Δ⟩ =>
    exact (Leaves.contraction .left).of_one overLogic (primitive_ok_iff.mp run)
  | .contraction .right, ⟨Γ, P :: Δ⟩ =>
    exact (Leaves.contraction .right).of_one overLogic (primitive_ok_iff.mp run)
  | .weakening .left, ⟨[], _⟩ | .weakening .right, ⟨_, []⟩ => cases primitive_ok_iff.mp run
  | .weakening .left, ⟨P :: Γ, Δ⟩ =>
    exact (Leaves.weakening .left).of_one overLogic (primitive_ok_iff.mp run)
  | .weakening .right, ⟨Γ, P :: Δ⟩ =>
    exact (Leaves.weakening .right).of_one overLogic (primitive_ok_iff.mp run)
  | .negation .left, goal =>
    obtain ⟨m, s₁, parts, made⟩ := bind_ok (primitive_ok_iff.mp run)
    obtain ⟨here, there, rfl⟩ := eq_goal_of_negation logic overLogic parts
    exact (Leaves.negation .left).of_one overLogic made
  | .negation .right, goal =>
    obtain ⟨m, s₁, parts, made⟩ := bind_ok (primitive_ok_iff.mp run)
    obtain ⟨here, there, rfl⟩ := eq_goal_of_negation logic overLogic parts
    exact (Leaves.negation .right).of_one overLogic made
  | .disjunction .left, goal =>
    obtain ⟨m, s₁, parts, made⟩ := bind_ok (primitive_ok_iff.mp run)
    obtain ⟨here, there, rfl⟩ := eq_goal_of_disjunction logic overLogic parts
    obtain ⟨first, rest⟩ := List.forall_mem_cons.mp (Leaves.leftDisjunction.overLogic overLogic)
    have second := List.forall_mem_singleton.mp rest
    obtain ⟨_, s₂, one, made⟩ := bind_ok made
    obtain ⟨_, s₃, two, made⟩ := bind_ok made
    cases one.symm.trans (runFrom_make first.make s₁)
    cases two.symm.trans (runFrom_make second.make s₁)
    cases made
    exact .leftDisjunction
  | .disjunction .right, goal =>
    obtain ⟨m, s₁, parts, made⟩ := bind_ok (primitive_ok_iff.mp run)
    obtain ⟨here, there, rfl⟩ := eq_goal_of_disjunction logic overLogic parts
    exact Leaves.rightDisjunction.of_one overLogic made
  | .symmetry .left, goal =>
    obtain ⟨m, s₁, parts, made⟩ := bind_ok (primitive_ok_iff.mp run)
    obtain ⟨t, here, there, rfl⟩ := eq_goal_of_equation logic overLogic parts
    have proper := overLogic.offers_first.proper
    obtain ⟨flip, s₂, flipped, made⟩ := bind_ok made
    cases flipped.symm.trans (flipped_equation proper rfl rfl s₁)
    exact (Leaves.symmetry .left).of_one overLogic made
  | .symmetry .right, goal =>
    obtain ⟨m, s₁, parts, made⟩ := bind_ok (primitive_ok_iff.mp run)
    obtain ⟨t, here, there, rfl⟩ := eq_goal_of_equation logic overLogic parts
    have proper := overLogic.offers_first.proper
    obtain ⟨flip, s₂, flipped, made⟩ := bind_ok made
    cases flipped.symm.trans (flipped_equation proper rfl rfl s₁)
    exact (Leaves.symmetry .right).of_one overLogic made

/-- The rules run on every goal of their form. Only of equations more is asked: the type of the
sides must be one that the pattern of equations can have. -/
theorem run_of_leaves (leaves : Leaves rule goal goals) (apart : ∀ side, rule ≠ .symmetry side)
    (s : Supply) : ((rule.plan th).subgoals goal).runFrom s = (.ok goals, s) := by
  have good := leaves.overLogic overLogic
  cases leaves with
  | noop => exact runFrom_noop goal s
  | close => exact close_ok_iff.mpr ⟨rfl, rfl, rfl⟩
  | @permutation side before P after there =>
    have made := List.forall_mem_singleton.mp good
    have moved : (liftM (permuted (before ++ P :: after) before.length) : Build _).runFrom s =
        (.ok (P :: (before ++ after)), s) := by rw [runFrom_lift, permuted_middle]
    match side with
    | .left => exact runFrom_primitive ((runFrom_bind_ok moved).trans (runFrom_one made.make s))
    | .right => exact runFrom_primitive ((runFrom_bind_ok moved).trans (runFrom_one made.make s))
  | @contraction side _ _ _ | @weakening side _ _ _ =>
    have made := List.forall_mem_singleton.mp good
    match side with
    | .left | .right => exact runFrom_primitive (runFrom_one made.make s)
  | @negation side P here there =>
    have made := List.forall_mem_singleton.mp good
    have typed := overLogic.offers_first.proper.neg_type
    have found : ((side.goal (neg P :: here) there).side side)[0]? = some (neg P) := by simp
    have parts := negation_parts logic typed found s
    match side with
    | .left => exact runFrom_primitive ((runFrom_bind_ok parts).trans (runFrom_one made.make s))
    | .right => exact runFrom_primitive ((runFrom_bind_ok parts).trans (runFrom_one made.make s))
  | @leftDisjunction P Q Γ Δ =>
    have overLogic : (Side.left.goal _ _).OverLogic := overLogic
    obtain ⟨first, rest⟩ := List.forall_mem_cons.mp good
    have second := List.forall_mem_singleton.mp rest
    obtain ⟨typed, typed'⟩ := overLogic.offers_first.proper.join_types
    refine runFrom_primitive ?_
    refine (runFrom_bind_ok (disjunction_parts logic typed typed' rfl s)).trans ?_
    exact (runFrom_bind_ok (runFrom_make first.make s)).trans
      (runFrom_bind_ok (runFrom_make second.make s))
  | @rightDisjunction P Q Γ Δ =>
    have overLogic : (Side.right.goal _ _).OverLogic := overLogic
    have made := List.forall_mem_singleton.mp good
    obtain ⟨typed, typed'⟩ := overLogic.offers_first.proper.join_types
    refine runFrom_primitive ?_
    refine (runFrom_bind_ok (disjunction_parts logic typed typed' rfl s)).trans ?_
    exact runFrom_one made.make s
  | symmetry => exact absurd rfl (apart _)

end

end

end Propositional

end Rule

/-! ## Plans -/

/-- A plan made of reversible rules, some of its goals left open. -/
inductive Plan.Reversible (th : Theory) : Plan → Prop
  | assumption (id : Nat) : Reversible th (.assumption id)
  | rule {r : Rule.Propositional} (reversible : r.Reversible) : Reversible th (r.plan th)
  | branch {first : Plan} {next : List Plan} (head : Reversible th first)
    (rest : ∀ p ∈ next, Reversible th p) : Reversible th (.branch first next)

/-- Goals that are satisfied together by the valuations that satisfy a goal. -/
structure Sequent.Equivalent (goal : Sequent) (goals : List Sequent) : Prop where
  /-- They are over the constants of logic. -/
  overLogic : ∀ g ∈ goals, g.OverLogic
  /-- Satisfying the goal is satisfying all of them. -/
  satisfies : ∀ v : Valuation, v.Satisfies goal ↔ ∀ g ∈ goals, v.Satisfies g

/-- A goal is as valid as the goals that are satisfied where it is. -/
theorem Sequent.Equivalent.valid_iff {goal : Sequent} {goals : List Sequent}
    (equivalent : goal.Equivalent goals) :
    Sequent.Valid.{u} goal ↔ ∀ g ∈ goals, Sequent.Valid.{u} g := by
  simp only [Sequent.valid_iff, equivalent.satisfies]
  exact ⟨fun all g member M ρ => all M ρ g member, fun all M ρ g member => all g member M ρ⟩

namespace Plan

variable {th : Theory} {p : Plan} {goal : Sequent} {goals : List Sequent} {s s' : Supply}

/-- If some plans leave goals equivalent to theirs, together they do. -/
theorem runAll_equivalent {plans : List Plan} (logic : ∀ p ∈ plans, ∀ {goal goals s s'},
      Sequent.OverLogic goal → (p.subgoals goal).runFrom s = (.ok goals, s') →
        goal.Equivalent goals) :
    ∀ {before after : List Sequent} {s s' : Supply}, (∀ g ∈ before, g.OverLogic) →
      before.length = plans.length →
      (runAll (plans.zip before)).runFrom s = (.ok after, s') →
      (∀ g ∈ after, g.OverLogic) ∧
        ∀ v : Valuation, (∀ g ∈ before, v.Satisfies g) ↔ ∀ g ∈ after, v.Satisfies g := by
  induction plans with
  | nil =>
    intro before after s s' good fits run
    obtain rfl := List.length_eq_zero_iff.mp fits
    cases run
    exact ⟨good, fun _ => Iff.rfl⟩
  | cons p plans ih =>
    intro before after s s' good fits run
    match before with
    | goal :: before =>
      obtain ⟨firstGood, restGood⟩ := List.forall_mem_cons.mp good
      obtain ⟨here, s₁, rest, one, others, rfl⟩ := runAll_cons_ok.mp run
      obtain ⟨goodHere, sameHere⟩ := logic p List.mem_cons_self firstGood one
      obtain ⟨goodRest, sameRest⟩ := ih (fun p member => logic p (List.mem_cons_of_mem _ member))
        restGood (Nat.succ.inj fits) others
      refine ⟨List.forall_mem_append.mpr ⟨goodHere, goodRest⟩, fun v => ?_⟩
      rw [List.forall_mem_cons, List.forall_mem_append, sameHere, sameRest]

/-- A run of a plan of reversible rules leaves goals equivalent to the one it was run on. -/
theorem Reversible.equivalent (reversible : p.Reversible th) (logic : th.OfLogic)
    (overLogic : goal.OverLogic) (run : (p.subgoals goal).runFrom s = (.ok goals, s')) :
    goal.Equivalent goals := by
  induction reversible generalizing goal goals s s' with
  | assumption id =>
    obtain ⟨rfl, -⟩ := subgoals_assumption_ok.mp run
    exact ⟨List.forall_mem_singleton.mpr overLogic, fun v => List.forall_mem_singleton.symm⟩
  | rule reversible =>
    have leaves := Rule.Propositional.leaves_of_run logic overLogic run
    exact ⟨leaves.overLogic overLogic, fun v => leaves.satisfies_iff reversible overLogic⟩
  | branch head rest headIh restIh =>
    obtain ⟨before, s₁, first, fits, run⟩ := subgoals_branch_ok.mp run
    obtain ⟨good, same⟩ := headIh overLogic first
    obtain ⟨goodRest, sameRest⟩ := runAll_equivalent restIh good fits run
    exact ⟨goodRest, fun v => (same v).trans (sameRest v)⟩

end Plan

/-! ## What the rules keep -/

namespace Rule.Propositional

variable {th : Theory} {goal : Sequent}

/-- What the structural and propositional rules keep of a goal. -/
structure Keeps (th : Theory) (goal : Sequent) : Prop where
  /-- Every formula but the one taken apart is left as it was, on its side and with its types. -/
  leaves : ∀ {rule goals s s'}, ((plan th rule).subgoals goal).runFrom s = (.ok goals, s') →
    Leaves rule goal goals
  /-- Reversible rules leave goals that are satisfied together exactly if the goal is. -/
  reversible : ∀ {rule goals s s'}, rule.Reversible →
    ((plan th rule).subgoals goal).runFrom s = (.ok goals, s') →
    ∀ v : Valuation, v.Satisfies goal ↔ ∀ g ∈ goals, v.Satisfies g
  /-- Weakening leaves a goal that is satisfied only if this one is. -/
  weakening : ∀ {side goals s s'},
    ((plan th (.weakening side)).subgoals goal).runFrom s = (.ok goals, s') →
    ∃ g, goals = [g] ∧ ∀ v : Valuation, v.Satisfies g → v.Satisfies goal
  /-- A goal that is closed is satisfied. -/
  close : ∀ {goals s s'}, ((plan th .close).subgoals goal).runFrom s = (.ok goals, s') →
    ∀ v : Valuation, v.Satisfies goal

/-- The rules of logic keep what they say on goals over the constants of logic. -/
theorem keeps (logic : th.OfLogic) (overLogic : goal.OverLogic) : Keeps th goal where
  leaves := leaves_of_run logic overLogic
  reversible := fun reversible run _ =>
    (leaves_of_run logic overLogic run).satisfies_iff reversible overLogic
  weakening := fun run => (leaves_of_run logic overLogic run).satisfies_of_weakening
  close := fun run _ => (leaves_of_run logic overLogic run).satisfies_of_close

/-- In the environment of logic the rules keep this of every sequent that is made of good terms. -/
theorem keeps_of_made {env : Environment} {l r : List Term}
    (loaded : (Theories.logic.load.runFrom Supply.initial).1 = .ok env)
    (left : ∀ t ∈ l, t.Proper ∧ t.Declared) (right : ∀ t ∈ r, t.Proper ∧ t.Declared)
    (made : Sequent.make l r = .ok goal) : Keeps env.theory goal :=
  keeps (Logic.ofLogic loaded).theory (Sequent.make_overLogic left right made)

/-- The equation of two objects or a formula that is denied. -/
def sample : Term :=
  join "or" (equation .obj (.var ⟨"a", .obj⟩) (.var object)) (neg (.var first))

/-- They keep it where this disjunction is assumed and to be shown, and each of them can be run on
one of the goals that come of it. -/
theorem keeps_of_made_sample : ∃ env,
    (Theories.logic.load.runFrom Supply.initial).1 = .ok env ∧
    Keeps env.theory ⟨[sample], [sample]⟩ := by
  obtain ⟨env, found, -⟩ := Option.map_eq_some_iff.mp Logic.load_eq
  have loaded := Except.ok_of_toOption found
  have good : sample.Proper ∧ sample.Declared := by
    refine ⟨⟨⟨?_, by unfold Uniform; decide⟩, ?_⟩, ?_⟩
    · simp [sample, equation, join, neg, Term.WellTyped, Term.type, Ty.resultType]
    · simp [sample, equation, join, neg, Term.Plain, Ty.Plain, Ty.plain_bool, Ty.plain_obj]
    · exact ⟨⟨.connective (by simp), ⟨.equality .obj, trivial⟩, trivial⟩, .not, trivial⟩
  have made : Sequent.make [sample] [sample] = .ok ⟨[sample], [sample]⟩ :=
    Except.ok_of_toOption (by decide)
  exact ⟨env, loaded, keeps_of_made loaded (List.forall_mem_singleton.mpr good)
    (List.forall_mem_singleton.mpr good) made⟩

end Rule.Propositional

end Turnstile
