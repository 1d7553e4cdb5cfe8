import Turnstile.Proofs.Connectives
import Turnstile.Proofs.Untouched

/-!
# Equivalences on the left

An equivalence on the left is unfolded to two implications, and these are split one after the other.
Of the four goals that come of it two have an operand on both sides and are closed on the spot. The
operand has come there from both implications, and its two copies have been through different
substitutions. The tactic succeeds exactly if they are the same terms still. They are where no bound
variable that the operands have, or get when the connectives are unfolded in them, has the name of a
variable that is free in the equivalence; this is so for closed operands. Otherwise a bound variable
may be renamed in one copy only, and then the tactic refuses.
-/

namespace Turnstile

open Build Logic

/-! ## Operands that come through -/

namespace Term

variable {A B P Q a b t t₁ t₂ t₃ value : Term} {c : Symbol} {names : List String}

/-- The operands of a connective come through its unfolding with nothing done to them but the
unfolding if no bound variable of the first one has the name of a variable of the second one. -/
theorem Operands.eq (operands : Operands value c A B P Q) (left : Reduces value (const c) A a)
    (right : Reduces value (const c) B b) (clear : a.Clear b.freeNames) : P = a ∧ Q = b := by
  obtain ⟨A', u, whole, -, unused, -, -, renamed⟩ := operands.first
  obtain rfl := whole.settles.unique left.settles
  obtain rfl := operands.second.settles.unique right.settles
  have absent : ¬ FreeIn (var u) A' := fun inside =>
    unused (List.mem_map.mpr ⟨u, left.proper.freeIn_iff.mp inside, rfl⟩)
  exact ⟨renamed.settles.unique (left.proper.settles_self left.normal clear absent), rfl⟩

/-- Unfolding leaves normal terms alone in which the constant does not occur. -/
theorem Proper.reduces_self (proper : t.Proper) (normal : t.Normal)
    (unfoldable : Unfoldable c value) (absent : const c ∉ t.atoms) :
    Reduces value (const c) t t := by
  obtain ⟨r, reduces⟩ := proper.reduces_defined unfoldable
  have clear : t.Clear value.freeNames := by
    rw [freeNames, unfoldable.closed]
    exact t.clear_nil
  have settles := proper.settles_self normal clear (mt freeIn_const_iff.mp absent)
  obtain rfl := settles.unique reduces.settles
  exact reduces

/-- What becomes of a term when `iff` is unfolded in it, then `and`, then `implies`. -/
structure Stages (t t₁ t₂ t₃ : Term) : Prop where
  /-- The first stage. -/
  iff : Reduces Scheme.iff.value (const (connective "iff")) t t₁
  /-- The second stage. -/
  and : Reduces Scheme.and.value (const (connective "and")) t₁ t₂
  /-- The third stage. -/
  implies : Reduces Scheme.implies.value (const (connective "implies")) t₂ t₃

/-- The connectives can be unfolded in every proper term. -/
theorem Proper.stages (proper : t.Proper) : ∃ t₁ t₂ t₃, Stages t t₁ t₂ t₃ := by
  obtain ⟨t₁, first⟩ :=
    proper.reduces_defined (definitions_unfoldable (connectives_defined iff_known))
  obtain ⟨t₂, second⟩ :=
    first.proper.reduces_defined (definitions_unfoldable (connectives_defined and_known))
  obtain ⟨t₃, third⟩ :=
    second.proper.reduces_defined (definitions_unfoldable (connectives_defined implies_known))
  exact ⟨t₁, t₂, t₃, first, second, third⟩

/-- A term in which there is nothing to unfold stays as it is at every stage. -/
theorem Proper.stages_self (proper : t.Proper) (normal : t.Normal)
    (plain : ∀ entry ∈ connectives, const (connective entry.1) ∉ t.atoms) : Stages t t t t where
  iff := proper.reduces_self normal (definitions_unfoldable (connectives_defined iff_known))
    (plain _ iff_known)
  and := proper.reduces_self normal (definitions_unfoldable (connectives_defined and_known))
    (plain _ and_known)
  implies := proper.reduces_self normal (definitions_unfoldable (connectives_defined implies_known))
    (plain _ implies_known)

/-- The free names of a compound are those of its operands. -/
theorem freeNames_join (name : String) (a b : Term) :
    (Logic.join name a b).freeNames = a.freeNames ++ b.freeNames := by
  simp [freeNames, Logic.join, free]

/-- What is free after a stage was free before. -/
theorem Reduces.freeNames_subset (reduces : Reduces value (const c) t t₁)
    (unfoldable : Unfoldable c value) : t₁.freeNames ⊆ t.freeNames :=
  List.map_subset _ (reduces.free_subset unfoldable)

/-- No stage of unfolding an equivalence has free names that the formula does not have. -/
theorem Stages.freeNames_subset (stages : Stages t t₁ t₂ t₃) :
    t₁.freeNames ⊆ t.freeNames ∧ t₂.freeNames ⊆ t.freeNames ∧ t₃.freeNames ⊆ t.freeNames := by
  have first := stages.iff.freeNames_subset (definitions_unfoldable (connectives_defined iff_known))
  have second := List.Subset.trans (stages.and.freeNames_subset
    (definitions_unfoldable (connectives_defined and_known))) first
  have third := List.Subset.trans (stages.implies.freeNames_subset
    (definitions_unfoldable (connectives_defined implies_known))) second
  exact ⟨first, second, third⟩

end Term

namespace Plan

variable {first next next' : Plan} {goal goal₁ goal₂ : Sequent} {here : List Sequent}
  {s s₁ s₂ : Supply} {failure : Failure}

/-- A plan that leaves two goals fails where the plan for the first of them does. -/
theorem runFrom_branch_first (head : (first.subgoals goal).runFrom s = (.ok [goal₁, goal₂], s₁))
    (one : (next.subgoals goal₁).runFrom s₁ = (.error failure, s₂)) :
    ((branch first [next, next']).subgoals goal).runFrom s = (.error failure, s₂) := by
  rw [subgoals, runFrom_bind_ok head]
  change (subgoalsOf [next, next'] [goal₁, goal₂]).runFrom s₁ = _
  rw [subgoalsOf, runFrom_bind, one]

/-- A plan that leaves two goals fails where the plan for the second of them does. -/
theorem runFrom_branch_second (head : (first.subgoals goal).runFrom s = (.ok [goal₁, goal₂], s₁))
    (one : (next.subgoals goal₁).runFrom s₁ = (.ok here, s₂)) {s' : Supply}
    (two : (next'.subgoals goal₂).runFrom s₂ = (.error failure, s')) :
    ((branch first [next, next']).subgoals goal).runFrom s = (.error failure, s') := by
  rw [subgoals, runFrom_bind_ok head]
  change (subgoalsOf [next, next'] [goal₁, goal₂]).runFrom s₁ = _
  rw [subgoalsOf, runFrom_bind_ok one, runFrom_bind, subgoalsOf, runFrom_bind, two]

end Plan

namespace Rule

variable {th : Theory} {goal : Sequent} {Γ Δ : List Term} {A B E P Q X Y a b : Term}
  {A₁ B₁ A₂ B₂ a₁ a₂ a₃ b₁ b₂ b₃ : Term} {name : String} {p : Scheme} {s : Supply}

/-! ## The tactic -/

/-- First formulas that differ are refused. -/
theorem runFrom_close_of_ne (differ : P ≠ Q) (s : Supply) :
    (close.subgoals ⟨P :: Γ, Q :: Δ⟩).runFrom s =
      (.error (.refused "axiom" (.notTheSame P Q)), s) := by
  refine runFrom_primitive_error (e := .refused "" (.notTheSame P Q)) ?_
  simp only [if_neg differ]
  rfl

/-- What the tactic makes of an equivalence, given what has become of the copies of its operands:
the copies that are to be closed must be the same. -/
def splitEquivalence (Γ Δ : List Term) (A₁ B₁ A₂ B₂ : Term) : Except Failure (List Sequent) :=
  if A₁ ≠ A₂ then .error (.refused "axiom" (.notTheSame A₂ A₁))
  else if B₁ ≠ B₂ then .error (.refused "axiom" (.notTheSame B₁ B₂))
  else .ok [⟨Γ, A₁ :: B₂ :: Δ⟩, ⟨A₂ :: B₁ :: Γ, Δ⟩]

/-- Where both implications join the same formulas, one goal has both on the right and the other one
has both on the left. -/
theorem splitEquivalence_same (Γ Δ : List Term) (A B : Term) : splitEquivalence Γ Δ A B A B =
    .ok [⟨Γ, A :: B :: Δ⟩, ⟨A :: B :: Γ, Δ⟩] := by
  rw [splitEquivalence, if_neg (not_not.mpr rfl), if_neg (not_not.mpr rfl)]

/-- Two implications are split one after the other, where they can be unfolded. -/
theorem implications_run (logic : th.OfLogic)
    (overLogic : (Side.left.goal (X :: Y :: Γ) Δ).OverLogic) (spares : X.Spares ["implies"])
    (spares' : Y.Spares ["implies"])
    (forth : (unfold th X (.ofString "implies")).runFrom s = (.ok (join "or" (neg A₁) B₁), s))
    (back : (unfold th Y (.ofString "implies")).runFrom s = (.ok (join "or" (neg B₂) A₂), s)) :
    ((Plan.branch (leftImplication th) [
        .branch (leftImplication th) [rightPermutation 1, close],
        .branch (leftPermutation 1) [.branch (leftImplication th) [close, noop]]]).subgoals
      ⟨X :: Y :: Γ, Δ⟩).runFrom s = (splitEquivalence Γ Δ A₁ B₁ A₂ B₂, s) := by
  have taken := connectives_propositional implies_known
  have spared : FirstSpares ["implies"] (Y :: Γ) := firstSpares_cons.mpr spares'
  have overX := (unfolded_overLogic logic overLogic spares taken forth).1
  obtain ⟨overA, overB⟩ := Sequent.OverLogic.left_or overX
  have overY : (Side.left.goal (Y :: Γ) (A₁ :: Δ)).OverLogic := overA.left_neg
  have overY' : (Side.left.goal (Y :: B₁ :: Γ) Δ).OverLogic := overB.left_swap
  have overBoth := (unfolded_overLogic logic overY spares' taken back).1
  have overBoth := (Sequent.OverLogic.left_or overBoth).1.left_neg
  have first : ((leftImplication th).subgoals ⟨X :: Y :: Γ, Δ⟩).runFrom s =
      (.ok [⟨Y :: Γ, A₁ :: Δ⟩, ⟨B₁ :: Y :: Γ, Δ⟩], s) :=
    ((leftImplication_takesApart logic).unfolded_iff logic overLogic (firstSpares_cons.mpr spares)
      taken).mpr ⟨X, Y :: Γ, (A₁, B₁), rfl, forth, rfl⟩
  -- The second implication is split beside each part of the first one.
  have besideA : ((leftImplication th).subgoals ⟨Y :: Γ, A₁ :: Δ⟩).runFrom s =
      (.ok [⟨Γ, B₂ :: A₁ :: Δ⟩, ⟨A₂ :: Γ, A₁ :: Δ⟩], s) :=
    ((leftImplication_takesApart logic).unfolded_iff logic overY spared taken).mpr
      ⟨Y, Γ, (B₂, A₂), rfl, back, rfl⟩
  have besideB : ((leftImplication th).subgoals ⟨Y :: B₁ :: Γ, Δ⟩).runFrom s =
      (.ok [⟨B₁ :: Γ, B₂ :: Δ⟩, ⟨A₂ :: B₁ :: Γ, Δ⟩], s) :=
    ((leftImplication_takesApart logic).unfolded_iff logic overY' (firstSpares_cons.mpr spares')
      taken).mpr ⟨Y, B₁ :: Γ, (B₂, A₂), rfl, back, rfl⟩
  have neither := runFrom_rightPermutation overBoth s
  have front := runFrom_leftPermutation overB s
  rw [splitEquivalence]
  split
  next differ =>
    exact Plan.runFrom_branch_first first
      (Plan.runFrom_branch_second besideA neither (runFrom_close_of_ne (Ne.symm differ) s))
  next same =>
    obtain rfl : A₁ = A₂ := not_not.mp same
    have closed := Plan.runFrom_branch_two besideA neither (close_ok_iff.mpr ⟨rfl, rfl, rfl⟩)
    split
    next differ =>
      refine Plan.runFrom_branch_second first closed ((Plan.runFrom_branch_one front).trans ?_)
      exact Plan.runFrom_branch_first besideB (runFrom_close_of_ne differ s)
    next same =>
      obtain rfl : B₁ = B₂ := not_not.mp same
      refine Plan.runFrom_branch_two first closed ((Plan.runFrom_branch_one front).trans ?_)
      exact Plan.runFrom_branch_two besideB (close_ok_iff.mpr ⟨rfl, rfl, rfl⟩) (runFrom_noop _ s)

/-- A first formula on the left that spares the names of the connectives. -/
theorem admits_left (overLogic : (⟨P :: Γ, Δ⟩ : Sequent).OverLogic)
    (spares : P.Spares propositional) : (⟨P :: Γ, Δ⟩ : Sequent).Admits P := by
  have overLogic : (Side.left.goal (P :: Γ) Δ).OverLogic := overLogic
  exact ⟨overLogic.offers_first, spares⟩

/-- An equivalence on the left is split into both operands and neither, or the tactic refuses
because the copies of an operand differ. -/
theorem leftBidirectional_runs (logic : th.OfLogic)
    (overLogic : (⟨join "iff" A B :: Γ, Δ⟩ : Sequent).OverLogic)
    (spares : (join "iff" A B).Spares propositional) (first : Unfolds th (join "iff" A B) "iff" E)
    (second : Unfolds th E "and" (neg (join "or" (neg X) (neg Y))))
    (third : Unfolds th X "implies" (join "or" (neg A₁) B₁))
    (fourth : Unfolds th Y "implies" (join "or" (neg B₂) A₂)) :
    ∃ depth, ∀ s : Supply, depth ≤ s.depth →
      ((leftBidirectional th).subgoals ⟨join "iff" A B :: Γ, Δ⟩).runFrom s =
        (splitEquivalence Γ Δ A₁ B₁ A₂ B₂, s) := by
  have iffs := connectives_propositional iff_known
  have ands := connectives_propositional and_known
  have arrows := connectives_propositional implies_known
  have admits := admits_left overLogic spares
  have overLogic : (Side.left.goal (join "iff" A B :: Γ) Δ).OverLogic := overLogic
  have admits₁ := first.admits logic admits iffs
  have admits₂ := second.admits logic admits₁ ands
  have sparesX := admits₂.argument.function.argument.argument.spares_one arrows
  have sparesY := admits₂.argument.argument.argument.spares_one arrows
  obtain ⟨n₁, first⟩ := first
  obtain ⟨n₂, second⟩ := second
  obtain ⟨n₃, third⟩ := third
  obtain ⟨n₄, fourth⟩ := fourth
  refine ⟨n₁ + n₂ + n₃ + n₄, fun s enough => ?_⟩
  have spares := admits.spares_one iffs
  have spares₁ := admits₁.spares_one ands
  obtain ⟨over₁, -⟩ := unfolded_overLogic logic overLogic spares iffs (first s (by omega))
  obtain ⟨over₂, -⟩ := unfolded_overLogic logic over₁ spares₁ ands (second s (by omega))
  have conjunction : ((leftConjunction th).subgoals ⟨E :: Γ, Δ⟩).runFrom s =
      (.ok [⟨X :: Y :: Γ, Δ⟩], s) :=
    ((leftConjunction_takesApart logic).unfolded_iff logic over₁ (firstSpares_cons.mpr spares₁)
      ands).mpr ⟨E, Γ, (X, Y), rfl, second s (by omega), rfl⟩
  have over₃ := (Sequent.OverLogic.left_neg over₂).right_or.right_neg.right_neg.left_swap
  have head := runFrom_unfolding logic overLogic spares iffs (first s (by omega))
  refine (Plan.runFrom_branch_one head).trans ?_
  refine (Plan.runFrom_branch_one conjunction).trans ?_
  exact implications_run logic over₃ sparesX sparesY (third s (by omega)) (fourth s (by omega))

/-- Every equivalence on the left is unfolded to two implications with copies of its operands, and
these decide about what becomes of it. -/
theorem leftBidirectional_outcome (logic : th.OfLogic)
    (overLogic : (⟨join "iff" A B :: Γ, Δ⟩ : Sequent).OverLogic)
    (spares : (join "iff" A B).Spares propositional) : ∃ P Q X Y A₁ B₁ A₂ B₂,
      Unfolds th (join "iff" A B) "iff" (join "and" (join "implies" P Q) (join "implies" Q P)) ∧
      Unfolds th (join "and" (join "implies" P Q) (join "implies" Q P)) "and"
        (neg (join "or" (neg X) (neg Y))) ∧
      Unfolds th X "implies" (join "or" (neg A₁) B₁) ∧
      Unfolds th Y "implies" (join "or" (neg B₂) A₂) ∧
      ∃ depth, ∀ s : Supply, depth ≤ s.depth →
        ((leftBidirectional th).subgoals ⟨join "iff" A B :: Γ, Δ⟩).runFrom s =
          (splitEquivalence Γ Δ A₁ B₁ A₂ B₂, s) := by
  obtain ⟨P, Q, X, Y, A₁, B₁, A₂, B₂, first, second, third, fourth⟩ :=
    unfolds_equivalence logic (admits_left overLogic spares)
  refine ⟨P, Q, X, Y, A₁, B₁, A₂, B₂, first, second, third, fourth, ?_⟩
  exact leftBidirectional_runs logic overLogic spares first second third fourth

/-! ## Where it works -/

/-- A connective is unfolded to what it is defined as, with operands in which it has been unfolded,
if no bound variable of the first one has the name of a variable of the second one. -/
theorem unfolds_clear (logic : th.OfLogic) (known : (name, p) ∈ connectives)
    (admits : goal.Admits (join name A B))
    (left : Term.Reduces p.value (.const (connective name)) A a)
    (right : Term.Reduces p.value (.const (connective name)) B b) (clear : a.Clear b.freeNames) :
    Unfolds th (join name A B) name (p.of a b) := by
  obtain ⟨P, Q, operands, unfolds⟩ := unfolds_connective logic known admits.proper admits.speaks
    (connectives_propositional known)
  obtain ⟨rfl, rfl⟩ := operands.eq left right clear
  exact unfolds

/-- An equivalence on the left is split into both operands and neither if no bound variable of an
operand, at any stage of the unfolding, has the name of a variable that is free in one. -/
theorem leftBidirectional_applies (logic : th.OfLogic)
    (overLogic : (⟨join "iff" A B :: Γ, Δ⟩ : Sequent).OverLogic)
    (spares : (join "iff" A B).Spares propositional) (left : Term.Stages A a₁ a₂ a₃)
    (right : Term.Stages B b₁ b₂ b₃)
    (clear : ∀ t ∈ [a₁, a₂, a₃, b₁, b₂, b₃], t.Clear (A.freeNames ++ B.freeNames)) :
    ∃ depth, ∀ s : Supply, depth ≤ s.depth →
      ((leftBidirectional th).subgoals ⟨join "iff" A B :: Γ, Δ⟩).runFrom s =
        (.ok [⟨Γ, a₃ :: b₃ :: Δ⟩, ⟨a₃ :: b₃ :: Γ, Δ⟩], s) := by
  have admits := admits_left overLogic spares
  obtain ⟨free₁, free₂, free₃⟩ := left.freeNames_subset
  obtain ⟨free₁', free₂', free₃'⟩ := right.freeNames_subset
  simp only [List.forall_mem_cons] at clear
  obtain ⟨clear₁, clear₂, clear₃, -, clear₂', clear₃', -⟩ := clear
  have implications : (join "implies" b₂ a₂).freeNames ⊆ A.freeNames ++ B.freeNames := by
    rw [Term.freeNames_join]
    exact List.append_subset.mpr ⟨List.Subset.trans free₂' (List.subset_append_right _ _),
      List.Subset.trans free₂ (List.subset_append_left _ _)⟩
  have first := unfolds_clear logic iff_known admits left.iff right.iff
    (clear₁.mono (List.Subset.trans free₁' (List.subset_append_right _ _)))
  have admits₁ := first.admits logic admits (connectives_propositional iff_known)
  have unfoldable := definitions_unfoldable (connectives_defined and_known)
  have forth := admits₁.function.argument.proper.reduces_join unfoldable (by decide)
    left.and right.and
  have back := admits₁.argument.proper.reduces_join unfoldable (by decide) right.and left.and
  have clear' : (join "implies" a₂ b₂).Clear (A.freeNames ++ B.freeNames) :=
    ⟨⟨trivial, clear₂⟩, clear₂'⟩
  have second := unfolds_clear logic and_known admits₁ forth back (clear'.mono implications)
  have admits₂ := second.admits logic admits₁ (connectives_propositional and_known)
  have third := unfolds_clear logic implies_known
    admits₂.argument.function.argument.argument left.implies right.implies
    (clear₃.mono (List.Subset.trans free₃' (List.subset_append_right _ _)))
  have fourth := unfolds_clear logic implies_known
    admits₂.argument.argument.argument right.implies left.implies
    (clear₃'.mono (List.Subset.trans free₃ (List.subset_append_left _ _)))
  rw [← splitEquivalence_same]
  exact leftBidirectional_runs logic overLogic spares first second third fourth

/-- Every equivalence of closed formulas is split. -/
theorem leftBidirectional_closed (logic : th.OfLogic)
    (overLogic : (⟨join "iff" A B :: Γ, Δ⟩ : Sequent).OverLogic)
    (spares : (join "iff" A B).Spares propositional) (closed : A.free = [])
    (closed' : B.free = []) : ∃ a b a₁ a₂ b₁ b₂, Term.Stages A a₁ a₂ a ∧ Term.Stages B b₁ b₂ b ∧
      ∃ depth, ∀ s : Supply, depth ≤ s.depth →
        ((leftBidirectional th).subgoals ⟨join "iff" A B :: Γ, Δ⟩).runFrom s =
          (.ok [⟨Γ, a :: b :: Δ⟩, ⟨a :: b :: Γ, Δ⟩], s) := by
  have proper := (admits_left overLogic spares).proper
  obtain ⟨a₁, a₂, a, left⟩ := proper.function.argument.stages
  obtain ⟨b₁, b₂, b, right⟩ := proper.argument.stages
  refine ⟨a, b, a₁, a₂, b₁, b₂, left, right,
    leftBidirectional_applies logic overLogic spares left right ?_⟩
  intro t _
  rw [Term.freeNames, Term.freeNames, closed, closed']
  exact Term.clear_nil t

/-- An equivalence of formulas without defined connectives and redexes is split into just these if
none of their bound variables has the name of a variable that is free in one of them. -/
theorem leftBidirectional_plain (logic : th.OfLogic)
    (overLogic : (⟨join "iff" A B :: Γ, Δ⟩ : Sequent).OverLogic)
    (spares : (join "iff" A B).Spares propositional) (normal : A.Normal) (normal' : B.Normal)
    (plain : ∀ entry ∈ connectives, Term.const (connective entry.1) ∉ A.atoms ++ B.atoms)
    (clear : A.Clear (A.freeNames ++ B.freeNames)) (clear' : B.Clear (A.freeNames ++ B.freeNames)) :
    ∃ depth, ∀ s : Supply, depth ≤ s.depth →
      ((leftBidirectional th).subgoals ⟨join "iff" A B :: Γ, Δ⟩).runFrom s =
        (.ok [⟨Γ, A :: B :: Δ⟩, ⟨A :: B :: Γ, Δ⟩], s) := by
  have proper := (admits_left overLogic spares).proper
  have left := proper.function.argument.stages_self normal fun entry known inside =>
    plain entry known (List.mem_append_left _ inside)
  have right := proper.argument.stages_self normal' fun entry known inside =>
    plain entry known (List.mem_append_right _ inside)
  refine leftBidirectional_applies logic overLogic spares left right fun t member => ?_
  simp only [List.mem_cons, List.not_mem_nil, or_false] at member
  rcases member with rfl | rfl | rfl | rfl | rfl | rfl
  · exact clear
  · exact clear
  · exact clear
  · exact clear'
  · exact clear'
  · exact clear'

/-! ## Where it does not work -/

/-- `for_all x . p(x)` or `q(x)`: a name is bound and free. -/
def twice : Term :=
  join "or" (forAll ⟨"x", .obj⟩ (.app (.var ⟨"p", .arrow .obj .bool⟩) (.var ⟨"x", .obj⟩)))
    (.app (.var ⟨"q", .arrow .obj .bool⟩) (.var ⟨"x", .obj⟩))

/-- The same formula after its bound variable was renamed. -/
def twiceRenamed : Term :=
  join "or" (forAll ⟨"x1", .obj⟩ (.app (.var ⟨"p", .arrow .obj .bool⟩) (.var ⟨"x1", .obj⟩)))
    (.app (.var ⟨"q", .arrow .obj .bool⟩) (.var ⟨"x", .obj⟩))

/-- A formula without variables of these names. -/
def other : Term := .var ⟨"r", .bool⟩

/-- The equivalence of both. -/
def refused : Term := join "iff" twice other

/-- It is a good formula of logic that spares the names of the connectives. -/
theorem refused_speaks : refused.Proper ∧ refused.Speaks propositional := by
  refine ⟨⟨⟨?_, by unfold Uniform; decide⟩, ?_⟩, ?_⟩
  · simp [refused, twice, other, join, forAll, Term.WellTyped, Term.type, Term.free,
      Ty.resultType]
  · simp [refused, twice, other, join, forAll, Term.Plain, Ty.Plain, Ty.plain_bool, Ty.plain_obj]
  · simp [refused, twice, other, join, forAll, Term.Speaks, propositional, Logical.connective,
      Logical.quantifier]

/-- So it may be assumed. -/
theorem refused_overLogic : (⟨[refused], []⟩ : Sequent).OverLogic :=
  Sequent.make_overLogic
    (List.forall_mem_singleton.mpr ⟨refused_speaks.1, (Term.speaks_iff.mp refused_speaks.2).1⟩)
    (List.forall_mem_nil _) rfl

/-- The bound variable gets a new name where a formula with the free variable is put for a variable
that does not occur. -/
theorem twice_renamed {value : Term} {u : Symbol} (fit : Term.Fit value (.var u) twice)
    (typed : u.type = .bool) (named : value.freeNames = ["r", "p", "q", "x"]) :
    Term.Reduces value (.var u) twice twiceRenamed := by
  have differs : ∀ s : Symbol, s.type ≠ .bool → s ≠ u := by
    rintro s other rfl
    exact other typed
  have object := differs ⟨"x", .obj⟩ (by decide)
  have object' := differs ⟨"x1", .obj⟩ (by decide)
  have predicate := differs ⟨"p", .arrow .obj .bool⟩ (by decide)
  have predicate' := differs ⟨"q", .arrow .obj .bool⟩ (by decide)
  have quantified := fit.function.argument
  have apart := Term.hasFree_var_of_ne (typed ▸ Ty.plain_bool) Ty.plain_obj object.symm
  have body := quantified.argument.renamed (w := ⟨"x1", .obj⟩)
    (by simp [Term.Normal]) apart (by simp [named]) (by rw [named]; decide)
    (by rw [named]; exact ⟨trivial, trivial⟩) (by simp [Term.relabel, Term.FreeIn, *])
  have head := quantified.function.kept (Term.settles_const (by simp)) rfl (by simp)
  refine Term.Fit.join fit (by simp) (quantified.rebuilt head body (by simp)) ?_
  exact fit.argument.untouched (by simp [Term.Normal]) ⟨trivial, trivial⟩
    (by simp [Term.FreeIn, object, predicate'])

/-- The tactic refuses this equivalence: where its first implication is put into the conjunction,
the bound variable of its premise gets a new name, because the second implication has a free
variable of the old one, and in the second implication it does not. -/
theorem leftBidirectional_refuses (logic : th.OfLogic) : ∃ depth, ∀ s : Supply, depth ≤ s.depth →
    ((leftBidirectional th).subgoals ⟨[refused], []⟩).runFrom s =
      (.error (.refused "axiom" (.notTheSame twice twiceRenamed)), s) := by
  have spares := (Term.speaks_iff.mp refused_speaks.2).2
  have admits := admits_left refused_overLogic spares
  have left := admits.function.argument.proper.stages_self
    (by simp [twice, join, forAll, Term.Normal]) (by decide)
  have right := admits.argument.proper.stages_self trivial (by decide)
  have first := unfolds_clear logic iff_known admits left.iff right.iff
    (by simp [twice, other, join, forAll, Term.Clear, Term.freeNames, Term.free])
  have admits₁ := first.admits logic admits (connectives_propositional iff_known)
  have unfoldable := definitions_unfoldable (connectives_defined and_known)
  have forth := admits₁.function.argument.proper.reduces_join unfoldable (by decide)
    left.and right.and
  have back := admits₁.argument.proper.reduces_join unfoldable (by decide) right.and left.and
  obtain ⟨P, Q, operands, second⟩ :=
    unfolds_connective logic and_known admits₁.proper admits₁.speaks
      (connectives_propositional and_known)
  obtain rfl := operands.second.settles.unique back.settles
  obtain ⟨A', u, whole, -, unused, fit, typed, renamed⟩ := operands.first
  obtain rfl := whole.settles.unique forth.settles
  have premise := twice_renamed fit.function.argument typed (by decide)
  have conclusion : Term.Reduces (join "implies" other twice) (.var u) other other := by
    refine fit.argument.untouched trivial trivial ?_
    rintro ⟨⟩
    exact unused (by decide)
  obtain rfl := renamed.settles.unique (Term.Fit.join fit (by simp) premise conclusion).settles
  have admits₂ := second.admits logic admits₁ (connectives_propositional and_known)
  have left' := premise.proper.stages_self (by simp [twiceRenamed, join, forAll, Term.Normal])
    (by decide)
  have third := unfolds_clear logic implies_known
    admits₂.argument.function.argument.argument left'.implies right.implies
    (by simp [twiceRenamed, other, join, forAll, Term.Clear, Term.freeNames, Term.free])
  have fourth := unfolds_clear logic implies_known
    admits₂.argument.argument.argument right.implies left.implies trivial
  exact leftBidirectional_runs logic refused_overLogic spares first second third fourth

end Rule

end Turnstile
