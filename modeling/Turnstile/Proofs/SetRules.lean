import Turnstile.Proofs.OpenGoals
import Turnstile.Proofs.RoundTrip
import Turnstile.Proofs.RuleSoundness
import Turnstile.Rule.Sets

/-!
# Rules of set theory

A rule that instantiates a postulate needs a postulate that is a universal formula. Extensionality
is postulated as an implication whose left side is universal, so the rule that rests on it is
offered for every equation on the right but never gets past its first instance.
-/

namespace Turnstile

open Build

/-- The first formula on the left is an application to two arguments. -/
def Sequent.LeadsBinary (goal : Sequent) : Prop :=
  ∃ f a b, goal.left.head? = some (.app (.app f a) b)

/-- A sequent that is made keeps the form of its first formula. -/
theorem Sequent.make_leadsBinary {f a b : Term} {l r : List Term} {goal : Sequent}
    (made : Sequent.make (.app (.app f a) b :: l) r = .ok goal) : goal.LeadsBinary := by
  rw [Sequent.make] at made
  split at made
  next =>
    cases made
    exact ⟨f, a, b, rfl⟩
  next =>
    obtain ⟨u, -, made⟩ := Formula.bind_ok made
    cases made
    exact ⟨_, _, _, rfl⟩

/-- A plan that is continued leaves one goal, on which its continuation succeeds. -/
theorem Plan.continued_ok {first next : Plan} {goal : Sequent} {goals : List Sequent}
    {s s' : Supply} (run : ((branch first [next]).subgoals goal).runFrom s = (.ok goals, s')) :
    ∃ goal' s₁ here s₂, (first.subgoals goal).runFrom s = (.ok [goal'], s₁) ∧
      (next.subgoals goal').runFrom s₁ = (.ok here, s₂) := by
  obtain ⟨left, s₁, ran, fits, run⟩ := subgoals_branch_ok.mp run
  obtain ⟨goal', rfl⟩ := List.length_eq_one_iff.mp fits
  obtain ⟨here, s₂, -, continued, -⟩ := runAll_cons_ok.mp run
  exact ⟨goal', s₁, here, s₂, ran, continued⟩

namespace Rule

variable {th : Theory} {name : String} {args : List Arg} {goal goal' : Sequent}
  {goals : List Sequent} {s s' : Supply} {witness pattern f a b : Term} {c : Symbol}

/-- A primitive rule that succeeds does what it applies. -/
theorem primitive_ok {apply : Sequent → Build (List Sequent)}
    (run : ((primitive name args apply).subgoals goal).runFrom s = (.ok goals, s')) :
    (apply goal).runFrom s = (.ok goals, s') := by
  rw [primitive, Plan.subgoals, runFrom_tryCatch] at run
  rcases ran : (apply goal).runFrom s with ⟨failure | done, s₁⟩ <;> rw [ran] at run
  · cases run
  · exact run

/-- Assuming a postulate leaves one goal, which it leads. -/
theorem postulate_ok (postulated : th.postulate? (Text.Octets.ofString name) =
      some (.app (.app f a) b))
    (run : ((postulate th name).subgoals goal).runFrom s = (.ok goals, s')) :
    ∃ goal', goals = [goal'] ∧ goal'.LeadsBinary := by
  have applied := primitive_ok run
  rw [postulated] at applied
  obtain ⟨goal', made, rest⟩ := Formula.bind_ok (lift_ok applied).1
  cases rest
  exact ⟨goal', rfl, Sequent.make_leadsBinary made⟩

/-- A universal formula is an application to one argument. -/
theorem leftUniversal_refused
    (universal : th.shapes.lookup .universal = some (.app (.const c) pattern))
    (binary : goal.LeadsBinary)
    (run : ((leftUniversal th witness).subgoals goal).runFrom s = (.ok goals, s')) : False := by
  obtain ⟨m, s₁, parts, -⟩ := bind_ok (primitive_ok run)
  obtain ⟨formula, first, matched, -⟩ := Theory.parts_ok universal parts
  obtain ⟨f, a, b, leads⟩ := binary
  have same : formula = .app (.app f a) b := by
    rw [List.head?_eq_getElem?] at leads
    exact Option.some.inj (first.symm.trans leads)
  obtain ⟨g, x, between, rfl, head, -⟩ := Term.matchFrom_app matched
  obtain ⟨d, rfl, -⟩ := Term.matchFrom_const head
  cases same

/-- Where extensionality is postulated as anything but a universal formula, there is no goal and no
witness for which equality can be proved by it. -/
theorem rightExtension_refused
    (universal : th.shapes.lookup .universal = some (.app (.const c) pattern))
    (postulated : th.postulate? (Text.Octets.ofString "set.extensionality") =
      some (.app (.app f a) b)) (witness : Term) (goal : Sequent) (s : Supply) :
    ¬ ∃ goals s', ((rightExtension th witness).subgoals goal).runFrom s = (.ok goals, s') := by
  rintro ⟨goals, s', run⟩
  rw [rightExtension, onShape, Plan.subgoals] at run
  obtain ⟨-, s₁, -, run⟩ := bind_ok run
  simp only [instantiate, List.cons_append, Plan.sequence] at run
  obtain ⟨goal', s₂, here, s₃, first, run⟩ := Plan.continued_ok run
  obtain ⟨opened, same, binary⟩ := postulate_ok postulated first
  obtain rfl : goal' = opened := by simpa using same
  obtain ⟨goal'', s₄, left, s₅, second, -⟩ := Plan.continued_ok run
  exact leftUniversal_refused universal binary second

/-- Extensionality as the built-in theory of sets has it is an implication. -/
example : ((do
    let v ← builtinVocabulary
    let postulates ← (Theories.sets.postulates.take 1).mapM (Declarations.readPostulate v)
    return postulates.map fun p => (p.name, p.formula.head.name, p.formula.args.length) :
      Build (List (String × String × Nat))).runFrom Supply.initial).1.toOption =
        some [("set.extensionality", "implies", 2)] := by
  decide +kernel

end Rule

end Turnstile
