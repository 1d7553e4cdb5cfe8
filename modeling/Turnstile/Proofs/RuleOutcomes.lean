import Mathlib.Algebra.GroupWithZero.Nat
import Mathlib.Data.List.Forall2
import Turnstile.Environment.Basic
import Turnstile.Proofs.Orders

/-!
# Outcomes of rules

What can come of applying a rule. Where the rules know the shapes that they take apart, a rule of
the catalogue leaves a number of subgoals that depends on the rule alone, or it stops: it refuses
the goal, types clash, or a reduction nests too deeply. The tactics are built from other rules, and
the counts of these fit together, so that no branch in them ever has a plan too many or too few.
Asking which rules apply to a goal can therefore fail in one way only, by a reduction that nests
too deeply.
-/

namespace Turnstile

open Build

/-! ## Failures that rules stop with -/

namespace Failure

/-- What a rule stops with: it refuses, types clash, or a reduction nests too deeply. -/
def Stops : Failure → Prop
  | refused _ _ => True
  | clash _ => True
  | tooDeep => True
  | within _ inner => inner.Stops
  | _ => False

/-- A failure that stops a rule stops it under the rule's name, too. -/
theorem Stops.named {failure : Failure} (stops : failure.Stops) (rule : String) :
    (failure.named rule).Stops := by
  induction failure with
  | within _ inner ih => exact ih stops
  | refused | clash | tooDeep => trivial
  | _ => exact stops

/-- What stops a rule is not the goal only if it is the depth of a reduction. -/
theorem Stops.misfit_or_deep {failure : Failure} (stops : failure.Stops) :
    failure.involves isMisfit = true ∨ failure.cause = tooDeep := by
  induction failure with
  | within _ inner ih =>
    rcases ih stops with misfit | deep
    · exact .inl (by rw [involves, misfit, Bool.or_true])
    · exact .inr deep
  | refused | clash => exact .inl rfl
  | tooDeep => exact .inr rfl
  | _ => exact stops.elim

end Failure

/-! ## Outcomes -/

/-- A result of some sort, or a failure that rules stop with. -/
def Outcome {α : Type} (P : α → Prop) : Except Failure α → Prop
  | .ok a => P a
  | .error failure => failure.Stops

section

variable {α β : Type} {P : α → Prop} {Q : β → Prop}

/-- What follows a result may stop in its turn. -/
theorem Outcome.bind {result : Except Failure α} {next : α → Except Failure β}
    (first : Outcome P result) (second : ∀ a, P a → Outcome Q (next a)) :
    Outcome Q (result >>= next) := by
  cases result with
  | ok a => exact second a first
  | error failure => exact first

/-- A fold ends with a result of the sort that its steps keep. -/
theorem outcome_foldlM {f : β → α → Except Failure β}
    (step : ∀ b, Q b → ∀ a, Outcome Q (f b a)) :
    ∀ (items : List α) (b : β), Q b → Outcome Q (items.foldlM f b)
  | [], _, holds => holds
  | a :: rest, b, holds => by
    rw [List.foldlM_cons]
    exact (step b holds a).bind fun b' holds' => outcome_foldlM step rest b' holds'

namespace Build

/-- Every run gives a result of some sort or stops. -/
def Answers (P : α → Prop) (build : Build α) : Prop := ∀ s, Outcome P (build.runFrom s).1

/-- A value that has a property is an answer. -/
theorem answers_pure {a : α} (holds : P a) : Answers P (pure a) := fun _ => holds

/-- A failure that stops a rule is an answer. -/
theorem answers_throw {failure : Failure} (stops : failure.Stops) :
    Answers P (throw failure : Build α) := fun _ => stops

/-- A computation with such an outcome answers as a build. -/
theorem answers_lift {result : Except Failure α} (outcome : Outcome P result) :
    Answers P (liftM result) := fun _ => outcome

/-- If the first build answers and so does the second, then so do both. -/
theorem Answers.bind {build : Build α} {next : α → Build β} (first : Answers P build)
    (second : ∀ a, P a → Answers Q (next a)) : Answers Q (build >>= next) := by
  intro s
  have outcome := first s
  rw [runFrom_bind]
  rcases run : build.runFrom s with ⟨failure | a, s'⟩ <;> rw [run] at outcome
  · exact outcome
  · exact second a outcome s'

/-- Failures may be reported in any way in which they still stop a rule. -/
theorem Answers.reported {build : Build α} (answers : Answers P build)
    {report : Failure → Failure} (stops : ∀ failure : Failure, failure.Stops →
      (report failure).Stops) :
    Answers P (tryCatch build fun failure => throw (report failure)) := by
  intro s
  have outcome := answers s
  rw [runFrom_tryCatch]
  rcases run : build.runFrom s with ⟨failure | a, s'⟩ <;> rw [run] at outcome
  · exact stops failure outcome
  · exact outcome

/-- If each step keeps a property and answers, then so do the steps for all items. -/
theorem answers_foldlM {f : β → α → Build β} (step : ∀ b, Q b → ∀ a, Answers Q (f b a)) :
    ∀ (items : List α) (b : β), Q b → Answers Q (items.foldlM f b)
  | [], _, holds => answers_pure holds
  | a :: rest, b, holds => by
    rw [List.foldlM_cons]
    exact (step b holds a).bind fun b' holds' => answers_foldlM step rest b' holds'

/-- Drawing a type is an answer. -/
theorem answers_freshType : Answers (fun _ => True) freshType := fun _ => trivial

end Build

end

/-! ## Terms -/

/-- Joining the types of a name stops at worst. -/
theorem outcome_joinName (occurrences : List Symbol) (u : Unifier) (name : String) :
    Outcome (fun _ => True) (joinName occurrences u name) := by
  rw [joinName]
  split
  · trivial
  · split <;> trivial

/-- Joining the types of variables of one name only fails where two types clash. -/
theorem outcome_jointTypes (terms : List Term) : Outcome (fun _ => True) (jointTypes terms) :=
  outcome_foldlM (fun u _ name => outcome_joinName _ u name) _ _ trivial

namespace Term

/-- Making types equal stops at worst. -/
theorem outcome_equate (a b : Ty) : Outcome (fun _ => True) (equate a b) := by
  rw [equate]
  split <;> trivial

/-- Narrowing a function stops at worst. -/
theorem answers_narrow (f : Term) (domain : Ty) : Answers (fun _ => True) (f.narrow domain) := by
  rw [narrow]
  split
  · refine answers_freshType.bind fun codomain _ => ?_
    exact (answers_lift (outcome_equate _ _)).bind fun u _ => answers_pure trivial
  · exact answers_pure trivial

/-- Joining a function with its argument stops at worst. -/
theorem outcome_join (f x : Term) : Outcome (fun _ => True) (join f x) := by
  rw [join]
  refine (outcome_jointTypes _).bind fun u _ => ?_
  dsimp only
  split
  · split <;> trivial
  · trivial

/-- Making an application stops at worst. -/
theorem answers_mkApp (f x : Term) : Answers (fun _ => True) (f.mkApp x) := by
  rw [mkApp]
  refine (answers_narrow f _).bind fun f _ => ?_
  split
  · exact (answers_lift (outcome_equate _ _)).bind fun u _ => answers_lift (outcome_join _ _)
  · exact answers_freshType.bind fun codomain _ => answers_throw trivial

/-- Making several applications stops at worst. -/
theorem answers_mkApps (f : Term) : ∀ xs : List Term, Answers (fun _ => True) (f.mkApps xs)
  | [] => answers_pure trivial
  | x :: rest => by
    rw [mkApps]
    exact (answers_mkApp f x).bind fun fx _ => answers_mkApps fx rest

/-- A variable can be abstracted unless types clash. -/
theorem outcome_mkLam (v : Symbol) (body : Term) :
    Outcome (fun _ => True) (mkLam (.var v) body) := by
  rw [mkLam]
  exact (outcome_jointTypes _).bind fun u _ => trivial

/-- Substitution gives a term, or types clash, or it nests too deeply. -/
theorem answers_substituteWithin (depth : Nat) (t value pattern : Term) :
    Answers (fun _ => True) (t.substituteWithin depth value pattern) := by
  induction depth generalizing t value pattern with
  | zero =>
    rw [substituteWithin]
    exact answers_throw trivial
  | succ depth ih =>
    match t with
    | .const s | .var s =>
      rw [substituteWithin]
      exact answers_pure trivial
    | .app f x =>
      rw [substituteWithin]
      refine (ih f value pattern).bind fun f _ => (ih x value pattern).bind fun x _ => ?_
      refine (answers_mkApp f x).bind fun applied _ => ?_
      split
      · exact ih _ _ _
      · exact answers_pure trivial
    | .lam bound body =>
      rw [substituteWithin]
      split
      · exact answers_pure trivial
      · split
        · refine (ih _ _ _).bind fun renamed _ => (ih _ _ _).bind fun replaced _ => ?_
          exact answers_lift (outcome_mkLam _ _)
        · exact (ih _ _ _).bind fun replaced _ => answers_lift (outcome_mkLam _ _)

/-- Substituting stops at worst. -/
theorem answers_substitute (t value pattern : Term) :
    Answers (fun _ => True) (t.substitute value pattern) := by
  intro s
  exact answers_substituteWithin s.depth t value pattern s

end Term

/-! ## Goals and their parts -/

/-- Making a sequent stops at worst. -/
theorem Sequent.outcome_make (left right : List Term) :
    Outcome (fun _ => True) (Sequent.make left right) := by
  rw [make]
  split
  · trivial
  · exact (outcome_jointTypes _).bind fun u _ => trivial

/-- The theory has a term that shows the shape. -/
def Theory.Shows (th : Theory) (s : Shape) : Prop := ∃ pattern, th.shapes.lookup s = some pattern

/-- Taking apart a formula of a shape that the theory shows stops at worst. -/
theorem Theory.Shows.parts {th : Theory} {s : Shape} (shows : th.Shows s) (goal : Sequent)
    (side : Side) (index : Nat) : Answers (fun _ => True) (th.parts goal side index s) := by
  obtain ⟨pattern, known⟩ := shows
  rw [Theory.parts]
  split
  · exact answers_throw trivial
  · rw [Theory.shape, known]
    refine (answers_pure (P := fun _ => True) trivial).bind fun pattern _ => ?_
    split
    · exact answers_pure trivial
    · exact answers_throw trivial

/-- The parts of a formula that fits the pattern of a shape. -/
theorem Theory.parts_of_match {th : Theory} {goal : Sequent} {side : Side} {index : Nat}
    {shape : Shape} {formula pattern : Term} {m : Bindings}
    (found : (goal.side side)[index]? = some formula)
    (shown : th.shapes.lookup shape = some pattern) (fits : pattern.matchWith formula = .ok m)
    (s : Supply) : (th.parts goal side index shape).runFrom s = (.ok m, s) := by
  rw [parts, found]
  dsimp only
  rw [Theory.shape, shown, runFrom_bind_ok (runFrom_pure pattern s), fits]
  rfl

/-! ## Plans -/

namespace Plan

variable {p first second third : Plan} {more branches : List Plan} {m n : Nat}

/-- On every goal the plan leaves so many subgoals or stops. -/
def Yields (n : Nat) (p : Plan) : Prop :=
  ∀ goal, (p.subgoals goal).Answers fun goals => goals.length = n

/-- Plans that each leave a number of subgoals leave the sum of these together. -/
theorem yields_subgoalsOf {ns : List Nat} (each : List.Forall₂ Yields ns branches) :
    ∀ goals : List Sequent, goals.length = branches.length →
      (subgoalsOf branches goals).Answers fun left => left.length = ns.sum := by
  induction each with
  | nil =>
    intro goals _
    rw [subgoalsOf]
    · exact answers_pure rfl
    · simp
  | @cons n p ns plans here _ ih =>
    intro goals fits
    cases goals with
    | nil => cases fits
    | cons goal goals =>
      rw [subgoalsOf]
      refine (here goal).bind fun first count => ?_
      refine (ih goals (Nat.succ.inj fits)).bind fun rest counts => answers_pure ?_
      rw [List.length_append, count, counts, List.sum_cons]

/-- A branch with a plan for each subgoal of its head never has one too many or too few. -/
theorem yields_branch {ns : List Nat} (head : first.Yields branches.length)
    (each : List.Forall₂ Yields ns branches) : (branch first branches).Yields ns.sum := by
  intro goal
  rw [subgoals]
  refine (head goal).bind fun goals fits => ?_
  rw [if_pos fits]
  exact yields_subgoalsOf each goals fits

/-- A plan with one subgoal can be continued. -/
theorem Yields.next (one : first.Yields 1) (rest : (sequence second more).Yields n) :
    (sequence first (second :: more)).Yields n := by
  have alone := @yields_branch first [sequence second more] _ one (.cons rest .nil)
  rwa [List.sum_cons, List.sum_nil, Nat.add_zero] at alone

/-- A head with two subgoals can be followed by two plans. -/
theorem Yields.split (two : first.Yields 2) (left : second.Yields m) (right : third.Yields n) :
    (branch first [second, third]).Yields (m + n) :=
  @yields_branch first [second, third] _ two (.cons left (.cons right .nil))

/-- A tactic leaves what the plans it expands to leave. -/
theorem yields_compound {call : Call} {check : Sequent → Build Unit} {expansion : Sequent → Plan}
    (checked : ∀ goal, (check goal).Answers fun _ => True)
    (expands : ∀ goal, (expansion goal).Yields n) : (compound call check expansion).Yields n := by
  intro goal
  rw [subgoals]
  exact (checked goal).bind fun _ _ => expands goal goal

end Plan

namespace Rule

variable {th : Theory} {name : String} {args : List Arg}

open Plan

/-! ## Structural rules -/

/-- A primitive rule yields as many goals as its function returns. -/
theorem yields_primitive {n : Nat} {apply : Sequent → Build (List Sequent)}
    (answers : ∀ goal, (apply goal).Answers fun goals => goals.length = n) :
    (primitive name args apply).Yields n := by
  intro goal
  rw [primitive, subgoals]
  exact (answers goal).reported fun _ stops => stops.named name

/-- A primitive rule nests too deeply where what it applies does. -/
theorem primitive_deep {apply : Sequent → Build (List Sequent)} {goal : Sequent} {s : Supply}
    (deep : ((apply goal).runFrom s).1 = .error .tooDeep) :
    (((primitive name args apply).subgoals goal).runFrom s).1 = .error .tooDeep := by
  rw [primitive, Plan.subgoals, runFrom_tryCatch]
  rcases ran : (apply goal).runFrom s with ⟨failure | goals, s'⟩ <;> rw [ran] at deep <;>
    cases deep
  rfl

/-- Leaving one goal leaves one or stops. -/
theorem outcome_one (left right : List Term) :
    Outcome (fun goals => goals.length = 1) (one left right) :=
  (Sequent.outcome_make left right).bind fun _ _ => rfl

/-- Permuting stops at worst. -/
theorem outcome_permuted (formulas : List Term) (index : Int) :
    Outcome (fun _ => True) (permuted formulas index) := by
  rw [permuted]
  split
  · trivial
  · split <;> trivial

/-- Contracting stops at worst. -/
theorem outcome_contracted : ∀ formulas, Outcome (fun _ => True) (contracted formulas)
  | [] => trivial
  | _ :: _ => trivial

/-- Weakening stops at worst. -/
theorem outcome_weakened : ∀ formulas, Outcome (fun _ => True) (weakened formulas)
  | [] => trivial
  | _ :: _ => trivial

/-- Permutation on the left yields one goal. -/
theorem yields_leftPermutation (index : Int) : (leftPermutation index).Yields 1 :=
  yields_primitive fun _ => (answers_lift (outcome_permuted _ _)).bind fun _ _ =>
    answers_lift (outcome_one _ _)

/-- Permutation on the right yields one goal. -/
theorem yields_rightPermutation (index : Int) : (rightPermutation index).Yields 1 :=
  yields_primitive fun _ => (answers_lift (outcome_permuted _ _)).bind fun _ _ =>
    answers_lift (outcome_one _ _)

/-- Contraction on the left yields one goal. -/
theorem yields_leftContraction : leftContraction.Yields 1 :=
  yields_primitive fun _ => (answers_lift (outcome_contracted _)).bind fun _ _ =>
    answers_lift (outcome_one _ _)

/-- Contraction on the right yields one goal. -/
theorem yields_rightContraction : rightContraction.Yields 1 :=
  yields_primitive fun _ => (answers_lift (outcome_contracted _)).bind fun _ _ =>
    answers_lift (outcome_one _ _)

/-- Weakening on the left yields one goal. -/
theorem yields_leftWeakening : leftWeakening.Yields 1 :=
  yields_primitive fun _ => (answers_lift (outcome_weakened _)).bind fun _ _ =>
    answers_lift (outcome_one _ _)

/-- Weakening on the right yields one goal. -/
theorem yields_rightWeakening : rightWeakening.Yields 1 :=
  yields_primitive fun _ => (answers_lift (outcome_weakened _)).bind fun _ _ =>
    answers_lift (outcome_one _ _)

/-! ## Logical rules -/

/-- Doing nothing yields one goal. -/
theorem yields_noop : noop.Yields 1 := yields_primitive fun _ => answers_pure rfl

/-- Closing yields no goal. -/
theorem yields_close : close.Yields 0 := by
  refine yields_primitive fun goal => ?_
  split
  · split
    · exact answers_pure rfl
    · exact answers_lift trivial
  · exact answers_lift trivial

/-- A cut yields two goals. -/
theorem yields_cut (witness : Term) : (cut witness).Yields 2 :=
  yields_primitive fun _ => (answers_lift (Sequent.outcome_make _ _)).bind fun _ _ =>
    (answers_lift (Sequent.outcome_make _ _)).bind fun _ _ => answers_pure rfl

/-- A rule that makes one goal of the parts of a formula. -/
theorem yields_parts {s : Shape} (shows : th.Shows s) {side : Side} {index : Nat}
    {apply : Sequent → Bindings → Build (List Sequent)}
    (answers : ∀ goal m, (apply goal m).Answers fun goals => goals.length = 1) :
    (primitive name args fun goal => do apply goal (← th.parts goal side index s)).Yields 1 :=
  yields_primitive fun goal => (shows.parts goal side index).bind fun m _ => answers goal m

/-- Negation on the left yields one goal. -/
theorem yields_leftNegation (shows : th.Shows .negation) : (leftNegation th).Yields 1 :=
  yields_parts shows fun _ _ => answers_lift (outcome_one _ _)

/-- Negation on the right yields one goal. -/
theorem yields_rightNegation (shows : th.Shows .negation) : (rightNegation th).Yields 1 :=
  yields_parts shows fun _ _ => answers_lift (outcome_one _ _)

/-- Disjunction on the left yields two goals. -/
theorem yields_leftDisjunction (shows : th.Shows .disjunction) : (leftDisjunction th).Yields 2 :=
  yields_primitive fun goal => (shows.parts goal _ _).bind fun _ _ =>
    (answers_lift (Sequent.outcome_make _ _)).bind fun _ _ =>
      (answers_lift (Sequent.outcome_make _ _)).bind fun _ _ => answers_pure rfl

/-- Disjunction on the right yields one goal. -/
theorem yields_rightDisjunction (shows : th.Shows .disjunction) :
    (rightDisjunction th).Yields 1 :=
  yields_parts shows fun _ _ => answers_lift (outcome_one _ _)

/-- An instance on the left yields one goal. -/
theorem yields_leftUniversal (shows : th.Shows .universal) (witness : Term) :
    (leftUniversal th witness).Yields 1 :=
  yields_parts shows fun _ _ => (Term.answers_substitute _ _ _).bind fun _ _ =>
    answers_lift (outcome_one _ _)

/-- An instance on the right yields one goal. -/
theorem yields_rightUniversal (shows : th.Shows .universal) (witness : Term) :
    (rightUniversal th witness).Yields 1 := by
  refine yields_parts shows fun goal m => ?_
  split
  · split
    · exact answers_lift trivial
    · exact (Term.answers_substitute _ _ _).bind fun _ _ => answers_lift (outcome_one _ _)
  · exact answers_lift trivial

/-- An instance of a schema yields one goal. -/
theorem yields_leftSchema (shows : th.Shows .schema) (witness : Term) :
    (leftSchema th witness).Yields 1 :=
  yields_parts shows fun _ _ => (Term.answers_substitute _ _ _).bind fun _ _ =>
    answers_lift (outcome_one _ _)

/-- Substitution on the left yields one goal. -/
theorem yields_leftSubstitution (shows : th.Shows .equation) : (leftSubstitution th).Yields 1 :=
  yields_parts shows fun _ _ => (Term.answers_substitute _ _ _).bind fun _ _ =>
    answers_lift (outcome_one _ _)

/-- Substitution on the right yields one goal. -/
theorem yields_rightSubstitution (shows : th.Shows .equation) :
    (rightSubstitution th).Yields 1 := by
  refine yields_parts shows fun goal m => ?_
  split
  · exact answers_lift trivial
  · exact (Term.answers_substitute _ _ _).bind fun _ _ => answers_lift (outcome_one _ _)

/-- Symmetry on the left yields one goal. -/
theorem yields_leftSymmetry (shows : th.Shows .equation) : (leftSymmetry th).Yields 1 :=
  yields_parts shows fun _ _ => (Term.answers_mkApps _ _).bind fun _ _ =>
    answers_lift (outcome_one _ _)

/-- Symmetry on the right yields one goal. -/
theorem yields_rightSymmetry (shows : th.Shows .equation) : (rightSymmetry th).Yields 1 :=
  yields_parts shows fun _ _ => (Term.answers_mkApps _ _).bind fun _ _ =>
    answers_lift (outcome_one _ _)

/-- Assuming a postulate yields one goal. -/
theorem yields_theoremCut (th : Theory) (name : Text.Octets) : (theoremCut th name).Yields 1 := by
  refine yields_primitive fun goal => ?_
  split
  · exact answers_lift trivial
  · exact answers_lift (outcome_one _ _)

/-- An order of the atoms is always found. -/
theorem answers_arrange (formula : Term) (name : String) :
    (arrange formula name).Answers fun order => order.Perm (atomsNamed formula name) := by
  intro s
  obtain ⟨order, _, perm, run⟩ := exists_arrange formula name s
  rw [run]
  exact perm

/-- Unfolding a name stops at worst. -/
theorem answers_unfold (th : Theory) (formula : Term) (name : Text.Octets) :
    (unfold th formula name).Answers fun _ => True := by
  rw [unfold]
  split
  · exact answers_lift trivial
  next d _ =>
    have step : ∀ (state : Term × Bool) (atom : Term),
        (unfoldAtom d.value state atom).Answers fun _ => True := fun state atom =>
      (Term.answers_substitute _ _ _).bind fun _ _ => answers_pure trivial
    refine (answers_arrange _ _).bind fun atoms _ => ?_
    refine (answers_foldlM (fun state _ atom => step state atom) _ _ trivial).bind ?_
    rintro ⟨unfolded, found⟩ -
    dsimp only
    split
    · exact answers_pure trivial
    · exact answers_lift trivial

/-- Unfolding on the left yields one goal. -/
theorem yields_leftExpand (th : Theory) (name : Text.Octets) : (leftExpand th name).Yields 1 := by
  refine yields_primitive fun goal => ?_
  split
  · exact answers_lift trivial
  · exact (answers_unfold _ _ _).bind fun _ _ => answers_lift (outcome_one _ _)

/-- Unfolding on the right yields one goal. -/
theorem yields_rightExpand (th : Theory) (name : Text.Octets) :
    (rightExpand th name).Yields 1 := by
  refine yields_primitive fun goal => ?_
  split
  · exact answers_lift trivial
  · exact (answers_unfold _ _ _).bind fun _ _ => answers_lift (outcome_one _ _)

/-! ## Derived rules -/

/-- A tactic yields what its expansion yields. -/
theorem yields_fixed {n : Nat} {expansion : Plan} (yields : expansion.Yields n) :
    (fixed name args expansion).Yields n :=
  yields_compound (fun _ => answers_pure trivial) fun _ => yields

/-- A tactic on a shape yields what its expansion yields on all parts. -/
theorem yields_onShape {n : Nat} {side : Side} {s : Shape} {expansion : Bindings → Plan}
    (shows : th.Shows s) (yields : ∀ m, (expansion m).Yields n) :
    (onShape th name args side s expansion).Yields n := by
  refine yields_compound (fun goal => ?_) fun goal => yields _
  refine Answers.reported ?_ fun _ stops => stops.named name
  exact (shows.parts goal side 0).bind fun _ _ => answers_pure trivial

/-- Looking for a formula on both sides yields no goal. -/
theorem yields_qed : qed.Yields 0 := by
  refine yields_compound (fun goal => ?_) fun goal => ?_
  · split
    · exact answers_pure trivial
    · exact answers_throw trivial
  · exact (yields_leftPermutation _).next ((yields_rightPermutation _).next yields_close)

/-- Unfolding inside of a tactic on the left yields one goal. -/
theorem yields_leftUnfold (th : Theory) (name : String) : (leftUnfold th name).Yields 1 :=
  yields_leftExpand th _

/-- Unfolding inside of a tactic on the right yields one goal. -/
theorem yields_rightUnfold (th : Theory) (name : String) : (rightUnfold th name).Yields 1 :=
  yields_rightExpand th _

/-- The shapes of the connectives and quantifiers that nothing defines are shown. -/
structure ShowsBasic (th : Theory) : Prop where
  /-- Negations. -/
  negation : th.Shows .negation
  /-- Disjunctions. -/
  disjunction : th.Shows .disjunction
  /-- Universals. -/
  universal : th.Shows .universal

variable (basic : ShowsBasic th)
include basic

/-- The tactic for a conjunction on the left yields one goal. -/
theorem yields_leftConjunction : (leftConjunction th).Yields 1 :=
  yields_fixed <| (yields_leftUnfold th _).next <| (yields_leftNegation basic.negation).next <|
    (yields_rightDisjunction basic.disjunction).next <|
    (yields_rightNegation basic.negation).next <| (yields_rightNegation basic.negation).next <|
    yields_leftPermutation 1

/-- The tactic for a conjunction on the right yields two goals. -/
theorem yields_rightConjunction : (rightConjunction th).Yields 2 :=
  yields_fixed <| (yields_rightUnfold th _).next <| (yields_rightNegation basic.negation).next <|
    (yields_leftDisjunction basic.disjunction).split (yields_leftNegation basic.negation)
      (yields_leftNegation basic.negation)

/-- The tactic for an implication on the left yields two goals. -/
theorem yields_leftImplication : (leftImplication th).Yields 2 :=
  yields_fixed <| (yields_leftUnfold th _).next <|
    (yields_leftDisjunction basic.disjunction).split (yields_leftNegation basic.negation)
      yields_noop

/-- The tactic for an implication on the right yields one goal. -/
theorem yields_rightImplication : (rightImplication th).Yields 1 :=
  yields_fixed <| (yields_rightUnfold th _).next <|
    (yields_rightDisjunction basic.disjunction).next (yields_rightNegation basic.negation)

/-- The tactic for an equivalence on the right yields two goals. -/
theorem yields_rightBidirectional : (rightBidirectional th).Yields 2 :=
  yields_fixed <| (yields_rightUnfold th _).next <|
    (yields_rightConjunction basic).split (yields_rightImplication basic)
      (yields_rightImplication basic)

/-- Of the four cases that the two implications leave, two are closed. -/
theorem yields_leftBidirectional : (leftBidirectional th).Yields 2 := by
  have refuted : (Plan.branch (leftImplication th) [rightPermutation 1, close]).Yields 1 :=
    (yields_leftImplication basic).split (yields_rightPermutation 1) yields_close
  have proved : (Plan.sequence (leftPermutation 1)
      [.branch (leftImplication th) [close, noop]]).Yields 1 :=
    (yields_leftPermutation 1).next <|
      (yields_leftImplication basic).split yields_close yields_noop
  exact yields_fixed <| (yields_leftUnfold th _).next <| (yields_leftConjunction basic).next <|
    (yields_leftImplication basic).split refuted proved

/-- The tactic for existence on the right yields one goal. -/
theorem yields_rightExistential (witness : Term) : (rightExistential th witness).Yields 1 :=
  yields_fixed <| yields_rightContraction.next <| (yields_rightUnfold th _).next <|
    (yields_rightNegation basic.negation).next <|
    (yields_leftUniversal basic.universal witness).next <|
    (yields_leftNegation basic.negation).next yields_leftWeakening

/-- The tactic for existence on the left yields one goal. -/
theorem yields_leftExistential (witness : Term) : (leftExistential th witness).Yields 1 :=
  yields_fixed <| (yields_leftUnfold th _).next <| (yields_leftNegation basic.negation).next <|
    (yields_rightUniversal basic.universal witness).next (yields_rightNegation basic.negation)

/-- Excluded middle yields no goal. -/
theorem yields_excludedMiddle : (excludedMiddle th).Yields 0 :=
  yields_fixed <| (yields_rightDisjunction basic.disjunction).next <|
    (yields_rightPermutation 1).next <| (yields_rightNegation basic.negation).next yields_close

/-! ## Rules of set theory -/

/-- Instantiating the universal first on the left leaves one goal to what follows. -/
theorem yields_instantiate {n : Nat} {first : Plan} {rest : List Plan} (witness : Term)
    (one : first.Yields 1) (more : ∀ last : Plan, last.Yields 1 → (sequence last rest).Yields n) :
    (sequence first (instantiate th witness ++ rest)).Yields n :=
  one.next <| (yields_leftUniversal basic.universal witness).next <|
    (yields_leftPermutation 1).next <| more _ yields_leftWeakening

/-- Extension on the right yields two goals. -/
theorem yields_rightExtension (shows : th.Shows .equation) (witness : Term) :
    (rightExtension th witness).Yields 2 := by
  refine yields_onShape shows fun m => ?_
  have finish : (Plan.branch (leftImplication th) [rightBidirectional th, close]).Yields 2 :=
    (yields_leftImplication basic).split (yields_rightBidirectional basic) yields_close
  rw [List.append_assoc, List.append_assoc]
  refine yields_instantiate basic _ (yields_theoremCut th _) fun _ one => ?_
  refine yields_instantiate basic _ one fun _ one => ?_
  exact yields_instantiate basic _ one fun _ one => one.next finish

/-- The tactic for a subset on the left yields two goals. -/
theorem yields_leftSubset (witness : Term) : (leftSubset th witness).Yields 2 :=
  yields_fixed <| yields_instantiate basic _ (yields_leftUnfold th _) fun _ one =>
    one.next (yields_leftImplication basic)

/-- The tactic for a subset on the right yields one goal. -/
theorem yields_rightSubset (witness : Term) : (rightSubset th witness).Yields 1 :=
  yields_fixed <| (yields_rightUnfold th _).next <|
    (yields_rightUniversal basic.universal witness).next (yields_rightImplication basic)

/-- Bringing in the meaning of a power set yields what finishes it. -/
theorem yields_powersetMeaning {n : Nat} {finish : Plan} (m : Bindings)
    (yields : finish.Yields n) : (powersetMeaning th m finish).Yields n := by
  rw [powersetMeaning, List.append_assoc]
  refine yields_instantiate basic _ (yields_theoremCut th _) fun _ one => ?_
  exact yields_instantiate basic _ one fun _ one => one.next yields

/-- The tactic for a power set on the left yields one goal. -/
theorem yields_leftPowerset (shows : th.Shows .powerset) : (leftPowerset th).Yields 1 :=
  yields_onShape shows fun m => yields_powersetMeaning basic m <|
    (yields_leftBidirectional basic).split yields_close yields_leftWeakening

/-- The tactic for a power set on the right yields one goal. -/
theorem yields_rightPowerset (shows : th.Shows .powerset) : (rightPowerset th).Yields 1 :=
  yields_onShape shows fun m => yields_powersetMeaning basic m <|
    (yields_leftBidirectional basic).split yields_rightWeakening yields_close

/-- Bringing in the meaning of a separation yields what finishes it. -/
theorem yields_separationMeaning (schema : th.Shows .schema) {n : Nat} {finish : Plan}
    (m : Bindings) (yields : finish.Yields n) : (separationMeaning th m finish).Yields n := by
  rw [separationMeaning, List.append_assoc, List.append_assoc]
  have postulated : (postulate th "set.separation").Yields 1 := yields_theoremCut th _
  refine postulated.next <| (yields_leftSchema schema _).next <|
    (yields_leftPermutation 1).next ?_
  refine yields_instantiate basic _ yields_leftWeakening fun _ one => ?_
  exact yields_instantiate basic _ one fun _ one => one.next yields

/-- Separation on the right yields two goals. -/
theorem yields_rightSeparation (shows : th.Shows .separation) (schema : th.Shows .schema) :
    (rightSeparation th).Yields 2 := by
  refine yields_onShape shows fun m => yields_separationMeaning basic schema m ?_
  have parts : (Plan.branch (leftDisjunction th) [leftNegation th, leftNegation th]).Yields 2 :=
    (yields_leftDisjunction basic.disjunction).split (yields_leftNegation basic.negation)
      (yields_leftNegation basic.negation)
  exact (yields_leftBidirectional basic).split
    (yields_rightWeakening.next <| (yields_rightPermutation 1).next <|
      yields_rightWeakening.next <| (yields_rightNegation basic.negation).next parts)
    yields_close

/-- Separation on the left yields one goal. -/
theorem yields_leftSeparation (shows : th.Shows .separation) (schema : th.Shows .schema) :
    (leftSeparation th).Yields 1 := by
  refine yields_onShape shows fun m => yields_separationMeaning basic schema m ?_
  have parts : (Plan.sequence leftWeakening [
      leftPermutation 1, leftWeakening, leftNegation th, rightDisjunction th, rightNegation th,
      rightNegation th, leftPermutation 1]).Yields 1 :=
    yields_leftWeakening.next <| (yields_leftPermutation 1).next <| yields_leftWeakening.next <|
      (yields_leftNegation basic.negation).next <|
      (yields_rightDisjunction basic.disjunction).next <|
      (yields_rightNegation basic.negation).next <|
      (yields_rightNegation basic.negation).next <| yields_leftPermutation 1
  exact (yields_leftBidirectional basic).split yields_close parts

end Rule

/-! ## The catalogue -/

/-- The arguments are as many and of the kinds as the rule declares. -/
def Descriptor.Accepts (d : Descriptor) (args : List Arg) : Prop :=
  args.map Arg.kind? = d.args.map fun spec => some spec.kind

/-- Arguments of the specified kinds are of no wrong kind. -/
theorem Descriptor.wrongKind?_none : ∀ {specs : List ArgSpec} {args : List Arg},
    args.map Arg.kind? = specs.map (fun spec => some spec.kind) → wrongKind? specs args = none
  | [], _, _ => by rw [wrongKind?]; simp
  | _ :: _, [], kinds => by cases kinds
  | spec :: specs, arg :: args, kinds => by
    obtain ⟨kind, kinds⟩ := List.cons.inj kinds
    rw [wrongKind?, if_pos kind]
    exact wrongKind?_none kinds

/-- Arguments that a rule accepts are what it is built from. -/
theorem Descriptor.Accepts.instantiate {d : Descriptor} {args : List Arg} (accepts : d.Accepts args)
    (th : Theory) : d.instantiate th args = d.build th args := by
  have count : args.length = d.args.length := by
    have lengths := congrArg List.length accepts
    rwa [List.length_map, List.length_map] at lengths
  rw [Descriptor.instantiate, if_neg (not_not.mpr count), wrongKind?_none accepts]

/-- The theory shows every shape in which the rules of logic are interested. -/
structure Theory.ShowsLogic (th : Theory) : Prop extends Rule.ShowsBasic th where
  /-- Existentials. -/
  existential : th.Shows .existential
  /-- Schemas. -/
  schema : th.Shows .schema
  /-- Equations. -/
  equation : th.Shows .equation

/-- A theory that shows all shapes shows those of logic. -/
theorem Theory.showsLogic {th : Theory} (shows : ∀ s, th.Shows s) : th.ShowsLogic where
  negation := shows .negation
  disjunction := shows .disjunction
  universal := shows .universal
  existential := shows .existential
  schema := shows .schema
  equation := shows .equation

/-- From arguments that the rule accepts, a plan is built that leaves so many subgoals or stops,
and the shape that says where the rule is offered is shown. -/
structure Rule.Counts (th : Theory) (n : Nat) (d : Descriptor) : Prop where
  /-- What is built leaves so many subgoals. -/
  builds : ∀ args, d.Accepts args → ∀ s, ∃ p s', (d.build th args).runFrom s = (.ok p, s') ∧
    p.Yields n
  /-- The shape is shown. -/
  offered : ∀ side s, d.applicability = .onShape side s → th.Shows s

namespace Rule

open Plan

variable {th : Theory} {d : Descriptor} {n : Nat}

/-- A rule without arguments counts if its plan yields. -/
theorem counts_plain {f : Theory → Plan} (build : d.build = plain f) (yields : (f th).Yields n)
    (offered : ∀ side s, d.applicability = .onShape side s → th.Shows s := by nofun) :
    Counts th n d where
  builds := fun args _ s => ⟨f th, s, by rw [build]; rfl, yields⟩
  offered := offered

/-- A rule about a term counts if its plan yields for each term. -/
theorem counts_onTerm {f : Theory → Term → Plan} (build : d.build = onTerm f)
    (declared : d.args = witnessArg)
    (yields : ∀ t, (f th t).Yields n)
    (offered : ∀ side s, d.applicability = .onShape side s → th.Shows s := by nofun) :
    Counts th n d where
  builds := by
    intro args accepts s
    rw [Descriptor.Accepts, declared] at accepts
    match args with
    | [.term t] => exact ⟨f th t, s, by rw [build]; rfl, yields t⟩
  offered := offered

/-- A rule about a number counts if its plan yields for each number. -/
theorem counts_onInt {f : Theory → Int → Plan} (build : d.build = onInt f)
    (declared : d.args = indexArg)
    (yields : ∀ i, (f th i).Yields n)
    (offered : ∀ side s, d.applicability = .onShape side s → th.Shows s := by nofun) :
    Counts th n d where
  builds := by
    intro args accepts s
    rw [Descriptor.Accepts, declared] at accepts
    match args with
    | [.int i] => exact ⟨f th i, s, by rw [build]; rfl, yields i⟩
  offered := offered

/-- A rule about a name counts if its plan yields for each name. -/
theorem counts_onString {f : Theory → Text.Octets → Plan} (build : d.build = onString f)
    (declared : d.args = nameArg)
    (yields : ∀ name, (f th name).Yields n)
    (offered : ∀ side s, d.applicability = .onShape side s → th.Shows s := by nofun) :
    Counts th n d where
  builds := by
    intro args accepts s
    rw [Descriptor.Accepts, declared] at accepts
    match args with
    | [.string name] => exact ⟨f th name, s, by rw [build]; rfl, yields name⟩
  offered := offered

/-- The structural rules count. -/
theorem structuralRules_count (th : Theory) : ∀ d ∈ structuralRules, ∃ n, Counts th n d := by
  simp only [structuralRules, List.forall_mem_cons, List.not_mem_nil, false_imp_iff, implies_true,
    and_true]
  refine ⟨⟨1, ?_, nofun⟩, ⟨1, counts_onInt rfl rfl yields_leftPermutation⟩,
    ⟨1, counts_onInt rfl rfl yields_rightPermutation⟩, ⟨1, counts_plain rfl yields_leftContraction⟩,
    ⟨1, counts_plain rfl yields_rightContraction⟩, ⟨1, counts_plain rfl yields_leftWeakening⟩,
    ⟨1, counts_plain rfl yields_rightWeakening⟩, ⟨1, counts_plain rfl yields_noop⟩⟩
  -- An open goal leaves itself.
  exact fun _ _ s => ⟨_, _, rfl, fun _ => answers_pure rfl⟩

/-- The logical rules count where the theory shows their shapes. -/
theorem logicalRules_count (shows : th.ShowsLogic) : ∀ d ∈ logicalRules, ∃ n, Counts th n d := by
  simp only [logicalRules, List.forall_mem_cons, List.not_mem_nil, false_imp_iff, implies_true,
    and_true]
  exact ⟨⟨0, counts_plain rfl yields_close⟩, ⟨2, counts_onTerm rfl rfl yields_cut⟩,
    ⟨1, counts_plain rfl (yields_leftNegation shows.negation)⟩,
    ⟨1, counts_plain rfl (yields_rightNegation shows.negation)⟩,
    ⟨2, counts_plain rfl (yields_leftDisjunction shows.disjunction)⟩,
    ⟨1, counts_plain rfl (yields_rightDisjunction shows.disjunction)⟩,
    ⟨1, counts_onTerm rfl rfl (yields_leftUniversal shows.universal)
      (by rintro _ _ ⟨⟩; exact shows.universal)⟩,
    ⟨1, counts_onTerm rfl rfl (yields_rightUniversal shows.universal)
      (by rintro _ _ ⟨⟩; exact shows.universal)⟩,
    ⟨1, counts_onTerm rfl rfl (yields_leftSchema shows.schema)
      (by rintro _ _ ⟨⟩; exact shows.schema)⟩,
    ⟨1, counts_plain rfl (yields_leftSubstitution shows.equation)⟩,
    ⟨1, counts_plain rfl (yields_rightSubstitution shows.equation)⟩,
    ⟨1, counts_plain rfl (yields_leftSymmetry shows.equation)⟩,
    ⟨1, counts_plain rfl (yields_rightSymmetry shows.equation)⟩,
    ⟨1, counts_onString rfl rfl (yields_theoremCut th)⟩,
    ⟨1, counts_onString rfl rfl (yields_leftExpand th)⟩,
    ⟨1, counts_onString rfl rfl (yields_rightExpand th)⟩⟩

/-- The tactics count where the theory shows the shapes of logic. -/
theorem derivedRules_count (shows : th.ShowsLogic) : ∀ d ∈ derivedRules, ∃ n, Counts th n d := by
  have basic := shows.toShowsBasic
  simp only [derivedRules, List.forall_mem_cons, List.not_mem_nil, false_imp_iff, implies_true,
    and_true]
  exact ⟨⟨0, counts_plain rfl yields_qed⟩, ⟨1, counts_plain rfl (yields_leftConjunction basic)⟩,
    ⟨2, counts_plain rfl (yields_rightConjunction basic)⟩,
    ⟨2, counts_plain rfl (yields_leftImplication basic)⟩,
    ⟨1, counts_plain rfl (yields_rightImplication basic)⟩,
    ⟨2, counts_plain rfl (yields_leftBidirectional basic)⟩,
    ⟨2, counts_plain rfl (yields_rightBidirectional basic)⟩,
    ⟨1, counts_onTerm rfl rfl (yields_leftExistential basic)
      (by rintro _ _ ⟨⟩; exact shows.existential)⟩,
    ⟨1, counts_onTerm rfl rfl (yields_rightExistential basic)
      (by rintro _ _ ⟨⟩; exact shows.existential)⟩,
    ⟨0, counts_plain rfl (yields_excludedMiddle basic)⟩⟩

/-- The rules of set theory count where the theory shows all shapes. -/
theorem setRules_count (shows : ∀ s, th.Shows s) : ∀ d ∈ setRules, ∃ n, Counts th n d := by
  have basic := (Theory.showsLogic shows).toShowsBasic
  simp only [setRules, List.forall_mem_cons, List.not_mem_nil, false_imp_iff, implies_true,
    and_true]
  exact ⟨⟨2, counts_onTerm rfl rfl (yields_rightExtension basic (shows _)) fun _ s _ => shows s⟩,
    ⟨2, counts_onTerm rfl rfl (yields_leftSubset basic) fun _ s _ => shows s⟩,
    ⟨1, counts_onTerm rfl rfl (yields_rightSubset basic) fun _ s _ => shows s⟩,
    ⟨1, counts_plain rfl (yields_leftPowerset basic (shows _))⟩,
    ⟨1, counts_plain rfl (yields_rightPowerset basic (shows _))⟩,
    ⟨1, counts_plain rfl (yields_leftSeparation basic (shows _) (shows _))⟩,
    ⟨2, counts_plain rfl (yields_rightSeparation basic (shows _) (shows _))⟩⟩

/-- The rules of logic count where the theory shows the shapes of logic. -/
theorem logicRules_count (shows : th.ShowsLogic) :
    ∀ d ∈ structuralRules ++ logicalRules ++ derivedRules, ∃ n, Counts th n d := by
  intro d listed
  rcases List.mem_append.mp listed with listed | derived
  · rcases List.mem_append.mp listed with structural | logical
    · exact structuralRules_count th d structural
    · exact logicalRules_count shows d logical
  · exact derivedRules_count shows d derived

/-- All rules count where the theory shows all shapes. -/
theorem catalogue_count (shows : ∀ s, th.Shows s) : ∀ d ∈ catalogue, ∃ n, Counts th n d := by
  intro d listed
  rcases List.mem_append.mp listed with logic | sets
  · exact logicRules_count (Theory.showsLogic shows) d logic
  · exact setRules_count shows d sets

/-- Applying the rule leaves so many subgoals or stops. -/
theorem Counts.applies (counts : Counts th n d) {args : List Arg} (accepts : d.Accepts args)
    (goal : Sequent) :
    Answers (fun goals => goals.length = n) (do (← d.instantiate th args).subgoals goal) := by
  intro s
  obtain ⟨p, s', built, yields⟩ := counts.builds args accepts s
  rw [accepts.instantiate, runFrom_bind, built]
  exact yields goal s'

end Rule

/-! ## Offering rules -/

namespace Build

variable {α β : Type}

/-- Every run ends with a result, or because a reduction nests too deeply. -/
def Completes (build : Build α) : Prop :=
  ∀ s failure s', build.runFrom s = (.error failure, s') → failure.cause = .tooDeep

/-- Returning a value completes. -/
theorem completes_pure (a : α) : Completes (pure a) := by
  rintro s failure s' ⟨⟩

/-- If two builds complete, then so do both together. -/
theorem Completes.bind {build : Build α} {next : α → Build β} (first : Completes build)
    (second : ∀ a, Completes (next a)) : Completes (build >>= next) := by
  intro s failure s' run
  rw [runFrom_bind] at run
  rcases ran : build.runFrom s with ⟨failed | a, s₁⟩ <;> rw [ran] at run
  · cases run
    exact first s _ _ ran
  · exact second a s₁ failure s' run

/-- A build that completes does so inside an activity. -/
theorem Completes.within {build : Build α} (completes : Completes build) (context : Context) :
    Completes (build.within context) := by
  intro s failure s' run
  rw [runFrom_within] at run
  rcases ran : build.runFrom s with ⟨failed | a, s₁⟩ <;> rw [ran] at run
  · cases run
    exact completes s failed _ ran
  · cases run

/-- Filtering goes on from what is kept if the test of each item completes. -/
theorem completes_filterAuxM {f : α → Build Bool} : ∀ (items kept : List α),
    (∀ a ∈ items, Completes (f a)) → Completes (items.filterAuxM f kept)
  | [], kept, _ => completes_pure kept
  | a :: rest, kept, each => by
    rw [List.filterAuxM]
    refine (each a (by simp)).bind fun chosen => ?_
    exact completes_filterAuxM rest _ fun other inside => each other (by simp [inside])

/-- Filtering completes if the test of each item does. -/
theorem completes_filterM {f : α → Build Bool} {items : List α}
    (each : ∀ a ∈ items, Completes (f a)) : Completes (items.filterM f) :=
  (completes_filterAuxM items [] each).bind fun _ => completes_pure _

/-- Asking whether something succeeds that only stops in the ways of a rule has an answer. -/
theorem Answers.succeeds {P : α → Prop} {build : Build α} (answers : Answers P build) :
    Completes (Descriptor.succeeds build) := by
  intro s failure s' run
  rw [Descriptor.succeeds, runFrom_tryCatch, runFrom_bind] at run
  have outcome := answers s
  rcases ran : build.runFrom s with ⟨failed | a, s₁⟩ <;> rw [ran] at run outcome
  · dsimp only at run
    split at run
    · cases run
    next fits =>
      cases run
      exact outcome.misfit_or_deep.resolve_left fits
  · cases run

/-- A selection that succeeds has tried every item. -/
theorem filterAuxM_ok {α : Type} {f : α → Build Bool} : ∀ {items kept kept' : List α}
    {s s' : Supply}, (items.filterAuxM f kept).runFrom s = (.ok kept', s') →
      ∀ a ∈ items, ∃ u b u', (f a).runFrom u = (.ok b, u')
  | [], _, _, _, _, _ => by simp
  | a :: rest, kept, kept', s, s', run => by
    rw [List.filterAuxM] at run
    obtain ⟨b, s₁, tried, run⟩ := bind_ok run
    intro a' inside
    rcases List.mem_cons.mp inside with rfl | later
    · exact ⟨s, b, s₁, tried⟩
    · exact filterAuxM_ok run a' later

/-- A rule that nests too deeply cannot be told to apply or not. -/
theorem succeeds_deep {α : Type} {build : Build α} {s : Supply}
    (deep : (build.runFrom s).1 = .error .tooDeep) :
    ((Descriptor.succeeds build).runFrom s).1 = .error .tooDeep := by
  rw [Descriptor.succeeds, runFrom_tryCatch, runFrom_bind]
  rcases ran : build.runFrom s with ⟨failure | a, s'⟩ <;> rw [ran] at deep <;> cases deep
  rfl

end Build

/-- Whether a rule applies can be told unless a reduction nests too deeply. -/
theorem Rule.Counts.appliesTo {th : Theory} {n : Nat} {d : Descriptor} (counts : Counts th n d)
    (goal : Sequent) : Completes (d.appliesTo th goal) := by
  rw [Descriptor.appliesTo]
  split
  · exact completes_pure _
  next side s offered =>
    exact Answers.succeeds ((counts.offered side s offered).parts goal side 0)
  · split
    next none =>
      have accepts : d.Accepts [] := by
        rw [Descriptor.Accepts, List.isEmpty_iff.mp none]
        rfl
      have applies := counts.applies accepts goal
      rw [accepts.instantiate] at applies
      exact Answers.succeeds applies
    · exact completes_pure _

/-- Every rule of the environment leaves a number of subgoals that depends on the rule alone, or
stops. -/
def Environment.Counted (env : Environment) : Prop :=
  ∀ d ∈ env.rules.rules, ∃ n, Rule.Counts env.theory n d

/-- The rules that apply to a goal can be listed unless a reduction nests too deeply. -/
theorem Environment.Counted.applicableRules {env : Environment} (counted : env.Counted)
    (goal : Sequent) : Completes (env.applicableRules goal) := by
  rw [Environment.applicableRules]
  refine completes_filterM fun d listed => ?_
  obtain ⟨n, counts⟩ := counted d listed
  exact (counts.appliesTo goal).within _

end Turnstile
