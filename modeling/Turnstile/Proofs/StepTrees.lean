import Turnstile.Proofs.Steps

/-!
# The shape of recorded steps

A step that is followed has steps of its own: those that continue the subgoals which its plan
leaves. Recording grafts the steps of a branch's plans onto the step that its head returns. When
the head is a rule or a compound this makes exactly one step for each subgoal, in order. When the
head is itself a branch, the step that is returned belongs to the head of the head and has its own
subgoals accounted for already; the steps that continue what the inner branch leaves open come
after them in the same list. So the first steps always are those of the subgoals, and they are the
only ones if no branch that is followed has a branch for its head, as in every tactic that the
theories provide.
-/

namespace Turnstile

open Build

/-! ## Steps and what they say -/

namespace Step

/-- The goal of a step. -/
def goal : Step → Sequent
  | mk goal _ _ _ => goal

/-- What a step applies to its goal. -/
def plan : Step → Plan
  | mk _ plan _ _ => plan

/-- The steps that continue a step. -/
def justification : Step → List Step
  | mk _ _ justification _ => justification

/-- The run of a compound's expansion. -/
def expansion : Step → Option Step
  | mk _ _ _ expansion => expansion

/-- Adding steps below a step leaves its goal. -/
@[simp] theorem justifiedBy_goal (st : Step) (more : List Step) :
    (st.justifiedBy more).goal = st.goal := by cases st; rfl

/-- Adding steps below a step leaves its plan. -/
@[simp] theorem justifiedBy_plan (st : Step) (more : List Step) :
    (st.justifiedBy more).plan = st.plan := by cases st; rfl

/-- Steps are added after those that are there. -/
@[simp] theorem justifiedBy_justification (st : Step) (more : List Step) :
    (st.justifiedBy more).justification = st.justification ++ more := by cases st; rfl

/-- Adding steps below a step leaves its expansion. -/
@[simp] theorem justifiedBy_expansion (st : Step) (more : List Step) :
    (st.justifiedBy more).expansion = st.expansion := by cases st; rfl

end Step

namespace Plan

/-- A plan produces the given subgoals of a goal, whatever the supply. -/
def Produces (p : Plan) (goal : Sequent) (goals : List Sequent) : Prop :=
  ∀ s, ∃ s', (p.subgoals goal).runFrom s = (.ok goals, s')

/-- A plan that produces goals leaves these whenever it runs. -/
theorem Produces.eq {p : Plan} {goal : Sequent} {goals goals' : List Sequent} {s s' : Supply}
    (leaves : p.Produces goal goals) (run : (p.subgoals goal).runFrom s = (.ok goals', s')) :
    goals = goals' := by
  obtain ⟨t, again⟩ := leaves s
  rw [run] at again
  cases again
  rfl

/-- A plan that is a function of the goal produces what it leaves once. -/
theorem Functional.produces {p : Plan} (functional : p.Functional) {goal : Sequent}
    {goals : List Sequent} {s s' : Supply}
    (run : (p.subgoals goal).runFrom s = (.ok goals, s')) : p.Produces goal goals :=
  fun t => (Functional.subgoals p functional goal).again run t

mutual

/-- No branch that is followed has a branch for its head, in the plan or in what its compounds
expand to. -/
def Straight : Plan → Prop
  | assumption _ => True
  | rule _ _ => True
  | compound _ _ expansion => ∀ goal, (expansion goal).Straight
  | branch first branches =>
    (first.isBranch = true → branches = []) ∧ first.Straight ∧ StraightAll branches

/-- No branch that is followed has a branch for its head in any of several plans. -/
def StraightAll : List Plan → Prop
  | [] => True
  | p :: rest => p.Straight ∧ StraightAll rest

end

end Plan

namespace Step

/-- A step that is followed begins with one step for each subgoal that its own plan leaves of its
own goal, in order; with `exactly` it has no other steps. What is recorded of its expansion begins
with its goal. -/
structure Accounts (exactly : Prop) (st : Step) : Prop where
  /-- The goals of the steps that continue it. -/
  followed : st.justification ≠ [] → ∃ goals more, st.plan.Produces st.goal goals ∧
    st.justification.map goal = goals ++ more ∧ (exactly → more = [])
  /-- The goal of the expansion. -/
  expanded : ∀ inner, st.expansion = some inner → inner.goal = st.goal

mutual

/-- A statement about steps holds of a step and of all steps under it, inside expansions too. -/
def Every (P : Step → Prop) : Step → Prop
  | mk goal plan justification expansion =>
    P (mk goal plan justification expansion) ∧ EveryOf P justification ∧ EveryIn P expansion

/-- A statement holds of several steps and of all steps under them. -/
def EveryOf (P : Step → Prop) : List Step → Prop
  | [] => True
  | st :: rest => st.Every P ∧ EveryOf P rest

/-- A statement holds of a step that may be there and of all steps under it. -/
def EveryIn (P : Step → Prop) : Option Step → Prop
  | none => True
  | some st => st.Every P

end

variable {P : Step → Prop} {st : Step} {steps more : List Step}

/-- What holds of every step of a tree holds of its root. -/
theorem Every.self (every : st.Every P) : P st := by
  cases st
  exact every.1

/-- What holds of every step of two lists of trees holds of every step of both. -/
theorem EveryOf.append (first : EveryOf P steps) (second : EveryOf P more) :
    EveryOf P (steps ++ more) := by
  induction steps with
  | nil => exact second
  | cons st rest ih => exact ⟨first.1, ih first.2⟩

mutual

/-- What holds of every step of a tree holds in each weaker form. -/
theorem Every.mono {Q : Step → Prop} (weaker : ∀ st, P st → Q st) :
    (st : Step) → st.Every P → st.Every Q
  | mk _ _ justification expansion, every =>
    ⟨weaker _ every.1, EveryOf.mono weaker justification every.2.1,
      EveryIn.mono weaker expansion every.2.2⟩

/-- What holds of every step of some trees holds in each weaker form. -/
theorem EveryOf.mono {Q : Step → Prop} (weaker : ∀ st, P st → Q st) :
    (steps : List Step) → EveryOf P steps → EveryOf Q steps
  | [], _ => trivial
  | st :: rest, every => ⟨Every.mono weaker st every.1, EveryOf.mono weaker rest every.2⟩

/-- What holds of every step inside of a step holds in each weaker form. -/
theorem EveryIn.mono {Q : Step → Prop} (weaker : ∀ st, P st → Q st) :
    (inner : Option Step) → EveryIn P inner → EveryIn Q inner
  | none, _ => trivial
  | some st, every => Every.mono weaker st every

end

/-- Only the step onto which others are grafted changes. -/
theorem Every.justifiedBy (every : st.Every P) (all : EveryOf P more)
    (here : P (st.justifiedBy more)) : (st.justifiedBy more).Every P := by
  cases st
  exact ⟨here, every.2.1.append all, every.2.2⟩

end Step

namespace Plan

/-! ## Recording -/

/-- What the step recorded of a plan has to do with the plan: it is a step of the goal, and if
nothing continues it, it is the plan's own step or the plan closes the goal. -/
structure Recorded (exactly : Prop) (p : Plan) (goal : Sequent) (st : Step) : Prop where
  /-- Everything in it is accounted for. -/
  every : st.Every (Step.Accounts exactly)
  /-- It is a step of the goal. -/
  goal_eq : st.goal = goal
  /-- Nothing continues the step of a plan that is not a branch. -/
  single : p.isBranch = false → st.plan = p ∧ st.justification = []
  /-- A branch of which nothing continues the step closes the goal. -/
  closed : p.isBranch = true → st.justification = [] → p.Produces goal []

variable {exactly : Prop} {p first : Plan} {branches : List Plan} {goal : Sequent}
  {goals : List Sequent} {head : Step} {steps : List Step}

/-- A branch is recorded by grafting the steps of its plans onto the step of its head. -/
theorem Recorded.branch (recorded : Recorded exactly first goal head)
    (functional : (Plan.branch first branches).Functional)
    (straight : exactly → (Plan.branch first branches).Straight)
    (leaves : first.Produces goal goals)
    (fits : goals.length = branches.length) (all : Step.EveryOf (Step.Accounts exactly) steps)
    (goals_eq : steps.map Step.goal = goals) :
    Recorded exactly (.branch first branches) goal (head.justifiedBy steps) where
  every := by
    have here := recorded.every.self
    refine recorded.every.justifiedBy all ⟨fun followed => ?_, by simpa using here.expanded⟩
    simp only [Step.justifiedBy_goal, Step.justifiedBy_plan, Step.justifiedBy_justification,
      List.map_append, goals_eq] at followed ⊢
    cases kind : first.isBranch with
    | false =>
      obtain ⟨plan, nothing⟩ := recorded.single kind
      exact ⟨goals, [], by rwa [plan, recorded.goal_eq], by simp [nothing], fun _ => rfl⟩
    | true =>
      by_cases nothing : head.justification = []
      · -- The head closes the goal, so there is nothing to graft.
        have none : goals = [] := by
          obtain ⟨_, run⟩ := leaves .initial
          exact ((recorded.closed kind nothing).eq run).symm
        rw [none, List.map_eq_nil_iff] at goals_eq
        exact absurd (by rw [nothing, goals_eq]; rfl) followed
      · obtain ⟨own, more, leaves, same, only⟩ := here.followed nothing
        refine ⟨own, more ++ goals, leaves, by rw [same, List.append_assoc], fun wanted => ?_⟩
        have none : branches = [] := (straight wanted).1 kind
        rw [none] at fits
        rw [only wanted, List.length_eq_zero_iff.mp fits]
        rfl
  goal_eq := by rw [Step.justifiedBy_goal, recorded.goal_eq]
  single := by simp [isBranch]
  closed := by
    intro _ nothing s
    rw [Step.justifiedBy_justification, List.append_eq_nil_iff] at nothing
    rw [nothing.2] at goals_eq
    obtain rfl : [] = goals := goals_eq
    obtain rfl : branches = [] := List.length_eq_zero_iff.mp fits.symm
    obtain ⟨s', run⟩ := leaves s
    exact ⟨s', by rw [subgoals, runFrom_bind_ok run]; rfl⟩

/-- Nothing is grafted onto the step of a plan that is not a branch. -/
theorem recorded_single (kind : p.isBranch = false) (expansion : Option Step)
    (every : Step.EveryIn (Step.Accounts exactly) expansion)
    (starts : ∀ inner, expansion = some inner → inner.goal = goal) :
    Recorded exactly p goal (.mk goal p [] expansion) where
  every := ⟨⟨fun followed => absurd rfl followed, starts⟩, trivial, every⟩
  goal_eq := rfl
  single _ := ⟨rfl, rfl⟩
  closed branching := by
    rw [kind] at branching
    cases branching

mutual

/-- Recording a plan accounts for the subgoals of every step. -/
theorem step_recorded : (p : Plan) → p.Functional → (exactly → p.Straight) → ∀ {goal : Sequent},
    (p.step goal).Gives (Recorded exactly p goal)
  | assumption id, _, _, goal => by
    rw [step]
    refine gives_pure (recorded_single rfl none trivial fun inner is => ?_)
    cases is
  | rule call apply, _, _, goal => by
    rw [step]
    refine gives_pure (recorded_single rfl none trivial fun inner is => ?_)
    cases is
  | compound call check expansion, functional, straight, goal => by
    rw [step]
    refine (gives_any _).bind fun _ _ => ?_
    refine (step_recorded (expansion goal) (functional.2 goal)
      fun wanted => straight wanted goal).bind fun inner recorded => ?_
    refine gives_pure (recorded_single rfl (some inner) recorded.every fun inner' is => ?_)
    cases is
    exact recorded.goal_eq
  | branch first branches, functional, straight, goal => by
    intro s s' st run
    rw [step] at run
    obtain ⟨goals, s₁, left, run⟩ := bind_ok run
    have leaves := Functional.produces functional.1 left
    split at run
    next fits =>
      obtain ⟨head, s₂, here, run⟩ := bind_ok run
      obtain ⟨steps, s₃, there, run⟩ := bind_ok run
      obtain ⟨rfl, -⟩ : head.justifiedBy steps = st ∧ s₃ = s' := by simpa using run
      have recorded := step_recorded first functional.1 (fun wanted => (straight wanted).2.1)
        _ _ _ here
      obtain ⟨all, same⟩ := stepAll_recorded branches functional.2
        (fun wanted => (straight wanted).2.2) fits _ _ _ there
      exact recorded.branch functional straight leaves fits all same
    next => cases run

/-- Recording plans on their goals accounts for all subgoals, with one step for each goal. -/
theorem stepAll_recorded : (plans : List Plan) → FunctionalAll plans →
    (exactly → StraightAll plans) →
    ∀ {goals : List Sequent}, goals.length = plans.length → (stepAll plans goals).Gives fun steps =>
      Step.EveryOf (Step.Accounts exactly) steps ∧ steps.map Step.goal = goals
  | [], _, _, goals, fits => by
    obtain rfl : goals = [] := List.length_eq_zero_iff.mp fits
    rw [stepAll]
    · exact gives_pure ⟨trivial, rfl⟩
    · simp
  | p :: plans, functional, straight, [], fits => by cases fits
  | p :: plans, functional, straight, goal :: goals, fits => by
    rw [stepAll]
    refine (step_recorded p functional.1 fun wanted => (straight wanted).1).bind
      fun here recorded => ?_
    refine (stepAll_recorded plans functional.2 (fun wanted => (straight wanted).2)
      (Nat.succ.inj fits)).bind fun rest ⟨all, same⟩ => ?_
    exact gives_pure ⟨⟨recorded.every, all⟩, by rw [List.map_cons, recorded.goal_eq, same]⟩

end

/-- Every step that is recorded of a straight plan and that is followed has exactly one step for
each subgoal that its own plan leaves of its own goal, in order, inside expansions too. -/
theorem step_accounts {p : Plan} (functional : p.Functional) (straight : p.Straight)
    (goal : Sequent) : (p.step goal).Gives fun st => st.Every fun st =>
      (st.justification ≠ [] → st.plan.Produces st.goal (st.justification.map Step.goal)) ∧
        ∀ inner, st.expansion = some inner → inner.goal = st.goal := by
  refine (@step_recorded True p functional (fun _ => straight) goal).mono fun st recorded => ?_
  refine Step.Every.mono (fun st accounts => ⟨fun followed => ?_, accounts.expanded⟩) st
    recorded.every
  obtain ⟨goals, more, leaves, same, only⟩ := accounts.followed followed
  rw [same, only trivial, List.append_nil]
  exact leaves

/-- Whatever the heads of its branches are, every step that is recorded of a plan and that is
followed begins with one step for each subgoal that its own plan leaves of its own goal. -/
theorem step_begins {p : Plan} (functional : p.Functional) (goal : Sequent) :
    (p.step goal).Gives fun st => st.Every fun st =>
      (st.justification ≠ [] → ∃ goals, st.plan.Produces st.goal goals ∧
        goals <+: st.justification.map Step.goal) ∧
        ∀ inner, st.expansion = some inner → inner.goal = st.goal := by
  refine (@step_recorded False p functional False.elim goal).mono fun st recorded => ?_
  refine Step.Every.mono (fun st accounts => ⟨fun followed => ?_, accounts.expanded⟩) st
    recorded.every
  obtain ⟨goals, more, leaves, same, -⟩ := accounts.followed followed
  exact ⟨goals, leaves, more, same.symm⟩

/-- A branch that is followed and has for its head a branch that is followed has too many steps:
its own plans' steps come on top of those for the subgoals of the step that is returned. -/
theorem step_surplus {first : Plan} {branches : List Plan} {next : Plan} {rest : List Plan}
    (functional : (branch (branch first branches) (next :: rest)).Functional) (goal : Sequent) :
    ((branch (branch first branches) (next :: rest)).step goal).Gives fun st =>
      ∃ goals, st.plan.Produces st.goal goals ∧
        goals.length + (next :: rest).length ≤ st.justification.length := by
  intro s s' st run
  rw [step] at run
  obtain ⟨goals, s₁, left, run⟩ := bind_ok run
  have leaves := Functional.produces functional.1 left
  split at run
  next fits =>
    obtain ⟨head, s₂, here, run⟩ := bind_ok run
    obtain ⟨steps, s₃, there, run⟩ := bind_ok run
    obtain ⟨rfl, -⟩ : head.justifiedBy steps = st ∧ s₃ = s' := by simpa using run
    have recorded :=
      @step_recorded False (branch first branches) functional.1 False.elim goal _ _ _ here
    obtain ⟨-, same⟩ :=
      @stepAll_recorded False (next :: rest) functional.2 False.elim goals fits _ _ _ there
    -- The inner branch leaves something open, so it was followed itself.
    have followed : head.justification ≠ [] := by
      intro nothing
      obtain ⟨_, run⟩ := leaves .initial
      rw [← (recorded.closed rfl nothing).eq run] at fits
      cases fits
    obtain ⟨own, more, ownLeaves, ownSame, -⟩ := recorded.every.self.followed followed
    refine ⟨own, by simpa using ownLeaves, ?_⟩
    have lengths := congrArg List.length ownSame
    have lengths' := congrArg List.length same
    simp only [List.length_map, List.length_append] at lengths lengths'
    simp only [Step.justifiedBy_justification, List.length_append]
    omega
  next => cases run

/-- Three copies of the rule that keeps the goal, in two ways: one step is followed by two steps,
although its rule leaves one subgoal. -/
example (goal : Sequent) (s : Supply) :
    (((branch (branch Rule.noop [Rule.noop]) [Rule.noop]).step goal).runFrom s).1.toOption.map
        (fun st => st.justification.length) = some 2 ∧
    ((Rule.noop.subgoals goal).runFrom s).1.toOption = some [goal] := ⟨rfl, rfl⟩

end Plan

end Turnstile
