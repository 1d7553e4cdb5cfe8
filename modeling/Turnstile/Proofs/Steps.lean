import Turnstile.Proofs.Builds
import Turnstile.Rule.Logical

/-!
# Recorded steps

A plan that is recorded step by step is run less than one that is run for its open goals: of each
rule that is followed the subgoals are needed, so it is run, but a rule with which a plan ends is
written down without being tried. For plans whose rules, checks and expansions depend on the goal
alone this is the whole difference. Recording ends exactly as a run does in which the last rules
leave their goals open: with the same failure, or without one. In particular a plan that runs on a
goal can be recorded on it.
-/

namespace Turnstile

open Build

/-! ## Runs that do not depend on the supply -/

namespace Build

variable {α β : Type} {build : Build α} {next : α → Build β}

/-- How a run of a build ends, its value left out. -/
def ends (build : Build α) (s : Supply) : Except Failure Unit :=
  (build.runFrom s).1.map fun _ => ()

/-- The outcome of a build is the same from every supply. -/
def Steady (build : Build α) : Prop := ∀ s s', (build.runFrom s).1 = (build.runFrom s').1

/-- A run that succeeds ends well. -/
theorem ends_ok {s s' : Supply} {a : α} (run : build.runFrom s = (.ok a, s')) :
    build.ends s = .ok () := by
  rw [ends, run]
  rfl

/-- A run that fails ends with its failure. -/
theorem ends_error {s s' : Supply} {failure : Failure}
    (run : build.runFrom s = (.error failure, s')) : build.ends s = .error failure := by
  rw [ends, run]
  rfl

/-- A build that ends without a failure has a value. -/
theorem exists_of_ends_ok {s : Supply} (ended : build.ends s = .ok ()) :
    ∃ a s', build.runFrom s = (.ok a, s') := by
  rcases run : build.runFrom s with ⟨failure | a, s'⟩
  · rw [ends_error run] at ended
    cases ended
  · exact ⟨a, s', rfl⟩

/-- Two builds end as the second one does where the first one succeeds, and else as the first one.
-/
theorem ends_bind (build : Build α) (next : α → Build β) (s : Supply) :
    (build >>= next).ends s = match build.runFrom s with
      | (.ok a, s') => (next a).ends s'
      | (.error failure, _) => .error failure := by
  rw [ends, runFrom_bind]
  rcases build.runFrom s with ⟨failure | a, s'⟩ <;> rfl

/-- What follows a build with a value decides how the two end. -/
theorem ends_bind_ok {s s' : Supply} {a : α} (run : build.runFrom s = (.ok a, s')) :
    (build >>= next).ends s = (next a).ends s' := by
  rw [ends_bind, run]

/-- Two builds end with the failure of the first one. -/
theorem ends_bind_error {s s' : Supply} {failure : Failure}
    (run : build.runFrom s = (.error failure, s')) :
    (build >>= next).ends s = .error failure := by
  rw [ends_bind, run]

/-- What is made of the value of a build changes nothing in how it ends. -/
theorem ends_bind_pure (build : Build α) (f : α → β) (s : Supply) :
    (do let a ← build; return f a).ends s = build.ends s := by
  rw [ends_bind]
  rcases run : build.runFrom s with ⟨failure | a, s'⟩
  · exact (ends_error run).symm
  · exact (ends_ok run).symm

/-- Returning a value depends on no supply. -/
theorem steady_pure (a : α) : Steady (pure a) := fun _ _ => rfl

/-- Failing depends on no supply. -/
theorem steady_throw (failure : Failure) : Steady (throw failure : Build α) := fun _ _ => rfl

/-- A computation without supply is steady. -/
theorem steady_lift (result : Except Failure α) : Steady (liftM result : Build α) := fun _ _ => rfl

/-- Steady builds stay steady when their failures are reported in another way. -/
theorem Steady.reported (steady : Steady build) (report : Failure → Failure) :
    Steady (MonadExcept.tryCatch build fun failure => throw (report failure)) := by
  intro s t
  have same := steady s t
  rw [runFrom_tryCatch, runFrom_tryCatch]
  rcases runS : build.runFrom s with ⟨failure | a, s'⟩ <;>
    rcases runT : build.runFrom t with ⟨failure' | b, t'⟩ <;>
    rw [runS, runT] at same <;> cases same <;> rfl

/-- A steady build followed by steady ones is steady. -/
theorem Steady.bind (first : Steady build)
    (second : ∀ s s' a, build.runFrom s = (.ok a, s') → Steady (next a)) :
    Steady (build >>= next) := by
  intro s t
  have same := first s t
  rw [runFrom_bind, runFrom_bind]
  rcases runS : build.runFrom s with ⟨failure | a, s'⟩ <;>
    rcases runT : build.runFrom t with ⟨failure' | b, t'⟩ <;>
    rw [runS, runT] at same <;> cases same
  · rfl
  · exact second s s' a runS s' t'

/-- A steady build that succeeds from one supply gives the same value from every other. -/
theorem Steady.again (steady : Steady build) {s s' : Supply} {a : α}
    (run : build.runFrom s = (.ok a, s')) (t : Supply) : ∃ t', build.runFrom t = (.ok a, t') := by
  have same := steady t s
  rw [run] at same
  exact ⟨(build.runFrom t).2, Prod.ext same rfl⟩

end Build

namespace Plan

/-! ## Plans that depend on the goal alone -/

mutual

/-- The rules and checks of a plan have outcomes that depend on the goal alone. -/
def Functional : Plan → Prop
  | assumption _ => True
  | rule _ apply => ∀ goal, Steady (apply goal)
  | compound _ check expansion => (∀ goal, Steady (check goal)) ∧
      ∀ goal, (expansion goal).Functional
  | branch first branches => first.Functional ∧ FunctionalAll branches

/-- The rules and checks of several plans have outcomes that depend on the goal alone. -/
def FunctionalAll : List Plan → Prop
  | [] => True
  | p :: rest => p.Functional ∧ FunctionalAll rest

end

/-- A primitive rule depends on the goal alone if what it applies does. -/
theorem functional_primitive {name : String} {args : List Arg}
    {apply : Sequent → Build (List Sequent)} (steady : ∀ goal, Steady (apply goal)) :
    (Rule.primitive name args apply).Functional :=
  fun goal => (steady goal).reported _

/-- A cut is a function of the goal. -/
theorem functional_cut (witness : Term) : (Rule.cut witness).Functional :=
  functional_primitive fun _ => (steady_lift _).bind fun _ _ _ _ =>
    (steady_lift _).bind fun _ _ _ _ => steady_pure _

/-- Weakening on the left is a function of the goal. -/
theorem functional_leftWeakening : Rule.leftWeakening.Functional :=
  functional_primitive fun _ => (steady_lift _).bind fun _ _ _ _ => steady_lift _

/-- Closing is a function of the goal. -/
theorem functional_close : Rule.close.Functional := by
  refine functional_primitive fun goal => ?_
  split
  · split
    · exact steady_pure _
    · exact steady_lift _
  · exact steady_lift _

mutual

/-- The open goals of such a plan, or its failure, depend on the goal alone. -/
theorem Functional.subgoals : (p : Plan) → p.Functional → (goal : Sequent) →
    Steady (p.subgoals goal)
  | assumption _, _, goal => by
    rw [Plan.subgoals]
    exact steady_pure _
  | rule _ _, functional, goal => by
    rw [Plan.subgoals]
    exact functional goal
  | compound _ _ expansion, functional, goal => by
    rw [Plan.subgoals]
    exact (functional.1 goal).bind fun _ _ _ _ =>
      Functional.subgoals (expansion goal) (functional.2 goal) goal
  | branch first branches, functional, goal => by
    rw [Plan.subgoals]
    refine (Functional.subgoals first functional.1 goal).bind fun _ _ goals _ => ?_
    split
    · exact FunctionalAll.subgoalsOf branches functional.2 goals
    · exact steady_throw _

/-- The open goals of several such plans depend on their goals alone. -/
theorem FunctionalAll.subgoalsOf : (plans : List Plan) → FunctionalAll plans →
    (goals : List Sequent) → Steady (Plan.subgoalsOf plans goals)
  | [], _, goals => by
    rw [Plan.subgoalsOf]
    · exact steady_pure _
    · simp
  | _ :: _, _, [] => by
    rw [Plan.subgoalsOf]
    · exact steady_pure _
    · simp
  | p :: plans, functional, goal :: goals => by
    rw [Plan.subgoalsOf]
    refine (Functional.subgoals p functional.1 goal).bind fun _ _ here _ => ?_
    refine (FunctionalAll.subgoalsOf plans functional.2 goals).bind fun _ _ rest _ => ?_
    exact steady_pure _

end

/-! ## The rules with which a plan ends -/

mutual

/-- A plan whose last rules leave their goals open, whatever the goals are. -/
def openEnds : Plan → Plan
  | assumption id => assumption id
  | rule call _ => rule call fun goal => return [goal]
  | compound call check expansion => compound call check fun goal => (expansion goal).openEnds
  | branch first branches => branch first (openEndsAll branches)

/-- Several plans whose last rules leave their goals open. -/
def openEndsAll : List Plan → List Plan
  | [] => []
  | p :: rest => p.openEnds :: openEndsAll rest

end

/-- There are as many plans with open ends. -/
@[simp] theorem length_openEndsAll (plans : List Plan) :
    (openEndsAll plans).length = plans.length := by
  induction plans with
  | nil => rfl
  | cons p rest ih => simp [openEndsAll, ih]

mutual

/-- Where a plan runs it also runs with its ends open. -/
theorem openEnds_of_subgoals : (p : Plan) → p.Functional → {goal : Sequent} → {s : Supply} →
    (p.subgoals goal).ends s = .ok () → (s' : Supply) → (p.openEnds.subgoals goal).ends s' = .ok ()
  | assumption _, _, _, _, _, _ => by
    rw [openEnds, subgoals]
    rfl
  | rule _ _, _, _, _, _, _ => by
    rw [openEnds, subgoals]
    rfl
  | compound _ check expansion, functional, goal, s, ended, s' => by
    rw [subgoals] at ended
    obtain ⟨goals, _, run⟩ := exists_of_ends_ok ended
    obtain ⟨_, s₁, checked, rest⟩ := bind_ok run
    obtain ⟨s₂, checked⟩ := (functional.1 goal).again checked s'
    rw [openEnds, subgoals, ends_bind_ok checked]
    exact openEnds_of_subgoals (expansion goal) (functional.2 goal) (ends_ok rest) s₂
  | branch first branches, functional, goal, s, ended, s' => by
    rw [subgoals] at ended
    obtain ⟨_, _, run⟩ := exists_of_ends_ok ended
    obtain ⟨goals, s₁, head, rest⟩ := bind_ok run
    obtain ⟨s₂, head⟩ := (Functional.subgoals first functional.1 goal).again head s'
    rw [openEnds, subgoals, ends_bind_ok head, length_openEndsAll]
    split at rest
    next fits =>
      rw [if_pos fits]
      exact openEndsAll_of_subgoalsOf branches functional.2 (ends_ok rest) s₂
    next => cases rest

/-- Where plans run on their goals they also run with their ends open. -/
theorem openEndsAll_of_subgoalsOf : (plans : List Plan) → FunctionalAll plans →
    {goals : List Sequent} → {s : Supply} → (subgoalsOf plans goals).ends s = .ok () →
      (s' : Supply) → (subgoalsOf (openEndsAll plans) goals).ends s' = .ok ()
  | [], _, _, _, _, _ => by
    rw [openEndsAll, subgoalsOf]
    · rfl
    · simp
  | _ :: _, _, [], _, _, _ => by
    rw [openEndsAll, subgoalsOf]
    · rfl
    · simp
  | p :: plans, functional, goal :: goals, s, ended, s' => by
    rw [subgoalsOf] at ended
    obtain ⟨_, _, run⟩ := exists_of_ends_ok ended
    obtain ⟨here, s₁, head, rest⟩ := bind_ok run
    obtain ⟨there, s₂, tail, -⟩ := bind_ok rest
    obtain ⟨_, t₁, head⟩ :=
      exists_of_ends_ok (openEnds_of_subgoals p functional.1 (ends_ok head) s')
    have tail := openEndsAll_of_subgoalsOf plans functional.2 (ends_ok tail) t₁
    obtain ⟨_, t₂, tail⟩ := exists_of_ends_ok tail
    rw [openEndsAll, subgoalsOf, ends_bind_ok head, ends_bind_ok tail]
    rfl

end

/-! ## Recording -/

mutual

/-- Recording a plan ends as running it with its ends open does, from whatever supplies. -/
theorem ends_step : (p : Plan) → p.Functional → (goal : Sequent) → (s s' : Supply) →
    (p.step goal).ends s = (p.openEnds.subgoals goal).ends s'
  | assumption _, _, _, _, _ => by
    rw [step, openEnds, subgoals]
    rfl
  | rule _ _, _, _, _, _ => by
    rw [step, openEnds, subgoals]
    rfl
  | compound _ check expansion, functional, goal, s, s' => by
    have same := functional.1 goal s s'
    rw [step, openEnds, subgoals, ends_bind, ends_bind]
    rcases runS : (check goal).runFrom s with ⟨failure | _, s₁⟩ <;>
      rcases runT : (check goal).runFrom s' with ⟨failure' | _, t₁⟩ <;>
      rw [runS, runT] at same <;> cases same
    · rfl
    · exact (ends_bind_pure ..).trans (ends_step (expansion goal) (functional.2 goal) goal s₁ t₁)
  | branch first branches, functional, goal, s, s' => by
    have steady := Functional.subgoals first functional.1 goal
    have same := steady s s'
    rw [step, openEnds, subgoals, ends_bind, ends_bind, length_openEndsAll]
    rcases runS : (first.subgoals goal).runFrom s with ⟨failure | goals, s₁⟩ <;>
      rcases runT : (first.subgoals goal).runFrom s' with ⟨failure' | goals', t₁⟩ <;>
      rw [runS, runT] at same <;> cases same
    · rfl
    · by_cases fits : goals.length = branches.length
      · -- The head has just run, so it can be recorded; only the branches can still fail.
        have run := openEnds_of_subgoals first functional.1 (ends_ok runS) s₁
        rw [← ends_step first functional.1 goal s₁ s₁] at run
        obtain ⟨head, s₂, recorded⟩ := exists_of_ends_ok run
        simp only [if_pos fits]
        rw [ends_bind_ok recorded, ends_bind_pure]
        exact ends_stepAll branches functional.2 goals s₂ t₁
      · simp only [if_neg fits]
        rfl

/-- Recording plans on their goals ends as running them with their ends open does. -/
theorem ends_stepAll : (plans : List Plan) → FunctionalAll plans → (goals : List Sequent) →
    (s s' : Supply) → (stepAll plans goals).ends s = (subgoalsOf (openEndsAll plans) goals).ends s'
  | [], _, _, _, _ => by
    rw [stepAll, openEndsAll, subgoalsOf]
    · rfl
    · simp
    · simp
  | _ :: _, _, [], _, _ => by
    rw [stepAll, openEndsAll, subgoalsOf]
    · rfl
    · simp
    · simp
  | p :: plans, functional, goal :: goals, s, s' => by
    have head := ends_step p functional.1 goal s s'
    rw [stepAll, openEndsAll, subgoalsOf, ends_bind, ends_bind]
    rcases runS : (p.step goal).runFrom s with ⟨failure | here, s₁⟩ <;>
      rcases runT : (p.openEnds.subgoals goal).runFrom s' with ⟨failure' | left, t₁⟩ <;>
      simp only [ends, runS, runT] at head <;> cases head
    · rfl
    · have tail := ends_stepAll plans functional.2 goals s₁ t₁
      simp only [ends_bind]
      rcases ranS : (stepAll plans goals).runFrom s₁ with ⟨failure | rest, s₂⟩ <;>
        rcases ranT : (subgoalsOf (openEndsAll plans) goals).runFrom t₁ with
          ⟨failure' | rest', t₂⟩ <;>
        simp only [ends, ranS, ranT] at tail <;> cases tail <;> rfl

end

/-- A plan that runs on a goal can be recorded on it, from whatever supply. -/
theorem step_of_subgoals {p : Plan} (functional : p.Functional) {goal : Sequent} {s s' : Supply}
    {goals : List Sequent} (run : (p.subgoals goal).runFrom s = (.ok goals, s')) (t : Supply) :
    ∃ recorded t', (p.step goal).runFrom t = (.ok recorded, t') := by
  apply exists_of_ends_ok
  rw [ends_step p functional goal t t]
  exact openEnds_of_subgoals p functional (ends_ok run) t

/-- The other direction fails for a rule on its own: it is recorded on a goal that it refuses. -/
example : (Rule.close.step ⟨[.var ⟨"p", .bool⟩], [.var ⟨"q", .bool⟩]⟩).ends .initial = .ok () ∧
    (Rule.close.subgoals ⟨[.var ⟨"p", .bool⟩], [.var ⟨"q", .bool⟩]⟩).ends .initial ≠ .ok () :=
  ⟨rfl, nofun⟩

end Plan

end Turnstile
