import Turnstile.Plan.Walk
import Turnstile.Proofs.Builds

/-!
# What runs of plans keep

A plan keeps a property of goals if each of its rules does and each of its tactics expands to a
plan that does. Every goal that a run of such a plan meets then has the property if the first goal
has it: the goals left open, those of a trace, and those of the recorded steps.
-/

namespace Turnstile

open Build

namespace Plan

variable {P : Sequent → Prop}

mutual

/-- Every rule of the plan takes goals with the property to such goals. -/
def Keeps (P : Sequent → Prop) : Plan → Prop
  | assumption _ => True
  | rule _ apply => ∀ goal, P goal → (apply goal).Gives fun goals => ∀ g ∈ goals, P g
  | compound _ _ expansion => ∀ goal, P goal → (expansion goal).Keeps P
  | branch first branches => first.Keeps P ∧ KeepsAll P branches

/-- Every rule of the plans takes goals with the property to such goals. -/
def KeepsAll (P : Sequent → Prop) : List Plan → Prop
  | [] => True
  | p :: rest => p.Keeps P ∧ KeepsAll P rest

end

/-- A sequence of plans that keep a property keeps it. -/
theorem keeps_sequence {first : Plan} {rest : List Plan} (head : first.Keeps P)
    (tail : ∀ p ∈ rest, p.Keeps P) : (sequence first rest).Keeps P := by
  induction rest generalizing first with
  | nil => exact head
  | cons next rest ih =>
    refine ⟨head, ?_, trivial⟩
    exact ih (tail next (by simp)) fun p member => tail p (by simp [member])

/-- Plans keep a property together if each of them does. -/
theorem keepsAll_iff {plans : List Plan} : KeepsAll P plans ↔ ∀ p ∈ plans, p.Keeps P := by
  induction plans with
  | nil => simp [KeepsAll]
  | cons p rest ih => simp [KeepsAll, ih]

/-! ## Open goals -/

mutual

/-- The goals that a plan leaves open have the property. -/
theorem Keeps.subgoals : (p : Plan) → p.Keeps P → ∀ {goal : Sequent}, P goal →
    (p.subgoals goal).Gives fun goals => ∀ g ∈ goals, P g
  | assumption id, _, goal, holds => by
    rw [Plan.subgoals]
    exact gives_pure (by simpa using holds)
  | rule call apply, keeps, goal, holds => by
    rw [Plan.subgoals]
    exact keeps goal holds
  | compound call check expansion, keeps, goal, holds => by
    rw [Plan.subgoals]
    exact (gives_any _).bind fun _ _ => Keeps.subgoals (expansion goal) (keeps goal holds) holds
  | branch first branches, keeps, goal, holds => by
    rw [Plan.subgoals]
    refine (Keeps.subgoals first keeps.1 holds).bind fun goals hold => ?_
    split
    · exact KeepsAll.subgoalsOf branches keeps.2 hold
    · exact gives_throw _

/-- The goals that plans leave open have the property. -/
theorem KeepsAll.subgoalsOf : (plans : List Plan) → KeepsAll P plans → ∀ {goals : List Sequent},
    (∀ g ∈ goals, P g) → (Plan.subgoalsOf plans goals).Gives fun goals => ∀ g ∈ goals, P g
  | [], _, goals, hold => by
    rw [Plan.subgoalsOf]
    · exact gives_pure (by simp)
    · simp
  | p :: plans, keeps, [], hold => by
    rw [Plan.subgoalsOf]
    · exact gives_pure (by simp)
    · simp
  | p :: plans, keeps, goal :: goals, hold => by
    rw [Plan.subgoalsOf]
    refine (Keeps.subgoals p keeps.1 (hold goal (by simp))).bind fun here holdHere => ?_
    refine (KeepsAll.subgoalsOf plans keeps.2 fun g member => hold g (by simp [member])).bind ?_
    intro rest holdRest
    refine gives_pure fun g member => ?_
    rcases List.mem_append.mp member with first | second
    · exact holdHere g first
    · exact holdRest g second

end

/-! ## Traces -/

/-- A trace of a branch: its head, then its plans on the goals that the head leaves. -/
theorem trace_branch (first : Plan) (branches : List Plan) (goal : Sequent) (s : Supply) :
    ((branch first branches).trace goal).run s = match (first.trace goal).run s with
      | (⟨events, .error failure⟩, s') => (⟨events, .error failure⟩, s')
      | (⟨events, .ok goals⟩, s') =>
        if goals.length = branches.length then
          match (traceAll (branches.length == 1) branches goals).run s' with
          | (rest, s'') => (⟨events ++ rest.events, rest.result⟩, s'')
        else (⟨events, .error (branching first goals.length branches.length)⟩, s') := by
  rw [trace, StateT.run_bind]
  rcases (first.trace goal).run s with ⟨⟨events, failure | goals⟩, s'⟩
  · rfl
  · by_cases fits : goals.length = branches.length
    · simp only [if_pos fits]
      change StateT.run (if goals.length = branches.length then _ else _) s' = _
      rw [if_pos fits]
      rfl
    · simp only [if_neg fits]
      change StateT.run (if goals.length = branches.length then _ else _) s' = _
      rw [if_neg fits]
      rfl

/-- A trace of several plans: the first one, then the others. -/
theorem traceAll_cons (inLine : Bool) (p : Plan) (plans : List Plan) (goal : Sequent)
    (goals : List Sequent) (s : Supply) :
    (traceAll inLine (p :: plans) (goal :: goals)).run s = match (p.trace goal).run s with
      | (here, s') =>
        let events := if inLine then here.events else .enter :: here.events ++ [.leave]
        match here.result with
        | .error failure => (⟨events, .error failure⟩, s')
        | .ok left => match (traceAll inLine plans goals).run s' with
          | (rest, s'') => (⟨events ++ rest.events, rest.result.map (left ++ ·)⟩, s'') := by
  rw [traceAll, StateT.run_bind]
  rcases (p.trace goal).run s with ⟨⟨events, failure | left⟩, s'⟩
  · rfl
  · rfl

mutual

/-- A trace ends as the plan does on its own. -/
theorem trace_run : (p : Plan) → (goal : Sequent) → (s : Supply) →
    (((p.trace goal).run s).1.result, ((p.trace goal).run s).2) = (p.subgoals goal).runFrom s
  | assumption _, _, _ => by
    rw [trace, subgoals]
    rfl
  | rule _ _, _, _ => by
    rw [trace, subgoals]
    rfl
  | compound _ _ _, _, _ => by
    rw [trace]
    rfl
  | branch first branches, goal, s => by
    have head := trace_run first goal s
    rw [trace_branch, subgoals, runFrom_bind, ← head]
    rcases (first.trace goal).run s with ⟨⟨events, failure | goals⟩, s'⟩
    · rfl
    · have tail := traceAll_run (branches.length == 1) branches goals s'
      by_cases fits : goals.length = branches.length
      · simp only [if_pos fits, ← tail]
        rfl
      · simp only [if_neg fits, runFrom_throw]

/-- Traces of several plans end as the plans do on their own. -/
theorem traceAll_run (inLine : Bool) : (plans : List Plan) → (goals : List Sequent) →
    (s : Supply) → (((traceAll inLine plans goals).run s).1.result,
      ((traceAll inLine plans goals).run s).2) = (subgoalsOf plans goals).runFrom s
  | [], _, _ => by
    rw [traceAll, subgoalsOf]
    · rfl
    · simp
    · simp
  | _ :: _, [], _ => by
    rw [traceAll, subgoalsOf]
    · rfl
    · simp
    · simp
  | p :: plans, goal :: goals, s => by
    have head := trace_run p goal s
    rw [traceAll_cons, subgoalsOf, runFrom_bind, ← head]
    rcases (p.trace goal).run s with ⟨⟨events, failure | here⟩, s'⟩
    · rfl
    · have tail := traceAll_run inLine plans goals s'
      simp only [runFrom_bind, ← tail]
      rcases (traceAll inLine plans goals).run s' with ⟨⟨events', failure | rest⟩, s''⟩
      · rfl
      · rfl

end

/-- The goals that a trace comes with. -/
def Visits (P : Sequent → Prop) (events : List (Event (Plan × Sequent))) : Prop :=
  ∀ p goal, .visit (p, goal) ∈ events → P goal

/-- Events of two walks visit what the walks visit. -/
theorem Visits.append {first second : List (Event (Plan × Sequent))} (head : Visits P first)
    (tail : Visits P second) : Visits P (first ++ second) := by
  intro p goal member
  rcases List.mem_append.mp member with left | right
  · exact head p goal left
  · exact tail p goal right

/-- Marks add no goal. -/
theorem Visits.marked {events : List (Event (Plan × Sequent))} (visits : Visits P events)
    (inLine : Bool) :
    Visits P (if inLine then events else .enter :: events ++ [.leave]) := by
  cases inLine with
  | true => exact visits
  | false =>
    intro p goal member
    simp only [Bool.false_eq_true, if_false, List.cons_append, List.mem_cons, reduceCtorEq,
      false_or, List.mem_append, List.not_mem_nil, or_false] at member
    exact visits p goal member

/-- A visit of a plan and its goal. -/
theorem visits_one {p : Plan} {goal : Sequent} (holds : P goal) :
    Visits P [.visit (p, goal)] := by
  intro p' goal' member
  cases List.mem_singleton.mp member
  exact holds

mutual

/-- The goals that a trace meets have the property. -/
theorem Keeps.visits : (p : Plan) → p.Keeps P → ∀ {goal : Sequent}, P goal → ∀ s,
    Visits P ((p.trace goal).run s).1.events
  | assumption id, _, goal, holds, s => by
    rw [trace]
    exact visits_one holds
  | rule call apply, _, goal, holds, s => by
    rw [trace]
    exact visits_one holds
  | compound call check expansion, _, goal, holds, s => by
    rw [trace]
    exact visits_one holds
  | branch first branches, keeps, goal, holds, s => by
    have head := Keeps.visits first keeps.1 holds s
    have ended := trace_run first goal s
    rw [trace_branch]
    rcases ran : (first.trace goal).run s with ⟨⟨events, failure | goals⟩, s'⟩ <;>
      rw [ran] at head ended
    · exact head
    · have hold := Keeps.subgoals first keeps.1 holds _ _ _ ended.symm
      by_cases fits : goals.length = branches.length
      · simp only [if_pos fits]
        exact head.append (KeepsAll.visits _ branches keeps.2 hold s')
      · simp only [if_neg fits]
        exact head

/-- The goals that traces of several plans meet have the property. -/
theorem KeepsAll.visits (inLine : Bool) : (plans : List Plan) → KeepsAll P plans →
    ∀ {goals : List Sequent}, (∀ g ∈ goals, P g) → ∀ s,
      Visits P ((traceAll inLine plans goals).run s).1.events
  | [], _, goals, _, s => by
    rw [traceAll]
    · exact fun p goal member => nomatch member
    · simp
  | p :: plans, _, [], _, s => by
    rw [traceAll]
    · exact fun p goal member => nomatch member
    · simp
  | p :: plans, keeps, goal :: goals, hold, s => by
    have head := (Keeps.visits p keeps.1 (hold goal (by simp)) s).marked inLine
    rw [traceAll_cons]
    rcases ran : (p.trace goal).run s with ⟨⟨events, failure | left⟩, s'⟩ <;> rw [ran] at head
    · exact head
    · exact head.append
        (KeepsAll.visits inLine plans keeps.2 (fun g member => hold g (by simp [member])) s')

end

/-! ## Recorded steps -/

end Plan

mutual

/-- The goals of a step and of all steps under it have a property. -/
def Step.All (P : Sequent → Prop) : Step → Prop
  | .mk goal _ justification expansion =>
    P goal ∧ Step.AllOf P justification ∧ Step.AllIn P expansion

/-- The goals of several steps and of all steps under them have a property. -/
def Step.AllOf (P : Sequent → Prop) : List Step → Prop
  | [] => True
  | step :: rest => step.All P ∧ Step.AllOf P rest

/-- The goals of a step that may be there and of all steps under it have a property. -/
def Step.AllIn (P : Sequent → Prop) : Option Step → Prop
  | none => True
  | some step => step.All P

end

/-- Steps of two lists have what the steps of each have. -/
theorem Step.AllOf.append {P : Sequent → Prop} {first second : List Step}
    (head : Step.AllOf P first) (tail : Step.AllOf P second) :
    Step.AllOf P (first ++ second) := by
  induction first with
  | nil => exact tail
  | cons step rest ih => exact ⟨head.1, ih head.2⟩

/-- Adding steps that have a property to a step that has it keeps it. -/
theorem Step.All.justifiedBy {P : Sequent → Prop} {step : Step} {more : List Step}
    (all : step.All P) (allMore : Step.AllOf P more) : (step.justifiedBy more).All P := by
  match step with
  | .mk goal plan justification expansion => exact ⟨all.1, all.2.1.append allMore, all.2.2⟩

namespace Plan

variable {P : Sequent → Prop}

mutual

/-- The goals of recorded steps have the property. -/
theorem Keeps.step : (p : Plan) → p.Keeps P → ∀ {goal : Sequent}, P goal →
    (p.step goal).Gives (Step.All P)
  | assumption id, _, goal, holds => by
    rw [Plan.step]
    exact gives_pure ⟨holds, trivial, trivial⟩
  | rule call apply, _, goal, holds => by
    rw [Plan.step]
    exact gives_pure ⟨holds, trivial, trivial⟩
  | compound call check expansion, keeps, goal, holds => by
    rw [Plan.step]
    refine (gives_any _).bind fun _ _ => ?_
    refine (Keeps.step (expansion goal) (keeps goal holds) holds).bind fun inner all => ?_
    exact gives_pure ⟨holds, trivial, all⟩
  | branch first branches, keeps, goal, holds => by
    rw [Plan.step]
    refine (Keeps.subgoals first keeps.1 holds).bind fun goals hold => ?_
    split
    · refine (Keeps.step first keeps.1 holds).bind fun head all => ?_
      refine (KeepsAll.stepAll branches keeps.2 hold).bind fun steps allSteps => ?_
      exact gives_pure (all.justifiedBy allSteps)
    · exact gives_throw _

/-- The goals of recorded steps of several plans have the property. -/
theorem KeepsAll.stepAll : (plans : List Plan) → KeepsAll P plans → ∀ {goals : List Sequent},
    (∀ g ∈ goals, P g) → (Plan.stepAll plans goals).Gives (Step.AllOf P)
  | [], _, goals, _ => by
    rw [Plan.stepAll]
    · exact gives_pure trivial
    · simp
  | p :: plans, _, [], _ => by
    rw [Plan.stepAll]
    · exact gives_pure trivial
    · simp
  | p :: plans, keeps, goal :: goals, hold => by
    rw [Plan.stepAll]
    refine (Keeps.step p keeps.1 (hold goal (by simp))).bind fun here all => ?_
    refine (KeepsAll.stepAll plans keeps.2 fun g member => hold g (by simp [member])).bind ?_
    exact fun rest allRest => gives_pure ⟨all, allRest⟩

end

/-! ## Plans that are advanced -/

mutual

/-- Putting a plan for an assumption keeps the property if the plan does. -/
theorem Keeps.replace (target : Nat) {sub : Plan} (keepsSub : sub.Keeps P) : (p : Plan) →
    p.Keeps P → (Plan.replace target sub p).Keeps P
  | assumption id, _ => by
    rw [Plan.replace]
    split
    · exact keepsSub
    · trivial
  | rule call apply, keeps => keeps
  | compound call check expansion, keeps => keeps
  | branch first branches, keeps =>
    ⟨keeps.1, KeepsAll.replaceAll target keepsSub branches keeps.2⟩

/-- Replacing a leaf by a plan that keeps a property leaves plans that keep it. -/
theorem KeepsAll.replaceAll (target : Nat) {sub : Plan} (keepsSub : sub.Keeps P) :
    (plans : List Plan) → KeepsAll P plans → KeepsAll P (Plan.replaceAll target sub plans)
  | [], _ => trivial
  | p :: rest, keeps =>
    ⟨Keeps.replace target keepsSub p keeps.1, KeepsAll.replaceAll target keepsSub rest keeps.2⟩

end

/-- Assumptions keep every property. -/
theorem assumptionsFor_keeps : (goals : List Sequent) →
    (assumptionsFor goals).Gives (KeepsAll P)
  | [] => by
    rw [assumptionsFor]
    exact gives_pure trivial
  | _ :: rest => by
    rw [assumptionsFor]
    refine (gives_any _).bind fun id _ => ?_
    exact (assumptionsFor_keeps rest).bind fun plans keeps => gives_pure ⟨trivial, keeps⟩

/-- Padding a plan that keeps a property gives one. -/
theorem Keeps.pad {p : Plan} (keeps : p.Keeps P) (goal : Sequent) :
    (p.pad goal).Gives (Keeps P) := by
  rw [Plan.pad]
  refine (gives_any _).bind fun goals _ => ?_
  split
  · exact gives_pure keeps
  · exact (assumptionsFor_keeps goals).bind fun plans keepsAll => gives_pure ⟨keeps, keepsAll⟩

mutual

/-- Putting assumptions at the goals left open keeps the property. -/
theorem Keeps.normalize : (p : Plan) → p.Keeps P → ∀ goal, (p.normalize goal).Gives (Keeps P)
  | assumption id, _, goal => by
    rw [Plan.normalize]
    exact gives_pure trivial
  | rule call apply, keeps, goal => by
    rw [Plan.normalize]
    exact Keeps.pad keeps goal
  | compound call check expansion, keeps, goal => by
    rw [Plan.normalize]
    exact Keeps.pad keeps goal
  | branch first branches, keeps, goal => by
    rw [Plan.normalize]
    refine (gives_any _).bind fun goals _ => ?_
    split
    · refine (KeepsAll.normalizeAll branches keeps.2 goals).bind fun plans keepsAll => ?_
      exact gives_pure ⟨keeps.1, keepsAll⟩
    · exact gives_throw _

/-- Normalizing plans that keep a property gives such plans. -/
theorem KeepsAll.normalizeAll : (plans : List Plan) → KeepsAll P plans → ∀ goals,
    (Plan.normalizeAll plans goals).Gives (KeepsAll P)
  | [], _, goals => by
    rw [Plan.normalizeAll]
    · exact gives_pure trivial
    · simp
  | p :: plans, _, [] => by
    rw [Plan.normalizeAll]
    · exact gives_pure trivial
    · simp
  | p :: plans, keeps, goal :: goals => by
    rw [Plan.normalizeAll]
    refine (Keeps.normalize p keeps.1 goal).bind fun here keepsHere => ?_
    refine (KeepsAll.normalizeAll plans keeps.2 goals).bind fun rest keepsRest => ?_
    exact gives_pure ⟨keepsHere, keepsRest⟩

end

end Plan

end Turnstile
