import Turnstile.Proof
import Turnstile.Proofs.OpenGoalMirroring
import Turnstile.Proofs.EnvironmentMirroring
import Turnstile.Proofs.PlanRuns

/-!
# Checking a proof again

A proof can be checked at any time after its environment was loaded, whatever else has drawn type
variables and assumptions in the meantime. The verdict comes out the same: the plan makes the same
calls on renamed terms, the record of its run has the same lines on renamed goals, and the check
fails wherever it fails at any other time. Only what was drawn after loading is renamed.
-/

namespace Turnstile

open Build Renaming

variable {ρ : Renaming} {env : Environment}

/-! ## Events and lines -/

/-- Two events of one kind, with related items. -/
inductive Event.Rel {α β : Type} (R : α → β → Prop) : Event α → Event β → Prop
  /-- Both visit an item. -/
  | visit {a : α} {b : β} (related : R a b) : Rel R (.visit a) (.visit b)
  /-- Both enter a plan. -/
  | enter : Rel R .enter .enter
  /-- Both leave a plan. -/
  | leave : Rel R .leave .leave

/-- Two lines at one depth, with related items. -/
structure Line.Rel {α β : Type} (R : α → β → Prop) (line : Line α) (line' : Line β) : Prop where
  /-- They are nested as deep. -/
  depth : line'.depth = line.depth
  /-- Their items are related. -/
  item : R line.item line'.item

/-- Related events give related lines. -/
theorem linesFrom_rel {α β : Type} {R : α → β → Prop} {events : List (Event α)}
    {events' : List (Event β)} (related : List.Forall₂ (Event.Rel R) events events') :
    ∀ depth, List.Forall₂ (Line.Rel R) (linesFrom depth events) (linesFrom depth events') := by
  induction related with
  | nil => exact fun _ => .nil
  | cons first _ ih =>
    intro depth
    cases first with
    | visit item => exact .cons ⟨rfl, item⟩ (ih depth)
    | enter => exact ih (depth + 1)
    | leave => exact ih (depth - 1)

/-- Marks around related events. -/
theorem marked_rel {α β : Type} {R : α → β → Prop} {events : List (Event α)}
    {events' : List (Event β)} (related : List.Forall₂ (Event.Rel R) events events')
    (inLine : Bool) :
    List.Forall₂ (Event.Rel R) (if inLine then events else .enter :: events ++ [.leave])
      (if inLine then events' else .enter :: events' ++ [.leave]) := by
  cases inLine with
  | true => exact related
  | false => exact .cons .enter (List.rel_append related (.cons .leave .nil))

namespace Plan

/-! ## Runs that keep what they meet -/

mutual

/-- Run a plan on a goal; what is left open comes with the atomic plans that were met. -/
def visited : Plan → Sequent → Build (List (Event (Plan × Sequent)) × List Sequent)
  | assumption id, goal => return ([.visit (assumption id, goal)], [goal])
  | rule call apply, goal => do
    return ([.visit (rule call apply, goal)], ← (rule call apply).subgoals goal)
  | compound call check expansion, goal => do
    return ([.visit (compound call check expansion, goal)],
      ← (compound call check expansion).subgoals goal)
  | branch first branches, goal => do
    let (events, goals) ← first.visited goal
    if goals.length = branches.length then
      let (more, left) ← visitedAll (branches.length == 1) branches goals
      return (events ++ more, left)
    else throw (branching first goals.length branches.length)

/-- Run plans on one goal each, keeping what is met. -/
def visitedAll (inLine : Bool) : List Plan → List Sequent →
    Build (List (Event (Plan × Sequent)) × List Sequent)
  | p :: plans, goal :: goals => do
    let (here, left) ← p.visited goal
    let (more, others) ← visitedAll inLine plans goals
    return ((if inLine then here else .enter :: here ++ [.leave]) ++ more, left ++ others)
  | _, _ => return ([], [])

end

/-- An atomic plan is visited itself, and then its goals are left. -/
theorem Atomic.visited {p : Plan} (atomic : p.Atomic) (goal : Sequent) :
    p.visited goal = do return ([.visit (p, goal)], ← p.subgoals goal) := by
  cases p with
  | assumption id => cases atomic.1
  | branch first branches => cases atomic.2
  | rule call apply => rw [Plan.visited]
  | compound call check expansion => rw [Plan.visited]

/-- The trace of an atomic plan meets the plan and ends as it does. -/
theorem Atomic.trace {p : Plan} (atomic : p.Atomic) (goal : Sequent) (s : Supply) :
    (p.trace goal).run s = (⟨[.visit (p, goal)], ((p.subgoals goal).runFrom s).1⟩,
      ((p.subgoals goal).runFrom s).2) := by
  cases p with
  | assumption id => cases atomic.1
  | branch first branches => cases atomic.2
  | rule call apply =>
    rw [Plan.trace, Plan.subgoals]
    rfl
  | compound call check expansion =>
    rw [Plan.trace]
    rfl

/-- What a trace met, if it did not fail. -/
def kept : Traced × Supply → Except Failure (List (Event (Plan × Sequent)) × List Sequent) × Supply
  | (traced, s) => (traced.result.map fun left => (traced.events, left), s)

/-- Visiting an atomic plan is tracing it. -/
theorem Atomic.visited_run {p : Plan} (atomic : p.Atomic) (goal : Sequent) (s : Supply) :
    (p.visited goal).runFrom s = kept ((p.trace goal).run s) := by
  rw [atomic.visited, atomic.trace, runFrom_bind]
  rcases (p.subgoals goal).runFrom s with ⟨failure | left, t⟩ <;> rfl

mutual

/-- Such a run is a trace that is kept only if it does not fail. -/
theorem visited_run : (p : Plan) → (goal : Sequent) → (s : Supply) →
    (p.visited goal).runFrom s = kept ((p.trace goal).run s)
  | assumption _, _, _ => by
    rw [visited, trace]
    rfl
  | rule call apply, goal, s => Atomic.visited_run ⟨rfl, rfl⟩ goal s
  | compound call check expansion, goal, s => Atomic.visited_run ⟨rfl, rfl⟩ goal s
  | branch first branches, goal, s => by
    have head := visited_run first goal s
    rw [trace_branch, visited, runFrom_bind, head]
    rcases (first.trace goal).run s with ⟨⟨events, failure | goals⟩, t⟩
    · rfl
    · have tail := visitedAll_run (branches.length == 1) branches goals t
      by_cases fits : goals.length = branches.length
      · simp only [kept, Except.map, if_pos fits, runFrom_bind, tail]
        rcases (traceAll (branches.length == 1) branches goals).run t with
          ⟨⟨more, failure | left⟩, u⟩ <;> rfl
      · simp only [kept, Except.map, if_neg fits, runFrom_throw]

/-- Such runs of several plans are traces that are kept only if they do not fail. -/
theorem visitedAll_run (inLine : Bool) : (plans : List Plan) → (goals : List Sequent) →
    (s : Supply) →
      (visitedAll inLine plans goals).runFrom s = kept ((traceAll inLine plans goals).run s)
  | [], _, _ => by
    rw [visitedAll, traceAll]
    · rfl
    · simp
    · simp
  | _ :: _, [], _ => by
    rw [visitedAll, traceAll]
    · rfl
    · simp
    · simp
  | p :: plans, goal :: goals, s => by
    have head := visited_run p goal s
    rw [traceAll_cons, visitedAll, runFrom_bind, head]
    rcases (p.trace goal).run s with ⟨⟨events, failure | left⟩, t⟩
    · rfl
    · have tail := visitedAll_run inLine plans goals t
      simp only [kept, Except.map, runFrom_bind, tail]
      rcases (traceAll inLine plans goals).run t with ⟨⟨more, failure | others⟩, u⟩ <;> rfl

end

/-- A record is made of the trace. -/
theorem record_run (p : Plan) (goal : Sequent) (s : Supply) :
    (p.record goal).runFrom s =
      (Trace.ofTraced ((p.trace goal).run s).1, ((p.trace goal).run s).2) := rfl

/-- Recording a plan keeps what its run meets, as lines. -/
theorem record_eq (p : Plan) (goal : Sequent) :
    p.record goal = do
      let (events, left) ← p.visited goal
      return ⟨linesFrom 0 events, left⟩ := by
  refine StateT.ext fun s => ?_
  change (p.record goal).runFrom s = Build.runFrom _ s
  rw [runFrom_bind, visited_run, record_run]
  rcases (p.trace goal).run s with ⟨⟨events, failure | left⟩, t⟩ <;> rfl

/-! ## Records under a renaming -/

/-- An atomic plan that was met on a goal, and the renamed plan met on the renamed goal. -/
def RenamedAt (env : Environment) (ρ : Renaming) (item item' : Plan × Sequent) : Prop :=
  Renamed env ρ item.1 item'.1 ∧ ρ.TakesGoal item.2 item'.2

/-- What a run met and left open, and what its renamed form did. -/
structure RenamedVisit (env : Environment) (ρ : Renaming)
    (run run' : List (Event (Plan × Sequent)) × List Sequent) : Prop where
  /-- What was met. -/
  events : List.Forall₂ (Event.Rel (RenamedAt env ρ)) run.1 run'.1
  /-- What is left open. -/
  left : List.Forall₂ ρ.TakesGoal run.2 run'.2

/-- Visiting renamed atomic plans is mirrored. -/
theorem Renamed.visited_atomic (fixed : env.FixedBy ρ) {p p' : Plan} (renamed : Renamed env ρ p p')
    (atomic : p.Atomic) (atomic' : p'.Atomic) {goal goal' : Sequent}
    (takes : ρ.TakesGoal goal goal') :
    Build.Mirrors ρ (RenamedVisit env ρ) (p.visited goal) (p'.visited goal') := by
  rw [atomic.visited, atomic'.visited]
  refine ((renamed.mirrors fixed).subgoals p takes).bind fun left left' taken => ?_
  exact mirrors_pure ⟨.cons (.visit ⟨renamed, takes⟩) .nil, taken⟩

mutual

/-- Renamed plans meet renamed plans. -/
theorem Renamed.visited (fixed : env.FixedBy ρ) {p p' : Plan} : Renamed env ρ p p' →
    ∀ {goal goal' : Sequent}, ρ.TakesGoal goal goal' →
      Build.Mirrors ρ (RenamedVisit env ρ) (p.visited goal) (p'.visited goal')
  | .assumption id, _, _, takes => by
    rw [Plan.visited, Plan.visited]
    exact mirrors_pure ⟨.cons (.visit ⟨.assumption id, takes⟩) .nil, .cons takes .nil⟩
  | .call listed takesA built built', _, _, takes => by
    obtain ⟨atomic, atomic'⟩ := atomic_of_call fixed listed takesA built built'
    exact visited_atomic fixed (.call listed takesA built built') atomic atomic' takes
  | .branch head rest, goal, goal', takes => by
    rw [Plan.visited, Plan.visited]
    refine (Renamed.visited fixed head takes).bind ?_
    rintro ⟨events, goals⟩ ⟨events', goals'⟩ ⟨met, taken⟩
    dsimp only at met taken ⊢
    rw [taken.length_eq, rest.length_eq]
    split
    · refine (Renamed.visitedAll fixed _ rest taken).bind ?_
      rintro ⟨more, left⟩ ⟨more', left'⟩ ⟨met', taken'⟩
      exact mirrors_pure ⟨List.rel_append met met', taken'⟩
    · exact mirrors_throw _ _

/-- Several renamed plans meet renamed plans. -/
theorem Renamed.visitedAll (fixed : env.FixedBy ρ) (inLine : Bool) {plans plans' : List Plan} :
    List.Forall₂ (Renamed env ρ) plans plans' → ∀ {goals goals' : List Sequent},
      List.Forall₂ ρ.TakesGoal goals goals' → Build.Mirrors ρ (RenamedVisit env ρ)
        (Plan.visitedAll inLine plans goals) (Plan.visitedAll inLine plans' goals')
  | .nil, _, _, _ => by
    rw [Plan.visitedAll, Plan.visitedAll]
    · exact mirrors_pure ⟨.nil, .nil⟩
    · simp
    · simp
  | .cons _ _, _, _, .nil => by
    rw [Plan.visitedAll, Plan.visitedAll]
    · exact mirrors_pure ⟨.nil, .nil⟩
    · simp
    · simp
  | .cons first rest, _, _, .cons takes later => by
    rw [Plan.visitedAll, Plan.visitedAll]
    refine (Renamed.visited fixed first takes).bind ?_
    rintro ⟨here, left⟩ ⟨here', left'⟩ ⟨met, taken⟩
    refine (Renamed.visitedAll fixed inLine rest later).bind ?_
    rintro ⟨more, others⟩ ⟨more', others'⟩ ⟨met', taken'⟩
    exact mirrors_pure ⟨List.rel_append (marked_rel met inLine) met', List.rel_append taken taken'⟩

end

end Plan

/-- A record of a run and the record of the renamed run: as many lines, nested alike, with renamed
plans on renamed goals, and renamed goals left open. -/
structure Trace.Renamed (env : Environment) (ρ : Renaming) (trace trace' : Trace) : Prop where
  /-- The lines. -/
  lines : List.Forall₂ (Line.Rel (Plan.RenamedAt env ρ)) trace.lines trace'.lines
  /-- What is left open. -/
  remaining : List.Forall₂ ρ.TakesGoal trace.remaining trace'.remaining

/-- The record of a renamed plan is the renamed record. -/
theorem Plan.Renamed.record (fixed : env.FixedBy ρ) {p p' : Plan} (renamed : Renamed env ρ p p')
    {goal goal' : Sequent} (takes : ρ.TakesGoal goal goal') :
    Build.Mirrors ρ (Trace.Renamed env ρ) (p.record goal) (p'.record goal') := by
  rw [record_eq, record_eq]
  refine (renamed.visited fixed takes).bind ?_
  rintro ⟨events, left⟩ ⟨events', left'⟩ ⟨met, taken⟩
  exact mirrors_pure ⟨linesFrom_rel met 0, taken⟩

/-! ## Plans of proofs -/

namespace Environment.FixedBy

/-- Advancing by the same steps is mirrored. -/
theorem advanceAll (fixed : env.FixedBy ρ) {goal goal' : Sequent} (takes : ρ.TakesGoal goal goal') :
    ∀ (steps : List String) (number : Nat) {p p' : Plan}, Plan.Renamed env ρ p p' →
      Mirrors ρ (Plan.Renamed env ρ) (env.advanceAll goal number p steps)
        (env.advanceAll goal' number p' steps)
  | [], _, _, _, renamed => mirrors_pure renamed
  | text :: rest, number, _, _, renamed => by
    rw [Environment.advanceAll, Environment.advanceAll]
    refine ((fixed.advance renamed takes 0 text).within _ _).bind fun q q' renamed => ?_
    exact fixed.advanceAll takes rest (number + 1) renamed

/-- The plan that a proof gives for a renamed goal is the renamed plan. -/
theorem planOf (fixed : env.FixedBy ρ) (proof : Proof) {goal goal' : Sequent}
    (takes : ρ.TakesGoal goal goal') :
    Mirrors ρ (Plan.Renamed env ρ) (env.planOf proof goal) (env.planOf proof goal') := by
  rw [Environment.planOf, Environment.planOf]
  split
  · refine Mirrors.bind (R := Plan.Renamed env ρ) ?_ fun p p' renamed =>
      fixed.advanceAll takes proof.steps 1 renamed
    refine mirrors_freshAssumption.bind ?_
    rintro id _ rfl
    exact mirrors_pure (.assumption id)
  · split
    · exact fixed.evaluate proof.plan
    · exact mirrors_throw _ _

end Environment.FixedBy

/-! ## Verdicts -/

namespace Environment

/-- The goal of a proof and the plan for it. -/
def reading (env : Environment) (proof : Proof) : Build (Sequent × Plan) := do
  let goal ← (env.parseSequent proof.goal).within .goal
  return (goal, ← env.planOf proof goal)

/-- The goal of a proof, the plan for it and the record of its run. -/
def running (env : Environment) (proof : Proof) : Build ((Sequent × Plan) × Trace) := do
  let read ← env.reading proof
  return (read, ← read.2.record read.1)

/-- Checking a proof is reading it, running its plan and judging what is left open. -/
theorem check_run (env : Environment) (proof : Proof) (s : Supply) :
    (env.check proof).run s = match (env.reading proof).runFrom s with
      | (.error failure, t) => (⟨proof.name, none, none, some failure⟩, t)
      | (.ok (goal, p), t) => match (p.record goal).runFrom t with
        | (.error failure, u) => (⟨proof.name, some p, none, some failure⟩, u)
        | (.ok trace, u) => (⟨proof.name, some p, some trace, env.judge proof trace⟩, u) := by
  have unfolded : env.reading proof = (do
      let goal ← (env.parseSequent proof.goal).within .goal
      return (goal, ← env.planOf proof goal)) := rfl
  rw [check, ← unfolded, StateT.run_bind]
  unfold runFrom
  rcases (env.reading proof).run.run s with ⟨failure | ⟨goal, p⟩, t⟩
  · rfl
  · change StateT.run (do let result ← (p.record goal).run; _) t = _
    rw [StateT.run_bind]
    dsimp only
    rcases (p.record goal).run.run t with ⟨failure | trace, u⟩ <;> rfl

/-- What a check finds out, and the supply it leaves. -/
theorem check_eq (env : Environment) (proof : Proof) (s : Supply) :
    (env.check proof).run s = (⟨proof.name, ((env.reading proof).runFrom s).1.toOption.map Prod.snd,
        ((env.running proof).runFrom s).1.toOption.map Prod.snd,
        match ((env.running proof).runFrom s).1 with
        | .error failure => some failure
        | .ok (_, trace) => env.judge proof trace⟩,
      ((env.running proof).runFrom s).2) := by
  rw [check_run, running, runFrom_bind]
  rcases (env.reading proof).runFrom s with ⟨failure | ⟨goal, p⟩, t⟩
  · rfl
  · dsimp only
    rw [runFrom_bind]
    rcases (p.record goal).runFrom t with ⟨failure | trace, u⟩ <;> rfl

end Environment

/-- A goal with its plan, and the renamed plan for the renamed goal. -/
def RenamedReading (env : Environment) (ρ : Renaming) (read read' : Sequent × Plan) : Prop :=
  ρ.TakesGoal read.1 read'.1 ∧ Plan.Renamed env ρ read.2 read'.2

namespace Environment.FixedBy

/-- Reading the goal and the plan of a proof is mirrored. -/
theorem reading (fixed : env.FixedBy ρ) (proof : Proof) :
    Mirrors ρ (RenamedReading env ρ) (env.reading proof) (env.reading proof) := by
  refine ((fixed.theory.vocabulary.parseSequent proof.goal).within _ _).bind ?_
  intro goal goal' takes
  refine (fixed.planOf proof takes).bind fun p p' renamed => ?_
  exact mirrors_pure ⟨takes, renamed⟩

/-- Running what was read is mirrored. -/
theorem running (fixed : env.FixedBy ρ) (proof : Proof) :
    Mirrors ρ (fun run run' => RenamedReading env ρ run.1 run'.1 ∧ Trace.Renamed env ρ run.2 run'.2)
      (env.running proof) (env.running proof) := by
  refine (fixed.reading proof).bind ?_
  rintro ⟨goal, p⟩ ⟨goal', p'⟩ read
  refine (read.2.record fixed read.1).bind fun trace trace' recorded => ?_
  exact mirrors_pure ⟨read, recorded⟩

end Environment.FixedBy

/-- A verdict and its renamed form: the same proof, renamed plans and records if there are any, and
something went wrong with both or with neither. -/
structure Verdict.Renamed (env : Environment) (ρ : Renaming) (verdict verdict' : Verdict) :
    Prop where
  /-- The proof's name. -/
  proof : verdict'.proof = verdict.proof
  /-- The plans. -/
  plan : Option.Rel (Plan.Renamed env ρ) verdict.plan verdict'.plan
  /-- The records. -/
  trace : Option.Rel (Trace.Renamed env ρ) verdict.trace verdict'.trace
  /-- Whether something went wrong. -/
  failure : verdict'.failure.isSome = verdict.failure.isSome

section

variable {b s s' : Supply}

/-- Checking draws. -/
theorem Environment.check_before (fixed : env.FixedBy .id) (proof : Proof) (s : Supply) :
    s.Before ((env.check proof).run s).2 := by
  rw [check_eq]
  exact (fixed.running proof).grows s

end

end Turnstile
