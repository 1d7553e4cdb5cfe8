import Mathlib.Data.List.Nodup
import Turnstile.Plan.Basic
import Turnstile.Proofs.Builds

/-!
# The places of open goals

A run of a plan comes by its open leaves in order. `Plan.Reaches` describes the run up to one of
them: what was left open before, the goal that arrives there, and what is still to be run. From
there on a plan that stands in the place of the leaf takes over, so that a run of the plan with the
leaf replaced is made of the same parts, and so is what `Plan.normalize` makes of it.
-/

namespace Turnstile

open Build

namespace Plan

/-- Plans are built from open goals, rules and compounds by branching. -/
@[elab_as_elim]
theorem induct {P : Plan → Prop} (assumption : ∀ id, P (assumption id))
    (rule : ∀ call apply, P (rule call apply))
    (compound : ∀ call check expansion, (∀ goal, P (expansion goal)) →
      P (compound call check expansion))
    (branch : ∀ first branches, P first → (∀ b ∈ branches, P b) → P (branch first branches))
    (p : Plan) : P p :=
  one p
where
  one : (p : Plan) → P p
    | .assumption id => assumption id
    | .rule call apply => rule call apply
    | .compound call check expansion =>
      compound call check expansion fun goal => one (expansion goal)
    | .branch first branches => branch first branches (one first) (all branches)
  all : (plans : List Plan) → ∀ b ∈ plans, P b
    | [], _, member => nomatch member
    | p :: rest, b, member =>
      (List.mem_cons.mp member).elim (fun same => same ▸ one p) (all rest b)

/-! ## Leaves -/

variable {id id' : Nat} {p sub sub' : Plan} {plans : List Plan} {goals : List Sequent}

/-- The leaves of some plans are those of each, in order. -/
@[simp] theorem assumptionsAll_eq (plans : List Plan) :
    assumptionsAll plans = plans.flatMap assumptions := by
  induction plans with
  | nil => rfl
  | cons p rest ih => rw [assumptionsAll, ih, List.flatMap_cons]

/-- A leaf is replaced in each of some plans. -/
@[simp] theorem replaceAll_eq (id : Nat) (sub : Plan) (plans : List Plan) :
    replaceAll id sub plans = plans.map (replace id sub) := by
  induction plans with
  | nil => rfl
  | cons p rest ih => rw [replaceAll, ih, List.map_cons]

/-- The leaves of a plan with a leaf replaced: those of what replaces it stand in its place. -/
theorem assumptions_replace (id : Nat) (sub p : Plan) :
    (replace id sub p).assumptions =
      p.assumptions.flatMap fun leaf => if leaf = id then sub.assumptions else [leaf] := by
  induction p using Plan.induct with
  | assumption leaf =>
    rw [replace]
    split
    next same => simp [assumptions, same]
    next other => simp [assumptions, other]
  | rule call apply => rfl
  | compound call check expansion ih => rfl
  | branch first branches ihFirst ih =>
    simp only [replace, assumptions, assumptionsAll_eq, replaceAll_eq, List.flatMap_map,
      List.flatMap_assoc]
    exact List.flatMap_congr ih

/-- If all leaves are different, those of what replaces one of them stand in its place. -/
theorem assumptions_replace_of_nodup (sub : Plan) {before after : List Nat}
    (nodup : p.assumptions.Nodup)
    (same : p.assumptions = before ++ id :: after) :
    (replace id sub p).assumptions = before ++ (sub.assumptions ++ after) := by
  rw [same] at nodup
  obtain ⟨_, nodup', apart⟩ := List.nodup_append.mp nodup
  have others : ∀ {ids : List Nat}, (∀ leaf ∈ ids, leaf ≠ id) →
      (ids.flatMap fun leaf => if leaf = id then sub.assumptions else [leaf]) = ids := by
    intro ids different
    exact (List.flatMap_congr fun leaf member => if_neg (different leaf member)).trans
      (List.flatMap_singleton' ids)
  rw [assumptions_replace, same, List.flatMap_append, List.flatMap_cons, if_pos rfl,
    others fun leaf member => apart leaf member id List.mem_cons_self,
    others fun leaf member => fun is => (List.nodup_cons.mp nodup').1 (is ▸ member)]

/-- Replacing a leaf that a plan does not have leaves the plan. -/
theorem replace_of_notMem (absent : id ∉ p.assumptions) : replace id sub p = p := by
  induction p using Plan.induct with
  | assumption leaf =>
    have other : ¬leaf = id := fun same => absent (by simp [assumptions, same])
    rw [replace, if_neg other]
  | rule call apply => rfl
  | compound call check expansion ih => rfl
  | branch first branches ihFirst ih =>
    simp only [assumptions, assumptionsAll_eq, List.mem_flatMap, not_exists, not_and] at absent
    rw [replace, replaceAll_eq]
    congr 1
    exact List.map_congr_left (g := fun b => b) (fun b member => ih b member (absent b member))
      |>.trans (List.map_id' branches)

/-- Nothing happens when a leaf is replaced by itself. -/
theorem replace_self : replace id (assumption id) p = p := by
  induction p using Plan.induct with
  | assumption leaf =>
    rw [replace]
    split
    next same => rw [same]
    next => rfl
  | rule call apply => rfl
  | compound call check expansion ih => rfl
  | branch first branches ihFirst ih =>
    rw [replace, replaceAll_eq]
    congr 1
    exact (List.map_congr_left (g := fun b => b) ih).trans (List.map_id' branches)

/-- Two leaves can be replaced in any order, if neither of the plans put there has the other
leaf. -/
theorem replace_comm (different : id ≠ id') (absent : id' ∉ sub.assumptions)
    (absent' : id ∉ sub'.assumptions) :
    replace id' sub' (replace id sub p) = replace id sub (replace id' sub' p) := by
  induction p using Plan.induct with
  | assumption leaf =>
    by_cases same : leaf = id
    · have other : ¬leaf = id' := fun same' => different (same.symm.trans same')
      simp only [replace, if_pos same, if_neg other, replace_of_notMem absent]
    · by_cases same' : leaf = id'
      · simp only [replace, if_neg same, if_pos same', replace_of_notMem absent']
      · simp only [replace, if_neg same, if_neg same']
  | rule call apply => rfl
  | compound call check expansion ih => rfl
  | branch first branches ihFirst ih =>
    simp only [replace, replaceAll_eq, List.map_map]
    congr 1
    exact List.map_congr_left ih

/-! ## Plans and the goals they are run on -/

/-- A plan that is to be run on a goal. -/
abbrev Task := Plan × Sequent

/-- What some plans leave open on their goals. -/
def runAll : List Task → Build (List Sequent)
  | [] => return []
  | (p, goal) :: rest => do
    let here ← p.subgoals goal
    return here ++ (← runAll rest)

/-- Some plans, normalized on their goals. -/
def normalizeTasks : List Task → Build (List Plan)
  | [] => return []
  | (p, goal) :: rest => do
    let here ← p.normalize goal
    return here :: (← normalizeTasks rest)

/-- The open leaves of some plans. -/
def leaves (tasks : List Task) : List Nat := tasks.flatMap fun task => task.1.assumptions

/-- The plans with a leaf replaced. -/
def replaceIn (id : Nat) (sub : Plan) (tasks : List Task) : List Task :=
  tasks.map fun task => (replace id sub task.1, task.2)

variable {tasks rest pending pending' : List Task} {goal g g' : Sequent} {s t u v w : Supply}
  {G H passed passed' : List Sequent}

/-- No tasks have no leaves. -/
@[simp] theorem leaves_nil : leaves [] = [] := rfl

/-- The leaves of a task and of the rest. -/
@[simp] theorem leaves_cons (p : Plan) (goal : Sequent) (rest : List Task) :
    leaves ((p, goal) :: rest) = p.assumptions ++ leaves rest := List.flatMap_cons ..

/-- The leaves of two lists of tasks. -/
@[simp] theorem leaves_append (first rest : List Task) :
    leaves (first ++ rest) = leaves first ++ leaves rest := List.flatMap_append ..

/-- The leaves of plans on as many goals are those of the plans. -/
theorem leaves_zip (fits : goals.length = plans.length) :
    leaves (plans.zip goals) = plans.flatMap assumptions := by
  rw [leaves, ← List.flatMap_map (f := Prod.fst), List.map_fst_zip (Nat.le_of_eq fits.symm)]

/-- Replacing a leaf in no tasks leaves none. -/
@[simp] theorem replaceIn_nil : replaceIn id sub [] = [] := rfl

/-- Replacing a leaf in a task and in the rest. -/
@[simp] theorem replaceIn_cons (p : Plan) (goal : Sequent) (rest : List Task) :
    replaceIn id sub ((p, goal) :: rest) = (replace id sub p, goal) :: replaceIn id sub rest := rfl

/-- Replacing a leaf in two lists of tasks. -/
@[simp] theorem replaceIn_append (first rest : List Task) :
    replaceIn id sub (first ++ rest) = replaceIn id sub first ++ replaceIn id sub rest :=
  List.map_append

/-- Replacing a leaf in plans on goals is replacing it in the plans. -/
theorem replaceIn_zip (plans : List Plan) (goals : List Sequent) :
    replaceIn id sub (plans.zip goals) = (plans.map (replace id sub)).zip goals := by
  rw [replaceIn, List.zip_map_left]
  rfl

/-- Replacing a leaf that no task has leaves the tasks. -/
theorem replaceIn_of_notMem (absent : id ∉ leaves tasks) : replaceIn id sub tasks = tasks := by
  simp only [leaves, List.mem_flatMap, not_exists, not_and] at absent
  refine (List.map_congr_left (g := fun task => task) fun task member => ?_).trans
    (List.map_id' tasks)
  rw [replace_of_notMem (absent task member)]

/-- Running branches on goals is running them as tasks. -/
theorem subgoalsOf_eq_runAll (plans : List Plan) (goals : List Sequent) :
    subgoalsOf plans goals = runAll (plans.zip goals) := by
  induction plans generalizing goals with
  | nil => simp [subgoalsOf, runAll]
  | cons p plans ih =>
    cases goals with
    | nil => simp [subgoalsOf, runAll]
    | cons goal goals => simp [subgoalsOf, runAll, ih]

/-- Normalizing branches on goals is normalizing them as tasks. -/
theorem normalizeAll_eq_normalizeTasks (plans : List Plan) (goals : List Sequent) :
    normalizeAll plans goals = normalizeTasks (plans.zip goals) := by
  induction plans generalizing goals with
  | nil => simp [normalizeAll, normalizeTasks]
  | cons p plans ih =>
    cases goals with
    | nil => simp [normalizeAll, normalizeTasks]
    | cons goal goals => simp [normalizeAll, normalizeTasks, ih]

/-! ## Runs that succeed -/

/-- Tasks run if the first one does and then the rest. -/
theorem runAll_cons_ok : (runAll ((p, goal) :: rest)).runFrom s = (.ok G, t) ↔
    ∃ A u B, (p.subgoals goal).runFrom s = (.ok A, u) ∧ (runAll rest).runFrom u = (.ok B, t) ∧
      G = A ++ B := by
  rw [runAll]
  constructor
  · intro run
    obtain ⟨A, u, first, run⟩ := bind_ok run
    obtain ⟨B, v, second, run⟩ := bind_ok run
    cases run
    exact ⟨A, u, B, first, second, rfl⟩
  · rintro ⟨A, u, B, first, second, rfl⟩
    simp only [runFrom_bind, first, second, runFrom_pure]

/-- Two lists of tasks run if the first does and then the second. -/
theorem runAll_append_ok : (runAll (tasks ++ rest)).runFrom s = (.ok G, t) ↔
    ∃ A u B, (runAll tasks).runFrom s = (.ok A, u) ∧ (runAll rest).runFrom u = (.ok B, t) ∧
      G = A ++ B := by
  induction tasks generalizing s G with
  | nil =>
    constructor
    · exact fun run => ⟨[], s, G, rfl, run, rfl⟩
    · rintro ⟨A, u, B, first, second, rfl⟩
      cases first
      exact second
  | cons task tasks ih =>
    obtain ⟨p, goal⟩ := task
    simp only [List.cons_append, runAll_cons_ok, ih]
    constructor
    · rintro ⟨A, u, _, first, ⟨B, v, C, second, third, rfl⟩, rfl⟩
      exact ⟨A ++ B, v, C, ⟨A, u, B, first, second, rfl⟩, third, by rw [List.append_assoc]⟩
    · rintro ⟨_, v, C, ⟨A, u, B, first, second, rfl⟩, third, rfl⟩
      exact ⟨A, u, B ++ C, first, ⟨B, v, C, second, third, rfl⟩, by rw [List.append_assoc]⟩

/-- A leaf leaves its goal open. -/
theorem subgoals_assumption_ok : ((assumption id).subgoals goal).runFrom s = (.ok G, t) ↔
    G = [goal] ∧ t = s := by
  rw [subgoals, runFrom_pure]
  constructor
  · rintro ⟨⟩
    exact ⟨rfl, rfl⟩
  · rintro ⟨rfl, rfl⟩
    rfl

/-- A branch runs if its head does, leaves as many goals as there are branches, and these run on
them. -/
theorem subgoals_branch_ok {first : Plan} {branches : List Plan} :
    ((branch first branches).subgoals goal).runFrom s = (.ok G, t) ↔
      ∃ goals u, (first.subgoals goal).runFrom s = (.ok goals, u) ∧
        goals.length = branches.length ∧
        (runAll (branches.zip goals)).runFrom u = (.ok G, t) := by
  rw [subgoals]
  constructor
  · intro run
    obtain ⟨goals, u, head, run⟩ := bind_ok run
    split at run
    next fits => exact ⟨goals, u, head, fits, by rwa [subgoalsOf_eq_runAll] at run⟩
    next => cases run
  · rintro ⟨goals, u, head, fits, run⟩
    simp only [runFrom_bind, head, if_pos fits, subgoalsOf_eq_runAll, run]

/-- Tasks are normalized if the first one is and then the rest. -/
theorem normalizeTasks_cons_ok {R : List Plan} :
    (normalizeTasks ((p, goal) :: rest)).runFrom s = (.ok R, t) ↔
      ∃ N u A, (p.normalize goal).runFrom s = (.ok N, u) ∧
        (normalizeTasks rest).runFrom u = (.ok A, t) ∧ R = N :: A := by
  rw [normalizeTasks]
  constructor
  · intro run
    obtain ⟨N, u, first, run⟩ := bind_ok run
    obtain ⟨A, v, second, run⟩ := bind_ok run
    cases run
    exact ⟨N, u, A, first, second, rfl⟩
  · rintro ⟨N, u, A, first, second, rfl⟩
    simp only [runFrom_bind, first, second, runFrom_pure]

/-- Two lists of tasks are normalized if the first is and then the second. -/
theorem normalizeTasks_append_ok {R : List Plan} :
    (normalizeTasks (tasks ++ rest)).runFrom s = (.ok R, t) ↔
      ∃ A u B, (normalizeTasks tasks).runFrom s = (.ok A, u) ∧
        (normalizeTasks rest).runFrom u = (.ok B, t) ∧ R = A ++ B := by
  induction tasks generalizing s R with
  | nil =>
    constructor
    · exact fun run => ⟨[], s, R, rfl, run, rfl⟩
    · rintro ⟨A, u, B, first, second, rfl⟩
      cases first
      exact second
  | cons task tasks ih =>
    obtain ⟨p, goal⟩ := task
    simp only [List.cons_append, normalizeTasks_cons_ok, ih]
    constructor
    · rintro ⟨N, u, _, first, ⟨B, v, C, second, third, rfl⟩, rfl⟩
      exact ⟨N :: B, v, C, ⟨N, u, B, first, second, rfl⟩, third, rfl⟩
    · rintro ⟨_, v, C, ⟨N, u, B, first, second, rfl⟩, third, rfl⟩
      exact ⟨N, u, B ++ C, first, ⟨B, v, C, second, third, rfl⟩, rfl⟩

/-- Normalizing tasks gives as many plans. -/
theorem normalizeTasks_length {R : List Plan} :
    (normalizeTasks tasks).runFrom s = (.ok R, t) → R.length = tasks.length := by
  induction tasks generalizing s R with
  | nil =>
    rintro ⟨⟩
    rfl
  | cons task tasks ih =>
    intro run
    obtain ⟨N, u, A, _, later, rfl⟩ := normalizeTasks_cons_ok.mp run
    rw [List.length_cons, List.length_cons, ih later]

/-- A branch is normalized if its head runs, leaves as many goals as there are branches, and these
are normalized on them. -/
theorem normalize_branch_ok {first N : Plan} {branches : List Plan} :
    ((branch first branches).normalize goal).runFrom s = (.ok N, t) ↔
      ∃ goals u A, (first.subgoals goal).runFrom s = (.ok goals, u) ∧
        goals.length = branches.length ∧
        (normalizeTasks (branches.zip goals)).runFrom u = (.ok A, t) ∧ N = branch first A := by
  rw [normalize]
  constructor
  · intro run
    obtain ⟨goals, u, head, run⟩ := bind_ok run
    split at run
    next fits =>
      obtain ⟨A, v, run', run⟩ := bind_ok run
      cases run
      exact ⟨goals, u, A, head, fits, by rwa [normalizeAll_eq_normalizeTasks] at run', rfl⟩
    next => cases run
  · rintro ⟨goals, u, A, head, fits, run, rfl⟩
    simp only [runFrom_bind, head, if_pos fits, normalizeAll_eq_normalizeTasks, run, runFrom_pure]

/-! ## One goal for each leaf -/

/-- If the plan of each task has no more leaves than it leaves goals open, then so it is with the
tasks together. -/
theorem leaves_le_of_each (each : ∀ task ∈ tasks, ∀ {goal s G t},
      (task.1.subgoals goal).runFrom s = (.ok G, t) → task.1.assumptions.length ≤ G.length)
    (run : (runAll tasks).runFrom s = (.ok G, t)) : (leaves tasks).length ≤ G.length := by
  induction tasks generalizing s G with
  | nil => exact Nat.zero_le _
  | cons task tasks ih =>
    obtain ⟨A, u, B, first, second, rfl⟩ := runAll_cons_ok.mp run
    have here := each task (by simp) first
    have later := ih (fun task member => each task (by simp [member])) second
    rw [leaves_cons, List.length_append, List.length_append]
    omega

/-- A run leaves at least one goal open for each leaf. -/
theorem assumptions_le (run : (p.subgoals goal).runFrom s = (.ok G, t)) :
    p.assumptions.length ≤ G.length := by
  induction p using Plan.induct generalizing goal s G t with
  | assumption leaf =>
    obtain ⟨rfl, _⟩ := subgoals_assumption_ok.mp run
    exact Nat.le_refl _
  | rule call apply => exact Nat.zero_le _
  | compound call check expansion ih => exact Nat.zero_le _
  | branch first branches ihFirst ih =>
    obtain ⟨goals, u, _, fits, later⟩ := subgoals_branch_ok.mp run
    rw [assumptions, assumptionsAll_eq, ← leaves_zip fits]
    exact leaves_le_of_each (fun task member => ih task.1 (List.of_mem_zip member).1) later

/-- Tasks have no more leaves than they leave goals open. -/
theorem leaves_le (run : (runAll tasks).runFrom s = (.ok G, t)) :
    (leaves tasks).length ≤ G.length :=
  leaves_le_of_each (fun _ _ => assumptions_le) run

/-- If each task whose leaves are as many as its open goals is left as it is, then so are the tasks
together. -/
theorem normalizeTasks_of_each (each : ∀ task ∈ tasks, ∀ {goal s G t},
      (task.1.subgoals goal).runFrom s = (.ok G, t) → G.length = task.1.assumptions.length →
      (task.1.normalize goal).runFrom s = (.ok task.1, t))
    (run : (runAll tasks).runFrom s = (.ok G, t)) (settled : G.length = (leaves tasks).length) :
    (normalizeTasks tasks).runFrom s = (.ok (tasks.map Prod.fst), t) := by
  induction tasks generalizing s G with
  | nil =>
    cases run
    rfl
  | cons task tasks ih =>
    obtain ⟨A, u, B, first, second, rfl⟩ := runAll_cons_ok.mp run
    have here := assumptions_le first
    have later := leaves_le second
    rw [leaves_cons, List.length_append, List.length_append] at settled
    refine normalizeTasks_cons_ok.mpr ⟨task.1, u, tasks.map Prod.fst, ?_, ?_, rfl⟩
    · exact each task (by simp) first (by omega)
    · exact ih (fun task member => each task (by simp [member])) second (by omega)

/-- A plan that leaves nothing open is not padded. -/
theorem pad_of_closed (run : (p.subgoals goal).runFrom s = (.ok [], t)) :
    (p.pad goal).runFrom s = (.ok p, t) := by
  simp [pad, runFrom_bind, run]

/-- A plan that leaves one goal open for each leaf is normalized as it is. -/
theorem normalize_of_settled (run : (p.subgoals goal).runFrom s = (.ok G, t))
    (settled : G.length = p.assumptions.length) :
    (p.normalize goal).runFrom s = (.ok p, t) := by
  induction p using Plan.induct generalizing goal s G t with
  | assumption leaf =>
    obtain ⟨_, rfl⟩ := subgoals_assumption_ok.mp run
    rfl
  | rule call apply =>
    obtain rfl := List.eq_nil_of_length_eq_zero settled
    rw [normalize]
    exact pad_of_closed run
  | compound call check expansion ih =>
    obtain rfl := List.eq_nil_of_length_eq_zero settled
    rw [normalize]
    exact pad_of_closed run
  | branch first branches ihFirst ih =>
    obtain ⟨goals, u, head, fits, later⟩ := subgoals_branch_ok.mp run
    rw [assumptions, assumptionsAll_eq, ← leaves_zip fits] at settled
    refine normalize_branch_ok.mpr ⟨goals, u, branches, head, fits, ?_, rfl⟩
    have rests := normalizeTasks_of_each
      (fun task member => ih task.1 (List.of_mem_zip member).1) later settled
    rwa [List.map_fst_zip (Nat.le_of_eq fits.symm)] at rests

/-- Tasks whose leaves are as many as their open goals are left as they are. -/
theorem normalizeTasks_of_settled (run : (runAll tasks).runFrom s = (.ok G, t))
    (settled : G.length = (leaves tasks).length) :
    (normalizeTasks tasks).runFrom s = (.ok (tasks.map Prod.fst), t) :=
  normalizeTasks_of_each (fun _ _ => normalize_of_settled) run settled

/-! ## The way to a leaf -/

/-- A run of plans up to a leaf: what was left open on the way, the goal that arrives there, and
what is still to be run. -/
inductive Reaches (id : Nat) : (tasks : List Task) → (s : Supply) → (passed : List Sequent) →
    (g : Sequent) → (pending : List Task) → (u : Supply) → Prop
  /-- The next plan is the leaf. -/
  | here {g : Sequent} {rest : List Task} {s : Supply} :
    Reaches id ((assumption id, g) :: rest) s [] g rest s
  /-- The leaf comes after the next plan. -/
  | past {p : Plan} {goal g : Sequent} {rest pending : List Task} {s t u : Supply}
    {G passed : List Sequent} (run : (p.subgoals goal).runFrom s = (.ok G, t))
    (later : Reaches id rest t passed g pending u) :
    Reaches id ((p, goal) :: rest) s (G ++ passed) g pending u
  /-- The next plan is a branch, and the leaf comes after its head. -/
  | into {first : Plan} {branches : List Plan} {goal g : Sequent} {rest pending : List Task}
    {s t u : Supply} {goals passed : List Sequent}
    (run : (first.subgoals goal).runFrom s = (.ok goals, t))
    (fits : goals.length = branches.length)
    (inner : Reaches id (branches.zip goals ++ rest) t passed g pending u) :
    Reaches id ((branch first branches, goal) :: rest) s passed g pending u

/-- If the leaf of a task is reached in it, then the leaf of some tasks is reached in them. -/
theorem exists_reaches_of_each (each : ∀ task ∈ tasks, ∀ {goal s G t},
      (task.1.subgoals goal).runFrom s = (.ok G, t) → id ∈ task.1.assumptions → ∀ rest,
        ∃ passed g pending u B, Reaches id ((task.1, goal) :: rest) s passed g (pending ++ rest) u ∧
          (runAll pending).runFrom u = (.ok B, t) ∧ G = passed ++ g :: B)
    (run : (runAll tasks).runFrom s = (.ok G, t)) (member : id ∈ leaves tasks)
    (rest : List Task) :
    ∃ passed g pending u B, Reaches id (tasks ++ rest) s passed g (pending ++ rest) u ∧
      (runAll pending).runFrom u = (.ok B, t) ∧ G = passed ++ g :: B := by
  induction tasks generalizing s G with
  | nil => cases member
  | cons task tasks ih =>
    obtain ⟨A, x, C, first, second, rfl⟩ := runAll_cons_ok.mp run
    by_cases inside : id ∈ task.1.assumptions
    · obtain ⟨passed, g, pending, u, B, reaches, rests, rfl⟩ :=
        each task (by simp) first inside (tasks ++ rest)
      refine ⟨passed, g, pending ++ tasks, u, B ++ C, ?_, ?_, by simp⟩
      · rw [List.append_assoc]
        exact reaches
      · exact runAll_append_ok.mpr ⟨B, x, C, rests, second, rfl⟩
    · have later : id ∈ leaves tasks := by
        rw [leaves_cons, List.mem_append] at member
        exact member.resolve_left inside
      obtain ⟨passed, g, pending, u, B, reaches, rests, rfl⟩ :=
        ih (fun task member => each task (by simp [member])) second later
      exact ⟨A ++ passed, g, pending, u, B, .past first reaches, rests, by simp⟩

/-- Where a plan runs, each of its leaves is reached. -/
theorem exists_reaches_plan (run : (p.subgoals goal).runFrom s = (.ok G, t))
    (member : id ∈ p.assumptions) (rest : List Task) :
    ∃ passed g pending u B, Reaches id ((p, goal) :: rest) s passed g (pending ++ rest) u ∧
      (runAll pending).runFrom u = (.ok B, t) ∧ G = passed ++ g :: B := by
  induction p using Plan.induct generalizing goal s G t rest with
  | assumption leaf =>
    obtain ⟨rfl, rfl⟩ := subgoals_assumption_ok.mp run
    obtain rfl : id = leaf := by simpa [assumptions] using member
    exact ⟨[], goal, [], t, [], .here, rfl, rfl⟩
  | rule call apply => cases member
  | compound call check expansion ih => cases member
  | branch first branches ihFirst ih =>
    obtain ⟨goals, x, head, fits, later⟩ := subgoals_branch_ok.mp run
    rw [assumptions, assumptionsAll_eq, ← leaves_zip fits] at member
    obtain ⟨passed, g, pending, u, B, reaches, rests, same⟩ := exists_reaches_of_each
      (fun task inside => ih task.1 (List.of_mem_zip inside).1) later member rest
    exact ⟨passed, g, pending, u, B, .into head fits reaches, rests, same⟩

/-- A run that succeeds comes by each leaf, and leaves open what it does on the way there, the goal
that arrives there, and what it does from there on. -/
theorem exists_reaches (run : (runAll tasks).runFrom s = (.ok G, t)) (member : id ∈ leaves tasks) :
    ∃ passed g pending u B, Reaches id tasks s passed g pending u ∧
      (runAll pending).runFrom u = (.ok B, t) ∧ G = passed ++ g :: B := by
  obtain ⟨passed, g, pending, u, B, reaches, rests, same⟩ := exists_reaches_of_each
    (fun _ _ => exists_reaches_plan) run member []
  rw [List.append_nil, List.append_nil] at reaches
  exact ⟨passed, g, pending, u, B, reaches, rests, same⟩

/-- The leaves that a run passed left at least as many goals open. -/
theorem Reaches.leaves (reaches : Reaches id tasks s passed g pending u) :
    ∃ before, leaves tasks = before ++ id :: leaves pending ∧ before.length ≤ passed.length := by
  induction reaches with
  | here => exact ⟨[], rfl, Nat.le_refl _⟩
  | @past p goal _ rest pending _ _ _ G passed run later ih =>
    obtain ⟨before, same, shorter⟩ := ih
    have here := assumptions_le run
    refine ⟨p.assumptions ++ before, ?_, ?_⟩
    · rw [leaves_cons, same, List.append_assoc]
    · rw [List.length_append, List.length_append]
      omega
  | into run fits inner ih =>
    obtain ⟨before, same, shorter⟩ := ih
    refine ⟨before, ?_, shorter⟩
    rw [leaves_cons, assumptions, assumptionsAll_eq, ← leaves_zip fits, ← leaves_append, same]

/-- If a run leaves one goal open for each leaf, then so it does on the way to a leaf and from there
on. -/
theorem Reaches.settled (reaches : Reaches id tasks s passed g pending u) {B : List Sequent}
    (rest : (runAll pending).runFrom u = (.ok B, t))
    (settled : (passed ++ g :: B).length = (Plan.leaves tasks).length) :
    B.length = (Plan.leaves pending).length ∧
      ∃ before, Plan.leaves tasks = before ++ id :: Plan.leaves pending ∧
        before.length = passed.length := by
  obtain ⟨before, same, shorter⟩ := reaches.leaves
  have enough := leaves_le rest
  rw [same] at settled
  simp only [List.length_append, List.length_cons] at settled
  exact ⟨by omega, before, same, by omega⟩

/-- A leaf that is reached is one of the tasks. -/
theorem Reaches.mem_leaves (reaches : Reaches id tasks s passed g pending u) :
    id ∈ Plan.leaves tasks := by
  obtain ⟨before, same, _⟩ := reaches.leaves
  simp [same]

/-- What a leaf is reached past does not hold the leaf, if all leaves are different. -/
theorem notMem_of_past {p : Plan} {goal : Sequent}
    (nodup : (Plan.leaves ((p, goal) :: rest)).Nodup)
    (later : Reaches id rest t passed g pending u) : id ∉ p.assumptions := by
  rw [leaves_cons] at nodup
  exact fun inside => (List.nodup_append.mp nodup).2.2 id inside id later.mem_leaves rfl

/-- A branch and what comes of it have the same leaves, so they stay different. -/
theorem nodup_into {first : Plan} {branches : List Plan} (fits : goals.length = branches.length)
    (nodup : (Plan.leaves ((branch first branches, goal) :: rest)).Nodup) :
    (Plan.leaves (branches.zip goals ++ rest)).Nodup := by
  rwa [leaves_append, leaves_zip fits, ← assumptionsAll_eq]

/-- The leaves of the tasks after the first one are different, too. -/
theorem nodup_past (nodup : (Plan.leaves ((p, goal) :: rest)).Nodup) :
    (Plan.leaves rest).Nodup := by
  rw [leaves_cons] at nodup
  exact (List.nodup_append.mp nodup).2.1

/-- A leaf that some plans do not have is reached after a run of all of them. -/
theorem Reaches.beyond {all : List Task} (reaches : Reaches id all s passed g pending u) :
    ∀ {tasks rest : List Task}, all = tasks ++ rest → id ∉ Plan.leaves tasks →
      ∃ A t passed', (runAll tasks).runFrom s = (.ok A, t) ∧
        Reaches id rest t passed' g pending u ∧ passed = A ++ passed' := by
  induction reaches with
  | @here g rest s =>
    intro tasks rest split absent
    cases tasks with
    | nil =>
      cases split
      exact ⟨[], s, [], rfl, .here, rfl⟩
    | cons task tasks =>
      obtain ⟨rfl, _⟩ := List.cons.inj split
      simp [assumptions] at absent
  | @past p goal g later pending s t u G passed run reaches ih =>
    intro tasks rest split absent
    cases tasks with
    | nil =>
      cases split
      exact ⟨[], s, G ++ passed, rfl, .past run reaches, rfl⟩
    | cons task tasks =>
      obtain ⟨rfl, others⟩ := List.cons.inj split
      rw [leaves_cons, List.mem_append, not_or] at absent
      obtain ⟨A, x, passed', runs, reaches', rfl⟩ := ih others absent.2
      refine ⟨G ++ A, x, passed', ?_, reaches', by rw [List.append_assoc]⟩
      exact runAll_cons_ok.mpr ⟨G, t, A, run, runs, rfl⟩
  | @into first branches goal g later pending s t u goals passed run fits inner ih =>
    intro tasks rest split absent
    cases tasks with
    | nil =>
      cases split
      exact ⟨[], s, passed, rfl, .into run fits inner, rfl⟩
    | cons task tasks =>
      obtain ⟨rfl, rfl⟩ := List.cons.inj split
      rw [leaves_cons, assumptions, assumptionsAll_eq, ← leaves_zip fits, ← leaves_append] at absent
      obtain ⟨A, x, passed', runs, reaches', rfl⟩ := ih (List.append_assoc ..).symm absent
      obtain ⟨B, y, C, runB, runC, rfl⟩ := runAll_append_ok.mp runs
      refine ⟨B ++ C, x, passed', ?_, reaches', rfl⟩
      exact runAll_cons_ok.mpr ⟨B, y, C, subgoals_branch_ok.mpr ⟨goals, t, run, fits, runB⟩, runC,
        rfl⟩

/-- A leaf after some plans is reached by a run of all of them. -/
theorem reaches_append (run : (runAll tasks).runFrom s = (.ok G, t))
    (later : Reaches id rest t passed g pending u) :
    Reaches id (tasks ++ rest) s (G ++ passed) g pending u := by
  induction tasks generalizing s G with
  | nil =>
    cases run
    exact later
  | cons task tasks ih =>
    obtain ⟨A, x, B, first, second, rfl⟩ := runAll_cons_ok.mp run
    rw [List.append_assoc]
    exact .past first (ih second)

/-- There is one way to each leaf. -/
theorem Reaches.unique (reaches : Reaches id tasks s passed g pending u)
    (reaches' : Reaches id tasks s passed' g' pending' v) (nodup : (Plan.leaves tasks).Nodup) :
    passed' = passed ∧ g' = g ∧ pending' = pending ∧ v = u := by
  induction reaches generalizing passed' g' pending' v with
  | here =>
    cases reaches' with
    | here => exact ⟨rfl, rfl, rfl, rfl⟩
    | past run' later' => exact absurd (List.mem_singleton.mpr rfl) (notMem_of_past nodup later')
  | past run later ih =>
    have absent := notMem_of_past nodup later
    obtain ⟨A, x, passed'', runs, reaches'', rfl⟩ :=
      reaches'.beyond List.singleton_append.symm (by simpa using absent)
    obtain ⟨G, y, B, run', rest, rfl⟩ := runAll_cons_ok.mp runs
    cases rest
    rw [run] at run'
    cases run'
    obtain ⟨rfl, rfl, rfl, rfl⟩ := ih reaches'' (nodup_past nodup)
    exact ⟨by rw [List.append_nil], rfl, rfl, rfl⟩
  | @into first branches goal g rest pending s t u goals passed run fits inner ih =>
    have nodup' := nodup_into fits nodup
    cases reaches' with
    | past run' later' =>
      -- The leaf comes after the branch, so that the way into the branch leads past it as well.
      obtain ⟨goals', y, run'', _, runs⟩ := subgoals_branch_ok.mp run'
      rw [run] at run''
      cases run''
      have absent := notMem_of_past nodup later'
      rw [assumptions, assumptionsAll_eq, ← leaves_zip fits] at absent
      obtain ⟨A, x, passed'', runs', reaches'', rfl⟩ := inner.beyond rfl absent
      rw [runs] at runs'
      cases runs'
      exact ih (reaches_append runs later') nodup'
    | into run' fits' inner' =>
      rw [run] at run'
      cases run'
      exact ih inner' nodup'

/-! ## Runs with a leaf replaced -/

/-- A run with a leaf replaced goes the way to the leaf, runs what stands there on the goal that
arrives there, and goes on from there. -/
theorem Reaches.run_ok (reaches : Reaches id tasks s passed g pending u)
    (nodup : (Plan.leaves tasks).Nodup) :
    (runAll (replaceIn id sub tasks)).runFrom s = (.ok G, t) ↔
      ∃ H v B, (sub.subgoals g).runFrom u = (.ok H, v) ∧
        (runAll pending).runFrom v = (.ok B, t) ∧ G = passed ++ (H ++ B) := by
  induction reaches generalizing G with
  | @here g rest s =>
    have absent : id ∉ Plan.leaves rest := by
      rw [leaves_cons] at nodup
      exact fun inside => (List.nodup_append.mp nodup).2.2 id (by simp [assumptions]) id inside rfl
    rw [replaceIn_cons, replaceIn_of_notMem absent, runAll_cons_ok, replace, if_pos rfl]
    rfl
  | @past p goal g rest pending s x u A passed run later ih =>
    rw [replaceIn_cons, replace_of_notMem (notMem_of_past nodup later), runAll_cons_ok]
    constructor
    · rintro ⟨A', x', _, run', after, rfl⟩
      rw [run] at run'
      cases run'
      obtain ⟨H, v, B, here, rests, rfl⟩ := (ih (nodup_past nodup)).mp after
      exact ⟨H, v, B, here, rests, by rw [List.append_assoc]⟩
    · rintro ⟨H, v, B, here, rests, rfl⟩
      refine ⟨A, x, _, run, (ih (nodup_past nodup)).mpr ⟨H, v, B, here, rests, rfl⟩, ?_⟩
      rw [List.append_assoc]
  | @into first branches goal g rest pending s x u goals passed run fits inner ih =>
    have ih := ih (G := G) (nodup_into fits nodup)
    rw [replaceIn_append, replaceIn_zip, runAll_append_ok] at ih
    rw [← ih, replaceIn_cons, runAll_cons_ok, replace, replaceAll_eq]
    constructor
    · rintro ⟨A, y, B, runs, rests, rfl⟩
      obtain ⟨goals', x', run', _, runs⟩ := subgoals_branch_ok.mp runs
      rw [run] at run'
      cases run'
      exact ⟨A, y, B, runs, rests, rfl⟩
    · rintro ⟨A, y, B, runs, rests, rfl⟩
      refine ⟨A, y, B, subgoals_branch_ok.mpr ⟨goals, x, run, ?_, runs⟩, rests, rfl⟩
      rw [fits, List.length_map]

/-- Normalizing with a leaf replaced normalizes what stands there on the goal that arrives there,
if everything before it leaves one goal open for each leaf. -/
theorem Reaches.normalizes (reaches : Reaches id tasks s passed g pending u)
    (nodup : (Plan.leaves tasks).Nodup)
    (settled : passed.length + 1 + (Plan.leaves pending).length = (Plan.leaves tasks).length)
    {R : List Plan} (run : (normalizeTasks (replaceIn id sub tasks)).runFrom s = (.ok R, t)) :
    ∃ N v, (sub.normalize g).runFrom u = (.ok N, v) := by
  induction reaches generalizing R with
  | here =>
    rw [replaceIn_cons, replace, if_pos rfl] at run
    obtain ⟨N, v, _, here, _, _⟩ := normalizeTasks_cons_ok.mp run
    exact ⟨N, v, here⟩
  | @past p goal g rest pending s x u A passed ran later ih =>
    rw [replaceIn_cons, replace_of_notMem (notMem_of_past nodup later)] at run
    obtain ⟨before, same, shorter⟩ := later.leaves
    have enough := assumptions_le ran
    have count := congrArg List.length same
    rw [List.length_append, List.length_cons] at count
    rw [List.length_append, leaves_cons, List.length_append] at settled
    obtain ⟨N, y, R', first, rests, _⟩ := normalizeTasks_cons_ok.mp run
    rw [normalize_of_settled ran (by omega)] at first
    cases first
    exact ih (nodup_past nodup) (by omega) rests
  | @into first branches goal g rest pending s x u goals passed ran fits inner ih =>
    rw [replaceIn_cons, replace, replaceAll_eq] at run
    obtain ⟨N, y, R', branch, rests, _⟩ := normalizeTasks_cons_ok.mp run
    obtain ⟨goals', x', A, ran', _, runs, _⟩ := normalize_branch_ok.mp branch
    rw [ran] at ran'
    cases ran'
    rw [leaves_cons, assumptions, assumptionsAll_eq, ← leaves_zip fits, ← leaves_append] at settled
    refine ih (nodup_into fits nodup) settled (R := A ++ R') ?_
    rw [replaceIn_append, replaceIn_zip]
    exact normalizeTasks_append_ok.mpr ⟨A, y, R', runs, rests, rfl⟩

/-- Normalizing with a leaf replaced puts the normalized plan in the place of the leaf, if
everything else leaves one goal open for each leaf. -/
theorem Reaches.normalize_ok (reaches : Reaches id tasks s passed g pending u)
    (nodup : (Plan.leaves tasks).Nodup)
    (settled : passed.length + 1 + (Plan.leaves pending).length = (Plan.leaves tasks).length)
    {N : Plan} (here : (sub.normalize g).runFrom u = (.ok N, v)) {B : List Sequent}
    (rests : (runAll pending).runFrom v = (.ok B, t))
    (settled' : B.length = (Plan.leaves pending).length) :
    (normalizeTasks (replaceIn id sub tasks)).runFrom s =
      (.ok ((replaceIn id N tasks).map Prod.fst), t) := by
  induction reaches with
  | @here g rest s =>
    have absent : id ∉ Plan.leaves rest := by
      rw [leaves_cons] at nodup
      exact fun inside => (List.nodup_append.mp nodup).2.2 id (by simp [assumptions]) id inside rfl
    rw [replaceIn_cons, replaceIn_cons, replaceIn_of_notMem absent, replaceIn_of_notMem absent,
      replace, if_pos rfl, replace, if_pos rfl]
    exact normalizeTasks_cons_ok.mpr
      ⟨N, v, _, here, normalizeTasks_of_settled rests settled', rfl⟩
  | @past p goal g rest pending s x u A passed ran later ih =>
    have absent := notMem_of_past nodup later
    rw [replaceIn_cons, replaceIn_cons, replace_of_notMem absent, replace_of_notMem absent]
    obtain ⟨before, same, shorter⟩ := later.leaves
    have enough := assumptions_le ran
    have count := congrArg List.length same
    rw [List.length_append, List.length_cons] at count
    rw [List.length_append, leaves_cons, List.length_append] at settled
    refine normalizeTasks_cons_ok.mpr ⟨p, x, _, normalize_of_settled ran (by omega), ?_, rfl⟩
    exact ih (nodup_past nodup) (by omega) here rests settled'
  | @into first branches goal g rest pending s x u goals passed ran fits inner ih =>
    rw [leaves_cons, assumptions, assumptionsAll_eq, ← leaves_zip fits, ← leaves_append] at settled
    have runs := ih (nodup_into fits nodup) settled here rests settled'
    rw [replaceIn_append, replaceIn_append, List.map_append] at runs
    obtain ⟨A, y, R, first', second, same⟩ := normalizeTasks_append_ok.mp runs
    have count := normalizeTasks_length first'
    obtain ⟨rfl, rfl⟩ := List.append_inj same (by simp [count, replaceIn])
    rw [replaceIn_zip, replaceIn_zip] at first'
    rw [List.map_fst_zip (by simp [fits])] at first'
    rw [replaceIn_cons, replace, replaceAll_eq]
    refine normalizeTasks_cons_ok.mpr
      ⟨branch first (branches.map (replace id N)), y, _, ?_, second, by simp [replace]⟩
    exact normalize_branch_ok.mpr ⟨goals, x, _, ran, by simp [fits], first', rfl⟩

/-- A leaf after a replaced one is reached by running what stands in its place. -/
theorem Reaches.through (reaches : Reaches id tasks s passed g pending u)
    (nodup : (Plan.leaves tasks).Nodup) (run : (sub.subgoals g).runFrom u = (.ok H, v))
    (later : Reaches id' pending v passed' g' pending' w) :
    Reaches id' (replaceIn id sub tasks) s (passed ++ (H ++ passed')) g' pending' w := by
  induction reaches with
  | @here g rest s =>
    have absent : id ∉ Plan.leaves rest := by
      rw [leaves_cons] at nodup
      exact fun inside => (List.nodup_append.mp nodup).2.2 id (by simp [assumptions]) id inside rfl
    rw [replaceIn_cons, replaceIn_of_notMem absent, replace, if_pos rfl, List.nil_append]
    exact .past run later
  | past ran before ih =>
    rw [replaceIn_cons, replace_of_notMem (notMem_of_past nodup before), List.append_assoc]
    exact .past ran (ih (nodup_past nodup) run later)
  | into ran fits inner ih =>
    rw [replaceIn_cons, replace, replaceAll_eq]
    refine .into ran (by simpa using fits) ?_
    rw [← replaceIn_zip, ← replaceIn_append]
    exact ih (nodup_into fits nodup) run later

/-- A leaf before a replaced one is reached as before. -/
theorem Reaches.before (reaches : Reaches id tasks s passed g pending u)
    (nodup : (Plan.leaves tasks).Nodup) (later : id' ∈ Plan.leaves pending) :
    Reaches id (replaceIn id' sub tasks) s passed g (replaceIn id' sub pending) u := by
  have different : ∀ {tasks : List Task} {s : Supply} {passed : List Sequent} {u : Supply},
      Reaches id tasks s passed g pending u → id' ∈ Plan.leaves tasks := by
    intro tasks s passed u reaches
    obtain ⟨before, same, _⟩ := reaches.leaves
    simp [same, later]
  induction reaches with
  | @here g rest s =>
    have other : ¬id = id' := by
      rintro rfl
      rw [leaves_cons] at nodup
      exact (List.nodup_append.mp nodup).2.2 id (by simp [assumptions]) id later rfl
    rw [replaceIn_cons, replace, if_neg other]
    exact .here
  | @past p goal g rest pending s x u A passed ran before ih =>
    have absent : id' ∉ p.assumptions := by
      rw [leaves_cons] at nodup
      exact fun inside => (List.nodup_append.mp nodup).2.2 id' inside id' (different before) rfl
    rw [replaceIn_cons, replace_of_notMem absent]
    exact .past ran (ih (nodup_past nodup) later different)
  | into ran fits inner ih =>
    rw [replaceIn_cons, replace, replaceAll_eq]
    refine .into ran (by simpa using fits) ?_
    rw [← replaceIn_zip, ← replaceIn_append]
    exact ih (nodup_into fits nodup) later different

end Plan

end Turnstile
