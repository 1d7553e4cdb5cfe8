import Turnstile.Proofs.OpenGoals
import Turnstile.Proofs.Relocation

/-!
# Open goals under a renaming

Putting a plan in the place of a leaf and normalizing are mirrored by renamed plans, and a run up to
a leaf is mirrored step by step. What `Plan.normalize` adds to a plan is one leaf for each goal that
the plan leaves open, wherever it is run: it succeeds exactly when the run does, and the plan that
it makes leaves the same goals open as the plan itself.
-/

namespace Turnstile

open Build Renaming

variable {ρ : Renaming} {env : Environment}

namespace Plan

/-! ## Atomic plans -/

/-- An atomic plan has no leaves. -/
theorem Atomic.assumptions {p : Plan} (atomic : p.Atomic) : p.assumptions = [] := by
  cases p with
  | assumption id => cases atomic.1
  | branch first branches => cases atomic.2
  | rule call apply => rfl
  | compound call check expansion => rfl

/-- An atomic plan is normalized by padding it. -/
theorem Atomic.normalize {p : Plan} (atomic : p.Atomic) (goal : Sequent) :
    p.normalize goal = p.pad goal := by
  cases p with
  | assumption id => cases atomic.1
  | branch first branches => cases atomic.2
  | rule call apply => rw [Plan.normalize]
  | compound call check expansion => rw [Plan.normalize]

/-- What mirrors an atomic plan is atomic. -/
theorem Atomic.mirrored {p p' : Plan} (atomic : p.Atomic) (mirrors : Plan.Mirrors ρ p p') :
    p'.Atomic := by
  cases mirrors with
  | assumption _ _ => cases atomic.1
  | branch _ _ => cases atomic.2
  | rule _ => exact ⟨rfl, rfl⟩
  | compound _ _ => exact ⟨rfl, rfl⟩

/-- What a call of a rule builds is atomic, and so is what it builds from renamed terms. -/
theorem atomic_of_call (fixed : env.FixedBy ρ) {d : Descriptor} (listed : d ∈ env.rules.rules)
    {args args' : List Arg} (takes : List.Forall₂ ρ.TakesArg args args') {p p' : Plan}
    (built : d.instantiate env.theory args = pure p)
    (built' : d.instantiate env.theory args' = pure p') : p.Atomic ∧ p'.Atomic := by
  obtain ⟨q, other, atomic, mirrored⟩ :=
    (fixed.rules _ listed).instantiate fixed.theory takes built
  obtain rfl := Rule.pure_inj (other.symm.trans built')
  exact ⟨atomic, atomic.mirrored mirrored⟩

mutual

/-- The open goals of renamed plans have renamed numbers. -/
theorem Renamed.assumptions_eq (fixed : env.FixedBy ρ) {p p' : Plan} :
    Renamed env ρ p p' → p'.assumptions = p.assumptions.map ρ.assumption
  | .assumption id => rfl
  | .call listed takes built built' => by
    obtain ⟨atomic, atomic'⟩ := atomic_of_call fixed listed takes built built'
    rw [atomic.assumptions, atomic'.assumptions]
    rfl
  | .branch head rest => by
    rw [assumptions, assumptions]
    exact Renamed.assumptionsAll_map fixed rest

/-- So have those of several renamed plans. -/
theorem Renamed.assumptionsAll_map (fixed : env.FixedBy ρ) {plans plans' : List Plan} :
    List.Forall₂ (Renamed env ρ) plans plans' →
      assumptionsAll plans' = (assumptionsAll plans).map ρ.assumption
  | .nil => rfl
  | .cons first rest => by
    rw [assumptionsAll, assumptionsAll, List.map_append, Renamed.assumptions_eq fixed first,
      Renamed.assumptionsAll_map fixed rest]

end

/-! ## Replacing -/

mutual

/-- Renamed plans stay renamed when renamed plans are put in the place of a leaf. -/
theorem Renamed.replace (fixed : env.FixedBy ρ) {sub sub' : Plan}
    (renamedSub : Renamed env ρ sub sub') (id : Nat) {p p' : Plan} : Renamed env ρ p p' →
      Renamed env ρ (Plan.replace id sub p) (Plan.replace (ρ.assumption id) sub' p')
  | .assumption leaf => by
    by_cases same : leaf = id
    · rw [Plan.replace, Plan.replace, if_pos same, if_pos (congrArg _ same)]
      exact renamedSub
    · rw [Plan.replace, Plan.replace, if_neg same,
        if_neg fun same' => same (ρ.assumption_injective same')]
      exact .assumption leaf
  | .call listed takes built built' => by
    obtain ⟨atomic, atomic'⟩ := atomic_of_call fixed listed takes built built'
    rw [replace_of_notMem (by simp [atomic.assumptions]),
      replace_of_notMem (by simp [atomic'.assumptions])]
    exact .call listed takes built built'
  | .branch head rest => by
    rw [Plan.replace, Plan.replace, replaceAll_eq, replaceAll_eq]
    exact .branch head (Renamed.replaceAll fixed renamedSub id rest)

/-- Replacing a leaf in renamed plans gives renamed plans. -/
theorem Renamed.replaceAll (fixed : env.FixedBy ρ) {sub sub' : Plan}
    (renamedSub : Renamed env ρ sub sub') (id : Nat) {plans plans' : List Plan} :
    List.Forall₂ (Renamed env ρ) plans plans' →
      List.Forall₂ (Renamed env ρ) (plans.map (Plan.replace id sub))
        (plans'.map (Plan.replace (ρ.assumption id) sub'))
  | .nil => .nil
  | .cons first rest =>
    .cons (Renamed.replace fixed renamedSub id first)
      (Renamed.replaceAll fixed renamedSub id rest)

end

/-! ## Normalizing -/

/-- As many assumptions are drawn elsewhere as here, and they are renamed. -/
theorem assumptionsFor_mirrors {goals goals' : List Sequent} (fits : goals.length = goals'.length) :
    Build.Mirrors ρ (List.Forall₂ (Renamed env ρ)) (assumptionsFor goals)
      (assumptionsFor goals') := by
  induction goals generalizing goals' with
  | nil =>
    obtain rfl := List.eq_nil_of_length_eq_zero fits.symm
    exact mirrors_pure .nil
  | cons goal goals ih =>
    cases goals' with
    | nil => cases fits
    | cons goal' goals' =>
      rw [assumptionsFor, assumptionsFor]
      refine mirrors_freshAssumption.bind ?_
      rintro id _ rfl
      refine (ih (Nat.succ.inj fits)).bind fun rest rest' renamed => ?_
      exact mirrors_pure (.cons (.assumption id) renamed)

/-- Padding a renamed plan on a renamed goal is mirrored. -/
theorem Renamed.pad (fixed : env.FixedBy ρ) {p p' : Plan} (renamed : Renamed env ρ p p')
    {goal goal' : Sequent} (takes : ρ.TakesGoal goal goal') :
    Build.Mirrors ρ (Renamed env ρ) (p.pad goal) (p'.pad goal') := by
  rw [Plan.pad, Plan.pad]
  refine ((renamed.mirrors fixed).subgoals p takes).bind fun goals goals' taken => ?_
  cases taken with
  | nil => exact mirrors_pure renamed
  | cons first rest =>
    have leaves : Build.Mirrors ρ (List.Forall₂ (Renamed env ρ)) _ _ :=
      assumptionsFor_mirrors (List.Forall₂.cons first rest).length_eq
    refine leaves.bind fun plans plans' leaves => ?_
    exact mirrors_pure (.branch renamed leaves)

mutual

/-- Renamed plans are normalized to renamed plans. -/
theorem Renamed.normalize (fixed : env.FixedBy ρ) {p p' : Plan} : Renamed env ρ p p' →
    ∀ {goal goal' : Sequent}, ρ.TakesGoal goal goal' →
      Build.Mirrors ρ (Renamed env ρ) (p.normalize goal) (p'.normalize goal')
  | .assumption id, _, _, _ => by
    rw [Plan.normalize, Plan.normalize]
    exact mirrors_pure (.assumption id)
  | .call listed takesA built built', goal, goal', takes => by
    obtain ⟨atomic, atomic'⟩ := atomic_of_call fixed listed takesA built built'
    rw [atomic.normalize, atomic'.normalize]
    exact Renamed.pad fixed (.call listed takesA built built') takes
  | .branch head rest, goal, goal', takes => by
    rw [Plan.normalize, Plan.normalize]
    refine ((head.mirrors fixed).subgoals _ takes).bind fun goals goals' taken => ?_
    rw [taken.length_eq, rest.length_eq]
    split
    · refine (Renamed.normalizeAll fixed rest taken).bind fun plans plans' renamed => ?_
      exact mirrors_pure (.branch head renamed)
    · exact mirrors_throw _ _

/-- So is normalizing renamed plans on renamed goals. -/
theorem Renamed.normalizeAll (fixed : env.FixedBy ρ) {plans plans' : List Plan} :
    List.Forall₂ (Renamed env ρ) plans plans' → ∀ {goals goals' : List Sequent},
      List.Forall₂ ρ.TakesGoal goals goals' → Build.Mirrors ρ (List.Forall₂ (Renamed env ρ))
        (Plan.normalizeAll plans goals) (Plan.normalizeAll plans' goals')
  | .nil, _, _, _ => by
    rw [Plan.normalizeAll, Plan.normalizeAll]
    · exact mirrors_pure .nil
    · simp
    · simp
  | .cons first rest, _, _, .nil => by
    rw [Plan.normalizeAll, Plan.normalizeAll]
    · exact mirrors_pure .nil
    · simp
    · simp
  | .cons first rest, _, _, .cons takes later => by
    rw [Plan.normalizeAll, Plan.normalizeAll]
    refine (Renamed.normalize fixed first takes).bind fun p p' renamed => ?_
    refine (Renamed.normalizeAll fixed rest later).bind fun plans plans' renamed' => ?_
    exact mirrors_pure (.cons renamed renamed')

end

end Plan

/-- Advancing a renamed plan gives the renamed plan. -/
theorem Environment.FixedBy.advance (fixed : env.FixedBy ρ) {p p' : Plan}
    (renamed : Plan.Renamed env ρ p p') {goal goal' : Sequent} (takes : ρ.TakesGoal goal goal')
    (index : Int) (text : String) :
    Mirrors ρ (Plan.Renamed env ρ) (env.advance p goal index text)
      (env.advance p' goal' index text) := by
  rw [Environment.advance, Environment.advance, renamed.assumptions_eq fixed]
  by_cases negative : index < 0
  · simp only [if_pos negative]
    exact mirrors_throw _ _
  · simp only [if_neg negative, List.getElem?_map]
    cases p.assumptions[index.toNat]? with
    | none => exact mirrors_throw _ _
    | some id =>
      refine (fixed.evaluate text).bind fun sub sub' renamedSub => ?_
      exact Plan.Renamed.normalize fixed (Plan.Renamed.replace fixed renamedSub id renamed)
        takes

/-! ## The way to a leaf -/

/-- A plan that is mirrored by itself, on a goal and on the renamed goal. -/
structure Renaming.TakesTask (ρ : Renaming) (task task' : Plan.Task) : Prop where
  /-- The plan is the same. -/
  same : task'.1 = task.1
  /-- It is mirrored by itself. -/
  mirrors : Plan.Mirrors ρ task.1 task.1
  /-- The goals are renamed. -/
  takes : ρ.TakesGoal task.2 task'.2

namespace Plan

variable {id : Nat} {p : Plan} {tasks tasks' rest pending pending' : List Task}
  {goal goal' g g' : Sequent} {goals goals' : List Sequent} {s t u v w s' : Supply}
  {G H passed passed' : List Sequent}

/-- Mirrored branches on renamed goals are renamed tasks. -/
theorem takesTasks_zip {branches : List Plan}
    (mirrors : List.Forall₂ (Plan.Mirrors ρ) branches branches)
    (takes : List.Forall₂ ρ.TakesGoal goals goals') :
    List.Forall₂ ρ.TakesTask (branches.zip goals) (branches.zip goals') := by
  induction takes generalizing branches with
  | nil => simp
  | cons first later ih =>
    cases branches with
    | nil => exact .nil
    | cons b branches =>
      obtain ⟨here, rest⟩ := List.forall₂_cons.mp mirrors
      exact .cons ⟨rfl, here, first⟩ (ih rest)

/-- Running renamed tasks is mirrored. -/
theorem runAll_mirrors (takes : List.Forall₂ ρ.TakesTask tasks tasks') :
    Build.Mirrors ρ (List.Forall₂ ρ.TakesGoal) (runAll tasks) (runAll tasks') := by
  induction takes with
  | nil => exact mirrors_pure .nil
  | @cons task task' _ _ first _ ih =>
    obtain ⟨p, goal⟩ := task
    obtain ⟨p', goal'⟩ := task'
    obtain rfl : p' = p := first.same
    rw [runAll, runAll]
    refine (first.mirrors.subgoals p' first.takes).bind fun here here' taken => ?_
    refine ih.bind fun more more' taken' => ?_
    exact mirrors_pure (List.rel_append taken taken')

/-- A run up to a leaf is mirrored by a run up to the same leaf. -/
theorem Reaches.mirrors (reaches : Reaches id tasks s passed g pending u)
    (takes : List.Forall₂ ρ.TakesTask tasks tasks') :
    s.Before u ∧ ∀ {s' : Supply}, ρ.Carries s u s' → ∃ passed' g' pending',
      Reaches id tasks' s' passed' g' pending' (s'.after s u) ∧
        List.Forall₂ ρ.TakesGoal passed passed' ∧ ρ.TakesGoal g g' ∧
        List.Forall₂ ρ.TakesTask pending pending' := by
  induction reaches generalizing tasks' with
  | @here g rest s =>
    obtain ⟨⟨p', goal'⟩, rest', first, more, rfl⟩ := List.forall₂_cons_left_iff.mp takes
    obtain rfl : p' = .assumption id := first.same
    refine ⟨.refl s, fun {s'} _ => ⟨[], goal', rest', ?_, .nil, first.takes, more⟩⟩
    rw [Supply.after_self]
    exact .here
  | @past p goal g rest pending s t u G passed run later ih =>
    obtain ⟨⟨p', goal'⟩, rest', first, more, rfl⟩ := List.forall₂_cons_left_iff.mp takes
    obtain rfl : p' = p := first.same
    have runs := first.mirrors.subgoals p' first.takes
    have before := runs.before run
    obtain ⟨before', follows⟩ := ih more
    refine ⟨before.trans before', fun {s'} carries => ?_⟩
    obtain ⟨G', taken, run'⟩ := runs.follows s G t run s' (carries.first before')
    obtain ⟨passed', g', pending', reaches, takenP, takenG, takenT⟩ :=
      follows (carries.second before)
    rw [Supply.after_after before before'] at reaches
    exact ⟨G' ++ passed', g', pending', .past run' reaches, List.rel_append taken takenP, takenG,
      takenT⟩
  | @into first branches goal g rest pending s t u goals passed run fits inner ih =>
    obtain ⟨⟨p', goal'⟩, rest', task, more, rfl⟩ := List.forall₂_cons_left_iff.mp takes
    obtain rfl : p' = .branch first branches := task.same
    obtain ⟨head, branching⟩ := Plan.mirrors_branch.mp task.mirrors
    have runs := head.subgoals first task.takes
    have before := runs.before run
    obtain ⟨σ, takenGoals⟩ := runs.related s goals t run
    obtain ⟨before', _⟩ := ih (List.rel_append (takesTasks_zip branching takenGoals) more)
    refine ⟨before.trans before', fun {s'} carries => ?_⟩
    obtain ⟨goals', taken, run'⟩ := runs.follows s goals t run s' (carries.first before')
    obtain ⟨_, follows⟩ := ih (List.rel_append (takesTasks_zip branching taken) more)
    obtain ⟨passed', g', pending', reaches, takenP, takenG, takenT⟩ :=
      follows (carries.second before)
    rw [Supply.after_after before before'] at reaches
    exact ⟨passed', g', pending', .into run' (taken.length_eq.symm.trans fits) reaches, takenP,
      takenG, takenT⟩

/-- Two runs up to the same leaf, from different supplies, arrive there with renamed goals. -/
theorem Reaches.moved (reaches : Reaches id tasks s passed g pending u)
    (reaches' : Reaches id tasks s' passed' g' pending' v) (nodup : (Plan.leaves tasks).Nodup)
    (takes : List.Forall₂ ρ.TakesTask tasks tasks) (carries : ρ.Carries s u s') :
    v = s'.after s u ∧ List.Forall₂ ρ.TakesGoal passed passed' ∧ ρ.TakesGoal g g' ∧
      List.Forall₂ ρ.TakesTask pending pending' := by
  obtain ⟨_, _, _, other, takenP, takenG, takenT⟩ := (reaches.mirrors takes).2 carries
  obtain ⟨rfl, rfl, rfl, rfl⟩ := other.unique reaches' nodup
  exact ⟨rfl, takenP, takenG, takenT⟩

/-- What arrives at a leaf mentions only what was drawn by then. -/
theorem Reaches.takes_self (reaches : Reaches id tasks s passed g pending u)
    (nodup : (Plan.leaves tasks).Nodup) (takes : List.Forall₂ ρ.TakesTask tasks tasks)
    (fixes : ρ.Fixes u) : ρ.TakesGoal g g ∧ List.Forall₂ ρ.TakesTask pending pending :=
  (reaches.moved reaches nodup takes (fixes.carries (reaches.mirrors takes).1)).2.2

/-! ## What normalizing leaves open -/

/-- The numbers of the leaves that are added for some goals: those that are drawn next. -/
theorem assumptionsFor_ok (goals : List Sequent) (s : Supply) :
    (assumptionsFor goals).runFrom s =
      (.ok ((List.range' (s.lastAssumption + 1) goals.length).map assumption),
        { s with lastAssumption := s.lastAssumption + goals.length }) := by
  induction goals generalizing s with
  | nil => rfl
  | cons goal goals ih =>
    have fresh : freshAssumption.runFrom s =
        (.ok (s.lastAssumption + 1), { s with lastAssumption := s.lastAssumption + 1 }) := rfl
    rw [assumptionsFor]
    simp only [runFrom_bind, fresh, ih, runFrom_pure, List.length_cons, List.range'_succ,
      List.map_cons]
    simp only [Prod.mk.injEq, true_and, Supply.mk.injEq, and_true]
    omega

/-- Padding succeeds if the plan runs: a closed plan stays, and every goal that is left open gets a
leaf. -/
theorem pad_ok {N : Plan} : (p.pad goal).runFrom s = (.ok N, t) ↔
    ∃ G u, (p.subgoals goal).runFrom s = (.ok G, u) ∧ (G = [] ∧ N = p ∧ t = u ∨ G ≠ [] ∧
      N = branch p ((List.range' (u.lastAssumption + 1) G.length).map assumption) ∧
      t = { u with lastAssumption := u.lastAssumption + G.length }) := by
  rw [pad]
  constructor
  · intro run
    obtain ⟨G, u, first, run⟩ := bind_ok run
    refine ⟨G, u, first, ?_⟩
    cases G with
    | nil =>
      cases run
      exact .inl ⟨rfl, rfl, rfl⟩
    | cons g G =>
      obtain ⟨plans, v, second, run⟩ := bind_ok run
      rw [assumptionsFor_ok] at second
      cases second
      cases run
      exact .inr ⟨by simp, rfl, rfl⟩
  · rintro ⟨G, u, first, ⟨rfl, rfl, rfl⟩ | ⟨some, rfl, rfl⟩⟩
    · simp [runFrom_bind, first]
    · cases G with
      | nil => exact absurd rfl some
      | cons g G =>
        have drawn := assumptionsFor_ok (g :: G) u
        simp only [runFrom_bind, first, List.isEmpty_cons, Bool.false_eq_true, if_false, drawn,
          runFrom_pure]

/-- Leaves leave open the goals that arrive at them. -/
theorem runAll_leaves (ids : List Nat) (goals : List Sequent) (fits : ids.length = goals.length)
    (s : Supply) : (runAll ((ids.map assumption).zip goals)).runFrom s = (.ok goals, s) := by
  induction ids generalizing goals with
  | nil =>
    obtain rfl := List.eq_nil_of_length_eq_zero fits.symm
    rfl
  | cons id ids ih =>
    cases goals with
    | nil => cases fits
    | cons goal goals =>
      exact runAll_cons_ok.mpr ⟨[goal], s, goals, subgoals_assumption_ok.mpr ⟨rfl, rfl⟩,
        ih goals (Nat.succ.inj fits), rfl⟩

/-- An atomic plan that was padded leaves the same goals open as the plan, one for each leaf,
wherever the plan leaves as many. -/
theorem pad_subgoals {N : Plan} (atomic : p.Atomic) (run : (p.pad goal).runFrom s = (.ok N, t))
    (run' : (p.subgoals goal').runFrom v = (.ok H, w))
    (fits : ∀ G u, (p.subgoals goal).runFrom s = (.ok G, u) → G.length = H.length) :
    (N.subgoals goal').runFrom v = (.ok H, w) ∧ H.length = N.assumptions.length := by
  obtain ⟨G, u, first, ⟨rfl, rfl, _⟩ | ⟨_, rfl, _⟩⟩ := pad_ok.mp run
  · have count := fits [] u first
    exact ⟨run', by rw [atomic.assumptions]; exact count.symm⟩
  · have count := fits G u first
    constructor
    · refine subgoals_branch_ok.mpr ⟨H, w, run', by simp [count], ?_⟩
      exact runAll_leaves _ H (by simp [count]) w
    · rw [assumptions, assumptionsAll_eq, List.flatMap_map]
      simp [assumptions, count]

variable {moves : List Move} {N : Plan}

/-- Wherever the plan is normalized, it can be run on the same goal anywhere else, and leaves open
what the normalized plan does, one goal for each leaf. -/
def RunsAsNormalized (s : Supply) (p : Plan) : Prop :=
  ∀ {moves : List Move} {t u v : Supply} {g g' : Sequent} {N : Plan}, Move.Placed s moves t v →
    (∀ ρ : Renaming, ρ.Makes s moves → Plan.Mirrors ρ p p) →
    (∀ ρ : Renaming, ρ.Makes s moves → ρ.TakesGoal g g') →
    (p.normalize g).runFrom t = (.ok N, u) → t.Before u ∧ ∃ H w, v.Before w ∧
      (p.subgoals g').runFrom v = (.ok H, w) ∧ (N.subgoals g').runFrom v = (.ok H, w) ∧
      H.length = N.assumptions.length

/-- If each branch runs as normalized, then so do all of them one after the other. -/
theorem runsAsNormalized_all {branches A : List Plan}
    (each : ∀ b ∈ branches, b.RunsAsNormalized s) (placed : Move.Placed s moves t v)
    (mirrors : ∀ ρ : Renaming, ρ.Makes s moves → ∀ b ∈ branches, Plan.Mirrors ρ b b)
    (takes : ∀ ρ : Renaming, ρ.Makes s moves → List.Forall₂ ρ.TakesGoal goals goals')
    (run : (normalizeTasks (branches.zip goals)).runFrom t = (.ok A, u))
    (fits : goals.length = branches.length) :
    t.Before u ∧ ∃ H w, v.Before w ∧ (runAll (branches.zip goals')).runFrom v = (.ok H, w) ∧
      (runAll (A.zip goals')).runFrom v = (.ok H, w) ∧ A.length = branches.length ∧
      H.length = (A.flatMap assumptions).length := by
  induction branches generalizing goals goals' t v A with
  | nil =>
    cases run
    exact ⟨.refl _, [], v, .refl v, rfl, rfl, rfl, rfl⟩
  | cons b branches ih =>
    obtain ⟨σ, makes⟩ := placed.arranged.exists_makes
    cases goals with
    | nil => cases fits
    | cons g goals =>
      obtain ⟨g', goals', -, -, rfl⟩ := List.forall₂_cons_left_iff.mp (takes σ makes)
      have takes' := fun ρ makes => List.forall₂_cons.mp (takes ρ makes)
      obtain ⟨N, x, B, here, later, rfl⟩ := normalizeTasks_cons_ok.mp run
      obtain ⟨before, H, y, before', run', runN, count⟩ := each b (by simp) placed
        (fun ρ makes => mirrors ρ makes b (by simp)) (fun ρ makes => (takes' ρ makes).1) here
      obtain ⟨before₂, K, z, before₂', runs, runsN, length, counts⟩ :=
        ih (fun b member => each b (by simp [member])) (placed.later before before')
          (fun ρ makes b member => mirrors ρ makes b (by simp [member]))
          (fun ρ makes => (takes' ρ makes).2) later (Nat.succ.inj fits)
      refine ⟨before.trans before₂, H ++ K, z, before'.trans before₂',
        runAll_cons_ok.mpr ⟨H, y, K, run', runs, rfl⟩,
        runAll_cons_ok.mpr ⟨H, y, K, runN, runsN, rfl⟩, by rw [List.length_cons, length,
          List.length_cons], ?_⟩
      rw [List.flatMap_cons, List.length_append, List.length_append, count, counts]

/-- An atomic plan runs as normalized. -/
theorem runsAsNormalized_of_atomic (atomic : p.Atomic) (s : Supply) : p.RunsAsNormalized s := by
  intro moves t u v g g' N placed mirrors takes run
  rw [atomic.normalize] at run
  obtain ⟨G, x, first, outcome⟩ := pad_ok.mp run
  obtain ⟨before, H, run', taken⟩ := follows_move placed
    (fun ρ makes => (mirrors ρ makes).subgoals p (takes ρ makes)) first
  obtain ⟨σ, makes⟩ := (placed.arranged_cons before).exists_makes
  have counts : ∀ G' u', (p.subgoals g).runFrom t = (.ok G', u') → G'.length = H.length := by
    intro G' u' first'
    rw [first] at first'
    cases first'
    exact (taken σ makes).length_eq
  obtain ⟨runN, count⟩ := pad_subgoals atomic run run' counts
  have after : x.Before u := by
    rcases outcome with ⟨_, _, rfl⟩ | ⟨_, _, rfl⟩
    · exact .refl _
    · exact Supply.before_assumptions _ _
  exact ⟨before.trans after, H, _, Supply.before_after _ _ _, run', runN, count⟩

/-- Every plan runs as normalized. -/
theorem runsAsNormalized (p : Plan) (s : Supply) : p.RunsAsNormalized s := by
  induction p using Plan.induct with
  | assumption id =>
    intro moves t u v g g' N placed mirrors takes run
    cases run
    exact ⟨.refl _, [g'], v, .refl v, rfl, rfl, rfl⟩
  | rule call apply => exact runsAsNormalized_of_atomic ⟨rfl, rfl⟩ s
  | compound call check expansion ih => exact runsAsNormalized_of_atomic ⟨rfl, rfl⟩ s
  | branch first branches ihFirst ih =>
    intro moves t u v g g' N placed mirrors takes run
    obtain ⟨goals, x, A, head, fits, later, rfl⟩ := normalize_branch_ok.mp run
    have parts := fun ρ makes => Plan.mirrors_branch.mp (mirrors ρ makes)
    obtain ⟨before, goals', run', taken⟩ := follows_move placed
      (fun ρ makes => (parts ρ makes).1.subgoals first (takes ρ makes)) head
    obtain ⟨σ, makes⟩ := (placed.arranged_cons before).exists_makes
    obtain ⟨before', H, w, beforeW, runs, runsN, length, count⟩ :=
      runsAsNormalized_all ih (placed.cons before)
        (fun ρ makes => List.forall₂_same.mp (parts ρ makes.tail).2) taken later fits
    have fits' : goals'.length = branches.length := (taken σ makes).length_eq.symm.trans fits
    refine ⟨before.trans before', H, w, (Supply.before_after _ _ _).trans beforeW,
      subgoals_branch_ok.mpr ⟨goals', _, run', fits', runs⟩,
      subgoals_branch_ok.mpr ⟨goals', _, run', fits'.trans length.symm, runsN⟩, ?_⟩
    rw [assumptions, assumptionsAll_eq, count]

/-- Wherever the plan is run, it can be normalized on the same goal anywhere else. -/
def NormalizesAsRun (s : Supply) (p : Plan) : Prop :=
  ∀ {moves : List Move} {t u v : Supply} {g g' : Sequent} {G : List Sequent},
    Move.Placed s moves t v → (∀ ρ : Renaming, ρ.Makes s moves → Plan.Mirrors ρ p p) →
    (∀ ρ : Renaming, ρ.Makes s moves → ρ.TakesGoal g g') →
    (p.subgoals g).runFrom t = (.ok G, u) →
    t.Before u ∧ ∃ N w, v.Before w ∧ (p.normalize g').runFrom v = (.ok N, w)

/-- If each branch can be normalized as it runs, then so can all of them one after the other. -/
theorem normalizesAsRun_all {branches : List Plan}
    (each : ∀ b ∈ branches, b.NormalizesAsRun s) (placed : Move.Placed s moves t v)
    (mirrors : ∀ ρ : Renaming, ρ.Makes s moves → ∀ b ∈ branches, Plan.Mirrors ρ b b)
    (takes : ∀ ρ : Renaming, ρ.Makes s moves → List.Forall₂ ρ.TakesGoal goals goals')
    (run : (runAll (branches.zip goals)).runFrom t = (.ok G, u))
    (fits : goals.length = branches.length) :
    t.Before u ∧ ∃ A w, v.Before w ∧
      (normalizeTasks (branches.zip goals')).runFrom v = (.ok A, w) := by
  induction branches generalizing goals goals' t v G with
  | nil =>
    cases run
    exact ⟨.refl _, [], v, .refl v, rfl⟩
  | cons b branches ih =>
    obtain ⟨σ, makes⟩ := placed.arranged.exists_makes
    cases goals with
    | nil => cases fits
    | cons g goals =>
      obtain ⟨g', goals', -, -, rfl⟩ := List.forall₂_cons_left_iff.mp (takes σ makes)
      have takes' := fun ρ makes => List.forall₂_cons.mp (takes ρ makes)
      obtain ⟨H, x, K, here, later, rfl⟩ := runAll_cons_ok.mp run
      obtain ⟨before, N, y, before', run'⟩ := each b (by simp) placed
        (fun ρ makes => mirrors ρ makes b (by simp)) (fun ρ makes => (takes' ρ makes).1) here
      obtain ⟨before₂, A, z, before₂', runs⟩ :=
        ih (fun b member => each b (by simp [member])) (placed.later before before')
          (fun ρ makes b member => mirrors ρ makes b (by simp [member]))
          (fun ρ makes => (takes' ρ makes).2) later (Nat.succ.inj fits)
      exact ⟨before.trans before₂, N :: A, z, before'.trans before₂',
        normalizeTasks_cons_ok.mpr ⟨N, y, A, run', runs, rfl⟩⟩

/-- An atomic plan can be normalized as it runs. -/
theorem normalizesAsRun_of_atomic (atomic : p.Atomic) (s : Supply) : p.NormalizesAsRun s := by
  intro moves t u v g g' G placed mirrors takes run
  obtain ⟨before, H, run', _⟩ := follows_move placed
    (fun ρ makes => (mirrors ρ makes).subgoals p (takes ρ makes)) run
  refine ⟨before, ?_⟩
  rw [atomic.normalize]
  by_cases closed : H = []
  · exact ⟨p, _, Supply.before_after _ _ _, pad_ok.mpr ⟨H, _, run', .inl ⟨closed, rfl, rfl⟩⟩⟩
  · refine ⟨_, _, (Supply.before_after v t u).trans ?_,
      pad_ok.mpr ⟨H, _, run', .inr ⟨closed, rfl, rfl⟩⟩⟩
    exact Supply.before_assumptions _ _

/-- Every plan can be normalized as it runs. -/
theorem normalizesAsRun (p : Plan) (s : Supply) : p.NormalizesAsRun s := by
  induction p using Plan.induct with
  | assumption id =>
    intro moves t u v g g' G placed mirrors takes run
    cases run
    exact ⟨.refl _, _, v, .refl v, rfl⟩
  | rule call apply => exact normalizesAsRun_of_atomic ⟨rfl, rfl⟩ s
  | compound call check expansion ih => exact normalizesAsRun_of_atomic ⟨rfl, rfl⟩ s
  | branch first branches ihFirst ih =>
    intro moves t u v g g' G placed mirrors takes run
    obtain ⟨goals, x, head, fits, later⟩ := subgoals_branch_ok.mp run
    have parts := fun ρ makes => Plan.mirrors_branch.mp (mirrors ρ makes)
    obtain ⟨before, goals', run', taken⟩ := follows_move placed
      (fun ρ makes => (parts ρ makes).1.subgoals first (takes ρ makes)) head
    obtain ⟨σ, makes⟩ := (placed.arranged_cons before).exists_makes
    obtain ⟨before', A, w, beforeW, runs⟩ := normalizesAsRun_all ih (placed.cons before)
      (fun ρ makes => List.forall₂_same.mp (parts ρ makes.tail).2) taken later fits
    have fits' : goals'.length = branches.length := (taken σ makes).length_eq.symm.trans fits
    exact ⟨before.trans before', branch first A, w, (Supply.before_after _ _ _).trans beforeW,
      normalize_branch_ok.mpr ⟨goals', _, A, run', fits', runs, rfl⟩⟩

end Plan

end Turnstile
