import Mathlib.Data.List.Forall2
import Turnstile.Proofs.OpenGoalMirroring
import Turnstile.Proofs.Steps

/-!
# Normalized plans

Normalizing a plan puts an assumption at every goal that the plan leaves open. `Plan.arrivals` says
where these goals are: it lists what a run leaves open together with the assumption that stands
there, if there is one. A normalized plan leaves the goals of the plan it was made from, in the same
order, with an assumption at each of them; the assumptions that were there before stay where they
are, and nothing is left to be done by normalizing again. Normalizing fails only as running does.

All this is stated for plans whose rules and checks depend on the goal alone. A rule that draws
variables leaves other goals each time it is run, and a normalized plan runs its rules again.
-/

namespace Turnstile

open Build

/-! ## Builds with one value -/

namespace Build

variable {α β : Type} {build : Build α} {next : α → Build β} {a : α} {b : β}

/-- The build has the same value from every supply. -/
def Always (a : α) (build : Build α) : Prop := ∀ s, (build.runFrom s).1 = .ok a

/-- Returning a value always gives it. -/
theorem always_pure (a : α) : Always a (pure a) := fun _ => rfl

/-- From every supply there is a run that ends with the value. -/
theorem Always.run (always : Always a build) (s : Supply) : ∃ t, build.runFrom s = (.ok a, t) :=
  ⟨(build.runFrom s).2, Prod.ext (always s) rfl⟩

/-- If a build always gives a value and the next one does so with it, then so do both. -/
theorem Always.bind (first : Always a build) (second : Always b (next a)) :
    Always b (build >>= next) := by
  intro s
  obtain ⟨t, run⟩ := first.run s
  rw [runFrom_bind_ok run]
  exact second t

/-- What is made of the value of a build is made of its only value. -/
theorem Always.map (always : Always a build) (f : α → β) : Always (f a) (f <$> build) := by
  rw [map_eq_pure_bind]
  exact always.bind (always_pure _)

/-- How a steady build ends does not depend on the supply. -/
theorem Steady.ends (steady : Steady build) (s t : Supply) : build.ends s = build.ends t :=
  congrArg (Except.map fun _ => ()) (steady s t)

/-- A steady build that succeeds once always has the same value. -/
theorem Steady.always (steady : Steady build) {s t : Supply}
    (run : build.runFrom s = (.ok a, t)) : Always a build := by
  intro u
  rw [steady u s, run]

end Build

namespace Plan

/-! ## What a plan leaves open, and where -/

/-- An open goal with the assumption that stands at it, if there is one. -/
abbrev Arrival := Option Nat × Sequent

/-- Open goals at which no assumption stands. -/
def unmarked (goals : List Sequent) : List Arrival := goals.map fun goal => (none, goal)

/-- Open goals with an assumption at each of them. -/
def marked (ids : List Nat) (goals : List Sequent) : List Arrival := (ids.map some).zip goals

mutual

/-- The goals that a plan leaves open, from left to right, each with the assumption that stands
there. What a rule or a compound leaves has none. -/
def arrivals : Plan → Sequent → Build (List Arrival)
  | assumption id, goal => return [(some id, goal)]
  | rule call apply, goal => unmarked <$> (rule call apply).subgoals goal
  | compound call check expansion, goal =>
    unmarked <$> (compound call check expansion).subgoals goal
  | branch first branches, goal => do
    let goals ← first.subgoals goal
    if goals.length = branches.length then arrivalsOf branches goals
    else throw (branching first goals.length branches.length)

/-- The goals that plans leave open on one goal each, with their assumptions. -/
def arrivalsOf : List Plan → List Sequent → Build (List Arrival)
  | p :: plans, goal :: goals => do
    let here ← p.arrivals goal
    let rest ← arrivalsOf plans goals
    return here ++ rest
  | _, _ => return []

end

variable {p q : Plan} {plans plans' branches : List Plan} {goal : Sequent} {goals : List Sequent}
  {ids ids' : List Nat} {s t : Supply} {arrived arrived' : List Arrival}

/-- At an atomic plan goals arrive where it leaves them, without marks. -/
theorem Atomic.arrivals (atomic : p.Atomic) (goal : Sequent) :
    p.arrivals goal = unmarked <$> p.subgoals goal := by
  cases p with
  | assumption id => cases atomic.1
  | branch first branches => cases atomic.2
  | rule call apply => rw [Plan.arrivals]
  | compound call check expansion => rw [Plan.arrivals]

/-- Where there are no plans nothing arrives. -/
@[simp] theorem arrivalsOf_nil_left (goals : List Sequent) : arrivalsOf [] goals = pure [] := by
  rw [arrivalsOf]
  simp

/-- Where there are no goals nothing arrives. -/
@[simp] theorem arrivalsOf_nil_right (plans : List Plan) : arrivalsOf plans [] = pure [] := by
  rw [arrivalsOf]
  simp

/-- The goals of arrivals without marks. -/
@[simp] theorem snd_unmarked (goals : List Sequent) : (unmarked goals).map Prod.snd = goals := by
  rw [unmarked, List.map_map]
  exact List.map_id' goals

/-- The goals of arrivals that are marked. -/
theorem snd_marked (fits : ids.length = goals.length) :
    (marked ids goals).map Prod.snd = goals := by
  rw [marked, List.map_snd_zip (by simp [fits])]

/-- Goals of two lists are marked list by list. -/
theorem marked_append {goals' : List Sequent} (fits : ids.length = goals.length) :
    marked (ids ++ ids') (goals ++ goals') = marked ids goals ++ marked ids' goals' := by
  rw [marked, List.map_append, List.zip_append (by simp [fits])]
  rfl

mutual

/-- The goals that arrive somewhere are the goals that are left open. -/
theorem snd_arrivals : (p : Plan) → (goal : Sequent) →
    List.map Prod.snd <$> p.arrivals goal = p.subgoals goal
  | assumption id, goal => by
    rw [arrivals, subgoals]
    rfl
  | rule _ _, goal => by
    rw [arrivals, Functor.map_map]
    simp
  | compound _ _ _, goal => by
    rw [arrivals, Functor.map_map]
    simp
  | branch first branches, goal => by
    rw [arrivals, subgoals, map_bind]
    congr 1
    funext goals
    split
    · exact snd_arrivalsOf branches goals
    · rfl

/-- The goals that arrive somewhere in several plans are the goals that these leave open. -/
theorem snd_arrivalsOf : (plans : List Plan) → (goals : List Sequent) →
    List.map Prod.snd <$> arrivalsOf plans goals = subgoalsOf plans goals
  | [], goals => by
    rw [arrivalsOf_nil_left, subgoalsOf]
    · rfl
    · simp
  | _ :: _, [] => by
    rw [arrivalsOf_nil_right, subgoalsOf]
    · rfl
    · simp
  | p :: plans, goal :: goals => by
    rw [arrivalsOf, subgoalsOf, ← snd_arrivals p goal, ← snd_arrivalsOf plans goals]
    simp only [map_bind, bind_map_left, map_pure, List.map_append]

end

/-- Assumptions leave open the goals they stand at. -/
theorem arrivalsOf_assumptions (fits : ids.length = goals.length) :
    arrivalsOf (ids.map assumption) goals = pure (marked ids goals) := by
  induction ids generalizing goals with
  | nil => exact arrivalsOf_nil_left goals
  | cons id ids ih =>
    cases goals with
    | nil => cases fits
    | cons goal goals =>
      rw [List.map_cons, arrivalsOf, arrivals, ih (Nat.succ.inj fits)]
      rfl

/-! ## Failing -/

/-- Padding a plan ends as running it does. -/
theorem ends_pad (p : Plan) (goal : Sequent) (s : Supply) :
    (p.pad goal).ends s = (p.subgoals goal).ends s := by
  rw [pad]
  rcases run : (p.subgoals goal).runFrom s with ⟨failure | goals, t⟩
  · rw [ends_bind_error run, ends_error run]
  · rw [ends_bind_ok run, ends_ok run]
    split
    · rfl
    · exact ends_ok (runFrom_bind_ok (assumptionsFor_ok goals t))

mutual

/-- Normalizing a plan ends as running it does, from whatever supplies. -/
theorem ends_normalize : (p : Plan) → p.Functional → (goal : Sequent) → (s s' : Supply) →
    (p.normalize goal).ends s = (p.subgoals goal).ends s'
  | assumption _, _, _, _, _ => by
    rw [normalize, subgoals]
    rfl
  | rule call apply, functional, goal, s, s' => by
    rw [normalize, ends_pad]
    exact (Functional.subgoals (rule call apply) functional goal).ends s s'
  | compound call check expansion, functional, goal, s, s' => by
    rw [normalize, ends_pad]
    exact (Functional.subgoals (compound call check expansion) functional goal).ends s s'
  | branch first branches, functional, goal, s, s' => by
    have same := Functional.subgoals first functional.1 goal s s'
    rw [normalize, subgoals, ends_bind, ends_bind]
    rcases runS : (first.subgoals goal).runFrom s with ⟨failure | goals, s₁⟩ <;>
      rcases runT : (first.subgoals goal).runFrom s' with ⟨failure' | goals', t₁⟩ <;>
      rw [runS, runT] at same <;> cases same
    · rfl
    · by_cases fits : goals.length = branches.length
      · simp only [if_pos fits]
        rw [ends_bind_pure]
        exact ends_normalizeAll branches functional.2 goals s₁ t₁
      · simp only [if_neg fits]
        rfl

/-- Normalizing plans on their goals ends as running them does. -/
theorem ends_normalizeAll : (plans : List Plan) → FunctionalAll plans → (goals : List Sequent) →
    (s s' : Supply) → (normalizeAll plans goals).ends s = (subgoalsOf plans goals).ends s'
  | [], _, _, _, _ => by
    rw [normalizeAll, subgoalsOf]
    · rfl
    · simp
    · simp
  | _ :: _, _, [], _, _ => by
    rw [normalizeAll, subgoalsOf]
    · rfl
    · simp
    · simp
  | p :: plans, functional, goal :: goals, s, s' => by
    have head := ends_normalize p functional.1 goal s s'
    rw [normalizeAll, subgoalsOf, ends_bind, ends_bind]
    rcases runS : (p.normalize goal).runFrom s with ⟨failure | here, s₁⟩ <;>
      rcases runT : (p.subgoals goal).runFrom s' with ⟨failure' | left, t₁⟩ <;>
      simp only [ends, runS, runT] at head <;> cases head
    · rfl
    · simp only [ends_bind_pure]
      exact ends_normalizeAll plans functional.2 goals s₁ t₁

end

/-! ## Padding -/

/-- Where open goals arrive before normalizing and after it: they are the same goals, afterwards
there is an assumption at each of them, and where there was one before it is still the same. -/
structure Padded (before after : Build (List Arrival)) (ids : List Nat) (arrived : List Arrival) :
    Prop where
  before : Always arrived before
  after : Always (marked ids (arrived.map Prod.snd)) after
  keeps : List.Forall₂ (fun arrival id => ∀ own ∈ arrival.1, id = own) arrived ids

/-- A padded plan has a leaf for each goal that arrives. -/
theorem Padded.length_eq {before after : Build (List Arrival)}
    (padded : Padded before after ids arrived) : ids.length = (arrived.map Prod.snd).length := by
  rw [List.length_map, padded.keeps.length_eq]

/-- The assumptions that were there before are among those that are there afterwards, in order. -/
theorem Padded.sublist {before after : Build (List Arrival)}
    (padded : Padded before after ids arrived) : (arrived.filterMap Prod.fst).Sublist ids := by
  have keeps := padded.keeps
  clear padded
  induction keeps with
  | nil => exact .slnil
  | @cons arrival id arrived ids same _ ih =>
    obtain ⟨mark, goal⟩ := arrival
    cases mark with
    | none => exact ih.cons id
    | some own =>
      obtain rfl := same own rfl
      exact ih.cons_cons id

/-- Where no assumption stood before, any may stand afterwards. -/
theorem keeps_unmarked (fits : ids.length = goals.length) :
    List.Forall₂ (fun (arrival : Arrival) id => ∀ own ∈ arrival.1, id = own) (unmarked goals)
      ids := by
  rw [unmarked, List.forall₂_map_left_iff, List.forall₂_iff_zip]
  refine ⟨fits.symm, ?_⟩
  rintro _ _ - own ⟨⟩

/-- What plans leave after the head of a branch is what the branch leaves. -/
theorem always_arrivals_branch {first : Plan} (head : Always goals (first.subgoals goal))
    (fits : goals.length = branches.length) (rest : Always arrived (arrivalsOf branches goals)) :
    Always arrived ((branch first branches).arrivals goal) := by
  rw [arrivals]
  refine head.bind ?_
  rwa [if_pos fits]

/-- An atomic plan is padded with assumptions at the goals it leaves. -/
theorem padded_of_pad (atomic : p.Atomic) (steady : Steady (p.subgoals goal))
    (run : (p.pad goal).runFrom s = (.ok q, t)) :
    ∃ arrived, Padded (p.arrivals goal) (q.arrivals goal) q.assumptions arrived := by
  obtain ⟨goals, u, first, outcome⟩ := pad_ok.mp run
  have always := steady.always first
  have before : Always (unmarked goals) (p.arrivals goal) := by
    rw [atomic.arrivals]
    exact always.map unmarked
  rw [← snd_unmarked goals] at always
  obtain ⟨rfl, rfl, -⟩ | ⟨-, rfl, -⟩ := outcome
  · refine ⟨[], before, ?_, ?_⟩ <;> rw [atomic.assumptions]
    · exact before
    · exact .nil
  · set ids := List.range' (u.lastAssumption + 1) goals.length with drawn
    have fits : ids.length = goals.length := by simp [drawn]
    have leaves : (branch p (ids.map assumption)).assumptions = ids := by
      simp [assumptions, List.flatMap_map]
    refine ⟨unmarked goals, before, ?_, ?_⟩ <;> rw [leaves]
    · refine always_arrivals_branch always (by simp [fits]) ?_
      rw [snd_unmarked, arrivalsOf_assumptions fits]
      exact always_pure _
    · exact keeps_unmarked fits

mutual

/-- A plan that was normalized has an assumption at every goal that the plan leaves. -/
theorem padded_of_normalize : (p : Plan) → p.Functional → {goal : Sequent} → {s t : Supply} →
    {q : Plan} → (p.normalize goal).runFrom s = (.ok q, t) →
      ∃ arrived, Padded (p.arrivals goal) (q.arrivals goal) q.assumptions arrived
  | assumption id, _, goal, s, t, q, run => by
    rw [normalize] at run
    cases run
    rw [arrivals]
    refine ⟨[(some id, goal)], always_pure _, always_pure _, .cons ?_ .nil⟩
    rintro own ⟨⟩
    rfl
  | rule call apply, functional, goal, s, t, q, run => by
    rw [normalize] at run
    exact padded_of_pad ⟨rfl, rfl⟩ (Functional.subgoals (rule call apply) functional goal) run
  | compound call check expansion, functional, goal, s, t, q, run => by
    rw [normalize] at run
    exact padded_of_pad ⟨rfl, rfl⟩
      (Functional.subgoals (compound call check expansion) functional goal) run
  | branch first branches, functional, goal, s, t, q, run => by
    obtain ⟨goals, u, qs, head, fits, rest, rfl⟩ := normalize_branch_ok.mp run
    rw [← normalizeAll_eq_normalizeTasks] at rest
    have always := (Functional.subgoals first functional.1 goal).always head
    obtain ⟨count, arrived, padded⟩ := padded_of_normalizeAll branches functional.2 fits rest
    exact ⟨arrived, always_arrivals_branch always fits padded.before,
      always_arrivals_branch always (fits.trans count.symm) padded.after, padded.keeps⟩

/-- Plans that were normalized have an assumption at every goal that the plans leave. -/
theorem padded_of_normalizeAll : (plans : List Plan) → FunctionalAll plans →
    {goals : List Sequent} → goals.length = plans.length → {s t : Supply} → {qs : List Plan} →
      (normalizeAll plans goals).runFrom s = (.ok qs, t) → qs.length = plans.length ∧
        ∃ arrived, Padded (arrivalsOf plans goals) (arrivalsOf qs goals) (assumptionsAll qs) arrived
  | [], _, goals, _, s, t, qs, run => by
    rw [normalizeAll] at run
    · cases run
      rw [arrivalsOf_nil_left]
      exact ⟨rfl, [], always_pure _, always_pure _, .nil⟩
    · simp
  | p :: plans, functional, [], fits, _, _, _, _ => nomatch fits
  | p :: plans, functional, goal :: goals, fits, s, t, qs, run => by
    rw [normalizeAll_eq_normalizeTasks, List.zip_cons_cons] at run
    obtain ⟨q, u, qs, first, rest, rfl⟩ := normalizeTasks_cons_ok.mp run
    rw [← normalizeAll_eq_normalizeTasks] at rest
    obtain ⟨here, padded⟩ := padded_of_normalize p functional.1 first
    obtain ⟨count, later, padded'⟩ :=
      padded_of_normalizeAll plans functional.2 (Nat.succ.inj fits) rest
    refine ⟨by rw [List.length_cons, List.length_cons, count], here ++ later, ?_, ?_, ?_⟩
    · rw [arrivalsOf]
      exact padded.before.bind (padded'.before.bind (always_pure _))
    · rw [arrivalsOf, assumptionsAll, List.map_append, marked_append padded.length_eq]
      exact padded.after.bind (padded'.after.bind (always_pure _))
    · rw [assumptionsAll]
      exact List.rel_append padded.keeps padded'.keeps

end

/-! ## Normalized plans -/

mutual

/-- The assumptions at which something arrives are those of the plan. -/
theorem arrivals_assumptions : (p : Plan) → (goal : Sequent) →
    (p.arrivals goal).Gives fun arrived => arrived.filterMap Prod.fst = p.assumptions
  | assumption id, goal => by
    rw [arrivals]
    exact gives_pure rfl
  | rule call apply, goal => by
    rw [arrivals, map_eq_pure_bind]
    exact (gives_any _).bind fun goals _ => gives_pure (by simp [unmarked, assumptions])
  | compound call check expansion, goal => by
    rw [arrivals, map_eq_pure_bind]
    exact (gives_any _).bind fun goals _ => gives_pure (by simp [unmarked, assumptions])
  | branch first branches, goal => by
    rw [arrivals, assumptions]
    refine (gives_any _).bind fun goals _ => ?_
    split
    next fits => exact arrivalsOf_assumptionsAll branches goals fits
    next => exact gives_throw _

/-- The assumptions at which something arrives in several plans are those of the plans. -/
theorem arrivalsOf_assumptionsAll : (plans : List Plan) → (goals : List Sequent) →
    goals.length = plans.length →
      (arrivalsOf plans goals).Gives fun arrived =>
        arrived.filterMap Prod.fst = assumptionsAll plans
  | [], goals, _ => by
    rw [arrivalsOf_nil_left]
    exact gives_pure rfl
  | _ :: _, [], fits => nomatch fits
  | p :: plans, goal :: goals, fits => by
    rw [arrivalsOf, assumptionsAll]
    refine (arrivals_assumptions p goal).bind fun here same => ?_
    refine (arrivalsOf_assumptionsAll plans goals (Nat.succ.inj fits)).bind fun rest same' => ?_
    exact gives_pure (by rw [List.filterMap_append, same, same'])

end

/-- Normalizing fails exactly as running does. The plan that comes of it leaves the same goals, has
one assumption at each of them in their order, keeps every assumption of the plan at its place, and
is normalized as it is. -/
theorem normalize_marks_open_goals (p : Plan) (functional : p.Functional) (goal : Sequent) :
    (∀ s s', (p.normalize goal).ends s = (p.subgoals goal).ends s') ∧
      ∀ s q t, (p.normalize goal).runFrom s = (.ok q, t) →
        ∃ arrived goals, arrived.map Prod.snd = goals ∧
          arrived.filterMap Prod.fst = p.assumptions ∧
          Always arrived (p.arrivals goal) ∧
          Always goals (p.subgoals goal) ∧
          Always goals (q.subgoals goal) ∧
          q.assumptions.length = goals.length ∧
          Always (marked q.assumptions goals) (q.arrivals goal) ∧
          List.Forall₂ (fun arrival id => ∀ own ∈ arrival.1, id = own) arrived q.assumptions ∧
          p.assumptions.Sublist q.assumptions ∧
          Always q (q.normalize goal) := by
  refine ⟨ends_normalize p functional goal, fun s q t run => ?_⟩
  obtain ⟨arrived, padded⟩ := padded_of_normalize p functional run
  have own : arrived.filterMap Prod.fst = p.assumptions := by
    obtain ⟨u, ran⟩ := padded.before.run s
    exact arrivals_assumptions p goal s u arrived ran
  have before := padded.before.map (List.map Prod.snd)
  rw [snd_arrivals] at before
  have after := padded.after.map (List.map Prod.snd)
  rw [snd_arrivals, snd_marked padded.length_eq] at after
  refine ⟨arrived, _, rfl, own, padded.before, before, after, padded.length_eq, padded.after,
    padded.keeps, own ▸ padded.sublist, fun u => ?_⟩
  obtain ⟨v, ran⟩ := after.run u
  rw [normalize_of_settled ran padded.length_eq.symm]

/-- Two cuts, the inner one continued by a rule and an assumption, the outer one closed. -/
def cuts (p : Term) : Plan :=
  branch (Rule.cut p) [branch (Rule.cut p) [Rule.leftWeakening, assumption 7], Rule.close]

/-- A plan that cuts is a function of the goal. -/
theorem functional_cuts (p : Term) : (cuts p).Functional :=
  ⟨functional_cut p, ⟨functional_cut p, functional_leftWeakening, trivial, trivial⟩,
    functional_close, trivial⟩

/-- The rule is padded, the assumption stays at its goal, and the closing rule is left alone. -/
theorem normalize_cuts :
    let p := Term.var ⟨"p", .bool⟩
    let q := Term.var ⟨"q", .bool⟩
    let normal := branch (Rule.cut p) [branch (Rule.cut p)
      [branch Rule.leftWeakening [assumption 8], assumption 7], Rule.close]
    (cuts p).Functional ∧ (((cuts p).normalize ⟨[q], [p]⟩).runFrom
        ⟨0, 7, 0, 1, fun _ _ _ => 0⟩).1 = .ok normal ∧
      Always [⟨[], [p, p, p]⟩, ⟨[p, q], [p, p]⟩] (normal.subgoals ⟨[q], [p]⟩) ∧
      Always normal (normal.normalize ⟨[q], [p]⟩) := by
  intro p q normal
  let s : Supply := ⟨0, 7, 0, 1, fun _ _ _ => 0⟩
  have inner : ((branch (Rule.cut p) [Rule.leftWeakening, assumption 7]).normalize
      ⟨[q], [p, p]⟩).runFrom s =
        (.ok (branch (Rule.cut p) [branch Rule.leftWeakening [assumption 8], assumption 7]),
          { s with lastAssumption := 8 }) :=
    normalize_branch_ok.mpr ⟨[⟨[q], [p, p, p]⟩, ⟨[p, q], [p, p]⟩], s, _, rfl, rfl,
      normalizeTasks_cons_ok.mpr ⟨_, _, _, rfl,
        normalizeTasks_cons_ok.mpr ⟨_, _, _, rfl, rfl, rfl⟩, rfl⟩, rfl⟩
  have run : ((cuts p).normalize ⟨[q], [p]⟩).runFrom s =
      (.ok normal, { s with lastAssumption := 8 }) :=
    normalize_branch_ok.mpr ⟨[⟨[q], [p, p]⟩, ⟨[p, q], [p]⟩], s, _, rfl, rfl,
      normalizeTasks_cons_ok.mpr ⟨_, _, _, inner,
        normalizeTasks_cons_ok.mpr ⟨_, _, _, rfl, rfl, rfl⟩, rfl⟩, rfl⟩
  obtain ⟨arrived, goals, -, -, -, -, left, -, -, -, -, again⟩ :=
    (normalize_marks_open_goals (cuts p) (functional_cuts p) ⟨[q], [p]⟩).2 _ _ _ run
  have same : goals = [⟨[], [p, p, p]⟩, ⟨[p, q], [p, p]⟩] :=
    (Except.ok.inj (left s)).symm
  exact ⟨functional_cuts p, congrArg Prod.fst run, same ▸ left, again⟩

end Plan

end Turnstile
