import Turnstile.Sequent

/-!
# Plans

A plan is a backward proof, whole or in part. A rule turns a goal into subgoals, a compound
first checks the goal and then expands into another plan, and a branch follows its head with one
plan for each subgoal that the head leaves. An assumption leaves its goal open; assumptions are
told apart by their numbers.

`Plan.subgoals` says what a plan leaves open. `Plan.normalize` puts an assumption at every goal
left open, `Plan.step` keeps the whole run for display.
-/

namespace Turnstile

/-- A backward proof, whole or in part. -/
inductive Plan where
  /-- An open goal. -/
  | assumption (id : Nat)
  /-- A direct transformation of a goal into its subgoals; none closes the goal. -/
  | rule (call : Call) (apply : Sequent → Build (List Sequent))
  /-- A tactic: if the goal passes the check, the plan it expands to is run in its place. -/
  | compound (call : Call) (check : Sequent → Build Unit) (expansion : Sequent → Plan)
  /-- A plan followed by one plan for each subgoal it leaves. -/
  | branch (first : Plan) (branches : List Plan)

instance : Inhabited Plan := ⟨.assumption 0⟩

/-- A step of a plan that has been run: the goal, what was applied to it, the steps of the
subgoals, and for a compound the run of its expansion. -/
inductive Step where
  | mk (goal : Sequent) (plan : Plan) (justification : List Step) (expansion : Option Step)

namespace Plan

/-- Plans one after the other, each continuing the single subgoal of the one before. -/
def sequence : Plan → List Plan → Plan
  | first, [] => first
  | first, next :: rest => .branch first [sequence next rest]

/-- Whether a plan is an open goal. -/
def isAssumption : Plan → Bool
  | assumption _ => true
  | _ => false

/-- Whether a plan is a branch. -/
def isBranch : Plan → Bool
  | branch _ _ => true
  | _ => false

mutual

/-- A plan as text, terms being written by `write`. -/
def display (write : Term → String) : Plan → String
  | assumption _ => "assumption()"
  | rule call _ => call.display write
  | compound call _ _ => call.display write
  | branch first branches =>
    "branch(" ++ ", ".intercalate (first.display write :: displayAll write branches) ++ ")"

/-- Several plans as text. -/
def displayAll (write : Term → String) : List Plan → List String
  | [] => []
  | p :: rest => p.display write :: displayAll write rest

end

/-- The failure of a branch whose head does not leave one subgoal per plan. -/
def branching (first : Plan) (subgoals branches : Nat) : Failure :=
  .branching (first.display Term.text) subgoals branches

mutual

/-- The goals that a plan leaves open, from left to right. -/
@[simp] def subgoals : Plan → Sequent → Build (List Sequent)
  | assumption _, goal => return [goal]
  | rule _ apply, goal => apply goal
  | compound _ check expansion, goal => do
    check goal
    (expansion goal).subgoals goal
  | branch first branches, goal => do
    let goals ← first.subgoals goal
    if goals.length = branches.length then subgoalsOf branches goals
    else throw (branching first goals.length branches.length)

/-- The goals that plans leave open on one goal each. -/
def subgoalsOf : List Plan → List Sequent → Build (List Sequent)
  | p :: plans, goal :: goals => do
    let here ← p.subgoals goal
    let rest ← subgoalsOf plans goals
    return here ++ rest
  | _, _ => return []

end

/-- As many new assumptions as there are goals. -/
def assumptionsFor : List Sequent → Build (List Plan)
  | [] => return []
  | _ :: rest => do
    let id ← Build.freshAssumption
    return assumption id :: (← assumptionsFor rest)

/-- A plan with a new assumption for each subgoal; a plan that closes the goal stays as it is. -/
def pad (p : Plan) (goal : Sequent) : Build Plan := do
  let goals ← p.subgoals goal
  if goals.isEmpty then return p
  else return branch p (← assumptionsFor goals)

mutual

/-- A plan with an assumption at every goal that it leaves open. -/
@[simp] def normalize : Plan → Sequent → Build Plan
  | assumption id, _ => return assumption id
  | rule call apply, goal => pad (rule call apply) goal
  | compound call check expansion, goal => pad (compound call check expansion) goal
  | branch first branches, goal => do
    let goals ← first.subgoals goal
    if goals.length = branches.length then
      return branch first (← normalizeAll branches goals)
    else throw (branching first goals.length branches.length)

/-- Plans with an assumption at every goal that they leave open, on one goal each. -/
def normalizeAll : List Plan → List Sequent → Build (List Plan)
  | p :: plans, goal :: goals => do
    let here ← p.normalize goal
    let rest ← normalizeAll plans goals
    return here :: rest
  | _, _ => return []

end

mutual

/-- The open leaves of a plan, from left to right. The head of a branch has none: what it leaves
open is continued by the branches. -/
@[simp] def assumptions : Plan → List Nat
  | assumption id => [id]
  | rule _ _ => []
  | compound _ _ _ => []
  | branch _ branches => assumptionsAll branches

/-- The open leaves of several plans. -/
def assumptionsAll : List Plan → List Nat
  | [] => []
  | p :: rest => p.assumptions ++ assumptionsAll rest

end

mutual

/-- A plan with another plan in the place of an assumption. -/
@[simp] def replace (target : Nat) (sub : Plan) : Plan → Plan
  | assumption id => if id = target then sub else assumption id
  | rule call apply => rule call apply
  | compound call check expansion => compound call check expansion
  | branch first branches => branch first (replaceAll target sub branches)

/-- Plans with another plan in the place of an assumption. -/
def replaceAll (target : Nat) (sub : Plan) : List Plan → List Plan
  | [] => []
  | p :: rest => replace target sub p :: replaceAll target sub rest

end

end Plan

/-- A step with more steps of subgoals after those it has. -/
def Step.justifiedBy (more : List Step) : Step → Step
  | .mk goal plan justification expansion => .mk goal plan (justification ++ more) expansion

namespace Plan

mutual

/-- Run a plan on a goal, keeping every step. -/
def step : Plan → Sequent → Build Step
  | assumption id, goal => return .mk goal (assumption id) [] none
  | rule call apply, goal => return .mk goal (rule call apply) [] none
  | compound call check expansion, goal => do
    check goal
    let inner ← (expansion goal).step goal
    return .mk goal (compound call check expansion) [] (some inner)
  | branch first branches, goal => do
    let goals ← first.subgoals goal
    if goals.length = branches.length then
      let head ← first.step goal
      return head.justifiedBy (← stepAll branches goals)
    else throw (branching first goals.length branches.length)

/-- Run plans on one goal each, keeping every step. -/
def stepAll : List Plan → List Sequent → Build (List Step)
  | p :: plans, goal :: goals => do
    let here ← p.step goal
    let rest ← stepAll plans goals
    return here :: rest
  | _, _ => return []

end

end Plan

end Turnstile
