import Turnstile.Plan.Basic

/-!
# Walking through plans

A walk visits the atomic plans of a plan in proof order, head first. A branch with one plan is
followed in line; the plans of other branches are set between marks. A trace is a walk that also
runs the plan: every atomic plan comes with its goal, and the walk ends at the first failure.
-/

namespace Turnstile

/-- What a walk meets: an atomic plan, or the beginning or end of one plan among several. -/
inductive Event (α : Type) where
  | visit (item : α)
  | enter
  | leave
  deriving Repr

/-- An event with the item it visits changed. -/
def Event.map {α β : Type} (f : α → β) : Event α → Event β
  | visit item => visit (f item)
  | enter => enter
  | leave => leave

/-- What a trace met, and what the plan leaves open or how it failed. -/
structure Traced where
  /-- The atomic plans with their goals. -/
  events : List (Event (Plan × Sequent))
  /-- The open goals, or the failure that ended the trace. -/
  result : Except Failure (List Sequent)

/-- An item with the depth at which it is nested. -/
structure Line (α : Type) where
  /-- How many branches are open around it. -/
  depth : Nat
  /-- The item. -/
  item : α

/-- The items that a walk visits, with their depths. -/
def linesFrom {α : Type} : (depth : Nat) → List (Event α) → List (Line α)
  | _, [] => []
  | depth, .visit item :: rest => ⟨depth, item⟩ :: linesFrom depth rest
  | depth, .enter :: rest => linesFrom (depth + 1) rest
  | depth, .leave :: rest => linesFrom (depth - 1) rest

/-- A run of plans in sequence, then the limbs of a branch with several plans, if one follows. -/
inductive Limb where
  | mk (steps : List Plan) (branches : List Limb)

/-- A limb with one more step before its own. -/
def Limb.cons (p : Plan) : Limb → Limb
  | .mk steps branches => .mk (p :: steps) branches

namespace Plan

mutual

/-- The atomic plans of a plan in proof order. -/
def walk : Plan → List (Event Plan)
  | assumption id => [.visit (assumption id)]
  | rule call apply => [.visit (rule call apply)]
  | compound call check expansion => [.visit (compound call check expansion)]
  | branch first branches => first.walk ++ walkAll (branches.length == 1) branches

/-- The atomic plans of several plans, each between marks unless it is followed in line. -/
def walkAll (inLine : Bool) : List Plan → List (Event Plan)
  | [] => []
  | p :: rest =>
    (if inLine then p.walk else .enter :: p.walk ++ [.leave]) ++ walkAll inLine rest

end

mutual

/-- Run a plan on a goal and report every atomic plan with its goal. -/
def trace : Plan → Sequent → StateM Supply Traced
  | assumption id, goal => return ⟨[.visit (assumption id, goal)], .ok [goal]⟩
  | rule call apply, goal => do
    return ⟨[.visit (rule call apply, goal)], ← (apply goal).run⟩
  | compound call check expansion, goal => do
    return ⟨[.visit (compound call check expansion, goal)],
      ← ((compound call check expansion).subgoals goal).run⟩
  | branch first branches, goal => do
    let head ← first.trace goal
    match head.result with
    | .error failure => return ⟨head.events, .error failure⟩
    | .ok goals =>
      if goals.length = branches.length then
        let rest ← traceAll (branches.length == 1) branches goals
        return ⟨head.events ++ rest.events, rest.result⟩
      else
        return ⟨head.events, .error (branching first goals.length branches.length)⟩

/-- Run plans on one goal each, each between marks unless it is followed in line. -/
def traceAll (inLine : Bool) : List Plan → List Sequent → StateM Supply Traced
  | p :: plans, goal :: goals => do
    let here ← p.trace goal
    let events := if inLine then here.events else .enter :: here.events ++ [.leave]
    match here.result with
    | .error failure => return ⟨events, .error failure⟩
    | .ok left =>
      let rest ← traceAll inLine plans goals
      return ⟨events ++ rest.events, rest.result.map (left ++ ·)⟩
  | _, _ => return ⟨[], .ok []⟩

end

/-- The atomic plans of a plan with their depths. -/
def flatten (p : Plan) : List (Line Plan) := linesFrom 0 p.walk

mutual

/-- A plan as a limb. A branch whose head is itself a branch is kept whole. -/
def compress : Plan → Limb
  | assumption id => .mk [assumption id] []
  | rule call apply => .mk [rule call apply] []
  | compound call check expansion => .mk [compound call check expansion] []
  | branch first branches =>
    if first.isBranch then .mk [branch first branches] []
    else
      match branches, compressAll branches with
      | [_], [limb] => limb.cons first
      | _, limbs => .mk [first] limbs

/-- Several plans as limbs. -/
def compressAll : List Plan → List Limb
  | [] => []
  | p :: rest => p.compress :: compressAll rest

end

end Plan

end Turnstile
