import Turnstile.Environment.Basic
import Turnstile.Plan.Walk

/-!
# Views of proofs

Plans and their runs as text: the trace with one goal and rule after the other, the step tree
with what compounds expand to, the plan on one line, and the plan one rule a line.
-/

namespace Turnstile

/-- The record of running a plan on a goal. -/
structure Trace where
  /-- The atomic plans with their goals and depths. -/
  lines : List (Line (Plan × Sequent))
  /-- The goals left open. -/
  remaining : List Sequent

namespace Trace

/-- Whether the plan closed every goal. -/
def complete (trace : Trace) : Bool := trace.remaining.isEmpty

/-- The record of a run that did not fail. -/
def ofTraced (traced : Traced) : Except Failure Trace :=
  traced.result.map fun remaining => ⟨linesFrom 0 traced.events, remaining⟩

end Trace

/-- The blanks in front of a line at a depth. -/
def indentation (depth : Nat) : String := "".pushn ' ' (2 * depth)

/-- Run a plan on a goal and keep the record. -/
def Plan.record (p : Plan) (goal : Sequent) : Build Trace := do
  let traced ← p.trace goal
  Trace.ofTraced traced

namespace Environment

/-- One line of a trace as text: the goal and what is applied to it. -/
def showLine (env : Environment) (line : Line (Plan × Sequent)) : String :=
  let (p, goal) := line.item
  let indent := indentation line.depth
  indent ++ env.showSequent goal ++ "\n" ++ indent ++ "  "
    ++ (if p.isAssumption then "?" else "by " ++ env.showPlan p) ++ "\n"

/-- A trace as text: every goal with its rule, then what is left open. -/
def showTrace (env : Environment) (trace : Trace) : String :=
  String.join (trace.lines.map env.showLine)
    ++ (if trace.complete then "qed\n"
      else toString trace.remaining.length ++ " open:\n"
        ++ String.join (trace.remaining.map fun goal => "  " ++ env.showSequent goal ++ "\n"))

mutual

/-- A step tree as text. The steps of several subgoals are indented. -/
def showStep (env : Environment) (depth : Nat) : Step → String
  | .mk goal plan justification expansion =>
    let indent := indentation depth
    if plan.isAssumption then indent ++ env.showSequent goal ++ "  ?\n"
    else
      indent ++ env.showSequent goal ++ "  by " ++ env.showPlan plan ++ "\n"
        ++ showExpansion env depth expansion
        ++ showSteps env (if justification.length > 1 then depth + 1 else depth) justification

/-- What a compound expanded to, between braces. -/
def showExpansion (env : Environment) (depth : Nat) : Option Step → String
  | none => ""
  | some inner =>
    indentation depth ++ "  = \x7b\n" ++ showStep env (depth + 2) inner ++ indentation depth
      ++ "  \x7d\n"

/-- Several step trees as text. -/
def showSteps (env : Environment) (depth : Nat) : List Step → String
  | [] => ""
  | step :: rest => showStep env depth step ++ showSteps env depth rest

end

mutual

/-- A limb as text: runs joined by semicolons, the limbs of a branch in braces. -/
def showLimb (env : Environment) : Limb → String
  | .mk steps branches =>
    "; ".intercalate (steps.map env.showPlan) ++ showLimbs env branches

/-- The limbs of a branch as text. -/
def showLimbs (env : Environment) : List Limb → String
  | [] => ""
  | limb :: rest => " \x7b " ++ showLimb env limb ++ " \x7d" ++ showLimbs env rest

end

/-- A plan on one line. -/
def compact (env : Environment) (p : Plan) : String := env.showLimb p.compress

/-- A plan with one rule a line. -/
def outline (env : Environment) (p : Plan) : String :=
  String.join (p.flatten.map fun line =>
    indentation line.depth ++ env.showPlan line.item ++ "\n")

end Environment

end Turnstile
