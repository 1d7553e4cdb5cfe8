import Turnstile.Environment.Views
import Turnstile.PlanText.Reader

/-!
# Checking proofs

A proof is a goal with either a whole plan or a list of rules, each applied to the first goal
still open, and the number of goals that it is expected to leave open.
-/

namespace Turnstile

/-- A goal with the means to prove it. -/
structure Proof where
  /-- What it is called. -/
  name : String := ""
  /-- The goal's text. -/
  goal : String := ""
  /-- The plan's text; empty if steps are given. -/
  plan : String := ""
  /-- Rules for the first open goal, one after the other. -/
  steps : List String := []
  /-- The number of goals left open. -/
  expected : Int := 0
  deriving DecidableEq, Repr, Inhabited

/-- The outcome of checking a proof: how far it came and what went wrong, if anything. -/
structure Verdict where
  /-- The proof's name. -/
  proof : String
  /-- The plan, if it could be built. -/
  plan : Option Plan
  /-- The run of the plan, if it succeeded. -/
  trace : Option Trace
  /-- What went wrong. -/
  failure : Option Failure

namespace Environment

/-- Apply rules to the first open goal, one after the other; `number` is that of the first. -/
def advanceAll (env : Environment) (goal : Sequent) : (number : Nat) → Plan → List String →
    Build Plan
  | _, p, [] => return p
  | number, p, text :: rest => do
    let p ← (env.advance p goal 0 text).within (.step number)
    advanceAll env goal (number + 1) p rest

/-- The plan that a proof gives for its goal. -/
def planOf (env : Environment) (proof : Proof) (goal : Sequent) : Build Plan := do
  if proof.plan.isEmpty then
    let p ← start
    env.advanceAll goal 1 p proof.steps
  else if proof.steps.isEmpty then env.evaluate proof.plan
  else throw .planAndSteps

/-- Whether a run leaves as many goals open as expected. -/
def judge (env : Environment) (proof : Proof) (trace : Trace) : Option Failure :=
  if (trace.remaining.length : Int) = proof.expected then none
  else some (.incomplete proof.expected (trace.remaining.map env.showSequent))

/-- Check a proof. -/
def check (env : Environment) (proof : Proof) : StateM Supply Verdict := do
  let read : Build (Sequent × Plan) := do
    let goal ← (env.parseSequent proof.goal).within .goal
    return (goal, ← env.planOf proof goal)
  match ← read.run with
  | .error failure => return ⟨proof.name, none, none, some failure⟩
  | .ok (goal, p) =>
    match ← (p.record goal).run with
    | .error failure => return ⟨proof.name, some p, none, some failure⟩
    | .ok trace => return ⟨proof.name, some p, some trace, env.judge proof trace⟩

end Environment

end Turnstile
