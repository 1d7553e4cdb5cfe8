import Turnstile.Theory

/-!
# Structural rules

Rules that move, repeat or drop formulas without looking inside them. All of them act on the
front of a side.
-/

namespace Turnstile.Rule

/-- A rule that refuses to apply. -/
def refuse {α : Type} (refusal : Refusal) : Except Failure α := .error (.refused "" refusal)

/-- A primitive rule, named in its own refusals. -/
def primitive (name : String) (args : List Arg) (apply : Sequent → Build (List Sequent)) :
    Plan :=
  .rule ⟨name, args⟩ fun goal =>
    tryCatch (apply goal) fun failure => throw (failure.named name)

/-- The single subgoal with the given sides. -/
def one (left right : List Term) : Except Failure (List Sequent) := do
  return [← Sequent.make left right]

/-- The formulas with the one at an index moved to the front. -/
def permuted (formulas : List Term) (index : Int) : Except Failure (List Term) :=
  if index < 0 then refuse (.noFormulaAtPosition index)
  else match formulas[index.toNat]? with
    | none => refuse (.noFormulaAtPosition index)
    | some formula => .ok (formula :: formulas.eraseIdx index.toNat)

/-- The formulas with the first one repeated. -/
def contracted : List Term → Except Failure (List Term)
  | [] => refuse .nothingToContract
  | formula :: rest => .ok (formula :: formula :: rest)

/-- The formulas without the first one. -/
def weakened : List Term → Except Failure (List Term)
  | [] => refuse .nothingToWeaken
  | _ :: rest => .ok rest

/-- Move the left formula at an index to the front. -/
def leftPermutation (index : Int) : Plan :=
  primitive "left_permutation" [.int index] fun goal => do
    one (← permuted goal.left index) goal.right

/-- Move the right formula at an index to the front. -/
def rightPermutation (index : Int) : Plan :=
  primitive "right_permutation" [.int index] fun goal => do
    one goal.left (← permuted goal.right index)

/-- Repeat the first left formula. -/
def leftContraction : Plan :=
  primitive "left_contraction" [] fun goal => do one (← contracted goal.left) goal.right

/-- Repeat the first right formula. -/
def rightContraction : Plan :=
  primitive "right_contraction" [] fun goal => do one goal.left (← contracted goal.right)

/-- Drop the first left formula. -/
def leftWeakening : Plan :=
  primitive "left_weakening" [] fun goal => do one (← weakened goal.left) goal.right

/-- Drop the first right formula. -/
def rightWeakening : Plan :=
  primitive "right_weakening" [] fun goal => do one goal.left (← weakened goal.right)

end Turnstile.Rule
