import Turnstile.Term.Inference

/-!
# Sequents

A sequent says that the formulas on its left, taken together, entail one of those on its right.
Variables of one name have one type throughout a sequent.
-/

namespace Turnstile

/-- Two lists of formulas: what is assumed and what is to be shown. -/
structure Sequent where
  /-- What is assumed. -/
  left : List Term
  /-- What is to be shown. -/
  right : List Term
  deriving DecidableEq, Repr, Inhabited

namespace Sequent

/-- The sequent without formulas. -/
def empty : Sequent := ⟨[], []⟩

/-- The sequent of two lists of formulas, free variables of one name getting one type. -/
def make (left right : List Term) : Except Failure Sequent :=
  if left.length + right.length ≤ 1 then .ok ⟨left, right⟩
  else do
    let u ← jointTypes (left ++ right)
    return ⟨left.map (Term.applyTypes u), right.map (Term.applyTypes u)⟩

/-- The formulas of one side. -/
def side (goal : Sequent) : Side → List Term
  | .left => goal.left
  | .right => goal.right

/-- The free occurrences of variables in the formulas of both sides. -/
def free (goal : Sequent) : List Symbol := (goal.left ++ goal.right).flatMap Term.free

/-- The different free variables, ordered by key. -/
def freeVariables (goal : Sequent) : List Symbol := sortedVariables goal.free

/-- Formulas separated by commas. -/
def listText (write : Term → String) (terms : List Term) : String :=
  ", ".intercalate (terms.map write)

/-- A sequent with its formulas written by `write`. -/
def display (write : Term → String) (goal : Sequent) : String :=
  listText write goal.left ++ " |- " ++ listText write goal.right

/-- A sequent with all of its types. -/
def text (goal : Sequent) : String := goal.display Term.text

end Sequent

end Turnstile
