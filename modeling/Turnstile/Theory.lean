import Turnstile.Formula.Reader
import Turnstile.Plan.Basic
import Turnstile.Term.Match
import Turnstile.Term.Substitution

/-!
# What rules know

A theory is what the inference rules need to know: the words in which formulas are written, the
shapes of formulas that rules take apart, the definitions that can be unfolded and the
postulates that can be assumed.
-/

namespace Turnstile

/-- The shapes of formulas that rules recognise. -/
inductive Shape where
  | negation
  | disjunction
  | universal
  | existential
  | schema
  | equation
  | subset
  | powerset
  | separation
  deriving DecidableEq, Repr, Inhabited

namespace Shape

/-- A formula that shows the shape; its variables stand for the parts. -/
def pattern : Shape → String
  | negation => "not a"
  | disjunction => "a or b"
  | universal => "for_all x . phi"
  | existential => "exists x . phi"
  | schema => "schema phi . psi"
  | equation => "a = b"
  | subset => "a subset b"
  | powerset => "a in powerset(b)"
  | separation => "x in separation(X, phi)"

/-- Every shape. -/
def all : List Shape :=
  [negation, disjunction, universal, existential, schema, equation, subset, powerset, separation]

end Shape

/-- An equation that defines a name. -/
structure Definition where
  /-- The defined name. -/
  name : String
  /-- The left side: a constant if the name is declared as one, else a variable. -/
  atom : Term
  /-- The right side. -/
  value : Term
  /-- The whole equation. -/
  equation : Term
  deriving Repr, Inhabited

/-- A formula that is assumed under a name. -/
structure Postulate where
  /-- The name. -/
  name : String
  /-- The formula. -/
  formula : Term
  deriving Repr, Inhabited

/-- What the inference rules need to know. -/
structure Theory where
  /-- The reserved words. -/
  vocabulary : Vocabulary
  /-- The terms that show the shapes, where the vocabulary has words for them. -/
  shapes : List (Shape × Term)
  /-- The definitions in order; the first one of a name counts. -/
  definitions : List Definition
  /-- The postulates in order; the first one of a name counts. -/
  postulates : List Postulate
  deriving Inhabited

namespace Theory

/-- The definition of a name. -/
def definition? (th : Theory) (name : Text.Octets) : Option Definition :=
  th.definitions.find? fun d => Text.Octets.ofString d.name == name

/-- The formula postulated under a name. -/
def postulate? (th : Theory) (name : Text.Octets) : Option Term :=
  (th.postulates.find? fun p => Text.Octets.ofString p.name == name).map Postulate.formula

/-- The term that shows a shape. Where the vocabulary has no words for it, reading it fails. -/
def shape (th : Theory) (s : Shape) : Build Term :=
  match th.shapes.lookup s with
  | some pattern => return pattern
  | none => (th.vocabulary.parse s.pattern).within (.pattern s.pattern)

/-- The parts of the formula at a place of a goal, if it has the given shape. -/
def parts (th : Theory) (goal : Sequent) (side : Side) (index : Nat) (s : Shape) :
    Build Bindings :=
  match (goal.side side)[index]? with
  | none => throw (.refused "" (.noFormulaAt side index))
  | some formula => do
    match (← th.shape s).matchWith formula with
    | .ok bindings => return bindings
    | .error _ => throw (.refused "" (.notOfForm formula s.pattern))

/-- The parts of the first formula on a side of a goal that is known to have the given shape. -/
def knownParts (th : Theory) (goal : Sequent) (side : Side) (s : Shape) : Bindings :=
  match (goal.side side)[0]?, th.shapes.lookup s with
  | some formula, some pattern =>
    match pattern.matchWith formula with
    | .ok bindings => bindings
    | .error _ => []
  | _, _ => []

/-- The shapes that a vocabulary has words for. -/
def shapesOf (v : Vocabulary) : Build (List (Shape × Term)) := do
  let read ← Shape.all.mapM fun s => do return (s, ← (v.parse s.pattern).attempt)
  return read.filterMap fun
    | (s, .ok pattern) => some (s, pattern)
    | (_, .error _) => none

end Theory

end Turnstile
