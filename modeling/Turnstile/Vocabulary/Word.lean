import Turnstile.Term.Basic

/-!
# Words

The reserved words of a theory's concrete form: type names, operators, binders and the names of
set-builder constants.
-/

namespace Turnstile

/-- How operators of one precedence group. -/
inductive Assoc where
  /-- To the left. -/
  | left
  /-- To the right. -/
  | right
  /-- Not at all. -/
  | nonassoc
  deriving DecidableEq, Repr, Inhabited

namespace Assoc

/-- How an associativity is written. -/
def text : Assoc → String
  | left => "left"
  | right => "right"
  | nonassoc => "nonassoc"

/-- The associativity that a text names. -/
def ofText? : String → Option Assoc
  | "left" => some left
  | "right" => some right
  | "nonassoc" => some nonassoc
  | _ => none

end Assoc

/-- An operator written before its operand (arity one) or between its two operands. -/
structure Operator where
  /-- The constant it stands for. -/
  constant : Symbol
  /-- How many operands it takes. -/
  arity : Int
  /-- How a run of operators of its precedence groups. -/
  assoc : Assoc
  /-- How loosely it binds. -/
  precedence : Int
  deriving DecidableEq, Repr, Inhabited

/-- A form that writes `constant(X, \x.phi)` as a set: the elements `x` of `X` with `phi`. -/
structure SetBuilder where
  /-- The constant it stands for. -/
  constant : Symbol
  /-- The infix operator between the element and the set. -/
  member : String
  deriving DecidableEq, Repr, Inhabited

/-- A reserved word. -/
inductive Word where
  /-- The name of a type. -/
  | type (name : String) (type : Ty)
  /-- An operator. -/
  | operator (op : Operator)
  /-- A constant that takes an abstraction, written `binder x . body`. -/
  | binder (constant : Symbol)
  /-- A set builder; its constant's name is not reserved and reads as the constant. -/
  | setBuilder (builder : SetBuilder)
  deriving DecidableEq, Repr, Inhabited

namespace Word

/-- The name under which a word is looked up. -/
def name : Word → String
  | type name _ => name
  | operator op => op.constant.name
  | binder constant => constant.name
  | setBuilder builder => builder.constant.name

/-- The word as an operator. -/
def operator? : Word → Option Operator
  | operator op => some op
  | _ => none

/-- The word as a binder. -/
def binder? : Word → Option Symbol
  | binder constant => some constant
  | _ => none

/-- The word as a set builder. -/
def setBuilder? : Word → Option SetBuilder
  | setBuilder builder => some builder
  | _ => none

/-- The word as a type. -/
def type? : Word → Option Ty
  | type _ t => some t
  | _ => none

end Word

end Turnstile
