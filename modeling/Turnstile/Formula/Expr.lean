import Turnstile.Vocabulary.Table

/-!
# Formulas as they are read

The tree of a formula before types are inferred: what the grammar says, with the positions that
messages about types refer to.
-/

namespace Turnstile

/-- A type as it is read: its schematic variables are still names. -/
inductive TypeExpr where
  /-- A declared type. -/
  | known (type : Ty)
  /-- A schematic variable such as `?a`. -/
  | schematic (name : String)
  /-- A function type. -/
  | arrow (domain codomain : TypeExpr)
  deriving DecidableEq, Repr, Inhabited

/-- A variable as it is read, with its type if one is written. -/
structure NameExpr where
  /-- The name. -/
  name : String
  /-- The type written after the name. -/
  declared : Option TypeExpr
  deriving DecidableEq, Repr, Inhabited

/-- A formula as it is read. -/
inductive Expr where
  /-- A variable. -/
  | var (name : NameExpr)
  /-- A declared constant. -/
  | const (constant : Symbol)
  /-- A term followed by arguments in parentheses. -/
  | apply (position : Position) (function : Expr) (arguments : List Expr)
  /-- An operator before its operand. -/
  | unary (position : Position) (operator : Symbol) (operand : Expr)
  /-- An operator between its operands. -/
  | binary (position : Position) (operator : Symbol) (left right : Expr)
  /-- A binder with its variable and body. -/
  | bind (position : Position) (binder : Symbol) (bound : NameExpr) (body : Expr)
  /-- A lambda abstraction. -/
  | lambda (position : Position) (bound : NameExpr) (body : Expr)
  /-- A set builder. -/
  | setOf (position : Position) (builder : Symbol) (bound : NameExpr) (set body : Expr)
  deriving Repr, Inhabited

end Turnstile
