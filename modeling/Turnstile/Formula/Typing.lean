import Turnstile.Formula.Expr
import Turnstile.Term.Inference

/-!
# Inferring the types of a formula

A formula that has been read becomes a term from the leaves up. Unannotated variables start with
fresh types, every occurrence of a constant gets its own copy of the declared type, and a
schematic variable `?a` is one type variable throughout the text it is read from.
-/

namespace Turnstile

/-- The type variables of the schematic names met so far. -/
abbrev Schematics := List (String × Ty)

/-- Inference within one text. -/
abbrev Typing := StateT Schematics Build

namespace Typing

/-- The type variable of a schematic name. -/
def schematic (name : String) : Typing Ty := do
  match (← get).lookup name with
  | some t => return t
  | none =>
    let t ← Build.freshType
    modify fun known => (name, t) :: known
    return t

/-- Build a part of a term, reporting failures at a position. -/
def build (position : Position) (part : Build Term) : Typing Term :=
  StateT.lift (part.within (.position position))

end Typing

/-- The type that is meant by a type as it is read. -/
def TypeExpr.resolve : TypeExpr → Typing Ty
  | known t => return t
  | schematic name => Typing.schematic name
  | arrow domain codomain => do
    let domain ← domain.resolve
    let codomain ← codomain.resolve
    return .arrow domain codomain

/-- The variable that is meant by a name as it is read. -/
def NameExpr.resolve (x : NameExpr) : Typing Term := do
  match x.declared with
  | some t => return .var ⟨x.name, ← t.resolve⟩
  | none => return .var ⟨x.name, ← Build.freshType⟩

/-- A copy of a declared constant with fresh type variables. -/
def Symbol.occurrence (constant : Symbol) : Build Term := do
  return .const (← constant.instantiate)

mutual

/-- The term of a formula. -/
def Expr.infer : Expr → Typing Term
  | .var x => x.resolve
  | .const constant => constant.occurrence
  | .apply position function arguments => do
    let f ← function.infer
    let xs ← Expr.inferAll arguments
    Typing.build position (f.mkApps xs)
  | .unary position operator operand => do
    let x ← operand.infer
    let op ← operator.occurrence
    Typing.build position (op.mkApp x)
  | .binary position operator left right => do
    let a ← left.infer
    let b ← right.infer
    let op ← operator.occurrence
    Typing.build position (op.mkApps [a, b])
  | .bind position binder bound body => do
    let x ← bound.resolve
    let body ← body.infer
    let op ← binder.occurrence
    Typing.build position (op.mkBinder x body)
  | .lambda position bound body => do
    let x ← bound.resolve
    let body ← body.infer
    Typing.build position (Term.mkLam x body)
  | .setOf position builder bound set body => do
    let x ← bound.resolve
    let set ← set.infer
    let body ← body.infer
    let abstraction ← Typing.build position (Term.mkLam x body)
    let op ← builder.occurrence
    Typing.build position (op.mkApps [set, abstraction])

/-- The terms of several formulas, first to last. -/
def Expr.inferAll : List Expr → Typing (List Term)
  | [] => return []
  | e :: rest => do
    let t ← e.infer
    let ts ← Expr.inferAll rest
    return t :: ts

end

/-- The outcome of inference within one text. -/
def Typing.within {α : Type} (typing : Typing α) : Build α := typing.run' []

end Turnstile
