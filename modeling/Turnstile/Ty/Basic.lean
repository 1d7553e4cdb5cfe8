import Turnstile.Partition

/-!
# Types

Types are atoms such as `obj` and `bool`, numbered variables, and functions. `Ty.text` is the
fully bracketed form used in messages, `Ty.render` the form without redundant brackets that the
reader of types accepts, and `Ty.key` the text that identifies a type among the types seen.
-/

namespace Turnstile

/-- A type. -/
inductive Ty where
  /-- An atomic type. -/
  | const (name : String)
  /-- A type variable, identified by a number. -/
  | var (id : Int)
  /-- The type of functions from one type to another. -/
  | arrow (domain codomain : Ty)
  deriving DecidableEq, Repr, Inhabited

namespace Ty

/-- The type of individuals. -/
def obj : Ty := const "obj"

/-- The type of propositions. -/
def bool : Ty := const "bool"

/-- How a type variable is written. -/
def varName (id : Int) : String := "?v" ++ toString id

/-- Whether a type is a variable. -/
def isVar : Ty → Bool
  | var _ => true
  | _ => false

/-- Whether a type is a function type. -/
def isArrow : Ty → Bool
  | arrow _ _ => true
  | _ => false

/-- The name of a type's outermost constructor; a variable's is how it is written. -/
def name : Ty → String
  | const name => name
  | var id => varName id
  | arrow _ _ => "fun"

/-- The arguments of a type's outermost constructor. -/
def args : Ty → List Ty
  | arrow domain codomain => [domain, codomain]
  | _ => []

/-- The number of constructors in a type. -/
@[simp] def size : Ty → Nat
  | const _ => 1
  | var _ => 1
  | arrow domain codomain => domain.size + codomain.size + 1

/-- The fully bracketed text of a type. -/
def text : Ty → String
  | const name => name
  | var id => varName id
  | arrow domain codomain => "(" ++ domain.text ++ "->" ++ codomain.text ++ ")"

/-- The text that identifies a type. -/
def key : Ty → String
  | const name => "'" ++ name
  | var id => varName id
  | arrow domain codomain => "fun(" ++ domain.key ++ "," ++ codomain.key ++ ")"

instance : Keyed Ty := ⟨key⟩

/-- The text of a type in which arrows associate to the right. -/
def render : Ty → String
  | const name => name
  | var id => varName id
  | arrow domain codomain =>
    (if domain.isArrow then "(" ++ domain.render ++ ")" else domain.render)
      ++ "->" ++ codomain.render

/-- The variables of a type from left to right, with repetitions. -/
@[simp] def vars : Ty → List Int
  | const _ => []
  | var id => [id]
  | arrow domain codomain => domain.vars ++ codomain.vars

/-- Whether a variable occurs in a type. -/
def occurs (id : Int) (t : Ty) : Bool := t.vars.contains id

/-- A type with a type put for each of its variables. -/
@[simp] def mapVars (f : Int → Ty) : Ty → Ty
  | const name => const name
  | var id => f id
  | arrow domain codomain => arrow (domain.mapVars f) (codomain.mapVars f)

/-- A type with a type put for each of its variables, if each has one. -/
def traverseVars (f : Int → Option Ty) : Ty → Option Ty
  | const name => some (const name)
  | var id => f id
  | arrow domain codomain => do
    let domain ← domain.traverseVars f
    let codomain ← codomain.traverseVars f
    return arrow domain codomain

/-- The codomain of a function type; any other type is its own. -/
def resultType : Ty → Ty
  | arrow _ codomain => codomain
  | t => t

end Ty

end Turnstile
