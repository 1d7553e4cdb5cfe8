/-!
# Declarations

What theories declare, as texts and in order, before anything is read.
-/

namespace Turnstile

/-- The declaration of an operator over a constant. -/
structure OperatorDecl where
  /-- The constant's name. -/
  name : String
  /-- How many operands it takes. -/
  arity : Int
  /-- The name of its associativity. -/
  assoc : String
  /-- How loosely it binds. -/
  precedence : Int
  deriving DecidableEq, Repr, Inhabited

/-- The declaration of a set builder. -/
structure SetBuilderDecl where
  /-- The constant's name. -/
  constant : String
  /-- The membership operator's name. -/
  member : String
  deriving DecidableEq, Repr, Inhabited

/-- The declaration of a postulate. -/
structure PostulateDecl where
  /-- The name. -/
  name : String
  /-- The formula's text. -/
  formula : String
  deriving DecidableEq, Repr, Inhabited

/-- Everything that some theories declare. -/
structure Declarations where
  /-- The names of the theories. -/
  theories : List String := []
  /-- Names of atomic types. -/
  types : List String := []
  /-- Constants, each a name with a type. -/
  constants : List String := []
  /-- Operators. -/
  operators : List OperatorDecl := []
  /-- Names of constants that bind. -/
  binders : List String := []
  /-- Set builders. -/
  setBuilders : List SetBuilderDecl := []
  /-- Equations that define names. -/
  definitions : List String := []
  /-- Postulates. -/
  postulates : List PostulateDecl := []
  deriving DecidableEq, Repr, Inhabited

/-- Declarations followed by others, field by field. -/
def Declarations.append (a b : Declarations) : Declarations where
  theories := a.theories ++ b.theories
  types := a.types ++ b.types
  constants := a.constants ++ b.constants
  operators := a.operators ++ b.operators
  binders := a.binders ++ b.binders
  setBuilders := a.setBuilders ++ b.setBuilders
  definitions := a.definitions ++ b.definitions
  postulates := a.postulates ++ b.postulates

instance : Append Declarations := ⟨Declarations.append⟩

end Turnstile
