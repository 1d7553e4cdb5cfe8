import Turnstile.Text.Quoted

/-!
# Rejected declarations

A declaration in a theory script is a call with arguments, given by place or by name. This is
what can be wrong with them.
-/

namespace Turnstile.Script

/-- What is wrong with the arguments of a declaration. -/
inductive ArgumentProblem where
  /-- Arguments are given by name where only places count. -/
  | named
  /-- There are too few or too many arguments. -/
  | count (found wanted : Nat)
  /-- There are more arguments than parameters. -/
  | tooMany (found limit : Nat)
  /-- An argument is of the wrong type; the parameter is written as it was addressed. -/
  | type (parameter found wanted : String)
  /-- A number does not fit a signed word of 64 bits. -/
  | outOfRange (parameter : String) (value : Int)
  /-- A parameter is given twice. -/
  | repeated (name : String)
  /-- No parameter has this name; one with a similar name may be meant. -/
  | unknown (name : String) (similar : Option String)
  /-- A parameter is not given. -/
  | missing (parameter : String)
  /-- An operator takes neither one nor two operands. -/
  | arity (name : String) (arity : Int)
  deriving DecidableEq, Repr

/-- The wording of a problem with arguments. -/
def ArgumentProblem.message : ArgumentProblem → String
  | named => "unexpected keyword arguments"
  | count found wanted => "got " ++ toString found ++ " arguments, want " ++ toString wanted
  | tooMany found limit =>
    "got " ++ toString found ++ " arguments, want at most " ++ toString limit
  | type parameter found wanted =>
    "for parameter " ++ parameter ++ ": got " ++ found ++ ", want " ++ wanted
  | outOfRange parameter value =>
    "for parameter " ++ parameter ++ ": " ++ toString value
      ++ " out of range (want value in signed 64-bit range)"
  | repeated name => "got multiple values for keyword argument " ++ Text.quote name
  | unknown name similar =>
    "unexpected keyword argument " ++ Text.quote name
      ++ (similar.elim "" fun other => " (did you mean " ++ other ++ "?)")
  | missing parameter => "missing argument for " ++ parameter
  | arity name found => "arity of " ++ name ++ " must be 1 or 2, got " ++ toString found

/-- A declaration that was rejected. -/
structure Rejection where
  /-- What was to be declared. -/
  verb : String
  /-- What is wrong. -/
  problem : ArgumentProblem
  deriving DecidableEq, Repr

/-- A rejection in words. -/
def Rejection.message (r : Rejection) : String := r.verb ++ ": " ++ r.problem.message

end Turnstile.Script
