import Turnstile.Term.Inference

/-!
# Substitution

`substitute t value pattern` puts a value for every free occurrence of an atom. Bound variables
are renamed where they would capture a variable of the value, and every application that is
rebuilt is reduced if its function has become an abstraction; types are inferred anew on the
way. Reductions beget reductions, so the recursion is bounded by the depth that the supply
allows.
-/

namespace Turnstile

/-- The names made from a base: the base itself, then the base with a number. -/
def numberedName (base : String) : Nat → String
  | 0 => base
  | n + 1 => base ++ toString (n + 1)

/-- The first name made from a base that is not taken. One of the first `taken.length + 1` is
free. -/
def freshName (base : String) (taken : List String) : String :=
  (((List.range (taken.length + 1)).map (numberedName base)).find?
    fun name => !taken.contains name).getD base

namespace Term

/-- The variable that replaces a bound variable whose name is among `names`: its name occurs
neither in the body nor among `names`. -/
def renamedBound (bound : Symbol) (body : Term) (names : List String) : Symbol :=
  { bound with name := freshName bound.name (body.atoms.map Term.name ++ names) }

/-- Put a value for an atom, nesting at most `depth` calls deep. -/
def substituteWithin : (depth : Nat) → (t value pattern : Term) → Build Term
  | 0, _, _, _ => throw .tooDeep
  | depth + 1, t, value, pattern =>
    match t with
    | .const s => return if .const s = pattern then value else .const s
    | .var s => return if .var s = pattern then value else .var s
    | .app f x => do
      let f ← substituteWithin depth f value pattern
      let x ← substituteWithin depth x value pattern
      match ← f.mkApp x with
      | .app (.lam bound body) argument => substituteWithin depth body argument (.var bound)
      | t => return t
    | .lam bound body =>
      if pattern.hasFree bound then return .lam bound body
      else if value.freeNames.contains bound.name then do
        let fresh := renamedBound bound body value.freeNames
        let body ← substituteWithin depth body (.var fresh) (.var bound)
        let body ← substituteWithin depth body value pattern
        mkLam (.var fresh) body
      else do
        let body ← substituteWithin depth body value pattern
        mkLam (.var bound) body

/-- Put a value for every free occurrence of an atom, reducing what this makes reducible. -/
def substitute (t value pattern : Term) : Build Term := do
  substituteWithin (← get).depth t value pattern

/-- Reduce an abstraction that is applied to an argument; other terms stay as they are. -/
def betaReduce : Term → Build Term
  | .app (.lam bound body) argument => substitute body argument (.var bound)
  | t => return t

end Term

end Turnstile
