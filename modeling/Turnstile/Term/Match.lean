import Turnstile.Supply

/-!
# Matching

A term is matched against a pattern in one direction: the pattern's variables, binders included,
stand for subterms of the term, and everything else must agree. Types need only have a common
instance. A pattern variable that occurs twice must stand for the same subterm.
-/

namespace Turnstile

/-- What the variables of a pattern stand for, in the order of their first occurrence. -/
abbrev Bindings := List (String × Term)

namespace Bindings

/-- What a pattern variable stands for; for a variable that is not bound, `fallback`. -/
def value (bindings : Bindings) (name : String) (fallback : Term) : Term :=
  (bindings.lookup name).getD fallback

end Bindings

namespace Term

/-- Let a pattern variable stand for a subterm. -/
def bindPattern (bindings : Bindings) (v : Symbol) (t : Term) : Except Failure Bindings :=
  if Ty.canUnify v.type t.type then
    match bindings.lookup v.name with
    | none => .ok (bindings ++ [(v.name, t)])
    | some known =>
      if known.key == t.key then .ok bindings
      else .error (.noMatch (.var v) t (.alreadyBound v.name known))
  else .error (.noMatch (.var v) t .incompatibleTypes)

/-- Extend bindings so that a pattern stands for a term. -/
def matchFrom (bindings : Bindings) : (pattern term : Term) → Except Failure Bindings
  | .var v, t => bindPattern bindings v t
  | .const p, .const c =>
    if p.name == c.name && Ty.canUnify p.type c.type then .ok bindings
    else .error (.noMatch (.const p) (.const c) .shape)
  | .app p q, .app f x => do
    let bindings ← matchFrom bindings p f
    matchFrom bindings q x
  | .lam p q, .lam v body => do
    let bindings ← bindPattern bindings p (.var v)
    matchFrom bindings q body
  | pattern, t => .error (.noMatch pattern t .shape)

/-- What the variables of a pattern stand for in a term of its form. -/
def matchWith (pattern t : Term) : Except Failure Bindings := matchFrom [] pattern t

end Term

end Turnstile
