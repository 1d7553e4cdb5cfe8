import Turnstile.Supply

/-!
# Building terms with inference

Applications and abstractions are built by unification: a function whose type is still a
variable becomes a function from its argument's type, the function's domain is unified with the
argument's type, and variables of one name share one type across the parts. The solution is
carried through the parts, so no type is left behind.
-/

namespace Turnstile

/-- A term under the solution found so far. -/
def Term.applyTypes (u : Unifier) (t : Term) : Term := t.mapTypes u.apply

/-- The free variables of several terms: those of each term ordered by key. -/
def freeAcross (terms : List Term) : List Symbol := terms.flatMap Term.freeVariables

/-- Let the variables of one name have one type. -/
def joinName (occurrences : List Symbol) (u : Unifier) (name : String) :
    Except Failure Unifier :=
  let types := (occurrences.filter fun s => s.name == name).map Symbol.type
  if types.length < 2 then .ok u
  else match u.unifyMany types with
    | (none, u) => .ok u
    | (some clash, _) => .error (.within (.conflictingTypes name) (.clash clash))

/-- The most general solution under which free variables of one name have one type across all of
the terms. Names are taken in the order in which they are first met. -/
def jointTypes (terms : List Term) : Except Failure Unifier :=
  let occurrences := freeAcross terms
  (occurrences.map Symbol.name).eraseDups.foldlM (joinName occurrences) Unifier.empty

/-- The terms with one type for all free variables of one name. -/
def unifyTypes (terms : List Term) : Except Failure (List Term) := do
  let u ← jointTypes terms
  return terms.map (Term.applyTypes u)

namespace Term

/-- The solution of one equation between types. -/
def equate (a b : Ty) : Except Failure Unifier :=
  match Unifier.empty.unify a b with
  | (none, u) => .ok u
  | (some clash, _) => .error (.clash clash)

/-- A function term whose type, if still a variable, becomes a function type with the given
domain. -/
def narrow (f : Term) (domain : Ty) : Build Term :=
  if f.type.isVar then do
    let codomain ← Build.freshType
    let u ← equate f.type (.arrow domain codomain)
    return f.applyTypes u
  else return f

/-- Join the types of a function and an argument whose domain is already that of the function. -/
def join (f x : Term) : Except Failure Term := do
  let u ← jointTypes [f, x]
  let f := f.applyTypes u
  let x := x.applyTypes u
  match f.type with
  | .arrow domain _ =>
    if domain = x.type then return .app f x else throw (.clash ⟨f.type, x.type, false⟩)
  | t => throw (.clash ⟨t, x.type, false⟩)

/-- Apply one term to another, inferring types. -/
def mkApp (f x : Term) : Build Term := do
  let f ← f.narrow x.type
  match f.type with
  | .arrow domain _ =>
    let u ← equate domain x.type
    join (f.applyTypes u) (x.applyTypes u)
  | t => throw (.clash ⟨t, .arrow x.type (← Build.freshType), false⟩)

/-- Apply a term to several others, first to last. -/
def mkApps (f : Term) : List Term → Build Term
  | [] => pure f
  | x :: rest => do mkApps (← f.mkApp x) rest

/-- Abstract a term over a variable, inferring types. -/
def mkLam (bound body : Term) : Except Failure Term :=
  match bound with
  | .var v => do
    let u ← jointTypes [.var v, body]
    return .lam (v.mapType u.apply) (body.applyTypes u)
  | other => throw (.unbindable other)

/-- Apply a binder's constant to the abstraction of a body. -/
def mkBinder (binder bound body : Term) : Build Term := do
  let abstraction ← mkLam bound body
  binder.mkApp abstraction

end Term

end Turnstile
