import Turnstile.Failure

/-!
# Supplies of fresh things

Type inference draws type variables that nobody has used, proofs draw assumptions, and where a set
is visited in no particular order each visit draws a choice. A `Build` threads the supply and may
fail; what was drawn before a failure stays drawn, so that nothing is ever handed out twice.
-/

namespace Turnstile

/-- What a run draws on. -/
structure Supply where
  /-- The last type variable handed out. -/
  lastType : Nat
  /-- The last assumption handed out. -/
  lastAssumption : Nat
  /-- How many choices were made. -/
  lastChoice : Nat
  /-- How deep reductions may nest. -/
  depth : Nat
  /-- The choice that is made at a time about a name in a term. Nothing is known of it: the same
  name in the same term may get another choice the next time. -/
  choices : Nat → String → Term → Nat
  deriving Inhabited

/-- The supply of a new run. The type variables it hands out have at least ten digits and so
differ from those that a caller writes. The choices are scattered, so that no order is preferred
and none comes back at regular times. -/
def Supply.initial : Supply :=
  ⟨1000000000, 0, 0, 1000000, fun time _ _ => time * time * time * 2654435761 / 65536 % 65521⟩

/-- A computation that draws on the supply and may fail. -/
abbrev Build := ExceptT Failure (StateM Supply)

namespace Build

/-- A type variable that has never been handed out. -/
def freshType : Build Ty := do
  let supply ← get
  let id := supply.lastType + 1
  set { supply with lastType := id }
  return .var id

/-- The number of an assumption that has never been handed out. -/
def freshAssumption : Build Nat := do
  let supply ← get
  let id := supply.lastAssumption + 1
  set { supply with lastAssumption := id }
  return id

/-- A choice about a name in a term. It is made anew each time. -/
def choose (name : String) (t : Term) : Build Nat := do
  let supply ← get
  let time := supply.lastChoice + 1
  set { supply with lastChoice := time }
  return supply.choices time name t

/-- Report failures from inside an activity. -/
def within {α : Type} (context : Context) (build : Build α) : Build α :=
  tryCatch build fun failure => throw (.within context failure)

/-- The result or the failure of a build, as a value. -/
def attempt {α : Type} (build : Build α) : Build (Except Failure α) :=
  tryCatch (do return .ok (← build)) fun failure => return .error failure

/-- Run a build from a supply. -/
def runFrom {α : Type} (build : Build α) (supply : Supply) : Except Failure α × Supply :=
  build.run.run supply

end Build

/-- Report a failed computation from inside an activity. -/
def Context.report {α : Type} (context : Context) (result : Except Failure α) :
    Except Failure α :=
  result.mapError (Failure.within context)

/-- A copy of a type whose variables are fresh, equal ones staying equal. -/
def Ty.instantiate (t : Ty) : Build Ty := do
  let ids := t.vars.eraseDups
  let fresh ← ids.mapM fun id => do return (id, ← Build.freshType)
  return t.mapVars fun id => (fresh.lookup id).getD (.var id)

/-- A copy of a declared constant whose type variables are fresh. -/
def Symbol.instantiate (s : Symbol) : Build Symbol := do
  return { s with type := ← s.type.instantiate }

end Turnstile
