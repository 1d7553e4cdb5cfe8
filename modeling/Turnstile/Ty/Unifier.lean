import Turnstile.Sorting
import Turnstile.Ty.Basic

/-!
# Unification of types

A unifier collects equations between types in a partition of the types seen. A class led by a
function type gives its variables that value; `Unifier.apply` carries the values through a type.
Two function types that meet are unified argument by argument before their classes merge, and a
variable is bound only after the occurs check has run through the values found so far. What was
recorded before a failure stays recorded.

The recursions are bounded by the number of members (`apply`) and by the size of the types at
hand (`unify`); neither bound is ever reached, because a class never contains itself.
-/

namespace Turnstile

/-- Two types that cannot be made equal. -/
structure Clash where
  /-- The left type, or the variable that failed the occurs check. -/
  left : Ty
  /-- The right type, or the type that the variable occurs in. -/
  right : Ty
  /-- Whether the left type would have to contain itself. -/
  cyclic : Bool
  deriving DecidableEq, Repr

/-- A clash in words. -/
def Clash.message (clash : Clash) : String :=
  if clash.cyclic then
    "type mismatch: " ++ clash.left.text ++ " occurs in " ++ clash.right.text
  else "type mismatch: cannot unify " ++ clash.left.text ++ " with " ++ clash.right.text

/-- The equations between types recorded so far. -/
structure Unifier where
  /-- The types seen, equal ones in one class. -/
  types : Partition Ty
  deriving Inhabited

namespace Unifier

/-- The unifier without equations. -/
def empty : Unifier := ⟨Partition.empty⟩

/-- Whether no type has been seen. -/
def isEmpty (u : Unifier) : Bool := u.types.size == 0

/-- The leader of a variable's class, if the variable has been seen. -/
def leader? (u : Unifier) (id : Int) : Option Ty :=
  (u.types.member? (Ty.var id).key).map fun m => u.types.valueAt m.leader m.value

/-- Put values for the variables of a type, following at most `depth` variables on any path, or
nothing if some path is longer. -/
def applyWithin (u : Unifier) : (depth : Nat) → Ty → Option Ty
  | 0, t => t.traverseVars fun id =>
    match u.leader? id with
    | none => some (.var id)
    | some (.var leader) => some (.var leader)
    | some _ => none
  | depth + 1, t => t.traverseVars fun id =>
    match u.leader? id with
    | none => some (.var id)
    | some (.var leader) => some (.var leader)
    | some value => applyWithin u depth value

/-- A type with every variable replaced by its value, and that by its values in turn. -/
def apply (u : Unifier) (t : Ty) : Ty := (u.applyWithin u.types.size t).getD t

/-- Bind the variable at `discard` to the type at `keep`, unless it occurs in its value. -/
def bind (u : Unifier) (keep discard : Nat) (kept : Ty) (id : Int) : Option Clash × Unifier :=
  if (u.apply kept).occurs id then (some ⟨.var id, kept, true⟩, u)
  else (none, ⟨u.types.link keep discard⟩)

/-- Merge the classes of two types that already agree, the first one's leader leading. -/
def merge (u : Unifier) (a b : Ty) : Unifier :=
  let (i, types) := u.types.find a
  let (j, types) := types.find b
  ⟨if i = j then types else types.link i j⟩

/-- Make two types equal whose leaders are function types: first the domains, then the
codomains, by `recur`. -/
def unifyArrows (recur : Unifier → Ty → Ty → Option (Option Clash × Unifier)) (u : Unifier)
    (a b domain codomain domain' codomain' : Ty) : Option (Option Clash × Unifier) :=
  match recur u domain domain' with
  | none => none
  | some (some clash, u) => some (some clash, u)
  | some (none, u) =>
    match recur u codomain codomain' with
    | none => none
    | some (some clash, u) => some (some clash, u)
    | some (none, u) => some (none, u.merge a b)

/-- Make two types equal whose classes are led from the places `i` and `j`, by two leaders. -/
def unifyLeaders (recur : Unifier → Ty → Ty → Option (Option Clash × Unifier)) (u : Unifier)
    (a b : Ty) (i j : Nat) : (va vb : Ty) → Option (Option Clash × Unifier)
  | .var id, vb => some (u.bind j i vb id)
  | va, .var id => some (u.bind i j va id)
  | .arrow d c, .arrow d' c' => unifyArrows recur u a b d c d' c'
  | va, vb => some (some ⟨va, vb, false⟩, u)

/-- Make two types equal, or nothing if that takes going more than `depth` constructors deep. -/
def unifyWithin : (depth : Nat) → Unifier → Ty → Ty → Option (Option Clash × Unifier)
  | 0, _, _, _ => none
  | depth + 1, u, a, b =>
    let (i, types) := u.types.find a
    let (j, types) := types.find b
    if i = j then some (none, ⟨types⟩)
    else
      unifyLeaders (unifyWithin depth) ⟨types⟩ a b i j (types.valueAt i a) (types.valueAt j b)

/-- The number of constructors in the types seen. -/
def weight (u : Unifier) : Nat :=
  u.types.members.foldr (fun m total => m.value.size + total) 0

/-- How deep unifying two types can go. -/
def reach (u : Unifier) (a b : Ty) : Nat := u.weight + a.size + b.size + 1

/-- Make two types equal, or say what keeps them apart. -/
def unify (u : Unifier) (a b : Ty) : Option Clash × Unifier :=
  (unifyWithin (u.reach a b) u a b).getD (some ⟨a, b, false⟩, u)

/-- Make each of the types equal to `first`, stopping at the first clash. -/
def unifyAll (first : Ty) : Unifier → List Ty → Option Clash × Unifier
  | u, [] => (none, ⟨(u.types.find first).2⟩)
  | u, t :: rest =>
    match u.unify first t with
    | (none, u) => unifyAll first u rest
    | (some clash, u) => (some clash, u)

/-- Make all of the types equal, stopping at the first clash. -/
def unifyMany (u : Unifier) : List Ty → Option Clash × Unifier
  | [] => (none, u)
  | first :: rest => unifyAll first u rest

/-- The value of every variable that does not lead its class, in ascending order. -/
def bindings (u : Unifier) : List (Int × Ty) :=
  sortBy (fun a b => decide (a.1 ≤ b.1)) (u.types.members.zipIdx.filterMap fun (m, place) =>
    match m.value with
    | .var id => if m.leader = place then none else some (id, u.apply (.var id))
    | _ => none)

end Unifier

namespace Ty

/-- The type that all of the given types become when they are unified. -/
def unify : List Ty → Except Clash (Option Ty)
  | [] => .ok none
  | first :: rest =>
    match Unifier.empty.unifyMany (first :: rest) with
    | (none, u) => .ok (some (u.apply first))
    | (some clash, _) => .error clash

/-- Whether two types have a common instance. -/
def canUnify (a b : Ty) : Bool := (Unifier.empty.unifyMany [a, b]).1.isNone

end Ty

end Turnstile
