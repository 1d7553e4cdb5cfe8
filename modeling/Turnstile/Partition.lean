/-!
# Partitions of the values seen

A partition remembers the values it has been asked about, each under its key, and divides them
into classes. Every member records the place of its class's leader, so a class is found in one
step and a merge redirects the members of the class that gives up its leader. Values are told
apart by their keys alone.

`Partition.unify` merges two classes under a `Discipline`, which says which values may be bound,
when a variable occurs in another value, and what happens when two values that are not variables
meet. A class with a value that is no variable is always led by such a value.
-/

namespace Turnstile

/-- A type whose values are identified by a text. -/
class Keyed (α : Type) where
  /-- The text that identifies a value. -/
  key : α → String

/-- A value seen by a partition. -/
structure Member (α : Type) where
  /-- What identifies the value. -/
  key : String
  /-- The value as it was first seen. -/
  value : α
  /-- The place of the leader of the value's class. -/
  leader : Nat

/-- The values seen, in the order of their first appearance, divided into classes. -/
structure Partition (α : Type) where
  /-- The members by place. -/
  members : List (Member α)

namespace Partition

variable {α : Type} [Keyed α]

/-- The partition that has seen nothing. -/
def empty : Partition α := ⟨[]⟩

instance : Inhabited (Partition α) := ⟨empty⟩

/-- How many values have been seen. -/
def size (p : Partition α) : Nat := p.members.length

/-- The member with a key. -/
def member? (p : Partition α) (key : String) : Option (Member α) :=
  p.members.find? fun m => m.key == key

/-- Whether a value has been seen. -/
def knows (p : Partition α) (value : α) : Bool := (p.member? (Keyed.key value)).isSome

/-- The place of the leader of a value's class; a value not seen before joins as a class of its
own. -/
def find (p : Partition α) (value : α) : Nat × Partition α :=
  match p.member? (Keyed.key value) with
  | some m => (m.leader, p)
  | none => (p.size, ⟨p.members ++ [⟨Keyed.key value, value, p.size⟩]⟩)

/-- The value at a place, or `fallback` where there is none. -/
def valueAt (p : Partition α) (place : Nat) (fallback : α) : α :=
  match p.members[place]? with
  | some m => m.value
  | none => fallback

/-- The leading value of a value's class; a value not seen before joins as its own leader. -/
def representative (p : Partition α) (value : α) : α × Partition α :=
  let (place, p) := p.find value
  (p.valueAt place value, p)

/-- Let the class led from `discard` be led from `keep`. -/
def link (p : Partition α) (keep discard : Nat) : Partition α :=
  ⟨p.members.map fun m => if m.leader = discard then { m with leader := keep } else m⟩

/-- The key of every member that does not lead its class, with the value that does. -/
def substitutions (p : Partition α) : List (String × α) :=
  p.members.zipIdx.filterMap fun (m, place) =>
    if m.leader = place then none else some (m.key, p.valueAt m.leader m.value)

end Partition

/-- Why two values have no common class. -/
inductive Conflict (α : Type) where
  /-- The first, a variable, would have to contain itself. -/
  | occurs (inner outer : α)
  /-- Neither is a variable and they do not agree, for the given reason if there is one. -/
  | mismatch (left right : α) (reason : Option String)

/-- The rules under which values are unified. -/
structure Discipline (α : Type) where
  /-- Whether a value may be bound. -/
  isVariable : α → Bool
  /-- Whether the first, a variable, occurs in the second. -/
  occursIn : α → α → Bool
  /-- If present, decides whether two values that are not variables agree, giving a reason when
  they do not. Without it no two such values agree. -/
  resolve : Option (α → α → Option String)

namespace Partition

variable {α : Type} [Keyed α]

/-- Bind the variable at `discard` to the value at `keep`, unless it occurs there. -/
def bind (d : Discipline α) (p : Partition α) (keep discard : Nat) (kept dropped : α) :
    Option (Conflict α) × Partition α :=
  if d.occursIn dropped kept then (some (.occurs dropped kept), p)
  else (none, p.link keep discard)

/-- Put two values into one class, or say why they cannot be. -/
def unify (d : Discipline α) (p : Partition α) (a b : α) : Option (Conflict α) × Partition α :=
  let (i, p) := p.find a
  let (j, p) := p.find b
  if i = j then (none, p)
  else
    let va := p.valueAt i a
    let vb := p.valueAt j b
    if d.isVariable va then p.bind d j i vb va
    else if d.isVariable vb then p.bind d i j va vb
    else match d.resolve with
      | none => (some (.mismatch va vb none), p)
      | some resolve =>
        match resolve va vb with
        | some reason => (some (.mismatch va vb (some reason)), p)
        | none => (none, p.link i j)

/-- Put each of the values into the class of `first`, stopping at the first conflict. -/
def unifyAll (d : Discipline α) (first : α) :
    Partition α → List α → Option (Conflict α) × Partition α
  | p, [] => (none, (p.find first).2)
  | p, value :: rest =>
    match p.unify d first value with
    | (none, p) => unifyAll d first p rest
    | (some conflict, p) => (some conflict, p)

/-- Put all of the values into one class, stopping at the first conflict. -/
def unifyMany (d : Discipline α) (p : Partition α) : List α → Option (Conflict α) × Partition α
  | [] => (none, p)
  | first :: rest => unifyAll d first p rest

end Partition

namespace Conflict

variable {α : Type}

/-- A conflict in words, the values being written by `write`. -/
def message (write : α → String) : Conflict α → String
  | occurs inner outer =>
    "occurs check failed: " ++ write inner ++ " occurs in " ++ write outer
  | mismatch left right reason =>
    "cannot unify " ++ write left ++ " with " ++ write right
      ++ (reason.elim "" fun reason => ": " ++ reason)

end Conflict

end Turnstile
