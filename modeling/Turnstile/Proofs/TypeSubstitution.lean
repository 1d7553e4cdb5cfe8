import Turnstile.Ty.Basic

/-!
# Substituting types for type variables

`Ty.mapVars` is substitution. It composes, has the variables as identity, and depends only on
the variables that occur. A variable that occurs in a type has an instance that is a part of the
type's instance, so sizes tell them apart.
-/

namespace Turnstile.Ty

/-- Substituting twice is substituting the instances. -/
@[simp] theorem mapVars_mapVars (f g : Int → Ty) (t : Ty) :
    (t.mapVars f).mapVars g = t.mapVars fun id => (f id).mapVars g := by
  induction t with
  | const name => rfl
  | var id => rfl
  | arrow d c dIh cIh => simp only [mapVars, dIh, cIh]

/-- Substituting every variable for itself changes nothing. -/
@[simp] theorem mapVars_var (t : Ty) : t.mapVars var = t := by
  induction t with
  | const name => rfl
  | var id => rfl
  | arrow d c dIh cIh => simp only [mapVars, dIh, cIh]

/-- A substitution is seen only where its variables occur. -/
theorem mapVars_congr {f g : Int → Ty} {t : Ty} (same : ∀ id ∈ t.vars, f id = g id) :
    t.mapVars f = t.mapVars g := by
  induction t with
  | const name => rfl
  | var id => exact same id (by simp [vars])
  | arrow d c dIh cIh =>
    simp only [mapVars]
    rw [dIh fun id inside => same id (by simp [vars, inside]),
      cIh fun id inside => same id (by simp [vars, inside])]

/-- Two substitutions with one result agree on the variables that occur. -/
theorem eq_of_mapVars_eq {f g : Int → Ty} {t : Ty} (same : t.mapVars f = t.mapVars g) :
    ∀ id ∈ t.vars, f id = g id := by
  induction t with
  | const name => simp [vars]
  | var id =>
    intro id' inside
    obtain rfl : id' = id := by simpa [vars] using inside
    exact same
  | arrow d c dIh cIh =>
    simp only [mapVars, arrow.injEq] at same
    intro id inside
    rcases List.mem_append.mp inside with left | right
    · exact dIh same.1 id left
    · exact cIh same.2 id right

/-- The variables of an instance are those of the types put in. -/
theorem mem_vars_mapVars {f : Int → Ty} {t : Ty} {w : Int} :
    w ∈ (t.mapVars f).vars ↔ ∃ id ∈ t.vars, w ∈ (f id).vars := by
  induction t with
  | const name => simp [mapVars, vars]
  | var id => simp [mapVars, vars]
  | arrow d c dIh cIh => simp [mapVars, vars, dIh, cIh, or_and_right, exists_or]

/-- A type without variables is its own only instance. -/
theorem mapVars_of_vars_nil {t : Ty} (ground : t.vars = []) (f : Int → Ty) : t.mapVars f = t := by
  calc t.mapVars f = t.mapVars var := mapVars_congr (by simp [ground])
    _ = t := mapVars_var t

/-- A type has at least one constructor. -/
theorem size_pos (t : Ty) : 0 < t.size := by
  cases t <;> simp [size]

/-- The instance of a variable is no larger than that of a type in which it occurs. -/
theorem size_le_of_mem_vars {f : Int → Ty} {t : Ty} {id : Int} (inside : id ∈ t.vars) :
    (f id).size ≤ (t.mapVars f).size := by
  induction t with
  | const name => simp [vars] at inside
  | var id' =>
    obtain rfl : id = id' := by simpa [vars] using inside
    exact Nat.le_refl _
  | arrow d c dIh cIh =>
    simp only [mapVars, size]
    rcases List.mem_append.mp inside with left | right
    · have := dIh left; omega
    · have := cIh right; omega

/-- The instance of a variable is smaller than that of another type in which it occurs. -/
theorem size_lt_of_mem_vars {f : Int → Ty} {t : Ty} {id : Int} (inside : id ∈ t.vars)
    (other : t.isVar = false) : (f id).size < (t.mapVars f).size := by
  cases t with
  | const name => simp [vars] at inside
  | var id' => simp [isVar] at other
  | arrow d c =>
    simp only [mapVars, size]
    rcases List.mem_append.mp inside with left | right
    · have := size_le_of_mem_vars (f := f) left; omega
    · have := size_le_of_mem_vars (f := f) right; omega

/-- A traversal that finds every variable's type gives the instance. -/
theorem traverseVars_eq_some {f : Int → Option Ty} {g : Int → Ty} {t : Ty}
    (found : ∀ id ∈ t.vars, f id = some (g id)) : t.traverseVars f = some (t.mapVars g) := by
  induction t with
  | const name => rfl
  | var id => exact found id (by simp [vars])
  | arrow d c dIh cIh =>
    simp only [traverseVars, mapVars]
    rw [dIh fun id inside => found id (by simp [vars, inside]),
      cIh fun id inside => found id (by simp [vars, inside])]
    rfl

/-- Whether a variable occurs, as membership. -/
@[simp] theorem occurs_iff {id : Int} {t : Ty} : t.occurs id = true ↔ id ∈ t.vars := by
  simp [occurs]

end Turnstile.Ty
