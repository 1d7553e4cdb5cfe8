import Turnstile.Proofs.Builds
import Turnstile.Proofs.MostGeneral
import Turnstile.Proofs.TermTypes

/-!
# Most general solutions for terms

Terms are put together by solving equations between types: the domain of a function against the
type of its argument, and the types of the free variables of one name against each other. A
solution is most general: it satisfies the condition it was found for, every other substitution
that does factors through it, and it brings in no type variable that was not there. Where none is
found, none exists.
-/

namespace Turnstile

/-! ## Sorting -/

/-- Inserting an item in order adds it. -/
theorem perm_insertBy {α : Type} (le : α → α → Bool) (a : α) (items : List α) :
    (insertBy le a items).Perm (a :: items) := by
  induction items with
  | nil => exact List.Perm.refl _
  | cons b rest ih =>
    rw [insertBy]
    by_cases before : le a b = true
    · rw [if_pos before]
    · rw [if_neg before]
      exact (ih.cons b).trans (List.Perm.swap a b rest)

/-- Sorting only changes the order. -/
theorem perm_sortBy {α : Type} (le : α → α → Bool) (items : List α) :
    (sortBy le items).Perm items := by
  induction items with
  | nil => exact List.Perm.refl _
  | cons a rest ih => exact (perm_insertBy le a (sortBy le rest)).trans (ih.cons a)

/-- The items after inserting one. -/
theorem mem_insertBy {α : Type} {le : α → α → Bool} {a b : α} {items : List α} :
    b ∈ insertBy le a items ↔ b = a ∨ b ∈ items :=
  (perm_insertBy le a items).mem_iff.trans List.mem_cons

/-- Sorting neither adds nor loses items. -/
theorem mem_sortBy {α : Type} {le : α → α → Bool} {b : α} {items : List α} :
    b ∈ sortBy le items ↔ b ∈ items :=
  (perm_sortBy le items).mem_iff

/-- Sorting by key keeps the elements where keys tell them apart. -/
theorem mem_sortedByKey {α : Type} {key : α → String} {items : List α}
    (injective : ∀ b ∈ items, ∀ c ∈ items, key b = key c → b = c) {a : α} :
    a ∈ sortedByKey key items ↔ a ∈ items := by
  rw [sortedByKey, mem_sortBy]
  induction items generalizing a with
  | nil => simp
  | cons b rest ih =>
    have rest' := @ih fun c member d member' =>
      injective c (by simp [member]) d (by simp [member'])
    rw [List.foldr_cons, List.mem_cons]
    split
    next known =>
      obtain ⟨c, inside, same⟩ := List.any_eq_true.mp known
      have member : c ∈ rest := rest'.mp inside
      obtain rfl : c = b := injective c (by simp [member]) b (by simp) (by simpa using same)
      rw [rest']
      constructor
      · exact .inr
      · rintro (rfl | later)
        · exact member
        · exact later
    next => rw [List.mem_cons, rest']

/-- Sorting variables neither adds nor loses any. -/
theorem mem_sortedVariables {occurrences : List Symbol}
    (plain : ∀ s ∈ occurrences, s.type.Plain) {s : Symbol} :
    s ∈ sortedVariables occurrences ↔ s ∈ occurrences :=
  mem_sortedByKey fun b member c member' =>
    Symbol.varKey_inj (plain b member) (plain c member')

/-! ## Most general solutions -/

/-- The failure is that two types cannot be made equal. -/
def Failure.IsClash (failure : Failure) : Prop := ∃ clash, failure.cause = .clash clash

/-- A substitution that satisfies a condition on some types, and through which every other one
that does factors. -/
structure MostGeneral (types : List Ty) (P : (Int → Ty) → Prop) (θ : Int → Ty) : Prop where
  /-- It satisfies the condition. -/
  holds : P θ
  /-- Every other solution is an instance of it. -/
  general : ∀ σ, P σ → ∀ id, (θ id).mapVars σ = σ id
  /-- It puts plain types. -/
  plain : ∀ id, (θ id).Plain
  /-- It brings in no variable that is not in the types. -/
  confined : ∀ B : Int → Prop, (∀ t ∈ types, Unifier.VarsIn B t) → ∀ id, B id →
    Unifier.VarsIn B (θ id)

/-- The outcome of looking for a solution: a most general one, or none exists. -/
inductive Solution (types : List Ty) (P : (Int → Ty) → Prop) : Except Failure Unifier → Prop
  /-- The unifier puts what a most general solution puts. -/
  | found {u : Unifier} {θ : Int → Ty} (apply : u.apply = Ty.mapVars θ)
    (most : MostGeneral types P θ) : Solution types P (.ok u)
  /-- There is no solution. -/
  | impossible {failure : Failure} (clash : failure.IsClash) (none : ∀ σ, ¬ P σ) :
    Solution types P (.error failure)

namespace MostGeneral

variable {types : List Ty} {P : (Int → Ty) → Prop} {θ σ : Int → Ty}

/-- A solution is an instance of a most general one on whole types. -/
theorem factor (most : MostGeneral types P θ) (solution : P σ) (t : Ty) :
    (t.mapVars θ).mapVars σ = t.mapVars σ := by
  rw [Ty.mapVars_mapVars]
  exact Ty.mapVars_congr fun id _ => most.general σ solution id

/-- Every solution factors through a most general one at each symbol. -/
theorem factor_symbol (most : MostGeneral types P θ) (solution : P σ) (s : Symbol) :
    (s.under θ).under σ = s.under σ := by
  rw [Symbol.under_under, funext (most.general σ solution)]

/-- A solution is an instance of a most general one on whole terms. -/
theorem factor_term (most : MostGeneral types P θ) (solution : P σ) (t : Term) :
    (t.under θ).under σ = t.under σ := by
  rw [Term.under_under, funext (most.general σ solution)]

/-- The substitution that changes nothing is most general where nothing is asked. -/
theorem self (types : List Ty) : MostGeneral types (fun _ => True) .var where
  holds := trivial
  general := fun _ _ _ => rfl
  plain := fun _ => trivial
  confined := by
    intro B _ id known w inside
    obtain rfl : w = id := by simpa [Ty.vars] using inside
    exact known

/-- The most general solution depends on what the solutions are, not on how this is said. -/
theorem congr {P' : (Int → Ty) → Prop} (most : MostGeneral types P θ) (same : ∀ σ, P σ ↔ P' σ) :
    MostGeneral types P' θ :=
  ⟨(same θ).mp most.holds, fun σ solution => most.general σ ((same σ).mpr solution), most.plain,
    most.confined⟩

end MostGeneral

/-- What a consistent unifier puts is a most general solution of its equations. -/
theorem Unifier.Consistent.solution {types : List Ty} {P : (Int → Ty) → Prop} {u : Unifier}
    (consistent : u.Consistent) (solves : ∀ σ, Unifier.Solves σ u ↔ P σ)
    (within : ∀ B, (∀ t ∈ types, Unifier.VarsIn B t) → Unifier.Within (Unifier.VarsIn B) u) :
    Solution types P (.ok u) := by
  obtain ⟨θ, resolves, holds⟩ := consistent.solved
  exact .found (funext (consistent.apply_eq resolves)) {
    holds := (solves θ).mp holds
    general := fun σ solution => consistent.factor_var resolves ((solves σ).mpr solution)
    plain := consistent.plain_value resolves
    confined := fun B inside => consistent.vars_value resolves (within B inside) }

/-- An equation between plain types is solved most generally. -/
theorem Term.equate_solution {a b : Ty} (plainA : a.Plain) (plainB : b.Plain) :
    Solution [a, b] (fun σ => a.mapVars σ = b.mapVars σ) (Term.equate a b) := by
  have answers := Unifier.consistent_empty.unify plainA plainB
  have within : ∀ B, (∀ t ∈ [a, b], Unifier.VarsIn B t) →
      Unifier.Within (Unifier.VarsIn B) (Unifier.empty.unify a b).2 := by
    intro B inside
    exact Unifier.within_empty.unify (Unifier.closed_varsIn B) (inside a (by simp))
      (inside b (by simp))
  rw [Term.equate]
  rcases called : Unifier.empty.unify a b with ⟨_ | clash, u⟩ <;> rw [called] at answers within
  · refine answers.consistent.solution (fun σ => ?_) within
    rw [answers.success rfl σ]
    exact and_iff_right (Unifier.solves_empty σ)
  · exact .impossible ⟨clash, rfl⟩ fun σ =>
      answers.failure (by simp) σ (Unifier.solves_empty σ)

/-! ## One type for each name -/

/-- A substitution that gives the occurrences of one name one type. -/
def Joint (occurrences : List Symbol) (σ : Int → Ty) : Prop :=
  Uniform (occurrences.map (Symbol.under σ))

/-- Occurrences are joined if those of one name have one type. -/
theorem joint_iff {occurrences : List Symbol} {σ : Int → Ty} :
    Joint occurrences σ ↔ ∀ s ∈ occurrences, ∀ s' ∈ occurrences, s.name = s'.name →
      s.type.mapVars σ = s'.type.mapVars σ := by
  simp only [Joint, Uniform, List.forall_mem_map, Symbol.under_name, Symbol.under_type]

/-- The types of the occurrences of a name. -/
def typesOf (occurrences : List Symbol) (name : String) : List Ty :=
  (occurrences.filter fun s => s.name == name).map Symbol.type

/-- The types of a name are those of its occurrences. -/
theorem mem_typesOf {occurrences : List Symbol} {name : String} {t : Ty} :
    t ∈ typesOf occurrences name ↔ ∃ s ∈ occurrences, s.name = name ∧ s.type = t := by
  simp [typesOf, and_assoc]

/-- A substitution that makes types equal. -/
def Equal (types : List Ty) (σ : Int → Ty) : Prop :=
  ∀ t ∈ types, ∀ t' ∈ types, t.mapVars σ = t'.mapVars σ

/-- Types are equal if the first is equal to each of the others. -/
theorem satisfies_many {types : List Ty} {σ : Int → Ty} :
    Unifier.Satisfies σ (Unifier.Request.many types).equations ↔ Equal types σ := by
  match types with
  | [] => simp [Unifier.Satisfies, Unifier.Request.equations, Equal]
  | first :: rest =>
    simp only [Unifier.Satisfies, Unifier.Request.equations, List.forall_mem_map]
    constructor
    · intro firsts
      have all : ∀ t ∈ first :: rest, first.mapVars σ = t.mapVars σ := by
        simpa using firsts
      intro t member t' member'
      rw [← all t member, ← all t' member']
    · intro equal t member
      exact equal first (by simp) t (by simp [member])

/-- The outcome of extending a unifier by a condition on some types. -/
inductive Extension (u : Unifier) (types : List Ty) (P : (Int → Ty) → Prop) :
    Except Failure Unifier → Prop
  /-- The solutions are now the earlier ones that satisfy the condition, and only parts of the
  types have been seen in addition. -/
  | found {v : Unifier} (consistent : v.Consistent)
    (solves : ∀ σ, Unifier.Solves σ v ↔ Unifier.Solves σ u ∧ P σ)
    (within : ∀ B, (∀ t ∈ types, Unifier.VarsIn B t) → Unifier.Within (Unifier.VarsIn B) u →
      Unifier.Within (Unifier.VarsIn B) v) : Extension u types P (.ok v)
  /-- No solution satisfies the condition. -/
  | impossible {failure : Failure} (clash : failure.IsClash)
    (none : ∀ σ, Unifier.Solves σ u → ¬ P σ) : Extension u types P (.error failure)

/-- Fewer than two types are always equal. -/
theorem equal_of_few {types : List Ty} (few : types.length < 2) (σ : Int → Ty) :
    Equal types σ := by
  match types with
  | [] => simp [Equal]
  | [only] => simp [Equal]
  | _ :: _ :: _ =>
    simp only [List.length_cons] at few
    omega

/-- The types of one name are made equal, or cannot be. -/
theorem joinName_extension {occurrences : List Symbol}
    (plain : ∀ s ∈ occurrences, s.type.Plain) {u : Unifier} (consistent : u.Consistent)
    (name : String) :
    Extension u (occurrences.map Symbol.type) (Equal (typesOf occurrences name))
      (joinName occurrences u name) := by
  have plainTypes : ∀ t ∈ typesOf occurrences name, t.Plain := by
    intro t member
    obtain ⟨s, inside, _, rfl⟩ := mem_typesOf.mp member
    exact plain s inside
  by_cases few : (typesOf occurrences name).length < 2
  · have done : joinName occurrences u name = .ok u := if_pos few
    rw [done]
    exact .found consistent (fun σ => (and_iff_left (equal_of_few few σ)).symm)
      fun _ _ within => within
  · have settles : Unifier.Settles u (Unifier.Request.many _).equations
        (u.unifyMany (typesOf occurrences name)) := consistent.answer plainTypes
    have within : ∀ B, (∀ t ∈ occurrences.map Symbol.type, Unifier.VarsIn B t) →
        Unifier.Within (Unifier.VarsIn B) u →
        Unifier.Within (Unifier.VarsIn B) (u.unifyMany (typesOf occurrences name)).2 := by
      intro B inside before
      refine before.unifyMany (Unifier.closed_varsIn B) fun t member => ?_
      obtain ⟨s, occurs, _, rfl⟩ := mem_typesOf.mp member
      exact inside s.type (List.mem_map_of_mem occurs)
    have done : joinName occurrences u name = _ := if_neg few
    rw [done, ← typesOf]
    rcases called : u.unifyMany (typesOf occurrences name) with ⟨_ | clash, v⟩ <;>
      rw [called] at settles within
    · refine .found settles.consistent (fun σ => ?_) within
      rw [settles.success rfl σ, satisfies_many]
    · refine .impossible ⟨clash, rfl⟩ fun σ solves equal => ?_
      exact settles.failure (by simp) σ solves (satisfies_many.mpr equal)

/-- The types of several names are made equal one name after the other, or cannot be. -/
theorem joinNames_extension {occurrences : List Symbol}
    (plain : ∀ s ∈ occurrences, s.type.Plain) (names : List String) : ∀ {u : Unifier},
      u.Consistent →
      Extension u (occurrences.map Symbol.type)
        (fun σ => ∀ name ∈ names, Equal (typesOf occurrences name) σ)
        (names.foldlM (joinName occurrences) u) := by
  induction names with
  | nil =>
    intro u consistent
    exact .found consistent (by simp) fun _ _ within => within
  | cons name rest ih =>
    intro u consistent
    have here := joinName_extension plain consistent name
    rw [List.foldlM_cons]
    cases joined : joinName occurrences u name with
    | error failure =>
      rw [joined] at here
      cases here with
      | impossible clash none =>
        exact .impossible clash fun σ solves all => none σ solves (all name (by simp))
    | ok v =>
      rw [joined] at here
      cases here with
      | found consistent' solves within =>
        change Extension u _ _ (rest.foldlM (joinName occurrences) v)
        have later := ih consistent'
        cases result : rest.foldlM (joinName occurrences) v with
        | error failure =>
          rw [result] at later
          cases later with
          | impossible clash none =>
            refine .impossible clash fun σ before all => ?_
            exact none σ ((solves σ).mpr ⟨before, all name (by simp)⟩)
              fun n member => all n (by simp [member])
        | ok w =>
          rw [result] at later
          cases later with
          | found consistent'' solves' within' =>
            refine .found consistent'' (fun σ => ?_) fun B inside before =>
              within' B inside (within B inside before)
            rw [solves' σ, solves σ, List.forall_mem_cons, and_assoc]

/-- Names have one type each if the types of every name that occurs are equal. -/
theorem joint_iff_equal {occurrences : List Symbol} {σ : Int → Ty} :
    Joint occurrences σ ↔ ∀ name ∈ (occurrences.map Symbol.name).eraseDups,
      Equal (typesOf occurrences name) σ := by
  rw [joint_iff]
  constructor
  · intro joint name _ t member t' member'
    obtain ⟨s, inside, named, rfl⟩ := mem_typesOf.mp member
    obtain ⟨s', inside', named', rfl⟩ := mem_typesOf.mp member'
    exact joint s inside s' inside' (named.trans named'.symm)
  · intro equal s inside s' inside' named
    exact equal s.name (List.mem_eraseDups.mpr (List.mem_map_of_mem inside)) s.type
      (mem_typesOf.mpr ⟨s, inside, rfl, rfl⟩) s'.type
        (mem_typesOf.mpr ⟨s', inside', named.symm, rfl⟩)

/-- The free occurrences in several terms. -/
def freeIn (terms : List Term) : List Symbol := terms.flatMap Term.free

/-- The free variables across terms are their free variables. -/
theorem mem_freeAcross {terms : List Term} (plain : ∀ s ∈ freeIn terms, s.type.Plain)
    {s : Symbol} : s ∈ freeAcross terms ↔ s ∈ freeIn terms := by
  simp only [freeAcross, freeIn, List.mem_flatMap]
  refine exists_congr fun t => and_congr_right fun member => ?_
  exact mem_sortedVariables fun r free => plain r (List.mem_flatMap.mpr ⟨t, member, free⟩)

/-- The free variables of plainly typed terms have plain types. -/
theorem types_freeIn {terms : List Term} (plain : ∀ t ∈ terms, t.PlainlyTyped) :
    ∀ s ∈ freeIn terms, s.type.Plain := by
  intro s member
  obtain ⟨t, inside, free⟩ := List.mem_flatMap.mp member
  exact (plain t inside).free_plain s free

/-- The free variables of plain terms have plain types. -/
theorem plain_freeIn {terms : List Term} (plain : ∀ t ∈ terms, t.Plain) :
    ∀ s ∈ freeIn terms, s.type.Plain :=
  types_freeIn fun t inside => (plain t inside).plainlyTyped

/-- The free variables across well-typed terms go through a change of types. -/
theorem freeIn_under {terms : List Term} {θ : Int → Ty}
    (wellTyped : ∀ t ∈ terms, t.WellTyped) (discerning : ∀ t ∈ terms, t.DiscerningUnder θ) :
    freeIn (terms.map (Term.under θ)) = (freeIn terms).map (Symbol.under θ) := by
  rw [freeIn, freeIn, List.flatMap_map, List.map_flatMap]
  exact List.flatMap_congr fun t inside =>
    (wellTyped t inside).free_under (discerning t inside)

/-- One type for each name is found most generally where the free variables have plain types. -/
theorem jointTypes_solution_of_types {terms : List Term}
    (plain : ∀ s ∈ freeIn terms, s.type.Plain) :
    Solution ((freeIn terms).map Symbol.type) (Joint (freeIn terms)) (jointTypes terms) := by
  have members : ∀ s, s ∈ freeAcross terms ↔ s ∈ freeIn terms := fun s => mem_freeAcross plain
  have same : ∀ σ, Joint (freeAcross terms) σ ↔ Joint (freeIn terms) σ := by
    intro σ
    simp only [joint_iff, members]
  have plainAcross : ∀ s ∈ freeAcross terms, s.type.Plain := fun s member =>
    plain s ((members s).mp member)
  have extension := joinNames_extension plainAcross
    ((freeAcross terms).map Symbol.name).eraseDups Unifier.consistent_empty
  simp only [← joint_iff_equal, same] at extension
  change Solution _ _ (List.foldlM _ _ _)
  cases result : ((freeAcross terms).map Symbol.name).eraseDups.foldlM
      (joinName (freeAcross terms)) Unifier.empty with
  | error failure =>
    rw [result] at extension
    cases extension with
    | impossible clash none =>
      exact .impossible clash fun σ => none σ (Unifier.solves_empty σ)
  | ok u =>
    rw [result] at extension
    cases extension with
    | found consistent solves within =>
      refine consistent.solution (fun σ => ?_) fun B inside => within B ?_ Unifier.within_empty
      · rw [solves σ]
        exact and_iff_right (Unifier.solves_empty σ)
      · intro t member
        obtain ⟨s, occurs, rfl⟩ := List.mem_map.mp member
        exact inside _ (List.mem_map_of_mem ((members s).mp occurs))

/-- One type for each name across plain terms is found most generally. -/
theorem jointTypes_solution {terms : List Term} (plain : ∀ t ∈ terms, t.Plain) :
    Solution ((freeIn terms).map Symbol.type) (Joint (freeIn terms)) (jointTypes terms) :=
  jointTypes_solution_of_types (plain_freeIn plain)

end Turnstile
