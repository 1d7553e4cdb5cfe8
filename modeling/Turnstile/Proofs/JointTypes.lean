import Turnstile.Proofs.Applications
import Turnstile.Proofs.Renaming

/-!
# One type for each name

Across terms whose variables have types of plain names, the free variables of one name are given one
type most generally. Names may be any: the key of a variable ends with that of its type, which has
no colon, so it tells both. Binders still hide all occurrences of their names and no others when
types are put for type variables, so that the free variables of the results are those of the terms,
and the results are left as they are when they are joined again.

In which order the terms stand decides in which order names are taken, and with that which of two
equal type variables stands for both. Two most general solutions put renamed types: where one of
them leaves a variable as it is, the other puts a variable for it, and the first leaves that to be
the one it came from.
-/

namespace Turnstile

/-! ## Two most general solutions -/

/-- A number that bounds finitely many numbers. -/
theorem exists_bound (r : Int → Int) (ids : List Int) :
    ∃ bound : Int, 0 ≤ bound ∧ ∀ id ∈ ids, -bound < r id ∧ r id < bound := by
  induction ids with
  | nil => exact ⟨0, Int.le_refl 0, by simp⟩
  | cons id rest ih =>
    obtain ⟨bound, positive, all⟩ := ih
    refine ⟨max bound ((r id).natAbs + 1), by omega, List.forall_mem_cons.mpr
      ⟨by omega, fun other inside => ?_⟩⟩
    obtain ⟨low, high⟩ := all other inside
    omega

/-- What is done to finitely many type variables, different ones staying different, can be done by a
renaming. -/
theorem Renaming.exists_extending (r : Int → Int) (ids : List Int)
    (injective : ∀ id ∈ ids, ∀ id' ∈ ids, r id = r id' → id = id') :
    ∃ ρ : Renaming, ∀ id ∈ ids, ρ.type id = r id := by
  obtain ⟨bound, positive, within⟩ := exists_bound r ids
  -- Other variables are moved away from where those of the list go.
  let moved : Int → Int := fun id =>
    if id ∈ ids then r id else if 0 ≤ id then id + bound else id - bound
  refine ⟨⟨moved, fun id => id, False, fun id id' same => ?_, fun _ _ same => same⟩,
    fun id inside => ?_⟩
  · simp only [moved] at same
    by_cases inside : id ∈ ids <;> by_cases inside' : id' ∈ ids <;>
      simp only [inside, inside', if_true, if_false] at same
    · exact injective id inside id' inside' same
    · have := within id inside
      split at same <;> omega
    · have := within id' inside'
      split at same <;> omega
    · split at same <;> split at same <;> omega
  · exact if_pos inside

namespace MostGeneral

variable {types types' : List Ty} {P : (Int → Ty) → Prop} {θ θ' : Int → Ty}

/-- What a most general solution puts it leaves as it is. -/
theorem idempotent (most : MostGeneral types P θ) {id w : Int} (inside : w ∈ (θ id).vars) :
    θ w = .var w := by
  have same : (θ id).mapVars θ = (θ id).mapVars .var := by
    rw [most.general θ most.holds, Ty.mapVars_var]
  exact Ty.eq_of_mapVars_eq same w inside

/-- For a variable that one most general solution leaves as it is another puts a variable, and the
first puts the variable for that one. -/
theorem exists_var (most : MostGeneral types P θ) (most' : MostGeneral types' P θ') {w : Int}
    (left : θ w = .var w) : ∃ w', θ' w = .var w' ∧ θ w' = .var w := by
  have back : (θ' w).mapVars θ = .var w := (most'.general θ most.holds w).trans left
  cases put : θ' w with
  | const name =>
    rw [put] at back
    cases back
  | arrow d c =>
    rw [put] at back
    cases back
  | var w' =>
    rw [put] at back
    exact ⟨w', rfl, back⟩

/-- Most general solutions of one condition put renamed types for finitely many variables. -/
theorem exists_renaming (most : MostGeneral types P θ) (most' : MostGeneral types' P θ')
    (ids : List Int) : ∃ ρ : Renaming, ∀ id ∈ ids, θ' id = (θ id).mapVars ρ.types := by
  let used := ids.flatMap fun id => (θ id).vars
  have kept : ∀ w ∈ used, θ w = .var w := fun w inside => by
    obtain ⟨id, -, occurs⟩ := List.mem_flatMap.mp inside
    exact most.idempotent occurs
  choose r put back using fun (w : Int) (left : θ w = .var w) => most.exists_var most' left
  let moved : Int → Int := fun w => if left : θ w = .var w then r w left else w
  have movedTo : ∀ w ∈ used, ∃ left, moved w = r w left := fun w inside =>
    ⟨kept w inside, dif_pos (kept w inside)⟩
  obtain ⟨ρ, extends_⟩ := Renaming.exists_extending moved used fun w inside w' inside' same => by
    obtain ⟨left, is⟩ := movedTo w inside
    obtain ⟨left', is'⟩ := movedTo w' inside'
    have returned : Ty.var w = .var w' := by
      rw [← back w left, ← back w' left', ← is, ← is', same]
    exact Ty.var.inj returned
  refine ⟨ρ, fun id inside => ?_⟩
  rw [← most.general θ' most'.holds id]
  refine Ty.mapVars_congr fun w occurs => ?_
  have listed : w ∈ used := List.mem_flatMap.mpr ⟨id, inside, occurs⟩
  obtain ⟨left, is⟩ := movedTo w listed
  rw [put w left, Renaming.types_apply, extends_ w listed, is]

end MostGeneral

/-! ## Joining -/

namespace Term

variable {terms terms' : List Term} {θ : Int → Ty}

/-- Terms are joined under a most general solution, or there is none. -/
theorem unifyTypes_solution (plain : ∀ t ∈ terms, t.PlainlyTyped) :
    (∃ θ, MostGeneral ((freeIn terms).map Symbol.type) (Joint (freeIn terms)) θ ∧
      unifyTypes terms = .ok (terms.map (Term.under θ))) ∨
    (∃ failure, unifyTypes terms = .error failure) ∧ ∀ σ, ¬Joint (freeIn terms) σ := by
  have solution := jointTypes_solution_of_types (types_freeIn plain)
  rw [unifyTypes]
  cases joined : jointTypes terms with
  | error failure =>
    rw [joined] at solution
    cases solution with
    | impossible clash none => exact .inr ⟨⟨failure, rfl⟩, none⟩
  | ok u =>
    rw [joined] at solution
    cases solution with
    | @found _ θ apply most =>
      refine .inl ⟨θ, most, ?_⟩
      rw [← show terms.map (Term.applyTypes u) = terms.map (Term.under θ) from
        List.map_congr_left fun t _ => applyTypes_eq apply t]
      rfl

/-- Where names have one type each already, joining changes nothing. -/
theorem unifyTypes_uniform (plain : ∀ t ∈ terms, t.PlainlyTyped)
    (uniform : Uniform (freeIn terms)) : unifyTypes terms = .ok terms := by
  obtain ⟨u, joined, apply⟩ := jointTypes_uniform (types_freeIn plain) uniform
  rw [unifyTypes, joined]
  change Except.ok (terms.map (applyTypes u)) = _
  rw [applyTypes_self apply, List.map_id]

/-- The type variables of a term. -/
def typeVars : Term → List Int
  | const s => s.type.vars
  | var s => s.type.vars
  | app f x => f.typeVars ++ x.typeVars
  | lam v body => v.type.vars ++ body.typeVars

/-- The type variables of a term are listed. -/
theorem varsIn_typeVars (t : Term) : t.VarsIn (· ∈ t.typeVars) := by
  induction t with
  | const s => exact fun id occurs => occurs
  | var s => exact fun id occurs => occurs
  | app f x ihF ihX =>
    exact ⟨ihF.mono fun id => List.mem_append_left _, ihX.mono fun id => List.mem_append_right _⟩
  | lam v body ih =>
    exact ⟨fun id => List.mem_append_left _, ih.mono fun id => List.mem_append_right _⟩

/-- In whatever order terms are joined, they are joined alike up to a renaming of their type
variables. -/
theorem unifyTypes_perm (plain : ∀ t ∈ terms, t.PlainlyTyped) (shuffled : terms.Perm terms')
    (most : MostGeneral ((freeIn terms).map Symbol.type) (Joint (freeIn terms)) θ) :
    ∃ ρ : Renaming, unifyTypes terms' =
      .ok (terms'.map fun t => (t.under θ).under ρ.types) := by
  have plain' : ∀ t ∈ terms', t.PlainlyTyped := fun t inside =>
    plain t (shuffled.mem_iff.mpr inside)
  have free : (freeIn terms).Perm (freeIn terms') := shuffled.flatMap_right _
  have same : ∀ σ, Joint (freeIn terms') σ ↔ Joint (freeIn terms) σ := fun σ => by
    simp only [joint_iff, free.mem_iff]
  rcases unifyTypes_solution plain' with ⟨θ', most', joined⟩ | ⟨-, none⟩
  · obtain ⟨ρ, renames⟩ := most.exists_renaming (most'.congr same) (terms'.flatMap typeVars)
    refine ⟨ρ, ?_⟩
    rw [joined]
    refine congrArg Except.ok (List.map_congr_left fun t inside => ?_)
    rw [under_under]
    exact t.varsIn_typeVars.under_congr fun id occurs =>
      renames id (List.mem_flatMap.mpr ⟨t, inside, occurs⟩)
  · exact absurd ((same θ).mpr most.holds) (none θ)

/-- Good terms whose variables have types of plain names can be joined exactly if some substitution
gives the free variables of each name one type. They are then joined under a most general one; the
free variables of one name have one type across the results; joining the results changes nothing;
and in another order the terms are joined alike, up to a renaming of type variables. -/
theorem unifyTypes_joins (good : ∀ t ∈ terms, t.Good) (plain : ∀ t ∈ terms, t.PlainlyTyped) :
    ((∃ results, unifyTypes terms = .ok results) ↔ ∃ σ, Joint (freeIn terms) σ) ∧
    ∀ results, unifyTypes terms = .ok results →
      Uniform (freeIn results) ∧ unifyTypes results = .ok results ∧
      ∃ θ, MostGeneral ((freeIn terms).map Symbol.type) (Joint (freeIn terms)) θ ∧
        results = terms.map (Term.under θ) ∧
        ∀ terms', terms.Perm terms' → ∃ ρ : Renaming, unifyTypes terms' =
          .ok (terms'.map fun t => (t.under θ).under ρ.types) := by
  rcases unifyTypes_solution plain with ⟨θ, most, joined⟩ | ⟨⟨failure, failed⟩, none⟩
  · refine ⟨iff_of_true ⟨_, joined⟩ ⟨θ, most.holds⟩, fun results is => ?_⟩
    rw [joined] at is
    cases is
    have uniform : Uniform (freeIn (terms.map (Term.under θ))) := by
      rw [freeIn_under (fun t inside => (good t inside).wellTyped)
        fun t inside => (plain t inside).discerningUnder most.plain]
      exact most.holds
    have plain' : ∀ t ∈ terms.map (Term.under θ), t.PlainlyTyped :=
      List.forall_mem_map.mpr fun t inside => (plain t inside).under most.plain
    exact ⟨uniform, unifyTypes_uniform plain' uniform, θ, most, rfl,
      fun terms' shuffled => unifyTypes_perm plain shuffled most⟩
  · refine ⟨iff_of_false ?_ ?_, fun results is => ?_⟩
    · rintro ⟨results, is⟩
      cases failed.symm.trans is
    · rintro ⟨σ, joint⟩
      exact none σ joint
    · cases failed.symm.trans is

/-- A function applied to an argument of an open type, and a truth value of the argument's name. -/
def twoTerms : List Term :=
  [.app (.var ⟨"f", .arrow (.var 1) .obj⟩) (.var ⟨"x", .var 1⟩), .var ⟨"x", .bool⟩]

/-- The two terms can be joined in both orders, and what they are joined to stays as it is. -/
theorem unifyTypes_joins_two : (∀ t ∈ twoTerms, t.Good) ∧ (∀ t ∈ twoTerms, t.PlainlyTyped) ∧
    ∃ results θ, unifyTypes twoTerms = .ok results ∧ Uniform (freeIn results) ∧
      unifyTypes results = .ok results ∧ Joint (freeIn twoTerms) θ ∧
      ∃ ρ : Renaming, unifyTypes twoTerms.reverse =
        .ok (twoTerms.reverse.map fun t => (t.under θ).under ρ.types) := by
  have good : ∀ t ∈ twoTerms, t.Good := by
    refine List.forall_mem_cons.mpr ⟨⟨⟨trivial, trivial, .obj, rfl⟩, ?_⟩, ?_⟩
    · simp [Uniform, free]
    · exact List.forall_mem_singleton.mpr ⟨trivial, by simp [Uniform, free]⟩
  have plain : ∀ t ∈ twoTerms, t.PlainlyTyped := by
    refine List.forall_mem_cons.mpr ⟨⟨⟨trivial, ?_⟩, trivial⟩, List.forall_mem_singleton.mpr ?_⟩
    · exact Ty.plain_obj
    · exact Ty.plain_bool
  have joinable : ∃ σ, Joint (freeIn twoTerms) σ :=
    ⟨fun _ => .bool, by simp [Joint, Uniform, twoTerms, freeIn, free, Ty.mapVars, Ty.bool]⟩
  obtain ⟨exactly, joined⟩ := unifyTypes_joins good plain
  obtain ⟨results, is⟩ := exactly.mpr joinable
  obtain ⟨uniform, again, θ, most, -, shuffled⟩ := joined results is
  exact ⟨good, plain, results, θ, is, uniform, again, most.holds,
    shuffled _ (List.reverse_perm twoTerms).symm⟩

/-- Two terms of one name whose types have one key. -/
def crossedTerms : List Term :=
  [.var ⟨"x", .arrow (.const "a,'b") (.const "c")⟩, .var ⟨"x", .arrow (.const "a") (.const "b,'c")⟩]

/-- Terms whose types are not made of identifiers may be joined though no substitution gives their
variables one type. -/
theorem unifyTypes_crossed : (∀ t ∈ crossedTerms, t.Good) ∧
    unifyTypes crossedTerms = .ok crossedTerms ∧ ¬∃ σ, Joint (freeIn crossedTerms) σ := by
  refine ⟨?_, ?_, ?_⟩
  · refine List.forall_mem_cons.mpr ⟨⟨trivial, by simp [Uniform, free]⟩,
      List.forall_mem_singleton.mpr ⟨trivial, by simp [Uniform, free]⟩⟩
  · have joined : (unifyTypes crossedTerms).toOption = some crossedTerms := by decide +kernel
    cases is : unifyTypes crossedTerms with
    | error failure =>
      rw [is] at joined
      cases joined
    | ok results =>
      rw [is] at joined
      rw [Option.some.inj joined]
  · rintro ⟨σ, joint⟩
    have types := joint_iff.mp joint
      ⟨"x", .arrow (.const "a,'b") (.const "c")⟩ (by simp [freeIn, crossedTerms, free])
      ⟨"x", .arrow (.const "a") (.const "b,'c")⟩ (by simp [freeIn, crossedTerms, free]) rfl
    simp [Ty.mapVars] at types

end Term

end Turnstile
