import Mathlib.Data.List.Basic
import Turnstile.Proofs.Names
import Turnstile.Proofs.TypeSubstitution
import Turnstile.Term.Inference

/-!
# Good terms

A term is well typed if every function is applied to an argument of its domain and the free
occurrences of a bound name in the body have the type of the bound variable. It is good if
moreover its free variables of one name have one type. Because a binder then hides every free
occurrence of its name, putting types for type variables cannot let a binder catch a variable
that was free before: types, free variables and goodness go through a change of types.

What a binder hides is decided by the keys of variables. These tell names apart where the types of
variables are made of plain names, whatever their own names are, and where their own names are
plain, whatever their types are.
-/

namespace Turnstile

/-! ## Symbols -/

/-- A symbol with types put for its type variables. -/
def Symbol.under (θ : Int → Ty) (s : Symbol) : Symbol := s.mapType (Ty.mapVars θ)

/-- A substitution of types leaves the name of a symbol. -/
@[simp] theorem Symbol.under_name (θ : Int → Ty) (s : Symbol) : (s.under θ).name = s.name := rfl

/-- A substitution of types changes the type of a symbol. -/
@[simp] theorem Symbol.under_type (θ : Int → Ty) (s : Symbol) :
    (s.under θ).type = s.type.mapVars θ := rfl

/-- Symbols are the same if name and type are. -/
theorem Symbol.ext_iff' {s s' : Symbol} : s = s' ↔ s.name = s'.name ∧ s.type = s'.type := by
  cases s
  cases s'
  simp

/-- Substituting types twice is substituting once. -/
@[simp] theorem Symbol.under_under (θ σ : Int → Ty) (s : Symbol) :
    (s.under θ).under σ = s.under fun id => (θ id).mapVars σ := by
  rw [Symbol.ext_iff']
  simp

/-- Putting every type variable for itself leaves a symbol. -/
@[simp] theorem Symbol.under_self (s : Symbol) : s.under .var = s := by
  rw [Symbol.ext_iff']
  simp

/-- Occurrences of one name have one type. -/
def Uniform (occurrences : List Symbol) : Prop :=
  ∀ s ∈ occurrences, ∀ s' ∈ occurrences, s.name = s'.name → s.type = s'.type

/-- Fewer occurrences are uniform, too. -/
theorem Uniform.subset {occurrences fewer : List Symbol} (uniform : Uniform occurrences)
    (inside : fewer ⊆ occurrences) : Uniform fewer :=
  fun s member s' member' => uniform s (inside member) s' (inside member')

namespace Term

/-! ## Well-typed, plain and good terms -/

/-- Functions are applied to arguments of their domains, and binders have the type of what they
bind. -/
def WellTyped : Term → Prop
  | const _ => True
  | var _ => True
  | app f x => f.WellTyped ∧ x.WellTyped ∧ ∃ codomain, f.type = .arrow x.type codomain
  | lam v body => body.WellTyped ∧ ∀ s ∈ body.free, s.name = v.name → s.type = v.type

/-- The names of variables are plain. -/
def Named : Term → Prop
  | const _ => True
  | var s => isPlain s.name = true
  | app f x => f.Named ∧ x.Named
  | lam v body => isPlain v.name = true ∧ body.Named

/-- The names in the types of variables are plain. -/
def PlainlyTyped : Term → Prop
  | const _ => True
  | var s => s.type.Plain
  | app f x => f.PlainlyTyped ∧ x.PlainlyTyped
  | lam v body => v.type.Plain ∧ body.PlainlyTyped

/-- The names in all types are plain. -/
def Plain : Term → Prop
  | const s => s.type.Plain
  | var s => s.type.Plain
  | app f x => f.Plain ∧ x.Plain
  | lam v body => v.type.Plain ∧ body.Plain

/-- Binders hide variables of their own names only: the keys of variables tell the names apart. -/
def Discerning : Term → Prop
  | const _ => True
  | var _ => True
  | app f x => f.Discerning ∧ x.Discerning
  | lam v body => (∀ s ∈ body.free, s.varKey = v.varKey → s.name = v.name) ∧ body.Discerning

/-- A well-typed term whose free variables of one name have one type. -/
structure Good (t : Term) : Prop where
  /-- It is well typed. -/
  wellTyped : t.WellTyped
  /-- Its free variables of one name have one type. -/
  uniform : Uniform t.free

/-- A good term of plain types. -/
structure Proper (t : Term) : Prop extends t.Good where
  /-- Its types are plain. -/
  plain : t.Plain

variable {t f x b : Term} {v s : Symbol} {θ : Int → Ty}

/-- A plain term has a plain type. -/
theorem Plain.type_plain (plain : t.Plain) : t.type.Plain := by
  induction t with
  | const s => exact plain
  | var s => exact plain
  | app f x ihF ihX =>
    have function := ihF plain.1
    rw [type]
    cases kind : f.type with
    | const name => rw [kind] at function; exact function
    | var id => trivial
    | arrow d c => rw [kind] at function; exact function.2
  | lam v body ih => exact ⟨plain.1, ih plain.2⟩

/-- Plain terms have plain types. -/
theorem Plain.plainlyTyped (plain : t.Plain) : t.PlainlyTyped := by
  induction t with
  | const s => trivial
  | var s => exact plain
  | app f x ihF ihX => exact ⟨ihF plain.1, ihX plain.2⟩
  | lam v body ih => exact ⟨plain.1, ih plain.2⟩

/-- The free variables of a plainly typed term have plain types. -/
theorem PlainlyTyped.free_plain (plain : t.PlainlyTyped) : ∀ s ∈ t.free, s.type.Plain := by
  induction t with
  | const s => simp [free]
  | var s =>
    intro s' member
    obtain rfl : s' = s := by simpa [free] using member
    exact plain
  | app f x ihF ihX =>
    intro s member
    rcases List.mem_append.mp member with left | right
    · exact ihF plain.1 s left
    · exact ihX plain.2 s right
  | lam v body ih =>
    intro s member
    exact ih plain.2 s (List.mem_of_mem_filter member)

/-- The free variables of a plain term have plain types. -/
theorem Plain.free_plain (plain : t.Plain) : ∀ s ∈ t.free, s.type.Plain :=
  plain.plainlyTyped.free_plain

/-- The free variables of a term of plain names have plain names. -/
theorem Named.free_named (named : t.Named) : ∀ s ∈ t.free, isPlain s.name = true := by
  induction t with
  | const s => simp [free]
  | var s =>
    intro s' member
    obtain rfl : s' = s := by simpa [free] using member
    exact named
  | app f x ihF ihX =>
    intro s member
    rcases List.mem_append.mp member with left | right
    · exact ihF named.1 s left
    · exact ihX named.2 s right
  | lam v body ih =>
    intro s member
    exact ih named.2 s (List.mem_of_mem_filter member)

/-- Where the types of variables are plain, binders are discerning whatever the names are. -/
theorem PlainlyTyped.discerning (plain : t.PlainlyTyped) : t.Discerning := by
  induction t with
  | const s => trivial
  | var s => trivial
  | app f x ihF ihX => exact ⟨ihF plain.1, ihX plain.2⟩
  | lam v body ih =>
    refine ⟨fun s member same => ?_, ih plain.2⟩
    rw [Symbol.varKey_inj (plain.2.free_plain s member) plain.1 same]

/-- Keys tell the symbols of a plain term apart. -/
theorem Plain.discerning (plain : t.Plain) : t.Discerning := plain.plainlyTyped.discerning

/-- Where the names of variables are plain, binders are discerning whatever the types are. -/
theorem Named.discerning (named : t.Named) : t.Discerning := by
  induction t with
  | const s => trivial
  | var s => trivial
  | app f x ihF ihX => exact ⟨ihF named.1, ihX named.2⟩
  | lam v body ih =>
    exact ⟨fun s member => Symbol.name_of_varKey (named.2.free_named s member) named.1,
      ih named.2⟩

/-- What is free in a plain abstraction. -/
theorem Plain.mem_free_lam (plain : (lam v b).Plain) :
    s ∈ (lam v b).free ↔ s ∈ b.free ∧ s ≠ v := by
  rw [free, List.mem_filter, bne_iff_ne]
  refine and_congr_right fun inside => not_congr ⟨fun keys => ?_, congrArg Symbol.varKey⟩
  exact Symbol.varKey_inj (plain.2.free_plain s inside) plain.1 keys

/-- What is free in a well-typed abstraction: everything free in the body but what has the name
of its variable. -/
theorem WellTyped.mem_free_lam (wellTyped : (lam v b).WellTyped)
    (discerning : (lam v b).Discerning) :
    s ∈ (lam v b).free ↔ s ∈ b.free ∧ s.name ≠ v.name := by
  rw [free, List.mem_filter, bne_iff_ne]
  refine and_congr_right fun member => not_congr ⟨fun same => ?_, fun same => ?_⟩
  · exact discerning.1 s member same
  · exact congrArg Symbol.varKey (Symbol.ext_iff'.mpr ⟨same, wellTyped.2 s member same⟩)

/-- The function of a good application is good. -/
theorem Good.function (good : (app f x).Good) : f.Good :=
  ⟨good.wellTyped.1, good.uniform.subset (List.subset_append_left _ _)⟩

/-- So is its argument. -/
theorem Good.argument (good : (app f x).Good) : x.Good :=
  ⟨good.wellTyped.2.1, good.uniform.subset (List.subset_append_right _ _)⟩

/-- The occurrences in the body that are not bound have one type for each name, and those that
are bound have the type of the binder. -/
theorem Good.body (good : (lam v b).Good) (discerning : (lam v b).Discerning) : b.Good := by
  refine ⟨good.wellTyped.1, fun s member s' member' same => ?_⟩
  by_cases bound : s.name = v.name
  · rw [good.wellTyped.2 s member bound, good.wellTyped.2 s' member' (same.symm.trans bound)]
  · have outer : ∀ r ∈ b.free, r.name = s.name → r ∈ (lam v b).free := fun r inside name =>
      (good.wellTyped.mem_free_lam discerning).mpr ⟨inside, name ▸ bound⟩
    exact good.uniform s (outer s member rfl) s' (outer s' member' same.symm) same

/-- The function of a proper application is proper. -/
theorem Proper.function (proper : (app f x).Proper) : f.Proper :=
  ⟨proper.toGood.function, proper.plain.1⟩

/-- So is its argument. -/
theorem Proper.argument (proper : (app f x).Proper) : x.Proper :=
  ⟨proper.toGood.argument, proper.plain.2⟩

/-- The body of a proper abstraction is proper. -/
theorem Proper.body (proper : (lam v b).Proper) : b.Proper :=
  ⟨proper.toGood.body proper.plain.discerning, proper.plain.2⟩

/-! ## Types put for type variables -/

/-- A term with types put for its type variables. -/
def under (θ : Int → Ty) (t : Term) : Term := t.mapTypes (Ty.mapVars θ)

/-- Types are substituted in a constant. -/
@[simp] theorem under_const (θ : Int → Ty) (s : Symbol) :
    (const s).under θ = const (s.under θ) := rfl

/-- Types are substituted in a variable. -/
@[simp] theorem under_var (θ : Int → Ty) (s : Symbol) : (var s).under θ = var (s.under θ) := rfl

/-- Types are substituted in both parts of an application. -/
@[simp] theorem under_app (θ : Int → Ty) (f x : Term) :
    (app f x).under θ = app (f.under θ) (x.under θ) := rfl

/-- Types are substituted in the binder and the body of an abstraction. -/
@[simp] theorem under_lam (θ : Int → Ty) (v : Symbol) (b : Term) :
    (lam v b).under θ = lam (v.under θ) (b.under θ) := rfl

/-- Substituting types twice in a term is substituting once. -/
@[simp] theorem under_under (θ σ : Int → Ty) (t : Term) :
    (t.under θ).under σ = t.under fun id => (θ id).mapVars σ := by
  induction t with
  | const s => simp
  | var s => simp
  | app f x ihF ihX => simp [ihF, ihX]
  | lam v body ih => simp [ih]

/-- Putting every type variable for itself leaves a term. -/
@[simp] theorem under_self (t : Term) : t.under .var = t := by
  induction t with
  | const s => simp
  | var s => simp
  | app f x ihF ihX => simp [ihF, ihX]
  | lam v body ih => simp [ih]

/-- The type of a well-typed term goes through the change. -/
theorem WellTyped.type_under (wellTyped : t.WellTyped) :
    (t.under θ).type = t.type.mapVars θ := by
  induction t with
  | const s => rfl
  | var s => rfl
  | app f x ihF ihX =>
    obtain ⟨function, _, codomain, kind⟩ := wellTyped
    rw [under_app, type, ihF function, type, kind]
    rfl
  | lam v body ih =>
    rw [under_lam, type, ih wellTyped.1]
    rfl

/-- Substituting types leaves names plain. -/
theorem Named.under (named : t.Named) : (t.under θ).Named := by
  induction t with
  | const s => trivial
  | var s => exact named
  | app f x ihF ihX => exact ⟨ihF named.1, ihX named.2⟩
  | lam v body ih => exact ⟨named.1, ih named.2⟩

/-- Substituting plain types leaves types plain. -/
theorem PlainlyTyped.under (plain : t.PlainlyTyped) (values : ∀ id, (θ id).Plain) :
    (t.under θ).PlainlyTyped := by
  induction t with
  | const s => trivial
  | var s => exact Ty.Plain.mapVars plain fun id _ => values id
  | app f x ihF ihX => exact ⟨ihF plain.1, ihX plain.2⟩
  | lam v body ih => exact ⟨Ty.Plain.mapVars plain.1 fun id _ => values id, ih plain.2⟩

/-- Substituting plain types leaves terms plain. -/
theorem Plain.under (plain : t.Plain) (values : ∀ id, (θ id).Plain) : (t.under θ).Plain := by
  induction t with
  | const s => exact Ty.Plain.mapVars plain fun id _ => values id
  | var s => exact Ty.Plain.mapVars plain fun id _ => values id
  | app f x ihF ihX => exact ⟨ihF plain.1, ihX plain.2⟩
  | lam v body ih => exact ⟨Ty.Plain.mapVars plain.1 fun id _ => values id, ih plain.2⟩

/-- Binders hide variables of their own names only before and after a change of types. -/
structure DiscerningUnder (θ : Int → Ty) (t : Term) : Prop where
  /-- They do before it. -/
  before : t.Discerning
  /-- They do after it. -/
  after : (t.under θ).Discerning

/-- Plain types may be put for the type variables of plain types. -/
theorem PlainlyTyped.discerningUnder (plain : t.PlainlyTyped) (values : ∀ id, (θ id).Plain) :
    t.DiscerningUnder θ :=
  ⟨plain.discerning, (plain.under values).discerning⟩

/-- Keys go on telling the symbols of a plain term apart when plain types are substituted. -/
theorem Plain.discerningUnder (plain : t.Plain) (values : ∀ id, (θ id).Plain) :
    t.DiscerningUnder θ :=
  plain.plainlyTyped.discerningUnder values

/-- Where the names of variables are plain, any types may be put. -/
theorem Named.discerningUnder (named : t.Named) : t.DiscerningUnder θ :=
  ⟨named.discerning, named.under.discerning⟩

/-- What keys tell apart in an application they tell apart in its function. -/
theorem DiscerningUnder.function (discerning : (app f x).DiscerningUnder θ) : f.DiscerningUnder θ :=
  ⟨discerning.before.1, discerning.after.1⟩

/-- What keys tell apart in an application they tell apart in its argument. -/
theorem DiscerningUnder.argument (discerning : (app f x).DiscerningUnder θ) : x.DiscerningUnder θ :=
  ⟨discerning.before.2, discerning.after.2⟩

/-- What keys tell apart in an abstraction they tell apart in its body. -/
theorem DiscerningUnder.body (discerning : (lam v b).DiscerningUnder θ) : b.DiscerningUnder θ :=
  ⟨discerning.before.2, discerning.after.2⟩

/-- A binder that hides all of the occurrences of its name in a body, and no others, does so both
before and after the change if keys of variables tell their names both times. -/
theorem free_under_lam {v : Symbol} {body : Term}
    (inner : (body.under θ).free = body.free.map (Symbol.under θ))
    (binds : ∀ s ∈ body.free, s.name = v.name → s.type = v.type)
    (before : ∀ s ∈ body.free, s.varKey = v.varKey → s.name = v.name)
    (after : ∀ s ∈ body.free, (s.under θ).varKey = (v.under θ).varKey → s.name = v.name) :
    ((lam v body).under θ).free = (lam v body).free.map (Symbol.under θ) := by
  rw [under_lam, free, inner, free, List.filter_map]
  congr 1
  apply List.filter_congr
  intro s member
  have same : s.name = v.name → s = v := fun name =>
    Symbol.ext_iff'.mpr ⟨name, binds s member name⟩
  rw [Bool.eq_iff_iff, Function.comp_apply, bne_iff_ne, bne_iff_ne, not_iff_not]
  constructor
  · intro key
    rw [same (after s member key)]
  · intro key
    rw [same (before s member key)]

/-- The free variables of a well-typed term go through the change. -/
theorem WellTyped.free_under (wellTyped : t.WellTyped) (discerning : t.DiscerningUnder θ) :
    (t.under θ).free = t.free.map (Symbol.under θ) := by
  induction t with
  | const s => rfl
  | var s => rfl
  | app f x ihF ihX =>
    rw [under_app, free, ihF wellTyped.1 discerning.function,
      ihX wellTyped.2.1 discerning.argument, free, List.map_append]
  | lam v body ih =>
    have inner := ih wellTyped.1 discerning.body
    refine free_under_lam inner wellTyped.2 discerning.before.1 fun s member same => ?_
    have inside : s.under θ ∈ (body.under θ).free := inner ▸ List.mem_map_of_mem member
    exact discerning.after.1 (s.under θ) inside same

/-- Substituting types leaves terms well typed where keys go on telling symbols apart. -/
theorem WellTyped.under (wellTyped : t.WellTyped) (discerning : t.DiscerningUnder θ) :
    (t.under θ).WellTyped := by
  induction t with
  | const s => trivial
  | var s => trivial
  | app f x ihF ihX =>
    obtain ⟨function, argument, codomain, kind⟩ := wellTyped
    refine ⟨ihF function discerning.function, ihX argument discerning.argument,
      codomain.mapVars θ, ?_⟩
    change (f.under θ).type = .arrow (x.under θ).type _
    rw [function.type_under, argument.type_under, kind]
    rfl
  | lam v body ih =>
    refine ⟨ih wellTyped.1 discerning.body, ?_⟩
    change ∀ s ∈ (body.under θ).free, s.name = v.name → s.type = v.type.mapVars θ
    rw [wellTyped.1.free_under discerning.body]
    intro s member name
    obtain ⟨r, inside, rfl⟩ := List.mem_map.mp member
    rw [Symbol.under_type, wellTyped.2 r inside name]

/-- A good term stays good when types are put for its type variables. -/
theorem Good.under (good : t.Good) (discerning : t.DiscerningUnder θ) : (t.under θ).Good := by
  refine ⟨good.wellTyped.under discerning, ?_⟩
  rw [good.wellTyped.free_under discerning]
  intro s member s' member' name
  obtain ⟨r, inside, rfl⟩ := List.mem_map.mp member
  obtain ⟨r', inside', rfl⟩ := List.mem_map.mp member'
  rw [Symbol.under_type, Symbol.under_type, good.uniform r inside r' inside' name]

/-- Substituting plain types leaves terms proper. -/
theorem Proper.under (proper : t.Proper) (values : ∀ id, (θ id).Plain) :
    (t.under θ).Proper :=
  ⟨proper.toGood.under (proper.plain.discerningUnder values), proper.plain.under values⟩

end Term

end Turnstile
