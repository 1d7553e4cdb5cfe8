import Turnstile.Proofs.Inference

/-!
# Building terms infers most general types

Applications and abstractions are put together from proper parts. Whatever is built is proper,
and it is the most general instance of the raw term that is: every good instance of the raw term
is an instance of the built one. Where building fails, the raw term has no good instance. For the
last two the type variables of the parts must have been handed out before, so that those drawn on
the way are new, and the names of variables must be plain, so that binders are discerning in
instances by any types.
-/

namespace Turnstile

/-! ## Refined terms and type variables that were handed out -/

/-- If the type variables satisfy a condition, they satisfy each weaker one. -/
theorem Unifier.VarsIn.mono {B B' : Int → Prop} {t : Ty} (inside : Unifier.VarsIn B t)
    (weaker : ∀ id, B id → B' id) : Unifier.VarsIn B' t := fun id member =>
  weaker id (inside id member)

/-- If types are put for variables, the variables of the result are those of the types that were
put. -/
theorem Unifier.VarsIn.mapVars {B B' : Int → Prop} {θ : Int → Ty} {t : Ty}
    (inside : Unifier.VarsIn B t) (values : ∀ id, B id → Unifier.VarsIn B' (θ id)) :
    Unifier.VarsIn B' (t.mapVars θ) := by
  intro w member
  obtain ⟨id, part, inValue⟩ := Ty.mem_vars_mapVars.mp member
  exact values id (inside id part) w inValue

namespace Term

/-- A term that differs from another only in more special types, perhaps in each symbol by a
substitution of its own. -/
def Refines : Term → Term → Prop
  | const s, const s' => ∃ θ, s' = s.under θ
  | var s, var s' => ∃ θ, s' = s.under θ
  | app f x, app f' x' => f.Refines f' ∧ x.Refines x'
  | lam v body, lam v' body' => (∃ θ, v' = v.under θ) ∧ body.Refines body'
  | _, _ => False

/-- A substitution of type variables refines a term. -/
theorem refines_under (t : Term) (θ : Int → Ty) : t.Refines (t.under θ) := by
  induction t with
  | const s => exact ⟨θ, rfl⟩
  | var s => exact ⟨θ, rfl⟩
  | app f x ihF ihX => exact ⟨ihF, ihX⟩
  | lam v body ih => exact ⟨⟨θ, rfl⟩, ih⟩

/-- Every term refines itself. -/
theorem refines_refl (t : Term) : t.Refines t := by
  have same := t.refines_under .var
  rw [t.under_self] at same
  exact same

/-- Refining twice refines. -/
theorem Refines.trans {t t' t'' : Term} (first : t.Refines t') (second : t'.Refines t'') :
    t.Refines t'' := by
  have symbols : ∀ {s s' s'' : Symbol}, (∃ θ, s' = s.under θ) → (∃ θ, s'' = s'.under θ) →
      ∃ θ, s'' = s.under θ := by
    rintro s s' s'' ⟨θ, rfl⟩ ⟨σ, rfl⟩
    exact ⟨_, Symbol.under_under θ σ s⟩
  induction t generalizing t' t'' with
  | const s =>
    match t', t'' with
    | const _, const _ => exact symbols first second
  | var s =>
    match t', t'' with
    | var _, var _ => exact symbols first second
  | app f x ihF ihX =>
    match t', t'' with
    | app _ _, app _ _ => exact ⟨ihF first.1 second.1, ihX first.2 second.2⟩
  | lam v body ih =>
    match t', t'' with
    | lam _ _, lam _ _ => exact ⟨symbols first.1 second.1, ih first.2 second.2⟩

/-- Refining leaves the names of variables as they are. -/
theorem Refines.named {t t' : Term} (refines : t.Refines t') (named : t.Named) : t'.Named := by
  induction t generalizing t' with
  | const s =>
    match t' with
    | const _ => trivial
  | var s =>
    match t' with
    | var _ =>
      obtain ⟨θ, rfl⟩ := refines
      exact named
  | app f x ihF ihX =>
    match t' with
    | app _ _ => exact ⟨ihF refines.1 named.1, ihX refines.2 named.2⟩
  | lam v body ih =>
    match t' with
    | lam _ _ =>
      obtain ⟨⟨θ, rfl⟩, inner⟩ := refines
      exact ⟨named.1, ih inner named.2⟩

/-- The type variables of a term are all of some sort. -/
def VarsIn (B : Int → Prop) : Term → Prop
  | const s => Unifier.VarsIn B s.type
  | var s => Unifier.VarsIn B s.type
  | app f x => f.VarsIn B ∧ x.VarsIn B
  | lam v body => Unifier.VarsIn B v.type ∧ body.VarsIn B

variable {B B' : Int → Prop} {t f x : Term} {θ σ : Int → Ty}

/-- If the type variables of a term satisfy a condition, they satisfy each weaker one. -/
theorem VarsIn.mono (inside : t.VarsIn B) (weaker : ∀ id, B id → B' id) : t.VarsIn B' := by
  induction t with
  | const s => exact Unifier.VarsIn.mono inside weaker
  | var s => exact Unifier.VarsIn.mono inside weaker
  | app f x ihF ihX => exact ⟨ihF inside.1, ihX inside.2⟩
  | lam v body ih => exact ⟨inside.1.mono weaker, ih inside.2⟩

/-- The variables of a term's type are variables of the term. -/
theorem VarsIn.type_in (inside : t.VarsIn B) : Unifier.VarsIn B t.type := by
  induction t with
  | const s => exact inside
  | var s => exact inside
  | app f x ihF ihX =>
    have function := ihF inside.1
    rw [type]
    cases kind : f.type with
    | const name => rw [kind] at function; exact function
    | var id => rw [kind] at function; exact function
    | arrow d c => rw [kind] at function; exact (Unifier.closed_varsIn B function).2
  | lam v body ih =>
    intro id member
    rcases List.mem_append.mp member with left | right
    · exact inside.1 id left
    · exact ih inside.2 id right

/-- So are those of the types of its free variables. -/
theorem VarsIn.free_in (inside : t.VarsIn B) : ∀ s ∈ t.free, Unifier.VarsIn B s.type := by
  induction t with
  | const s => simp [free]
  | var s =>
    intro s' member
    obtain rfl : s' = s := by simpa [free] using member
    exact inside
  | app f x ihF ihX =>
    intro s member
    rcases List.mem_append.mp member with left | right
    · exact ihF inside.1 s left
    · exact ihX inside.2 s right
  | lam v body ih =>
    intro s member
    exact ih inside.2 s (List.mem_of_mem_filter member)

/-- If types are put for the variables of a term, its variables are those of the types that were
put. -/
theorem VarsIn.under (inside : t.VarsIn B) (values : ∀ id, B id → Unifier.VarsIn B' (θ id)) :
    (t.under θ).VarsIn B' := by
  induction t with
  | const s => exact Unifier.VarsIn.mapVars inside values
  | var s => exact Unifier.VarsIn.mapVars inside values
  | app f x ihF ihX => exact ⟨ihF inside.1, ihX inside.2⟩
  | lam v body ih => exact ⟨inside.1.mapVars values, ih inside.2⟩

/-- Substitutions that agree on the variables of a term have the same effect on it. -/
theorem VarsIn.under_congr (inside : t.VarsIn B) (agree : ∀ id, B id → θ id = σ id) :
    t.under θ = t.under σ := by
  have symbols : ∀ {s : Symbol}, Unifier.VarsIn B s.type → s.under θ = s.under σ := by
    intro s known
    exact Symbol.ext_iff'.mpr ⟨rfl, Ty.mapVars_congr fun id member => agree id (known id member)⟩
  induction t with
  | const s => rw [under_const, under_const, symbols inside]
  | var s => rw [under_var, under_var, symbols inside]
  | app f x ihF ihX => rw [under_app, under_app, ihF inside.1, ihX inside.2]
  | lam v body ih => rw [under_lam, under_lam, symbols inside.1, ih inside.2]

/-- The type variables of a term have been handed out. -/
def Drawn (s : Supply) (t : Term) : Prop := t.VarsIn (· ≤ s.lastType)

end Term

/-! ## What is built -/

/-- A term that stands for a raw term as far as types are concerned: it refines the raw term, and
every good instance of the raw term is an instance of it, by a substitution that differs only on
type variables drawn on the way. -/
structure Generalizes (raw : Term) (s : Supply) (t : Term) (s' : Supply) : Prop where
  /-- The supply only grows. -/
  later : s.lastType ≤ s'.lastType
  /-- Types became more special. -/
  refines : raw.Refines t
  /-- All type variables have been handed out. -/
  drawn : raw.Drawn s → t.Drawn s'
  /-- No good instance is lost. -/
  general : raw.Drawn s → raw.Named → ∀ σ, (raw.under σ).Good →
    ∃ σ', (∀ id : Int, id ≤ s.lastType → σ' id = σ id) ∧ raw.under σ = t.under σ'

/-- A raw term without good instances. -/
def Hopeless (raw : Term) (s : Supply) : Prop :=
  raw.Drawn s → raw.Named → ∀ σ, ¬ (raw.under σ).Good

/-- The outcome of building a raw term from a supply: a proper term that stands for it, or it has
no good instance. -/
inductive Built (raw : Term) (s : Supply) : Except Failure Term × Supply → Prop
  /-- The term that was built. -/
  | done {t : Term} {s' : Supply} (proper : t.Proper) (generalizes : Generalizes raw s t s') :
    Built raw s (.ok t, s')
  /-- The raw term has no good instance. -/
  | impossible {failure : Failure} {s' : Supply} (later : s.lastType ≤ s'.lastType)
    (clash : failure.IsClash) (hopeless : Hopeless raw s) : Built raw s (.error failure, s')

/-- A term generalizes itself as the supply goes on. -/
theorem Generalizes.refl (t : Term) {s s' : Supply} (later : s.lastType ≤ s'.lastType) :
    Generalizes t s t s' where
  later := later
  refines := t.refines_refl
  drawn := fun drawn => drawn.mono fun id le => by omega
  general := fun _ _ σ _ => ⟨σ, fun _ _ => rfl, rfl⟩

/-- Generalizing twice generalizes. -/
theorem Generalizes.trans {a b c : Term} {s s' s'' : Supply} (first : Generalizes a s b s')
    (second : Generalizes b s' c s'') : Generalizes a s c s'' where
  later := Nat.le_trans first.later second.later
  refines := first.refines.trans second.refines
  drawn := fun drawn => second.drawn (first.drawn drawn)
  general := by
    intro drawn named σ good
    obtain ⟨σ', old, same⟩ := first.general drawn named σ good
    rw [same] at good
    obtain ⟨σ'', old', same'⟩ :=
      second.general (first.drawn drawn) (first.refines.named named) σ' good
    have later := first.later
    exact ⟨σ'', fun id le => (old' id (by omega)).trans (old id le), same.trans same'⟩

/-- The parts of an application may be replaced one after the other. -/
theorem Generalizes.app {f f' x x' : Term} {s s' s'' : Supply}
    (function : Generalizes f s f' s') (argument : Generalizes x s' x' s'') :
    Generalizes (.app f x) s (.app f' x') s'' where
  later := Nat.le_trans function.later argument.later
  refines := ⟨function.refines, argument.refines⟩
  drawn := by
    rintro ⟨drawnF, drawnX⟩
    have later := function.later
    have later' := argument.later
    exact ⟨(function.drawn drawnF).mono fun id le => by omega,
      argument.drawn (drawnX.mono fun id le => by omega)⟩
  general := by
    rintro ⟨drawnF, drawnX⟩ ⟨namedF, namedX⟩ σ good
    have later := function.later
    obtain ⟨σ', old, same⟩ := function.general drawnF namedF σ good.function
    have sameX : x.under σ = x.under σ' :=
      (Term.VarsIn.under_congr drawnX fun id le => old id le).symm
    have drawnX' : x.Drawn s' := drawnX.mono fun id le => by omega
    have goodX : (x.under σ').Good := sameX ▸ good.argument
    obtain ⟨σ'', old', same'⟩ := argument.general drawnX' namedX σ' goodX
    refine ⟨σ'', fun id le => (old' id (by omega)).trans (old id le), ?_⟩
    have sameF : f'.under σ' = f'.under σ'' :=
      (Term.VarsIn.under_congr (function.drawn drawnF) fun id le => old' id le).symm
    rw [Term.under_app, Term.under_app, same, sameF, sameX, same']

/-- What is built from a term that stands for the raw term is built from the raw term. -/
theorem Generalizes.built {raw raw' : Term} {s s' : Supply}
    {outcome : Except Failure Term × Supply} (first : Generalizes raw s raw' s')
    (second : Built raw' s' outcome) : Built raw s outcome := by
  cases second with
  | done proper generalizes => exact .done proper (first.trans generalizes)
  | impossible later clash hopeless =>
    refine .impossible (Nat.le_trans first.later later) clash fun drawn named σ good => ?_
    obtain ⟨σ', _, same⟩ := first.general drawn named σ good
    exact hopeless (first.drawn drawn) (first.refines.named named) σ' (same ▸ good)

/-- Applying a unifier is putting types for variables. -/
theorem Term.applyTypes_eq {u : Unifier} {θ : Int → Ty} (apply : u.apply = Ty.mapVars θ)
    (t : Term) : t.applyTypes u = t.under θ := by
  rw [Term.applyTypes, apply]
  rfl

/-- The free variables of two terms. -/
theorem freeIn_pair (f x : Term) : freeIn [f, x] = f.free ++ x.free := by simp [freeIn]

/-- An abstraction of a good body is good if its variable has the type of what it binds. -/
theorem Term.Good.lam_iff {v : Symbol} {b : Term} (good : b.Good)
    (discerning : (Term.lam v b).Discerning) : (Term.lam v b).Good ↔ Uniform (v :: b.free) := by
  constructor
  · intro whole s member s' member' same
    have bound := whole.wellTyped.2
    rcases List.mem_cons.mp member with rfl | inside <;>
      rcases List.mem_cons.mp member' with rfl | inside'
    · rfl
    · exact (bound s' inside' same.symm).symm
    · exact bound s inside same
    · exact good.uniform s inside s' inside' same
  · intro uniform
    have wellTyped : (Term.lam v b).WellTyped :=
      ⟨good.wellTyped, fun s member same => uniform s (by simp [member]) v (by simp) same⟩
    refine ⟨wellTyped, uniform.subset fun s member => ?_⟩
    exact List.mem_cons_of_mem _ ((wellTyped.mem_free_lam discerning).mp member).1

/-- The substitutions that make an abstraction good. -/
theorem Term.Good.under_lam_iff {v : Symbol} {b : Term} {σ : Int → Ty} (good : b.Good)
    (discerning : (Term.lam v b).DiscerningUnder σ) :
    ((Term.lam v b).under σ).Good ↔ Joint (freeIn [.var v, b]) σ := by
  have after : (Term.lam (v.under σ) (b.under σ)).Discerning := discerning.after
  rw [Term.under_lam, (good.under discerning.body).lam_iff after, Joint, freeIn_pair,
    good.wellTyped.free_under discerning.body]
  rfl

/-- The substitutions that make an application good. -/
theorem Term.WellTyped.under_app_iff {f x : Term} {σ : Int → Ty} (function : f.WellTyped)
    (argument : x.WellTyped) (discerning : (Term.app f x).DiscerningUnder σ) :
    ((Term.app f x).under σ).Good ↔
      (∃ codomain, f.type.mapVars σ = .arrow (x.type.mapVars σ) codomain) ∧
        Joint (freeIn [f, x]) σ := by
  rw [Joint, freeIn_pair, List.map_append, ← function.free_under discerning.function,
    ← argument.free_under discerning.argument, ← function.type_under, ← argument.type_under]
  constructor
  · intro good
    exact ⟨good.wellTyped.2.2, good.uniform⟩
  · rintro ⟨typed, uniform⟩
    exact ⟨⟨function.under discerning.function, argument.under discerning.argument, typed⟩, uniform⟩

/-- Two plain terms, as a list. -/
theorem Term.plain_pair {f x : Term} (plain : f.Plain) (plainX : x.Plain) :
    ∀ t ∈ [f, x], t.Plain := by
  simp only [List.mem_cons, List.not_mem_nil, or_false, forall_eq_or_imp, forall_eq]
  exact ⟨plain, plainX⟩

/-- Abstracting over a variable builds the abstraction. -/
theorem Term.Proper.mkLam_built {v : Symbol} {b : Term} (variable' : v.type.Plain)
    (proper : b.Proper) (s : Supply) : Built (.lam v b) s (Term.mkLam (.var v) b, s) := by
  have plain : (Term.lam v b).Plain := ⟨variable', proper.plain⟩
  have solution := jointTypes_solution (Term.plain_pair (f := .var v) variable' proper.plain)
  rw [Term.mkLam]
  cases joined : jointTypes [.var v, b] with
  | error failure =>
    rw [joined] at solution
    cases solution with
    | impossible clash none =>
      exact .impossible (Nat.le_refl _) clash fun _ named σ good =>
        none σ ((proper.toGood.under_lam_iff named.discerningUnder).mp good)
  | ok u =>
    rw [joined] at solution
    cases solution with
    | @found _ θ apply most =>
      have result : (do
          let u ← (Except.ok u : Except Failure Unifier)
          return Term.lam (v.mapType u.apply) (b.applyTypes u) : Except Failure Term) =
          .ok ((Term.lam v b).under θ) := by
        change Except.ok (Term.lam _ _) = _
        rw [Term.applyTypes_eq apply, apply]
        rfl
      rw [result]
      have good := (proper.toGood.under_lam_iff (plain.discerningUnder most.plain)).mpr most.holds
      refine .done ⟨good, plain.under most.plain⟩ ⟨Nat.le_refl _, Term.refines_under _ _,
        fun drawn => ?_, fun _ named σ good => ⟨σ, fun _ _ => rfl, ?_⟩⟩
      · refine Term.VarsIn.under drawn (most.confined _ fun t member => ?_)
        obtain ⟨r, inside, rfl⟩ := List.mem_map.mp member
        rw [freeIn_pair] at inside
        rcases List.mem_append.mp inside with left | right
        · obtain rfl : r = v := by simpa [Term.free] using left
          exact drawn.1
        · exact drawn.2.free_in r right
      · rw [most.factor_term ((proper.toGood.under_lam_iff named.discerningUnder).mp good)]

/-! ## Applications -/

/-- The type variable that is handed out next. -/
def Supply.nextType (s : Supply) : Int := (s.lastType + 1 : Nat)

/-- A substitution under which a function whose type is a variable takes a domain to the next type
variable. -/
def Narrows (f : Term) (domain : Ty) (s : Supply) (σ : Int → Ty) : Prop :=
  f.type.isVar = true → f.type.mapVars σ = .arrow (domain.mapVars σ) (σ s.nextType)

/-- The outcome of giving a function a function type. -/
inductive Narrowing (f : Term) (domain : Ty) (s : Supply) : Except Failure Term × Supply → Prop
  /-- The function under a most general solution. -/
  | found {types : List Ty} {θ : Int → Ty} {s' : Supply} (later : s.lastType ≤ s'.lastType)
    (most : MostGeneral types (Narrows f domain s) θ)
    (drawn : f.Drawn s → Unifier.VarsIn (· ≤ s.lastType) domain →
      ∀ id : Int, id ≤ s'.lastType → Unifier.VarsIn (· ≤ s'.lastType) (θ id)) :
    Narrowing f domain s (.ok (f.under θ), s')
  /-- The type variable would have to contain itself. -/
  | impossible {failure : Failure} {s' : Supply} (later : s.lastType ≤ s'.lastType)
    (clash : failure.IsClash) (none : ∀ σ, ¬ Narrows f domain s σ) :
    Narrowing f domain s (.error failure, s')

/-- A function whose type is a variable is narrowed by one equation. -/
theorem Term.narrow_run {f : Term} (unknown : f.type.isVar = true) (domain : Ty) (s : Supply) :
    (f.narrow domain).runFrom s =
      match Term.equate f.type (.arrow domain (.var s.nextType)) with
      | .ok u => (.ok (f.applyTypes u), { s with lastType := s.lastType + 1 })
      | .error failure => (.error failure, { s with lastType := s.lastType + 1 }) := by
  rw [Term.narrow, if_pos unknown, Build.runFrom_bind, Build.runFrom_freshType]
  cases solved : Term.equate f.type (.arrow domain (.var s.nextType)) with
  | error failure =>
    simp only [Supply.nextType] at solved
    simp only [Build.runFrom_bind, Build.runFrom_lift, solved]
  | ok u =>
    simp only [Supply.nextType] at solved
    simp only [Build.runFrom_bind, Build.runFrom_lift, solved, Build.runFrom_pure]

/-- Narrowing a plain function puts an arrow type for the variable that is its type, and nothing
else. -/
theorem Term.Plain.narrow {f : Term} {domain : Ty} (plain : f.Plain) (plainDomain : domain.Plain)
    (s : Supply) : Narrowing f domain s ((f.narrow domain).runFrom s) := by
  by_cases unknown : f.type.isVar = true
  · have solution := Term.equate_solution plain.type_plain
      (b := .arrow domain (.var s.nextType)) ⟨plainDomain, trivial⟩
    have condition : ∀ σ, f.type.mapVars σ = (Ty.arrow domain (.var s.nextType)).mapVars σ ↔
        Narrows f domain s σ := fun σ => ⟨fun equal _ => equal, fun narrows => narrows unknown⟩
    rw [Term.narrow_run unknown]
    cases solved : Term.equate f.type (.arrow domain (.var s.nextType)) with
    | error failure =>
      rw [solved] at solution
      cases solution with
      | impossible clash none =>
        exact .impossible (Nat.le_succ _) clash fun σ narrows => none σ ((condition σ).mpr narrows)
    | ok u =>
      rw [solved] at solution
      cases solution with
      | found apply most =>
        simp only [Term.applyTypes_eq apply]
        refine .found (Nat.le_succ _) (most.congr condition) fun drawn domainDrawn => ?_
        apply most.confined
        have earlier : ∀ {t : Ty}, Unifier.VarsIn (· ≤ s.lastType) t →
            Unifier.VarsIn (· ≤ ((s.lastType + 1 : Nat) : Int)) t := fun known =>
          known.mono fun id le => by omega
        simp only [List.mem_cons, List.not_mem_nil, or_false, forall_eq_or_imp, forall_eq]
        refine ⟨earlier drawn.type_in, fun id member => ?_⟩
        rcases List.mem_append.mp member with left | right
        · exact earlier domainDrawn id left
        · obtain rfl : id = s.nextType := by simpa [Ty.vars] using right
          exact Int.le_refl _
  · have same : (f.narrow domain).runFrom s = (.ok (f.under .var), s) := by
      rw [Term.narrow, if_neg unknown, Build.runFrom_pure, f.under_self]
    rw [same]
    have trivially : ∀ σ, True ↔ Narrows f domain s σ := fun σ =>
      ⟨fun _ known => absurd known unknown, fun _ => trivial⟩
    refine .found (Nat.le_refl _) ((MostGeneral.self []).congr trivially) fun _ _ id le => ?_
    intro w member
    obtain rfl : w = id := by simpa [Ty.vars] using member
    exact le

/-- One substitution after another. -/
def after (θ σ : Int → Ty) (id : Int) : Ty := (θ id).mapVars σ

/-- A most general solution of a first condition, followed by one of what a second condition then
becomes, is a most general solution of both. -/
theorem MostGeneral.comp {types types' whole : List Ty} {P Q : (Int → Ty) → Prop}
    {θ θ' : Int → Ty} (first : MostGeneral types P θ)
    (second : MostGeneral types' (fun σ => Q (after θ σ)) θ') (stable : ∀ σ, P (after θ σ))
    (confined : ∀ B, (∀ t ∈ whole, Unifier.VarsIn B t) → (∀ t ∈ types, Unifier.VarsIn B t) ∧
      ((∀ id, B id → Unifier.VarsIn B (θ id)) → ∀ t ∈ types', Unifier.VarsIn B t)) :
    MostGeneral whole (fun σ => P σ ∧ Q σ) (after θ θ') where
  holds := ⟨stable θ', second.holds⟩
  general := by
    intro σ ⟨holds, holds'⟩ id
    have same : after θ σ = σ := funext (first.general σ holds)
    rw [after, second.factor (by rw [same]; exact holds')]
    exact first.general σ holds id
  plain := fun id => (first.plain id).mapVars fun w _ => second.plain w
  confined := by
    intro B known id inside
    obtain ⟨early, late⟩ := confined B known
    have values := first.confined B early
    exact (values id inside).mapVars (second.confined B (late values))

/-- Join the types of a function and an argument without looking at their types again. -/
def Term.joinUnchecked (f x : Term) : Except Failure Term :=
  (jointTypes [f, x]).map fun u => .app (f.applyTypes u) (x.applyTypes u)

/-- Joining a function and an argument of its domain succeeds where their variables agree: the
types of what is joined always fit. -/
theorem Term.Good.join_eq {f x : Term} {codomain : Ty} (good : f.Good) (goodX : x.Good)
    (plain : f.Plain) (plainX : x.Plain) (typed : f.type = .arrow x.type codomain) :
    Term.join f x = f.joinUnchecked x := by
  have solution := jointTypes_solution (Term.plain_pair plain plainX)
  rw [Term.join, Term.joinUnchecked]
  cases joined : jointTypes [f, x] with
  | error failure => rfl
  | ok u =>
    rw [joined] at solution
    cases solution with
    | found apply most =>
      have function : (f.applyTypes u).type = .arrow (x.applyTypes u).type (u.apply codomain) := by
        rw [Term.applyTypes_eq apply, Term.applyTypes_eq apply, good.wellTyped.type_under,
          goodX.wellTyped.type_under, typed, apply]
        rfl
      have step : ∀ next : Unifier → Except Failure Term, (Except.ok u >>= next) = next u :=
        fun _ => rfl
      rw [step]
      simp only [function, if_true]
      rfl

/-- Under a solution of what their types ask for, a function and its argument can be joined
unchecked. -/
theorem Term.Proper.join_unchecked {f x : Term} {domain codomain : Ty} {u : Unifier}
    (proper : f.Proper)
    (properX : x.Proper) (typed : f.type = .arrow domain codomain)
    (solved : Term.equate domain x.type = .ok u) :
    Term.join (f.applyTypes u) (x.applyTypes u) =
      Term.joinUnchecked (f.applyTypes u) (x.applyTypes u) := by
  have plain := proper.plain.type_plain
  rw [typed] at plain
  have solution := Term.equate_solution plain.1 properX.plain.type_plain
  rw [solved] at solution
  cases solution with
  | @found _ θ apply most =>
    have properF := proper.under most.plain
    have properA := properX.under most.plain
    have typedF : (f.under θ).type = .arrow (x.under θ).type (codomain.mapVars θ) := by
      rw [proper.wellTyped.type_under, properX.wellTyped.type_under, typed, ← most.holds]
      rfl
    rw [Term.applyTypes_eq apply, Term.applyTypes_eq apply]
    exact properF.toGood.join_eq properA.toGood properF.plain properA.plain typedF

/-- A substitution under which an argument is of a function's domain, and their variables agree. -/
def Fits (f x : Term) (domain : Ty) (σ : Int → Ty) : Prop :=
  domain.mapVars σ = x.type.mapVars σ ∧ Joint (freeIn [f, x]) σ

/-- Fit an argument to a function with a given domain, then join them. -/
def Term.fit (f x : Term) (domain : Ty) : Except Failure Term := do
  let u ← Term.equate domain x.type
  Term.join (f.applyTypes u) (x.applyTypes u)

/-- The free variables of two well-typed terms go through a change of types. -/
theorem Term.WellTyped.freeIn_under {f x : Term} {θ : Int → Ty} (function : f.WellTyped)
    (argument : x.WellTyped) (discerning : f.DiscerningUnder θ)
    (discerningX : x.DiscerningUnder θ) :
    freeIn [f.under θ, x.under θ] = (freeIn [f, x]).map (Symbol.under θ) := by
  rw [freeIn_pair, freeIn_pair, function.free_under discerning, argument.free_under discerningX,
    List.map_append]

/-- Joining occurrences that are under a substitution is joining them after it. -/
theorem joint_map_under {occurrences : List Symbol} {θ σ : Int → Ty} :
    Joint (occurrences.map (Symbol.under θ)) σ ↔ Joint occurrences (after θ σ) := by
  simp only [Joint, List.map_map]
  have same : Symbol.under σ ∘ Symbol.under θ = Symbol.under (after θ σ) :=
    funext fun s => Symbol.under_under θ σ s
  rw [same]

/-- Fitting gives the application under a most general substitution, or there is none. -/
theorem Term.Proper.fit {f x : Term} {domain codomain : Ty} (proper : f.Proper)
    (properX : x.Proper) (typed : f.type = .arrow domain codomain) :
    (∃ θ, f.fit x domain = .ok ((Term.app f x).under θ) ∧
      MostGeneral (domain :: x.type :: (freeIn [f, x]).map Symbol.type) (Fits f x domain) θ) ∨
    (∃ failure, f.fit x domain = .error failure ∧ failure.IsClash ∧
      ∀ σ, ¬ Fits f x domain σ) := by
  have plainDomain : domain.Plain := by
    have plain := proper.plain.type_plain
    rw [typed] at plain
    exact plain.1
  have domains := Term.equate_solution plainDomain properX.plain.type_plain
  rw [Term.fit]
  cases solved : Term.equate domain x.type with
  | error failure =>
    rw [solved] at domains
    cases domains with
    | impossible clash none => exact .inr ⟨failure, rfl, clash, fun σ fits => none σ fits.1⟩
  | ok u =>
    rw [solved] at domains
    cases domains with
    | @found _ θ apply most =>
      have properF := proper.under most.plain
      have properA := properX.under most.plain
      have names := jointTypes_solution (Term.plain_pair properF.plain properA.plain)
      have free := proper.wellTyped.freeIn_under properX.wellTyped
        (proper.plain.discerningUnder most.plain) (properX.plain.discerningUnder most.plain)
      change (∃ θ, Term.join (f.applyTypes u) (x.applyTypes u) = .ok ((Term.app f x).under θ) ∧ _)
        ∨ (∃ failure, Term.join (f.applyTypes u) (x.applyTypes u) = .error failure ∧ _)
      rw [proper.join_unchecked properX typed solved, Term.applyTypes_eq apply,
        Term.applyTypes_eq apply, Term.joinUnchecked]
      cases joined : jointTypes [f.under θ, x.under θ] with
      | error failure =>
        rw [joined, free] at names
        cases names with
        | impossible clash none =>
          refine .inr ⟨failure, rfl, clash, fun σ fits => none σ ?_⟩
          have same : after θ σ = σ := funext (most.general σ fits.1)
          rw [joint_map_under, same]
          exact fits.2
      | ok w =>
        rw [joined, free] at names
        cases names with
        | @found _ θ' apply' most' =>
          refine .inl ⟨after θ θ', ?_, ?_⟩
          · change Except.ok (Term.app _ _) = _
            rw [Term.applyTypes_eq apply', Term.applyTypes_eq apply', Term.under_under,
              Term.under_under]
            rfl
          · refine MostGeneral.comp most (most'.congr fun σ => joint_map_under) (fun σ => ?_)
              fun B known => ⟨fun t member => ?_, fun values t member => ?_⟩
            · have holds := congrArg (Ty.mapVars σ) most.holds
              rw [Ty.mapVars_mapVars, Ty.mapVars_mapVars] at holds
              exact holds
            · refine known t ?_
              simp only [List.mem_cons, List.not_mem_nil, or_false] at member ⊢
              tauto
            · obtain ⟨s, inside, rfl⟩ := List.mem_map.mp member
              obtain ⟨r, occurs, rfl⟩ := List.mem_map.mp inside
              refine Unifier.VarsIn.mapVars (known r.type ?_) values
              simp only [List.mem_cons]
              exact .inr (.inr (List.mem_map_of_mem occurs))

/-- An application, as a run. -/
theorem Term.mkApp_run (f x : Term) (s : Supply) :
    (f.mkApp x).runFrom s = match (f.narrow x.type).runFrom s with
      | (.error failure, s') => (.error failure, s')
      | (.ok g, s') => match g.type with
        | .arrow domain _ => (g.fit x domain, s')
        | t => (.error (.clash ⟨t, .arrow x.type (.var s'.nextType), false⟩),
          { s' with lastType := s'.lastType + 1 }) := by
  rw [Term.mkApp, Build.runFrom_bind]
  rcases (f.narrow x.type).runFrom s with ⟨failure | g, s'⟩
  · rfl
  · cases kind : g.type with
    | arrow domain codomain =>
      simp only [kind, Build.runFrom_bind, Build.runFrom_lift, Term.fit]
      cases Term.equate domain x.type with
      | error failure => rfl
      | ok u => rfl
    | const name => simp only [kind, Build.runFrom_bind]; rfl
    | var id => simp only [kind, Build.runFrom_bind]; rfl

/-- A substitution that makes an application good can be extended to the type variable that
narrowing its function may draw. -/
theorem Term.Proper.extend_narrows {f x : Term} (proper : f.Proper) (properX : x.Proper)
    {s : Supply} (drawn : (Term.app f x).Drawn s) (named : (Term.app f x).Named) {σ : Int → Ty}
    (good : ((Term.app f x).under σ).Good) :
    ∃ σ', (∀ id : Int, id ≤ s.lastType → σ' id = σ id) ∧ Narrows f x.type s σ' ∧
      (Term.app f x).under σ = (Term.app f x).under σ' := by
  obtain ⟨⟨codomain, typed⟩, _⟩ :=
    (proper.wellTyped.under_app_iff properX.wellTyped named.discerningUnder).mp good
  let σ' : Int → Ty := fun id => if id = s.nextType then codomain else σ id
  have old : ∀ id : Int, id ≤ s.lastType → σ' id = σ id := by
    intro id le
    have other : id ≠ s.nextType := by
      rw [Supply.nextType]
      omega
    exact if_neg other
  have oldType : ∀ {t : Ty}, Unifier.VarsIn (· ≤ (s.lastType : Int)) t →
      t.mapVars σ' = t.mapVars σ := fun known =>
    Ty.mapVars_congr fun id member => old id (known id member)
  refine ⟨σ', old, fun _ => ?_, (Term.VarsIn.under_congr drawn old).symm⟩
  rw [oldType drawn.1.type_in, oldType drawn.2.type_in, typed]
  simp [σ']

/-- A narrowed function has no variable for its type. -/
theorem MostGeneral.narrowed {types : List Ty} {f : Term} {domain : Ty} {s : Supply}
    {θ : Int → Ty} (most : MostGeneral types (Narrows f domain s) θ) (wellTyped : f.WellTyped)
    (id : Int) : (f.under θ).type ≠ .var id := by
  rw [wellTyped.type_under]
  cases kind : f.type with
  | const name => simp [Ty.mapVars]
  | arrow d c => simp [Ty.mapVars]
  | var w =>
    have narrows := most.holds (by rw [kind]; rfl)
    rw [← kind, narrows]
    simp

/-- An argument fits a narrowed function under every substitution that makes the application
good. -/
theorem MostGeneral.fits {types : List Ty} {f x : Term} {domain codomain : Ty} {s : Supply}
    {θ σ : Int → Ty} (most : MostGeneral types (Narrows f x.type s) θ) (proper : f.Proper)
    (properX : x.Proper) (typed : (f.under θ).type = .arrow domain codomain)
    (narrows : Narrows f x.type s σ) (named : (Term.app f x).Named)
    (good : ((Term.app f x).under σ).Good) : Fits (f.under θ) x domain σ := by
  obtain ⟨⟨codomain', applied⟩, joint⟩ :=
    (proper.wellTyped.under_app_iff properX.wellTyped named.discerningUnder).mp good
  constructor
  · have instances := most.factor narrows f.type
    rw [← proper.wellTyped.type_under, typed, applied] at instances
    exact (Ty.arrow.inj instances).1
  · rw [Joint, freeIn_pair, List.map_append,
      proper.wellTyped.free_under (proper.plain.discerningUnder most.plain), List.map_map]
    have same : Symbol.under σ ∘ Symbol.under θ = Symbol.under σ :=
      funext fun r => most.factor_symbol narrows r
    rw [same, ← List.map_append, ← freeIn_pair]
    exact joint

/-- Applying one proper term to another builds the application. -/
theorem Term.Proper.mkApp_built {f x : Term} (proper : f.Proper) (properX : x.Proper)
    (s : Supply) : Built (.app f x) s ((f.mkApp x).runFrom s) := by
  have narrowing := proper.plain.narrow properX.plain.type_plain s
  rw [Term.mkApp_run]
  rcases narrowed : (f.narrow x.type).runFrom s with ⟨failure | g, s'⟩ <;>
    rw [narrowed] at narrowing
  · cases narrowing with
    | impossible later clash none =>
      refine .impossible later clash fun drawn named σ good => ?_
      obtain ⟨σ', _, narrows, _⟩ := proper.extend_narrows properX drawn named good
      exact none σ' narrows
  · cases narrowing with
    | @found types θ _ later most values =>
      have properG := proper.under most.plain
      cases kind : (f.under θ).type with
      | var id => exact absurd kind (most.narrowed proper.wellTyped id)
      | const name =>
        simp only [kind]
        refine .impossible (Nat.le_succ_of_le later) ⟨_, rfl⟩ fun drawn named σ good => ?_
        obtain ⟨σ', _, narrows, same⟩ := proper.extend_narrows properX drawn named good
        rw [same] at good
        obtain ⟨⟨codomain, typed⟩, _⟩ :=
          (proper.wellTyped.under_app_iff properX.wellTyped named.discerningUnder).mp good
        have instances := most.factor narrows f.type
        rw [← proper.wellTyped.type_under, kind, typed] at instances
        cases instances
      | arrow domain codomain =>
        rcases properG.fit properX kind with ⟨θ', fitted, most'⟩ | ⟨failure, failed, clash, none⟩
        · simp only [kind, fitted]
          have plain : (Term.app (f.under θ) x).Plain := ⟨properG.plain, properX.plain⟩
          refine .done ⟨?_, plain.under most'.plain⟩ ⟨later, ?_, fun drawn => ?_,
            fun drawn named σ good => ?_⟩
          · rw [properG.wellTyped.under_app_iff properX.wellTyped
              (plain.discerningUnder most'.plain), kind]
            exact ⟨⟨codomain.mapVars θ', by rw [← most'.holds.1]; rfl⟩, most'.holds.2⟩
          · exact ⟨(Term.refines_under f θ).trans (Term.refines_under _ θ'),
              Term.refines_under x θ'⟩
          · have drawnG : (f.under θ).VarsIn (· ≤ (s'.lastType : Int)) :=
              Term.VarsIn.under (drawn.1.mono fun id le => by omega)
                (values drawn.1 drawn.2.type_in)
            have drawnX : x.VarsIn (· ≤ (s'.lastType : Int)) :=
              drawn.2.mono fun id le => by omega
            refine Term.VarsIn.under (t := .app (f.under θ) x) ⟨drawnG, drawnX⟩
              (most'.confined _ fun t member => ?_)
            have domainDrawn := drawnG.type_in
            rw [kind] at domainDrawn
            simp only [List.mem_cons] at member
            rcases member with rfl | rfl | free
            · exact (Unifier.closed_varsIn _ domainDrawn).1
            · exact drawnX.type_in
            · obtain ⟨r, inside, rfl⟩ := List.mem_map.mp free
              rw [freeIn_pair] at inside
              rcases List.mem_append.mp inside with left | right
              · exact drawnG.free_in r left
              · exact drawnX.free_in r right
          · obtain ⟨σ', old, narrows, same⟩ := proper.extend_narrows properX drawn named good
            rw [same] at good
            refine ⟨σ', old, ?_⟩
            rw [most'.factor_term (most.fits proper properX kind narrows named good), same,
              Term.under_app, Term.under_app, most.factor_term narrows]
        · simp only [kind, failed]
          refine .impossible later clash fun drawn named σ good => ?_
          obtain ⟨σ', _, narrows, same⟩ := proper.extend_narrows properX drawn named good
          rw [same] at good
          exact none σ' (most.fits proper properX kind narrows named good)

/-! ## Several arguments and binders -/

/-- A term applied to several others, first to last. -/
def Term.apps (f : Term) (xs : List Term) : Term := xs.foldl Term.app f

/-- Applying to one more argument. -/
theorem Term.apps_cons (f x : Term) (rest : List Term) :
    f.apps (x :: rest) = (Term.app f x).apps rest := rfl

/-- What a good application applies is good. -/
theorem Term.Good.of_apps {f : Term} {xs : List Term} (good : (f.apps xs).Good) : f.Good := by
  induction xs generalizing f with
  | nil => exact good
  | cons x rest ih => exact (ih good).function

/-- A substitution goes through an application to several arguments. -/
theorem Term.under_apps (f : Term) (xs : List Term) (σ : Int → Ty) :
    (f.apps xs).under σ = (f.under σ).apps (xs.map (Term.under σ)) := by
  induction xs generalizing f with
  | nil => rfl
  | cons x rest ih => exact ih (.app f x)

/-- The type variables of what is applied are variables of the application. -/
theorem Term.VarsIn.of_apps {B : Int → Prop} {f : Term} {xs : List Term}
    (inside : (f.apps xs).VarsIn B) : f.VarsIn B := by
  induction xs generalizing f with
  | nil => exact inside
  | cons x rest ih => exact (ih inside).1

/-- The names of what is applied are names of the application. -/
theorem Term.Named.of_apps {f : Term} {xs : List Term} (named : (f.apps xs).Named) : f.Named := by
  induction xs generalizing f with
  | nil => exact named
  | cons x rest ih => exact (ih named).1

/-- The function of a nested application may be replaced. -/
theorem Generalizes.apps {f f' : Term} {s s' : Supply} (function : Generalizes f s f' s')
    (xs : List Term) : Generalizes (f.apps xs) s (f'.apps xs) s' := by
  induction xs generalizing f f' with
  | nil => exact function
  | cons x rest ih => exact ih (function.app (.refl x (Nat.le_refl _)))

/-- Applying a proper term to several others builds the nested application. -/
theorem Term.Proper.mkApps_built {f : Term} {xs : List Term} (proper : f.Proper)
    (propers : ∀ x ∈ xs, x.Proper) (s : Supply) :
    Built (f.apps xs) s ((f.mkApps xs).runFrom s) := by
  induction xs generalizing f s with
  | nil => exact .done proper (.refl f (Nat.le_refl _))
  | cons x rest ih =>
    have first := proper.mkApp_built (propers x (by simp)) s
    rw [Term.mkApps, Build.runFrom_bind]
    rcases called : (f.mkApp x).runFrom s with ⟨failure | g, s'⟩ <;> rw [called] at first
    · cases first with
      | impossible later clash hopeless =>
        refine .impossible later clash fun drawn named σ good => ?_
        rw [Term.apps_cons] at drawn named good
        rw [Term.under_apps] at good
        exact hopeless drawn.of_apps named.of_apps σ good.of_apps
    · cases first with
      | done properG generalizes =>
        exact (generalizes.apps rest).built
          (ih properG (fun y member => propers y (by simp [member])) s')

/-- Applying a binder to the abstraction of a body builds the application. -/
theorem Term.Proper.mkBinder_built {binder : Term} {v : Symbol} {b : Term}
    (proper : binder.Proper) (variable' : v.type.Plain) (properB : b.Proper) (s : Supply) :
    Built (.app binder (.lam v b)) s ((binder.mkBinder (.var v) b).runFrom s) := by
  have first := properB.mkLam_built variable' s
  rw [Term.mkBinder, Build.runFrom_bind, Build.runFrom_lift]
  cases built : Term.mkLam (.var v) b with
  | error failure =>
    rw [built] at first
    cases first with
    | impossible later clash hopeless =>
      exact .impossible later clash fun drawn named σ good =>
        hopeless drawn.2 named.2 σ good.argument
  | ok abstraction =>
    rw [built] at first
    cases first with
    | done properA generalizes =>
      exact ((Generalizes.refl binder (Nat.le_refl _)).app generalizes).built
        (proper.mkApp_built properA s)

end Turnstile
