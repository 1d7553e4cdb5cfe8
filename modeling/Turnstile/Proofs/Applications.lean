import Turnstile.Proofs.Building

/-!
# Principal applications

Applying one term to another puts types for the type variables of both. A function whose type is
still a variable is narrowed first, and only the function is: the argument keeps the variable. What
is built is therefore the application under one substitution, a most general one, wherever the
argument does not share the variable, and it is found exactly where some substitution makes the
application good. Where the argument shares it the two parts drift apart, and an application is
built even where no substitution makes it good.
-/

namespace Turnstile

open Build

namespace Term

variable {f x : Term} {s : Supply} {θ σ : Int → Ty}

/-! ## Substitutions that make an application good -/

/-- A substitution that makes a function's type one from the argument's type and gives the free
variables of one name one type across the two. -/
structure Applicable (f x : Term) (σ : Int → Ty) : Prop where
  /-- The function takes the argument. -/
  typed : ∃ codomain, f.type.mapVars σ = .arrow (x.type.mapVars σ) codomain
  /-- The free variables agree. -/
  joint : Joint (freeIn [f, x]) σ

/-- A substitution of this kind of which every other one is an instance. -/
structure Principal (f x : Term) (θ : Int → Ty) : Prop where
  /-- It makes the application good. -/
  applicable : Applicable f x θ
  /-- Every other one is an instance of it. -/
  general : ∀ σ, Applicable f x σ → ∃ σ', (app f x).under σ = ((app f x).under θ).under σ'

/-- The outcome of an application that is principal: the two terms under one most general
substitution, or types clash and there is none. -/
inductive Applied (f x : Term) : Except Failure Term × Supply → Prop
  /-- The application under the substitution. -/
  | done {θ : Int → Ty} {s : Supply} (principal : Principal f x θ) :
    Applied f x (.ok ((app f x).under θ), s)
  /-- There is no substitution. -/
  | clash {failure : Failure} {s : Supply} (clash : failure.IsClash)
    (none : ∀ σ, ¬ Applicable f x σ) : Applied f x (.error failure, s)

/-- An application can be made under a substitution exactly when the substitution makes it a good
term. -/
theorem Proper.applicable_iff (proper : f.Proper) (properX : x.Proper)
    (discerning : (app f x).DiscerningUnder σ) :
    Applicable f x σ ↔ ((app f x).under σ).Good := by
  rw [proper.wellTyped.under_app_iff properX.wellTyped discerning]
  exact ⟨fun ⟨typed, joint⟩ => ⟨typed, joint⟩, fun ⟨typed, joint⟩ => ⟨typed, joint⟩⟩

/-- For a function that takes a domain, to be applicable is to fit. -/
theorem applicable_iff_fits {domain codomain : Ty} (typed : f.type = .arrow domain codomain) :
    Applicable f x σ ↔ Fits f x domain σ := by
  constructor
  · rintro ⟨⟨codomain', applied⟩, joint⟩
    rw [typed] at applied
    exact ⟨(Ty.arrow.inj applied).1, joint⟩
  · rintro ⟨same, joint⟩
    refine ⟨⟨codomain.mapVars σ, ?_⟩, joint⟩
    rw [typed, ← same]
    rfl

/-! ## Narrowing the function -/

/-- What narrowing puts for type variables: the function type for the variable that is the
function's type, and nothing for any other. -/
def narrower (f : Term) (domain : Ty) (s : Supply) (id : Int) : Ty :=
  if f.type = .var id then .arrow domain (.var s.nextType) else .var id

/-- A type without the variable that is the function's type stays as it is. -/
theorem mapVars_narrower {domain t : Ty} (absent : ∀ id ∈ t.vars, f.type ≠ .var id) :
    t.mapVars (f.narrower domain s) = t := by
  calc t.mapVars (f.narrower domain s) = t.mapVars .var :=
        Ty.mapVars_congr fun id inside => if_neg (absent id inside)
    _ = t := Ty.mapVars_var t

/-- Where the type of the function is known nothing is narrowed. -/
theorem narrower_known {domain : Ty} (known : f.type.isVar = false) :
    f.narrower domain s = .var := by
  funext id
  exact if_neg fun is => by rw [is] at known; cases known

/-- Narrowing puts plain types for type variables. -/
theorem plain_narrower {domain : Ty} (plainDomain : domain.Plain) (id : Int) :
    (f.narrower domain s id).Plain := by
  rw [narrower]
  split
  · exact ⟨plainDomain, trivial⟩
  · trivial

/-- A substitution that narrows is an instance of narrowing. -/
theorem after_narrower {domain : Ty} (narrows : Narrows f domain s σ) :
    after (f.narrower domain s) σ = σ := by
  funext id
  rw [after, narrower]
  split
  next is =>
    have equal := narrows (by rw [is]; rfl)
    rw [is] at equal
    exact equal.symm
  next => rfl

/-- Narrowing narrows wherever the variable is not in the domain. -/
theorem narrows_narrower {domain : Ty} (absent : ∀ id ∈ domain.vars, f.type ≠ .var id)
    (new : f.type ≠ .var s.nextType) : Narrows f domain s (f.narrower domain s) := by
  intro unknown
  rw [mapVars_narrower absent]
  cases kind : f.type with
  | const name => rw [kind] at unknown; cases unknown
  | arrow d c => rw [kind] at unknown; cases unknown
  | var w =>
    change f.narrower domain s w = .arrow domain (f.narrower domain s s.nextType)
    rw [narrower, if_pos kind, narrower, if_neg new]

/-- A variable that is to become a function from a type is not in that type. -/
theorem absent_of_narrows {domain : Ty} (narrows : Narrows f domain s σ) :
    ∀ id ∈ domain.vars, f.type ≠ .var id := by
  intro id inside is
  have equal := narrows (by rw [is]; rfl)
  have sizes := congrArg Ty.size equal
  have larger := Ty.size_le_of_mem_vars (f := σ) inside
  rw [is] at sizes
  simp only [Ty.mapVars, Ty.size] at sizes
  omega

/-- A most general narrowing narrows nothing but the variable. -/
theorem narrower_unique {types : List Ty} {domain : Ty} (new : f.type ≠ .var s.nextType)
    (most : MostGeneral types (Narrows f domain s) θ) : θ = f.narrower domain s := by
  have absent := absent_of_narrows most.holds
  have narrows := narrows_narrower absent new
  have other : ∀ id, f.type ≠ .var id → f.narrower domain s id = .var id := fun id differs =>
    if_neg differs
  -- What is put for another variable is not narrowed either, and is therefore the variable itself.
  have kept : ∀ id, f.type ≠ .var id → θ id = .var id := by
    intro id differs
    have instances := most.general _ narrows id
    rw [other id differs] at instances
    cases value : θ id with
    | const name => rw [value] at instances; cases instances
    | arrow d c => rw [value] at instances; cases instances
    | var id' =>
      rw [value] at instances
      change f.narrower domain s id' = .var id at instances
      by_cases is : f.type = .var id'
      · rw [narrower, if_pos is] at instances
        cases instances
      · rw [other id' is] at instances
        exact instances
  have domain' : domain.mapVars θ = domain := by
    calc domain.mapVars θ = domain.mapVars .var :=
          Ty.mapVars_congr fun id inside => kept id (absent id inside)
      _ = domain := Ty.mapVars_var domain
  funext id
  by_cases is : f.type = .var id
  · have holds := most.holds (by rw [is]; rfl)
    rw [is, domain', kept _ new] at holds
    rw [narrower, if_pos is]
    exact holds
  · rw [kept id is, other id is]

/-- A type that was drawn before differs from the next variable. -/
theorem Drawn.new (drawn : f.Drawn s) : f.type ≠ .var s.nextType := by
  intro is
  have old : s.nextType ≤ s.lastType := drawn.type_in s.nextType (by simp [is, Ty.vars])
  rw [Supply.nextType] at old
  omega

/-- A function is narrowed, or it would have to contain its own type. -/
theorem Plain.narrow_cases {domain : Ty} (plain : f.Plain) (plainDomain : domain.Plain)
    (drawn : f.Drawn s) :
    (∃ s', (f.narrow domain).runFrom s = (.ok (f.under (f.narrower domain s)), s') ∧
      ∀ id ∈ domain.vars, f.type ≠ .var id) ∨
    (∃ failure s', (f.narrow domain).runFrom s = (.error failure, s') ∧ failure.IsClash ∧
      ∀ σ, ¬ Narrows f domain s σ) := by
  cases kind : f.type with
  | var w =>
    have outcome := Term.Plain.narrow plain plainDomain s
    rcases run : (f.narrow domain).runFrom s with ⟨failure | g, s'⟩ <;> rw [run] at outcome
    · cases outcome with
      | impossible _ clash none => exact .inr ⟨failure, s', rfl, clash, none⟩
    · cases outcome with
      | found _ most _ =>
        refine .inl ⟨s', by rw [narrower_unique drawn.new most], ?_⟩
        rw [← kind]
        exact absent_of_narrows most.holds
  | const name =>
    refine .inl ⟨s, ?_, by simp⟩
    have known : f.type.isVar = false := by rw [kind]; rfl
    rw [Term.narrow, known, narrower_known known, under_self]
    rfl
  | arrow d c =>
    refine .inl ⟨s, ?_, by simp⟩
    have known : f.type.isVar = false := by rw [kind]; rfl
    rw [Term.narrow, known, narrower_known known, under_self]
    rfl

/-! ## What is built -/

/-- An argument is fitted to a function of known domain by one most general substitution. -/
theorem Proper.fit_applied {domain codomain : Ty} (proper : f.Proper) (properX : x.Proper)
    (typed : f.type = .arrow domain codomain) (s : Supply) :
    Applied f x (f.fit x domain, s) := by
  rcases proper.fit properX typed with ⟨θ, fitted, most⟩ | ⟨failure, failed, clash, none⟩
  · rw [fitted]
    refine .done ⟨(applicable_iff_fits typed).mpr most.holds, fun σ applicable => ⟨σ, ?_⟩⟩
    exact (most.factor_term ((applicable_iff_fits typed).mp applicable) _).symm
  · rw [failed]
    exact .clash clash fun σ applicable => none σ ((applicable_iff_fits typed).mp applicable)

/-- Application is principal for the narrowed function, whatever the argument shares with it. -/
theorem Proper.mkApp_narrowed (proper : f.Proper) (properX : x.Proper) (drawn : f.Drawn s)
    (absent : ∀ id ∈ x.type.vars, f.type ≠ .var id) :
    Applied (f.under (f.narrower x.type s)) x ((f.mkApp x).runFrom s) := by
  rcases proper.plain.narrow_cases properX.plain.type_plain drawn with
    ⟨s', run, _⟩ | ⟨failure, s', _, _, none⟩
  · have properG := proper.under (plain_narrower (s := s) (f := f) properX.plain.type_plain)
    rw [mkApp_run, run]
    cases kind : (f.under (f.narrower x.type s)).type with
    | arrow domain codomain =>
      simp only [kind]
      exact properG.fit_applied properX kind s'
    | const name =>
      simp only [kind]
      refine .clash ⟨_, rfl⟩ fun σ applicable => ?_
      obtain ⟨codomain, typed⟩ := applicable.typed
      rw [kind] at typed
      cases typed
    | var id =>
      -- A variable that is the function's type has been narrowed.
      rw [proper.wellTyped.type_under] at kind
      cases known : f.type with
      | const name => rw [known] at kind; cases kind
      | arrow d c => rw [known] at kind; cases kind
      | var w =>
        rw [known] at kind
        change f.narrower x.type s w = .var id at kind
        rw [narrower, if_pos known] at kind
        cases kind
  · exact absurd (narrows_narrower absent drawn.new) (none _)

/-- A term none of whose type variables is the function's type is not narrowed. -/
theorem under_narrower {domain : Ty} {t : Term} (absent : t.VarsIn fun id => f.type ≠ .var id) :
    t.under (f.narrower domain s) = t := by
  calc t.under (f.narrower domain s) = t.under .var :=
        absent.under_congr fun id differs => if_neg differs
    _ = t := t.under_self

/-- A variable that is the function's type is in the argument only if it is in the argument's
type, where no function type can be found for it. -/
def Unshared (f x : Term) : Prop :=
  (∀ id ∈ x.type.vars, f.type ≠ .var id) → x.VarsIn fun id => f.type ≠ .var id

/-- Application is principal where the function's variable is not shared: it finds the application
under one most general substitution, or there is none. -/
theorem Proper.mkApp_principal (proper : f.Proper) (properX : x.Proper)
    (drawn : (app f x).Drawn s) (named : (app f x).Named) (unshared : Unshared f x) :
    Applied f x ((f.mkApp x).runFrom s) := by
  have applicable_iff : ∀ {σ}, Applicable f x σ ↔ ((app f x).under σ).Good :=
    proper.applicable_iff properX named.discerningUnder
  have instances : ∀ σ, Applicable f x σ → ∃ σ', Narrows f x.type s σ' ∧
      (app f x).under σ = (app f x).under σ' := by
    intro σ applicable
    obtain ⟨σ', _, narrows, same⟩ :=
      proper.extend_narrows properX drawn named (applicable_iff.mp applicable)
    exact ⟨σ', narrows, same⟩
  by_cases absent : ∀ id ∈ x.type.vars, f.type ≠ .var id
  · have kept : x.under (f.narrower x.type s) = x := under_narrower (unshared absent)
    have narrowed : ∀ θ, (app (f.under (f.narrower x.type s)) x).under θ =
        (app f x).under (after (f.narrower x.type s) θ) := by
      intro θ
      rw [under_app, under_app, under_under]
      congr 1
      calc x.under θ = (x.under (f.narrower x.type s)).under θ := by rw [kept]
        _ = x.under (after (f.narrower x.type s) θ) := under_under _ _ _
    have applicable : ∀ θ, Applicable (f.under (f.narrower x.type s)) x θ ↔
        Applicable f x (after (f.narrower x.type s) θ) := by
      intro θ
      have properG := proper.under (plain_narrower (s := s) (f := f) properX.plain.type_plain)
      have named' : (app (f.under (f.narrower x.type s)) x).Named := ⟨named.1.under, named.2⟩
      rw [properG.applicable_iff properX named'.discerningUnder, applicable_iff, narrowed]
    have outcome := proper.mkApp_narrowed properX drawn.1 absent
    generalize (f.mkApp x).runFrom s = result at outcome ⊢
    cases outcome with
    | @done θ s' principal =>
      rw [narrowed]
      refine .done ⟨(applicable θ).mp principal.applicable, fun σ holds => ?_⟩
      obtain ⟨σ', narrows, same⟩ := instances σ holds
      have holds' : Applicable f x σ' := by
        rw [applicable_iff] at holds ⊢
        exact same ▸ holds
      obtain ⟨σ'', instance'⟩ :=
        principal.general σ' ((applicable σ').mpr (by rw [after_narrower narrows]; exact holds'))
      refine ⟨σ'', ?_⟩
      rw [narrowed, narrowed, after_narrower narrows] at instance'
      exact same.trans instance'
    | clash clash none =>
      refine .clash clash fun σ holds => ?_
      obtain ⟨σ', narrows, same⟩ := instances σ holds
      refine none σ' ((applicable σ').mpr ?_)
      rw [after_narrower narrows, applicable_iff, ← same]
      exact applicable_iff.mp holds
  · rcases proper.plain.narrow_cases properX.plain.type_plain drawn.1 with
      ⟨_, _, absent'⟩ | ⟨failure, s', run, clash, none⟩
    · exact absurd absent' absent
    · rw [mkApp_run, run]
      refine .clash clash fun σ applicable => ?_
      obtain ⟨σ', narrows, _⟩ := instances σ applicable
      exact none σ' narrows

/-- Whatever the two terms share, an application is built if some substitution makes it good. -/
theorem Proper.mkApp_succeeds (proper : f.Proper) (properX : x.Proper)
    (drawn : (app f x).Drawn s) (named : (app f x).Named) (applicable : Applicable f x σ) :
    ∃ t s', (f.mkApp x).runFrom s = (.ok t, s') := by
  have built := proper.mkApp_built properX s
  rcases run : (f.mkApp x).runFrom s with ⟨failure | t, s'⟩ <;> rw [run] at built
  · cases built with
    | impossible _ _ hopeless =>
      have good := (proper.applicable_iff properX named.discerningUnder).mp applicable
      exact absurd good (hopeless drawn named σ)
  · exact ⟨t, s', rfl⟩

/-- An application that is good already is built as it is. -/
theorem Proper.mkApp_good (proper : (app f x).Proper) (s : Supply) :
    (f.mkApp x).runFrom s = (.ok (app f x), s) := by
  obtain ⟨codomain, typed⟩ := proper.wellTyped.2.2
  have fits : Fits f x x.type .var := by
    have discerning : (app f x).DiscerningUnder .var := proper.plain.discerningUnder
      fun _ => trivial
    rw [← applicable_iff_fits typed, proper.function.applicable_iff proper.argument discerning,
      under_self]
    exact proper.toGood
  have known : f.type.isVar = false := by rw [typed]; rfl
  rw [mkApp_run, Term.narrow, known]
  simp only [Bool.false_eq_true, if_false, runFrom_pure, typed]
  rcases proper.function.fit proper.argument typed with
    ⟨θ, fitted, most⟩ | ⟨failure, _, _, none⟩
  · have same : θ = .var := by
      funext id
      rw [← most.general .var fits id, Ty.mapVars_var]
    rw [fitted, same, under_self]
  · exact absurd fits (none .var)

/-- Where names have one type each already, making types agree changes nothing. -/
theorem jointTypes_uniform {terms : List Term} (plain : ∀ s ∈ freeIn terms, s.type.Plain)
    (uniform : Uniform (freeIn terms)) :
    ∃ u, jointTypes terms = .ok u ∧ u.apply = Ty.mapVars .var := by
  have joint : Joint (freeIn terms) .var := joint_iff.mpr fun s member s' member' name => by
    rw [Ty.mapVars_var, Ty.mapVars_var]
    exact uniform s member s' member' name
  have solution := jointTypes_solution_of_types plain
  cases joined : jointTypes terms with
  | error failure =>
    rw [joined] at solution
    cases solution with
    | impossible _ none => exact absurd joint (none .var)
  | ok u =>
    rw [joined] at solution
    cases solution with
    | @found _ θ apply most =>
      have same : θ = .var := by
        funext id
        rw [← most.general .var joint id, Ty.mapVars_var]
      exact ⟨u, rfl, same ▸ apply⟩

/-- Putting every type variable for itself changes no term. -/
theorem applyTypes_self {u : Unifier} (apply : u.apply = Ty.mapVars .var) : applyTypes u = id :=
  funext fun t => (applyTypes_eq apply t).trans (under_self t)

/-- An abstraction that is good already is built as it is. -/
theorem Proper.mkLam_good {v : Symbol} {b : Term} (proper : (lam v b).Proper) :
    mkLam (.var v) b = .ok (lam v b) := by
  have uniform : Uniform (freeIn [.var v, b]) := by
    rw [freeIn_pair]
    exact (proper.body.toGood.lam_iff proper.plain.discerning).mp proper.toGood
  have plain := plain_freeIn (plain_pair (f := .var v) proper.plain.1 proper.plain.2)
  obtain ⟨u, joined, apply⟩ := jointTypes_uniform plain uniform
  have lam' : Term.lam (v.mapType u.apply) (b.applyTypes u) = (lam v b).under .var := by
    rw [applyTypes_eq apply, apply]
    rfl
  rw [mkLam, joined]
  change Except.ok (Term.lam (v.mapType u.apply) (b.applyTypes u)) = _
  rw [lam', under_self]

/-! ## Shared type variables -/

namespace Shared

/-- A function whose type is a variable. -/
def function : Term := .var ⟨"x", .var 1⟩

/-- An argument that has this variable in its parts and not in its type. -/
def argument : Term := .app (.var ⟨"y", .arrow (.var 1) .obj⟩) (.var ⟨"z", .var 1⟩)

/-- The application of the two is built, and is not the application under any substitution: the
variable has become a function type in the function and is as it was in the argument. -/
theorem drifts_apart : ∃ t s', (function.mkApp argument).runFrom .initial = (.ok t, s') ∧
    ∀ θ, t ≠ (app function argument).under θ := by
  have built : ((function.mkApp argument).runFrom .initial).1.toOption =
      some (.app (.var ⟨"x", .arrow .obj (.var 1000000001)⟩) argument) := by decide
  rcases run : (function.mkApp argument).runFrom .initial with ⟨failure | t, s'⟩ <;>
    rw [run] at built <;> cases built
  refine ⟨_, s', rfl, fun θ same => ?_⟩
  have inFunction : Ty.arrow .obj (.var 1000000001) = θ 1 :=
    congrArg Term.type (Term.app.inj same).1
  have inArgument : Ty.var 1 = θ 1 :=
    congrArg Term.type (Term.app.inj (Term.app.inj same).2).2
  cases inFunction.trans inArgument.symm

/-- A function whose type is a variable, applied to a truth value of which it shares the name. -/
def sharedFunction : Term := .app (.var ⟨"h", .arrow .bool (.var 1)⟩) (.var ⟨"u", .bool⟩)

/-- An argument in which the name has the variable for its type. -/
def sharedArgument : Term := .app (.var ⟨"y", .arrow (.var 1) .obj⟩) (.var ⟨"u", .var 1⟩)

/-- The application of the two is built although no substitution makes it good: the variable would
have to be a function type for the function and the type of truth values for the name. -/
theorem builds_without_solution :
    (∃ t s', (sharedFunction.mkApp sharedArgument).runFrom .initial = (.ok t, s')) ∧
      ∀ σ, ¬ Applicable sharedFunction sharedArgument σ := by
  constructor
  · have built : ((sharedFunction.mkApp sharedArgument).runFrom .initial).1.toOption.isSome =
        true := by decide
    rcases run : (sharedFunction.mkApp sharedArgument).runFrom .initial with ⟨failure | t, s'⟩ <;>
      rw [run] at built
    · cases built
    · exact ⟨t, s', rfl⟩
  · rintro σ ⟨⟨codomain, typed⟩, joint⟩
    have isFunction : σ 1 = .arrow .obj codomain := typed
    have isTruthValue : Ty.bool = σ 1 :=
      joint_iff.mp joint ⟨"u", .bool⟩ (by decide) ⟨"u", .var 1⟩ (by decide) rfl
    cases isTruthValue.trans isFunction

end Shared

end Term

end Turnstile
