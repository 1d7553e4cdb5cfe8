import Turnstile.Proofs.Semantics
import Turnstile.Proofs.TypeSafety

/-!
# What substitution means

Substitution puts a value for an atom in the sense of standard models, unless a bound variable is
renamed to the very variable that is replaced: then the renamed occurrences are replaced as well.
`Term.captures` says whether this comes up anywhere in a substitution, reductions and renamings
included.

Types have no variables here, so what is rebuilt on the way is exactly what was taken apart.
-/

namespace Turnstile

open Build

universe u

/-- The build succeeds, and its result and the supply it leaves pass a test. -/
def Build.leadsTo {α : Type} (build : Build α) (s : Supply) (test : α → Supply → Bool) : Bool :=
  match build.runFrom s with
  | (.ok a, s') => test a s'
  | (.error _, _) => false

/-- A build leads to a test where its result passes it. -/
theorem Build.leadsTo_of_run {α : Type} {build : Build α} {s s' : Supply} {a : α}
    (run : build.runFrom s = (.ok a, s')) (test : α → Supply → Bool) :
    build.leadsTo s test = test a s' := by
  rw [leadsTo, run]

namespace Term

/-- Whether a bound variable that occurs is renamed to the atom that is replaced, in a
substitution that nests at most `depth` calls deep. -/
def capturesWithin : (depth : Nat) → (t value pattern : Term) → Supply → Bool
  | 0, _, _, _, _ => false
  | depth + 1, t, value, pattern, s =>
    match t with
    | .const _ => false
    | .var _ => false
    | .app f x =>
      capturesWithin depth f value pattern s ||
        (substituteWithin depth f value pattern).leadsTo s fun f s =>
          capturesWithin depth x value pattern s ||
            (substituteWithin depth x value pattern).leadsTo s fun x s =>
              (f.mkApp x).leadsTo s fun t s =>
                match t with
                | .app (.lam bound body) argument =>
                  capturesWithin depth body argument (.var bound) s
                | _ => false
    | .lam bound body =>
      if pattern.hasFree bound then false
      else if value.freeNames.contains bound.name then
        let fresh := renamedBound bound body value.freeNames
        (.var fresh == pattern && body.hasFree bound) ||
          capturesWithin depth body (.var fresh) (.var bound) s ||
            (substituteWithin depth body (.var fresh) (.var bound)).leadsTo s fun body s =>
              capturesWithin depth body value pattern s
      else capturesWithin depth body value pattern s

/-- Whether a substitution from a supply goes wrong by renaming. -/
def captures (t value pattern : Term) (s : Supply) : Bool :=
  capturesWithin s.depth t value pattern s

/-! ## Terms without type variables -/

/-- No type in the term has a variable. -/
def Ground (t : Term) : Prop := t.VarsIn fun _ => False

variable {t f x b value pattern : Term} {v : Symbol}

/-- A substitution leaves a symbol without type variables. -/
theorem under_eq_of_ground {s : Symbol} (ground : Unifier.VarsIn (fun _ => False) s.type)
    (θ : Int → Ty) : s.under θ = s := by
  refine Symbol.ext_iff'.mpr ⟨rfl, ?_⟩
  have none : s.type.vars = [] := List.eq_nil_iff_forall_not_mem.mpr ground
  exact Ty.mapVars_of_vars_nil none θ

/-- Nothing but the term itself refines a term without type variables. -/
theorem Ground.eq_of_refines {t t' : Term} (ground : t.Ground) (refines : t.Refines t') :
    t' = t := by
  induction t generalizing t' with
  | const c =>
    cases t' with
    | const _ =>
      obtain ⟨θ, rfl⟩ := refines
      rw [under_eq_of_ground ground]
    | _ => cases refines
  | var s =>
    cases t' with
    | var _ =>
      obtain ⟨θ, rfl⟩ := refines
      rw [under_eq_of_ground ground]
    | _ => cases refines
  | app f x ihF ihX =>
    cases t' with
    | app _ _ => rw [ihF ground.1 refines.1, ihX ground.2 refines.2]
    | _ => cases refines
  | lam v body ih =>
    cases t' with
    | lam _ _ =>
      obtain ⟨⟨θ, rfl⟩, refinesB⟩ := refines
      rw [under_eq_of_ground ground.1, ih ground.2 refinesB]
    | _ => cases refines

/-- A substitution leaves a term without type variables. -/
theorem Ground.under_eq (ground : t.Ground) (θ : Int → Ty) : t.under θ = t :=
  ground.eq_of_refines (t.refines_under θ)

/-- A proper term without type variables. Building with it leaves it as it is. -/
structure Rigid (t : Term) : Prop where
  /-- It is proper. -/
  proper : t.Proper
  /-- It has no type variables. -/
  ground : t.Ground

namespace Rigid

/-- The function of a rigid application is rigid. -/
theorem function (rigid : (app f x).Rigid) : f.Rigid := ⟨rigid.proper.function, rigid.ground.1⟩

/-- So is its argument. -/
theorem argument (rigid : (app f x).Rigid) : x.Rigid := ⟨rigid.proper.argument, rigid.ground.2⟩

/-- The body of a rigid abstraction is rigid. -/
theorem body (rigid : (lam v b).Rigid) : b.Rigid := ⟨rigid.proper.body, rigid.ground.2⟩

/-- So is its bound variable. -/
theorem bound (rigid : (lam v b).Rigid) : (var v).Rigid := ⟨rigid.proper.bound, rigid.ground.1⟩

/-- Applying a term without type variables to another gives just the application. -/
theorem mkApp (function : f.Rigid) (argument : x.Rigid) {s s' : Supply}
    (run : (f.mkApp x).runFrom s = (.ok t, s')) : t = .app f x ∧ t.Rigid := by
  have built := function.proper.mkApp_built argument.proper s
  rw [run] at built
  cases built with
  | done proper generalizes =>
    have ground : (app f x).Ground := ⟨function.ground, argument.ground⟩
    have same := ground.eq_of_refines generalizes.refines
    subst same
    exact ⟨rfl, proper, ground⟩

/-- Abstracting a term without type variables gives just the abstraction. -/
theorem mkLam (bound : (var v).Rigid) (body : b.Rigid) (built : Term.mkLam (.var v) b = .ok t) :
    t = .lam v b ∧ t.Rigid := by
  have outcome := body.proper.mkLam_built bound.proper.plain default
  rw [built] at outcome
  cases outcome with
  | done proper generalizes =>
    have ground : (lam v b).Ground := ⟨bound.ground, body.ground⟩
    have same := ground.eq_of_refines generalizes.refines
    subst same
    exact ⟨rfl, proper, ground⟩

end Rigid

/-- A proper term of logic without type variables. -/
structure Meaningful (t : Term) : Prop where
  /-- It is proper. -/
  proper : t.Proper
  /-- It has no type variables. -/
  ground : t.Ground
  /-- It is a term of logic. -/
  speaks : t.Speaks Logic.defined

namespace Meaningful

/-- A meaningful term is rigid. -/
theorem rigid (meaningful : t.Meaningful) : t.Rigid := ⟨meaningful.proper, meaningful.ground⟩

/-- The function of a meaningful application is meaningful. -/
theorem function (meaningful : (app f x).Meaningful) : f.Meaningful :=
  ⟨meaningful.proper.function, meaningful.ground.1, meaningful.speaks.1⟩

/-- So is its argument. -/
theorem argument (meaningful : (app f x).Meaningful) : x.Meaningful :=
  ⟨meaningful.proper.argument, meaningful.ground.2, meaningful.speaks.2⟩

/-- The body of a meaningful abstraction is meaningful. -/
theorem body (meaningful : (lam v b).Meaningful) : b.Meaningful :=
  ⟨meaningful.proper.body, meaningful.ground.2, meaningful.speaks.2⟩

/-- So is its bound variable. -/
theorem bound (meaningful : (lam v b).Meaningful) : (var v).Meaningful :=
  ⟨meaningful.proper.bound, meaningful.ground.1, meaningful.speaks.1⟩

/-- A meaningful term stands for a value of its type. -/
theorem denote_type (meaningful : t.Meaningful) {M : Model.{u}} (ρ : M.Assignment) :
    (M.denote t ρ).type = t.type := meaningful.proper.wellTyped.denote_type meaningful.speaks ρ

/-- What a term stands for depends on its free variables only. -/
theorem denote_congr (meaningful : t.Meaningful) {M : Model.{u}} {ρ ρ' : M.Assignment}
    (agree : ∀ s ∈ t.free, ρ s = ρ' s) : M.denote t ρ = M.denote t ρ' :=
  meaningful.proper.wellTyped.denote_congr meaningful.proper.plain.discerning agree

/-- An application that is made of meaningful terms is the application, and it is meaningful. -/
theorem mkApp (function : f.Meaningful) (argument : x.Meaningful) {s s' : Supply}
    (run : (f.mkApp x).runFrom s = (.ok t, s')) : t = .app f x ∧ t.Meaningful := by
  obtain ⟨rfl, rigid⟩ := function.rigid.mkApp argument.rigid run
  exact ⟨rfl, rigid.proper, rigid.ground, function.speaks, argument.speaks⟩

/-- An abstraction that is made of meaningful terms is the abstraction, and it is meaningful. -/
theorem mkLam (bound : (var v).Meaningful) (body : b.Meaningful)
    (built : Term.mkLam (.var v) b = .ok t) : t = .lam v b ∧ t.Meaningful := by
  obtain ⟨rfl, rigid⟩ := bound.rigid.mkLam body.rigid built
  exact ⟨rfl, rigid.proper, rigid.ground, bound.speaks, body.speaks⟩

end Meaningful

/-! ## Values under a substitution -/

/-- The second assignment reads the pattern as the first reads the value. A variable for which a
value of another type is put may be read in any way. -/
structure Reads {M : Model.{u}} (value pattern : Term) (ρ ρ' : M.Assignment) : Prop where
  /-- Other variables have the same values. -/
  others : ∀ s, .var s ≠ pattern → ρ' s = ρ s
  /-- An atom gets the value. -/
  atom : pattern.isAtom = true → pattern.type = value.type →
    M.denote pattern ρ' = M.denote value ρ

/-- A term means, with the pattern read as the value, what another term means. -/
def Replaces (value pattern t t' : Term) : Prop :=
  ∀ (M : Model.{u}) (ρ ρ' : M.Assignment), Reads value pattern ρ ρ' →
    M.denote t' ρ = M.denote t ρ'

/-- Setting a variable that is neither the pattern nor free in the value keeps the reading. -/
theorem Reads.set {M : Model.{u}} {ρ ρ' : M.Assignment} (reads : Reads value pattern ρ ρ')
    (meaningful : value.Meaningful) (other : .var v ≠ pattern) (unused : v.name ∉ value.freeNames)
    (a : M.Carrier v.type) : Reads value pattern (ρ.set v a) (ρ'.set v a) := by
  constructor
  · intro s apart
    by_cases same : s = v
    · subst same
      rw [Model.Assignment.set_same, Model.Assignment.set_same]
    · rw [Model.Assignment.set_other same, Model.Assignment.set_other same, reads.others s apart]
  · intro atom typed
    have values : M.denote value (ρ.set v a) = M.denote value ρ := by
      refine meaningful.denote_congr fun s member => Model.Assignment.set_other ?_
      rintro rfl
      exact unused (List.mem_map_of_mem member)
    rw [values, ← reads.atom atom typed]
    cases pattern with
    | const c => rfl
    | var x =>
      have apart : x ≠ v := fun same => other (same ▸ rfl)
      rw [Model.denote, Model.denote, Model.Assignment.set_other apart]
    | _ => cases atom

/-- A variable may be read as the value that is put for it. -/
theorem Reads.assigned (meaningful : value.Meaningful) {M : Model.{u}} (ρ : M.Assignment) :
    Reads value (.var v) ρ (ρ.set v ((M.denote value ρ).as v.type)) := by
  refine ⟨fun s apart => Model.Assignment.set_other fun same => apart (same ▸ rfl),
    fun _ typed => ?_⟩
  have type : (M.denote value ρ).type = v.type := by rw [meaningful.denote_type, ← typed, Term.type]
  rw [Model.denote, Model.Assignment.set_same, ← Model.Value.eq_mk type]

/-- Abstractions over variables of one type are equal if their bodies always are. -/
theorem denote_lam_congr {M : Model.{u}} {ρ ρ' : M.Assignment} {name : String} {b' : Term}
    (meaningful : b.Meaningful) (meaningful' : b'.Meaningful)
    (bodies : ∀ a : M.Carrier v.type,
      M.denote b' (ρ.set { v with name := name } a) = M.denote b (ρ'.set v a)) :
    M.denote (.lam { v with name := name } b') ρ = M.denote (.lam v b) ρ' := by
  have types : b'.type = b.type := by
    rw [← meaningful'.denote_type (ρ.set { v with name := name } (M.arbitrary v.type)),
      bodies, meaningful.denote_type]
  rw [Model.denote, Model.denote, types]
  simp only [bodies]

/-- A variable is free in itself. -/
theorem hasFree_var (v : Symbol) : (var v).hasFree v = true := by simp [hasFree, free]

/-- What is not free in a pattern is another variable than the pattern. -/
theorem var_ne_of_hasFree (apart : pattern.hasFree v = false) : .var v ≠ pattern := by
  rintro rfl
  rw [hasFree_var] at apart
  cases apart

/-- Different numbers give different names. -/
theorem numberedName_inj {base : String} {i j : Nat}
    (same : numberedName base i = numberedName base j) : i = j := by
  have nonempty : ∀ n : Nat, base ≠ base ++ toString (n + 1) := by
    intro n equal
    have lengths := congrArg String.length equal
    rw [String.length_append] at lengths
    have positive : 0 < (toString (n + 1)).length := Nat.length_repr_pos
    omega
  cases i with
  | zero =>
    cases j with
    | zero => rfl
    | succ j => exact absurd same (nonempty j)
  | succ i =>
    cases j with
    | zero => exact absurd same.symm (nonempty i)
    | succ j =>
      have numbers : toString (i + 1) = toString (j + 1) := by
        have lists := congrArg String.toList same
        simp only [numberedName, String.toList_append] at lists
        exact String.toList_inj.mp (List.append_cancel_left lists)
      exact nat_repr_inj numbers

/-- The name that replaces a bound name is not taken: one more name is tried than there are taken
ones. -/
theorem freshName_not_mem (base : String) (taken : List String) :
    freshName base taken ∉ taken := by
  rw [freshName]
  cases found : ((List.range (taken.length + 1)).map (numberedName base)).find?
      fun name => !taken.contains name with
  | some name => simpa using List.find?_some found
  | none =>
    have inside : (List.range (taken.length + 1)).map (numberedName base) ⊆ taken := by
      intro name member
      simpa using List.find?_eq_none.mp found name member
    have distinct : ((List.range (taken.length + 1)).map (numberedName base)).Nodup :=
      List.nodup_range.map fun i j same => numberedName_inj same
    have lengths := List.Nodup.length_le_of_subset distinct inside
    rw [List.length_map, List.length_range] at lengths
    omega

/-- A numbered name ends in a digit and so is not the name of a defined constant. -/
theorem numberedName_speaks {names : List String} (defined : names ⊆ Logic.defined) {base : String}
    (apart : base ∉ names) (n : Nat) : numberedName base n ∉ names := by
  cases n with
  | zero => exact apart
  | succ n =>
    intro member
    have last : ∀ c ∈ (numberedName base (n + 1)).toList.getLast?, c.isDigit = true := by
      intro c is
      have nonempty : (toString (n + 1)).toList ≠ [] := by
        intro empty
        have positive : 0 < (toString (n + 1)).length := Nat.length_repr_pos
        rw [← String.length_toList, empty] at positive
        exact absurd positive (by decide)
      rw [numberedName, String.toList_append, List.getLast?_append_of_ne_nil _ nonempty] at is
      exact isDigit_of_mem_repr (List.mem_of_getLast? is)
    have known := defined member
    simp only [Logic.defined, List.mem_cons, List.not_mem_nil, or_false] at known
    rcases known with is | is | is | is <;> rw [is] at last <;>
      exact absurd (last _ rfl) (by decide)

/-- So a fresh name is not one of these names unless the base is. -/
theorem freshName_speaks {names : List String} (defined : names ⊆ Logic.defined) {base : String}
    (apart : base ∉ names) (taken : List String) : freshName base taken ∉ names := by
  obtain ⟨n, is⟩ := freshName_eq base taken
  rw [is]
  exact numberedName_speaks defined apart n

/-- A free variable is an atom. -/
theorem mem_atoms_of_mem_free {s : Symbol} (member : s ∈ t.free) : .var s ∈ t.atoms := by
  induction t with
  | const c => cases member
  | var r => simpa [free, atoms] using member
  | app f x ihF ihX =>
    rcases List.mem_append.mp member with left | right
    · exact List.mem_append_left _ (ihF left)
    · exact List.mem_append_right _ (ihX right)
  | lam v body ih => exact List.mem_cons_of_mem _ (ih (List.mem_of_mem_filter member))

/-- A free variable is another one than those that are not free. -/
theorem ne_of_hasFree {s : Symbol} (absent : t.hasFree v = false) (member : s ∈ t.free) :
    s ≠ v := by
  rintro rfl
  have occurs : t.hasFree s = true := List.any_eq_true.mpr ⟨s, member, by simp⟩
  rw [absent] at occurs
  cases occurs

/-- The new name of a bound variable is neither free in the body nor in the value. -/
theorem renamedBound_fresh (v : Symbol) (b : Term) (names : List String) :
    (∀ s ∈ b.free, s ≠ renamedBound v b names) ∧ (renamedBound v b names).name ∉ names := by
  have fresh := freshName_not_mem v.name (b.atoms.map Term.name ++ names)
  constructor
  · rintro s member rfl
    exact fresh (List.mem_append_left _ (List.mem_map.mpr ⟨_, mem_atoms_of_mem_free member, rfl⟩))
  · exact fun member => fresh (List.mem_append_right _ member)

/-- A body whose bound variable is renamed before the substitution means what it meant, unless the
new variable is the pattern. -/
theorem Replaces.renamed {b₁ b₂ : Term} {name : String} (meaningful : b.Meaningful)
    (meaningfulValue : value.Meaningful) (unbound : ∀ s ∈ b.free, s ≠ { v with name := name })
    (unused : name ∉ value.freeNames)
    (clear : .var { v with name := name } = pattern → b.hasFree v = false)
    (first : Replaces.{u} (.var { v with name := name }) (.var v) b b₁)
    (second : Replaces.{u} value pattern b₁ b₂) {M : Model.{u}} {ρ ρ' : M.Assignment}
    (reads : Reads value pattern ρ ρ') (a : M.Carrier v.type) :
    M.denote b₂ (ρ.set { v with name := name } a) = M.denote b (ρ'.set v a) := by
  have renames : ∀ τ : M.Assignment, Reads (.var { v with name := name }) (.var v) τ
      (τ.set v (τ { v with name := name })) := by
    intro τ
    refine ⟨fun s apart => Model.Assignment.set_other fun same => apart (same ▸ rfl),
      fun _ _ => ?_⟩
    rw [Model.denote, Model.denote, Model.Assignment.set_same]
  by_cases hit : .var { v with name := name } = pattern
  -- The new variable is the pattern, but then the bound variable does not occur.
  · subst hit
    have absent := clear rfl
    have values : M.denote value (ρ.set { v with name := name } a) = M.denote value ρ := by
      refine meaningfulValue.denote_congr fun s member => Model.Assignment.set_other ?_
      rintro rfl
      exact unused (List.mem_map_of_mem member)
    have both : Reads value (.var { v with name := name }) (ρ.set { v with name := name } a)
        ((ρ.set { v with name := name } a).set { v with name := name }
          (ρ' { v with name := name })) := by
      refine ⟨fun s apart => Model.Assignment.set_other fun same => apart (same ▸ rfl),
        fun _ typed => ?_⟩
      rw [values, ← reads.atom rfl typed, Model.denote, Model.denote, Model.Assignment.set_same]
    rw [second M _ _ both, first M _ _ (renames _)]
    refine meaningful.denote_congr fun s member => ?_
    have other := ne_of_hasFree absent member
    have apart := unbound s member
    rw [Model.Assignment.set_other other, Model.Assignment.set_other apart,
      Model.Assignment.set_other apart, Model.Assignment.set_other other,
      reads.others s fun same => apart (Term.var.inj same)]
  · rw [second M _ _ (reads.set meaningfulValue hit unused a), first M _ _ (renames _)]
    refine meaningful.denote_congr fun s member => ?_
    by_cases same : s = v
    · subst same
      rw [Model.Assignment.set_same, Model.Assignment.set_same, Model.Assignment.set_same]
    · rw [Model.Assignment.set_other same, Model.Assignment.set_other same,
        Model.Assignment.set_other (unbound s member)]

/-! ## Values of other types

Nothing checks that a witness has the type of the variable it is put for. If it has not, the
variable stands nowhere in a formula or the formula changes its type, since no argument may change
its type on its own.
-/

/-- How types change when the type of a variable changes from `P` to `W`. -/
inductive Strays (P W : Ty) : Ty → Ty → Prop
  /-- The variable. -/
  | here (differs : P ≠ W) : Strays P W P W
  /-- The variable applied to an argument. -/
  | result {domain c c' : Ty} (before : P = .arrow domain c) (after : W = .arrow domain c')
    (differs : c ≠ c') : Strays P W c c'
  /-- An abstraction. -/
  | under {c c' : Ty} (domain : Ty) (strays : Strays P W c c') :
    Strays P W (.arrow domain c) (.arrow domain c')

namespace Strays

variable {P W : Ty}

/-- Types that stray are different. -/
theorem ne {a b : Ty} (strays : Strays P W a b) : a ≠ b := by
  induction strays with
  | here differs => exact differs
  | result _ _ differs => exact differs
  | under domain _ ih => exact fun same => ih (Ty.arrow.inj same).2

/-- Where types stray, the type of the pattern is not that of the value. -/
theorem differs {a b : Ty} (strays : Strays P W a b) : P ≠ W := by
  induction strays with
  | here differs => exact differs
  | result before after differs =>
    intro same
    rw [before, after] at same
    exact differs (Ty.arrow.inj same).2
  | under _ _ ih => exact ih

/-- Only the variable's type, its result and functions change. -/
theorem source {a b : Ty} (strays : Strays P W a b) :
    P = a ∨ (∃ domain, P = .arrow domain a) ∨ ∃ domain codomain, a = .arrow domain codomain := by
  cases strays with
  | here _ => exact .inl rfl
  | result before _ _ => exact .inr (.inl ⟨_, before⟩)
  | under domain _ => exact .inr (.inr ⟨_, _, rfl⟩)

/-- An object stays one where a predicate changes its type. -/
theorem not_obj {b : Ty} (strays : Strays (.arrow .obj .bool) W .obj b) : False := by
  rcases strays.source with same | ⟨_, same⟩ | ⟨_, _, same⟩
  · cases same
  · exact absurd (Ty.arrow.inj same).2 (by decide)
  · cases same

/-- A formula stays one where an object changes its type. -/
theorem not_bool {b : Ty} (strays : Strays .obj W .bool b) : False := by
  rcases strays.source with same | ⟨_, same⟩ | ⟨_, _, same⟩
  · exact absurd same (by decide)
  · cases same
  · cases same

/-- An application changes its type with its function. -/
theorem applied {domain c domain' c' : Ty} (kind : P = .obj ∨ P = .arrow .obj .bool)
    (function : Strays P W (.arrow domain c) (.arrow domain' c'))
    (argument : domain' = domain ∨ Strays P W domain domain') : Strays P W c c' := by
  cases function with
  | here differs =>
    rcases argument with rfl | strays
    · exact .result rfl rfl fun same => differs (by rw [same])
    · rcases kind with same | same
      · cases same
      · obtain ⟨rfl, rfl⟩ := Ty.arrow.inj same
        exact strays.not_obj.elim
  | result before _ _ =>
    rcases kind with rfl | rfl
    · cases before
    · cases before
  | under _ strays => exact strays

end Strays

/-! ## Substitution -/

/-- What comes of a substitution: a term that has the right meaning if no renaming went wrong, or a
term of another type. -/
structure Substituted (value pattern t t' : Term) (captured : Bool) : Prop where
  /-- The result is a term of logic. -/
  meaningful : t'.Meaningful
  /-- It means what it should, or a value of another type changed its type. -/
  outcome : t'.type = t.type ∧ (captured = false → Replaces.{u} value pattern t t') ∨
    Strays pattern.type value.type t.type t'.type

/-- What a substitution is made for: an atom of the value's type, or a variable for objects or
predicates. -/
def Apt (value pattern : Term) : Prop :=
  pattern.type = value.type ∨ pattern.type = .obj ∨ pattern.type = .arrow .obj .bool

/-- Types stray from an apt pattern only if it is an object or a predicate. -/
theorem Apt.kind (apt : Apt value pattern) {a b : Ty}
    (strays : Strays pattern.type value.type a b) :
    pattern.type = .obj ∨ pattern.type = .arrow .obj .bool :=
  apt.resolve_left strays.differs

/-- A value of the right type keeps the type. -/
theorem Substituted.replaced {t' : Term} {captured : Bool}
    (substituted : Substituted.{u} value pattern t t' captured)
    (typed : pattern.type = value.type) :
    t'.type = t.type ∧ (captured = false → Replaces.{u} value pattern t t') := by
  rcases substituted.outcome with kept | strays
  · exact kept
  · exact absurd typed strays.differs

/-- A rigid abstraction has a rigid variable after renaming, too. -/
theorem Rigid.renamed (rigid : (lam v b).Rigid) (names : List String) :
    (var (renamedBound v b names)).Rigid :=
  ⟨proper_var rigid.proper.plain.1, rigid.ground.1⟩

/-- A meaningful abstraction has a meaningful variable after renaming, too. -/
theorem Meaningful.renamed (meaningful : (lam v b).Meaningful) (names : List String) :
    (var (renamedBound v b names)).Meaningful :=
  have rigid := meaningful.rigid.renamed names
  ⟨rigid.proper, rigid.ground, freshName_speaks (List.Subset.refl _) meaningful.speaks.1 _⟩

/-- A substitution in an atom. -/
theorem substituted_atom {t' : Term} {captured : Bool} (atom : t.isAtom = true)
    (meaningful : t.Meaningful) (meaningfulValue : value.Meaningful)
    (result : t' = if t = pattern then value else t) :
    Substituted.{u} value pattern t t' captured := by
  by_cases hit : t = pattern
  · subst hit
    rw [result, if_pos rfl]
    refine ⟨meaningfulValue, ?_⟩
    by_cases typed : t.type = value.type
    · exact .inl ⟨typed.symm, fun _ M ρ ρ' reads => (reads.atom atom typed).symm⟩
    · exact .inr (.here typed)
  · rw [result, if_neg hit]
    refine ⟨meaningful, .inl ⟨rfl, fun _ M ρ ρ' reads => ?_⟩⟩
    cases t with
    | const c => rfl
    | var r => rw [Model.denote, Model.denote, reads.others r hit]
    | _ => cases atom

/-- A substitution in a function and its argument. -/
theorem Substituted.applied {f' x' : Term} {capturedF capturedX : Bool} (apt : Apt value pattern)
    (meaningful : (app f x).Meaningful) (meaningful' : (app f' x').Meaningful)
    (function : Substituted.{u} value pattern f f' capturedF)
    (argument : Substituted.{u} value pattern x x' capturedX) :
    Substituted.{u} value pattern (.app f x) (.app f' x') (capturedF || capturedX) := by
  obtain ⟨codomain, typed⟩ := meaningful.proper.wellTyped.2.2
  obtain ⟨codomain', typed'⟩ := meaningful'.proper.wellTyped.2.2
  refine ⟨meaningful', ?_⟩
  rcases function.outcome with ⟨typeF, replacesF⟩ | straysF
  · rcases argument.outcome with ⟨_, replacesX⟩ | straysX
    · refine .inl ⟨by rw [type, type, typeF], fun clear M ρ ρ' reads => ?_⟩
      rw [Bool.or_eq_false_iff] at clear
      rw [Model.denote, Model.denote, replacesF clear.1 M ρ ρ' reads,
        replacesX clear.2 M ρ ρ' reads]
    · rw [typed, typed'] at typeF
      exact absurd (Ty.arrow.inj typeF).1.symm straysX.ne
  · refine .inr ?_
    have kind := apt.kind straysF
    rw [typed, typed'] at straysF
    have argumentType : x'.type = x.type ∨ Strays pattern.type value.type x.type x'.type :=
      argument.outcome.imp_left And.left
    have strays := straysF.applied kind argumentType
    rw [type, type, typed, typed']
    exact strays

/-- Reducing an abstraction that is applied puts its argument for its variable. -/
theorem Replaces.reduce {argument t' : Term} (meaningful : (app (lam v b) argument).Meaningful)
    (replaces : Replaces.{u} argument (.var v) b t') {M : Model.{u}} (ρ : M.Assignment) :
    M.denote t' ρ = M.denote (app (lam v b) argument) ρ := by
  have reads := Reads.assigned (v := v) meaningful.argument ρ
  have bodies := Model.Value.eq_mk
    (meaningful.function.body.denote_type (ρ.set v ((M.denote argument ρ).as v.type)))
  rw [replaces M _ _ reads]
  exact bodies

/-- A reduction after a substitution. -/
theorem Substituted.reduced {argument t' : Term} {captured capturedBody : Bool}
    (substituted : Substituted.{u} value pattern t (.app (.lam v b) argument) captured)
    (body : Substituted.{u} argument (.var v) b t' capturedBody) :
    Substituted.{u} value pattern t t' (captured || capturedBody) := by
  obtain ⟨codomain, typed⟩ := substituted.meaningful.proper.wellTyped.2.2
  obtain ⟨types, replaces⟩ := body.replaced (Ty.arrow.inj typed).1
  have same : t'.type = (app (lam v b) argument).type := types
  refine ⟨body.meaningful, ?_⟩
  rw [same]
  refine substituted.outcome.imp_left fun ⟨kept, means⟩ => ⟨kept, fun clear M ρ ρ' reads => ?_⟩
  rw [Bool.or_eq_false_iff] at clear
  rw [(replaces clear.2).reduce substituted.meaningful, means clear.1 M ρ ρ' reads]

/-- Every run of a substitution within some depth gives a term of logic with the right meaning or
another type. -/
def Substituting (depth : Nat) : Prop :=
  ∀ {t value pattern t' : Term} {s s' : Supply}, t.Meaningful → value.Meaningful →
    Apt value pattern → (Term.substituteWithin depth t value pattern).runFrom s = (.ok t', s') →
    Substituted.{u} value pattern t t' (capturesWithin depth t value pattern s)

/-- The function and the argument are substituted, and an abstraction that comes up as the
function is reduced. -/
theorem Substituting.app {depth : Nat} (substituting : Substituting.{u} depth) {s s' : Supply}
    {t' : Term} (meaningful : (Term.app f x).Meaningful) (meaningfulValue : value.Meaningful)
    (apt : Apt value pattern)
    (run : (Term.substituteWithin (depth + 1) (.app f x) value pattern).runFrom s = (.ok t', s')) :
    Substituted.{u} value pattern (.app f x) t'
      (capturesWithin (depth + 1) (.app f x) value pattern s) := by
  rw [Term.substituteWithin] at run
  obtain ⟨f', s₁, runF, run⟩ := Build.bind_ok run
  obtain ⟨x', s₂, runX, run⟩ := Build.bind_ok run
  obtain ⟨applied, s₃, runA, run⟩ := Build.bind_ok run
  have function := substituting meaningful.function meaningfulValue apt runF
  have argument := substituting meaningful.argument meaningfulValue apt runX
  obtain ⟨rfl, together⟩ := function.meaningful.mkApp argument.meaningful runA
  have both := function.applied apt meaningful together argument
  rw [capturesWithin, Build.leadsTo_of_run runF, Build.leadsTo_of_run runX,
    Build.leadsTo_of_run runA, ← Bool.or_assoc]
  cases f' with
  | lam v b =>
    obtain ⟨codomain, typed⟩ := together.proper.wellTyped.2.2
    have apt : Apt x' (.var v) := .inl (Ty.arrow.inj typed).1
    exact both.reduced (substituting together.function.body argument.meaningful apt run)
  | _ =>
    cases run
    rw [Bool.or_false]
    exact both

/-- An abstraction over the variable that is replaced, or over one that is free in the pattern. -/
theorem substituted_hidden (meaningful : (Term.lam v b).Meaningful)
    (hidden : pattern.hasFree v = true) :
    Substituted.{u} value pattern (.lam v b) (.lam v b) false := by
  refine ⟨meaningful, .inl ⟨rfl, fun _ M ρ ρ' reads => ?_⟩⟩
  refine meaningful.denote_congr fun s member => (reads.others s ?_).symm
  rintro rfl
  have plain := meaningful.proper.plain
  refine (plain.mem_free_lam.mp member).2 ?_
  exact Symbol.varKey_inj (plain.free_plain s member) plain.1
    (by simpa [hasFree, free] using hidden)

/-- The body of an abstraction is substituted, its variable being renamed first if need be. -/
theorem Substituting.lam {depth : Nat} (substituting : Substituting.{u} depth) {s s' : Supply}
    {t' : Term} (meaningful : (Term.lam v b).Meaningful) (meaningfulValue : value.Meaningful)
    (apt : Apt value pattern)
    (run : (Term.substituteWithin (depth + 1) (.lam v b) value pattern).runFrom s = (.ok t', s')) :
    Substituted.{u} value pattern (.lam v b) t'
      (capturesWithin (depth + 1) (.lam v b) value pattern s) := by
  rw [Term.substituteWithin] at run
  rw [capturesWithin]
  split at run
  next hidden =>
    cases run
    rw [if_pos hidden]
    exact substituted_hidden meaningful hidden
  next apart =>
    rw [if_neg apart]
    have other := var_ne_of_hasFree (Bool.eq_false_iff.mpr apart)
    split at run
    next clash =>
      obtain ⟨b₁, s₁, runFirst, run⟩ := Build.bind_ok run
      obtain ⟨b₂, s₂, runSecond, run⟩ := Build.bind_ok run
      have fresh := meaningful.renamed value.freeNames
      have aptFirst : Apt (.var (renamedBound v b value.freeNames)) (.var v) := .inl rfl
      have first := substituting meaningful.body fresh aptFirst runFirst
      have second := substituting first.meaningful meaningfulValue apt runSecond
      obtain ⟨rfl, together⟩ := fresh.mkLam second.meaningful (Build.lift_ok run).1
      obtain ⟨unbound, unused⟩ := renamedBound_fresh v b value.freeNames
      obtain ⟨typeFirst, replacesFirst⟩ := first.replaced rfl
      rw [if_pos clash]
      dsimp only
      rw [Build.leadsTo_of_run runFirst]
      refine ⟨together, ?_⟩
      rcases second.outcome with ⟨typeSecond, replacesSecond⟩ | strays
      · have types : (Term.lam (renamedBound v b value.freeNames) b₂).type =
            (Term.lam v b).type := by
          rw [type, type, typeSecond, typeFirst]
          rfl
        refine .inl ⟨types, fun clear M ρ ρ' reads => ?_⟩
        simp only [Bool.or_eq_false_iff] at clear
        refine denote_lam_congr meaningful.body second.meaningful fun a => ?_
        refine Replaces.renamed meaningful.body meaningfulValue unbound unused (fun hit => ?_)
          (replacesFirst clear.1.2) (replacesSecond clear.2) reads a
        simpa [renamedBound, hit] using clear.1.1
      · rw [typeFirst] at strays
        exact .inr (.under v.type strays)
    next unclashed =>
      obtain ⟨b₁, s₁, runBody, run⟩ := Build.bind_ok run
      have body := substituting meaningful.body meaningfulValue apt runBody
      obtain ⟨rfl, together⟩ := meaningful.bound.mkLam body.meaningful (Build.lift_ok run).1
      rw [if_neg unclashed]
      refine ⟨together, ?_⟩
      rcases body.outcome with ⟨types, replaces⟩ | strays
      · refine .inl ⟨by rw [type, type, types], fun clear M ρ ρ' reads => ?_⟩
        have unused : v.name ∉ value.freeNames := by simpa using unclashed
        refine denote_lam_congr meaningful.body body.meaningful fun a => ?_
        exact replaces clear M _ _ (reads.set meaningfulValue other unused a)
      · exact .inr (.under v.type strays)

/-- Substitution means what it should unless a renaming goes wrong. -/
theorem substituting (depth : Nat) : Substituting.{u} depth := by
  induction depth with
  | zero =>
    intro t value pattern t' s s' _ _ _ run
    cases run
  | succ depth ih =>
    intro t value pattern t' s s' meaningful meaningfulValue apt run
    cases t with
    | const c =>
      exact substituted_atom rfl meaningful meaningfulValue
        (Except.ok.inj (Prod.ext_iff.mp run).1).symm
    | var r =>
      exact substituted_atom rfl meaningful meaningfulValue
        (Except.ok.inj (Prod.ext_iff.mp run).1).symm
    | app f x => exact ih.app meaningful meaningfulValue apt run
    | lam v b => exact ih.lam meaningful meaningfulValue apt run

/-- What comes of a substitution. -/
theorem Meaningful.substituted (meaningful : t.Meaningful) (meaningfulValue : value.Meaningful)
    (apt : Apt value pattern) {s s' : Supply} {t' : Term}
    (run : (t.substitute value pattern).runFrom s = (.ok t', s')) :
    Substituted.{u} value pattern t t' (t.captures value pattern s) :=
  substituting s.depth meaningful meaningfulValue apt run

end Term

end Turnstile
