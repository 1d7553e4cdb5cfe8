import Mathlib.Logic.Function.Basic
import Turnstile.Proofs.TermTypes
import Turnstile.Sequent

/-!
# Standard models

A standard model is a non-empty set of objects. Propositions are the two truth values, function
types are full function spaces, and the constants of logic are read as usual: the primitive ones
directly, the others by their definitions. A value comes together with its type, so that values of
terms can be compared whatever their types are; a term has a value of its own type if it is well
typed.
-/

namespace Turnstile

universe u

/-- The domain of a function type. -/
def Ty.domain : Ty → Ty
  | arrow domain _ => domain
  | t => t

/-- A standard model. -/
structure Model where
  /-- The objects. -/
  Obj : Type u
  /-- There is an object. -/
  nonempty : Nonempty Obj

namespace Model

/-- The values of a type. -/
@[reducible] def Carrier (M : Model.{u}) : Ty → Type u
  | .const name => if name = "bool" then ULift.{u} Prop else M.Obj
  | .var _ => PUnit
  | .arrow domain codomain => M.Carrier domain → M.Carrier codomain

variable {M : Model.{u}}

/-- Some value of a type. -/
noncomputable def arbitrary (M : Model.{u}) : (t : Ty) → M.Carrier t
  | .const name => by
    rw [Carrier]
    split
    · exact .up True
    · exact Classical.choice M.nonempty
  | .var _ => PUnit.unit
  | .arrow _ codomain => fun _ => M.arbitrary codomain

/-- A value with its type. -/
structure Value (M : Model.{u}) where
  /-- The type. -/
  type : Ty
  /-- The value. -/
  value : M.Carrier type

/-- A value taken as one of a type; a value of another type stands for an arbitrary one. -/
noncomputable def Value.as (x : M.Value) (t : Ty) : M.Carrier t :=
  if same : x.type = t then same ▸ x.value else M.arbitrary t

/-- A value of a type is itself as a value of this type. -/
@[simp] theorem Value.as_mk (t : Ty) (a : M.Carrier t) : Value.as ⟨t, a⟩ t = a := by
  simp [Value.as]

/-- A value of a type is what it is as a value of this type. -/
theorem Value.eq_mk {x : M.Value} {t : Ty} (typed : x.type = t) : x = ⟨t, x.as t⟩ := by
  obtain ⟨_, a⟩ := x
  cases typed
  rw [as_mk]

/-- The value of a function at an argument. -/
noncomputable def Value.apply (f x : M.Value) : M.Value :=
  match f with
  | ⟨.arrow domain codomain, g⟩ => ⟨codomain, g (x.as domain)⟩
  | other => other

/-- A function is applied to a value of its domain. -/
@[simp] theorem Value.apply_mk {domain codomain : Ty} (g : M.Carrier (.arrow domain codomain))
    (x : M.Value) : Value.apply ⟨.arrow domain codomain, g⟩ x = ⟨codomain, g (x.as domain)⟩ := rfl

/-- Functions are equal if their values are. -/
theorem Value.ext_arrow {x y : M.Value} {d c : Ty} (left : x.type = .arrow d c)
    (right : y.type = .arrow d c)
    (values : ∀ a : M.Carrier d, x.apply ⟨d, a⟩ = y.apply ⟨d, a⟩) : x = y := by
  obtain ⟨_, f⟩ := x
  obtain ⟨_, g⟩ := y
  cases left
  cases right
  have applied : ∀ (h : M.Carrier (.arrow d c)) (a : M.Carrier d),
      Value.apply ⟨.arrow d c, h⟩ ⟨d, a⟩ = ⟨c, h a⟩ := fun h a => by rw [apply_mk, as_mk]
  have same : f = g := by
    funext a
    have value := (applied f a).symm.trans ((values a).trans (applied g a))
    exact eq_of_heq (Value.mk.inj value).2
  rw [same]

/-- A truth value. -/
def truth (M : Model.{u}) (p : Prop) : M.Value := ⟨.bool, .up p⟩

/-- The value is the true one. -/
def Value.IsTrue (x : M.Value) : Prop := ULift.down (x.as .bool)

/-- A truth value is true if it is. -/
theorem Value.isTrue_mk (a : M.Carrier .bool) : Value.IsTrue ⟨.bool, a⟩ ↔ ULift.down a :=
  iff_of_eq (congrArg ULift.down (as_mk .bool a))

/-- The truth value of a proposition is true if the proposition holds. -/
@[simp] theorem isTrue_truth (p : Prop) : (M.truth p).IsTrue ↔ p := Value.isTrue_mk _

/-- A function of one truth value. -/
def connective₁ (M : Model.{u}) (f : Prop → Prop) : M.Value :=
  ⟨.arrow .bool .bool, fun a : ULift Prop => (.up (f a.down) : ULift Prop)⟩

/-- A function of two truth values. -/
def connective₂ (M : Model.{u}) (f : Prop → Prop → Prop) : M.Value :=
  ⟨.arrow .bool (.arrow .bool .bool),
    fun a b : ULift Prop => (.up (f a.down b.down) : ULift Prop)⟩

/-- A function of predicates on values of a type. -/
def quantifier (M : Model.{u}) (t : Ty) (f : (M.Carrier t → Prop) → Prop) : M.Value :=
  ⟨.arrow (.arrow t .bool) .bool,
    fun p : M.Carrier t → ULift Prop => (.up (f fun x => (p x).down) : ULift Prop)⟩

/-- Equality of values of a type. -/
def equality (M : Model.{u}) (t : Ty) : M.Value :=
  ⟨.arrow t (.arrow t .bool), fun a b : M.Carrier t => (.up (a = b) : ULift Prop)⟩

/-- A connective of one proposition, applied. -/
@[simp] theorem connective₁_apply (f : Prop → Prop) (x : M.Value) :
    (M.connective₁ f).apply x = M.truth (f x.IsTrue) := rfl

/-- A connective of two propositions, applied. -/
@[simp] theorem connective₂_apply (f : Prop → Prop → Prop) (x y : M.Value) :
    ((M.connective₂ f).apply x).apply y = M.truth (f x.IsTrue y.IsTrue) := rfl

/-- A quantifier, applied to a predicate. -/
theorem quantifier_apply {t : Ty} (f : (M.Carrier t → Prop) → Prop)
    (g : M.Carrier t → M.Carrier .bool) : (M.quantifier t f).apply ⟨.arrow t .bool, g⟩ =
      M.truth (f fun a => ULift.down (g a)) := by
  have same : Value.as (⟨.arrow t .bool, g⟩ : M.Value) (.arrow t .bool) = g := Value.as_mk _ _
  have applied : ∀ h : M.Carrier t → M.Carrier .bool,
      h = g → M.truth (f fun a => ULift.down (h a)) = M.truth (f fun a => ULift.down (g a)) := by
    rintro h rfl
    rfl
  exact applied _ same

/-- Equality, applied to two values. -/
@[simp] theorem equality_apply (t : Ty) (x y : M.Value) :
    ((M.equality t).apply x).apply y = M.truth (x.as t = y.as t) := rfl

/-- The value of a constant. The defined constants are read by their definitions. -/
noncomputable def constant (M : Model.{u}) (c : Symbol) : M.Value :=
  if c.name = "not" then M.connective₁ fun a => ¬ a
  else if c.name = "or" then M.connective₂ fun a b => a ∨ b
  else if c.name = "and" then M.connective₂ fun a b => ¬ (¬ a ∨ ¬ b)
  else if c.name = "implies" then M.connective₂ fun a b => ¬ a ∨ b
  else if c.name = "iff" then M.connective₂ fun a b => ¬ (¬ (¬ a ∨ b) ∨ ¬ (¬ b ∨ a))
  else if c.name = "for_all" then M.quantifier .obj fun p => ∀ x, p x
  else if c.name = "exists" then M.quantifier .obj fun p => ¬ ∀ x, ¬ p x
  else if c.name = "schema" then M.quantifier (.arrow .obj .bool) fun p => ∀ q, p q
  else if c.name = "=" then M.equality c.type.domain
  else ⟨c.type, M.arbitrary c.type⟩

/-- Values for all variables. -/
def Assignment (M : Model.{u}) := (s : Symbol) → M.Carrier s.type

/-- An assignment with another value for a variable. -/
def Assignment.set (ρ : M.Assignment) (v : Symbol) (a : M.Carrier v.type) : M.Assignment :=
  Function.update (β := fun s : Symbol => M.Carrier s.type) ρ v a

/-- An assignment has the value that was set. -/
@[simp] theorem Assignment.set_same (ρ : M.Assignment) (v : Symbol) (a : M.Carrier v.type) :
    ρ.set v a v = a :=
  Function.update_self (β := fun s : Symbol => M.Carrier s.type) v a ρ

/-- Other variables keep their values. -/
theorem Assignment.set_other {ρ : M.Assignment} {v s : Symbol} {a : M.Carrier v.type}
    (other : s ≠ v) : ρ.set v a s = ρ s :=
  Function.update_of_ne (β := fun s : Symbol => M.Carrier s.type) other a ρ

/-- The value of a term under an assignment. -/
@[simp] noncomputable def denote (M : Model.{u}) : Term → M.Assignment → M.Value
  | .const c, _ => M.constant c
  | .var s, ρ => ⟨s.type, ρ s⟩
  | .app f x, ρ => (M.denote f ρ).apply (M.denote x ρ)
  | .lam v body, ρ =>
    ⟨.arrow v.type body.type, fun a => (M.denote body (ρ.set v a)).as body.type⟩

/-- A formula is true under an assignment. -/
def Holds (M : Model.{u}) (ρ : M.Assignment) (t : Term) : Prop :=
  (M.denote t ρ).IsTrue

/-! ### Truth of compound formulas -/

variable {ρ : M.Assignment} {c : Symbol} {a b : Term}

/-- A denial holds where what it denies does not. -/
theorem holds_not (named : c.name = "not") : M.Holds ρ (.app (.const c) a) ↔ ¬ M.Holds ρ a := by
  simp [Holds, denote, constant, named]

/-- A disjunction holds where one of its parts does. -/
theorem holds_or (named : c.name = "or") :
    M.Holds ρ (.app (.app (.const c) a) b) ↔ M.Holds ρ a ∨ M.Holds ρ b := by
  simp [Holds, denote, constant, named]

/-- A quantifier is about the values that its body has for all values of its variable. -/
theorem holds_quantifier {name : String} {t : Ty} {f : (M.Carrier t → Prop) → Prop}
    (constant : M.constant c = M.quantifier t f) (formula : b.type = .bool) :
    M.Holds ρ (.app (.const c) (.lam ⟨name, t⟩ b)) ↔
      f fun x => M.Holds (ρ.set ⟨name, t⟩ x) b := by
  have predicate : M.denote (.lam ⟨name, t⟩ b) ρ =
      ⟨.arrow t .bool, fun x => (M.denote b (ρ.set ⟨name, t⟩ x)).as .bool⟩ := by
    rw [denote, formula]
  rw [Holds, denote, predicate, denote, constant]
  exact (iff_of_eq (congrArg Value.IsTrue (quantifier_apply f _))).trans (isTrue_truth _)

/-- A universal formula holds where its body does for every object. -/
theorem holds_forAll {v : Symbol} (named : c.name = "for_all") (bound : v.type = .obj)
    (formula : b.type = .bool) :
    M.Holds ρ (.app (.const c) (.lam v b)) ↔ ∀ x, M.Holds (ρ.set v x) b := by
  obtain ⟨name, _⟩ := v
  cases bound
  have is : M.constant c = M.quantifier .obj fun p => ∀ x, p x := by simp [constant, named]
  exact holds_quantifier is formula

/-- A schema holds where its body does for every predicate. -/
theorem holds_schema {v : Symbol} (named : c.name = "schema")
    (bound : v.type = .arrow .obj .bool) (formula : b.type = .bool) :
    M.Holds ρ (.app (.const c) (.lam v b)) ↔ ∀ x, M.Holds (ρ.set v x) b := by
  obtain ⟨name, _⟩ := v
  cases bound
  have is : M.constant c = M.quantifier (.arrow .obj .bool) fun p => ∀ q, p q := by
    simp [constant, named]
  exact holds_quantifier is formula

/-- An equation is true if its sides have one value. -/
theorem holds_equation {t : Ty} (named : c.name = "=") (type : c.type = .arrow t (.arrow t .bool))
    (left : (M.denote a ρ).type = t) (right : (M.denote b ρ).type = t) :
    M.Holds ρ (.app (.app (.const c) a) b) ↔ M.denote a ρ = M.denote b ρ := by
  have domain : c.type.domain = t := by rw [type, Ty.domain]
  have sides : M.Holds ρ (.app (.app (.const c) a) b) ↔
      (M.denote a ρ).as t = (M.denote b ρ).as t := by
    simp [Holds, denote, constant, named, domain]
  rw [sides]
  constructor
  · intro same
    rw [Value.eq_mk left, Value.eq_mk right, same]
  · intro same
    rw [same]

end Model

/-- In every standard model, every assignment that makes all formulas on the left true makes some
formula on the right true. -/
def Sequent.Valid (goal : Sequent) : Prop :=
  ∀ (M : Model.{u}) (ρ : M.Assignment), (∀ t ∈ goal.left, M.Holds ρ t) →
    ∃ t ∈ goal.right, M.Holds ρ t

/-! ## Terms of logic -/

/-- The constants of logic, with the types that their occurrences can have. -/
inductive Logical : Symbol → Prop
  /-- Negation. -/
  | not : Logical ⟨"not", .arrow .bool .bool⟩
  /-- The other connectives. -/
  | connective {name : String} (known : name ∈ ["or", "and", "implies", "iff"]) :
    Logical ⟨name, .arrow .bool (.arrow .bool .bool)⟩
  /-- The quantifiers over objects. -/
  | quantifier {name : String} (known : name ∈ ["for_all", "exists"]) :
    Logical ⟨name, .arrow (.arrow .obj .bool) .bool⟩
  /-- The quantifier over predicates. -/
  | schema : Logical ⟨"schema", .arrow (.arrow (.arrow .obj .bool) .bool) .bool⟩
  /-- Equality. -/
  | equality (t : Ty) : Logical ⟨"=", .arrow t (.arrow t .bool)⟩

/-- The value of a constant of logic has the type of the constant. -/
theorem Logical.constant_type {c : Symbol} (logical : Logical c) (M : Model.{u}) :
    (M.constant c).type = c.type := by
  cases logical with
  | not => rfl
  | connective known =>
    simp only [List.mem_cons, List.not_mem_nil, or_false] at known
    rcases known with rfl | rfl | rfl | rfl <;> rfl
  | quantifier known =>
    simp only [List.mem_cons, List.not_mem_nil, or_false] at known
    rcases known with rfl | rfl <;> rfl
  | schema => rfl
  | equality t => rfl

/-- The names of the constants that are defined. -/
def Logic.defined : List String := ["and", "implies", "iff", "exists"]

/-- The names of the connectives among them. -/
def Logic.propositional : List String := ["and", "implies", "iff"]

/-- The connectives are defined constants. -/
theorem Logic.propositional_subset : propositional ⊆ defined := by
  simp [propositional, defined]

namespace Term

/-- The constants are those of logic, and no variable has one of some names. -/
def Speaks (names : List String) : Term → Prop
  | const c => Logical c
  | var s => s.name ∉ names
  | app f x => f.Speaks names ∧ x.Speaks names
  | lam v body => v.name ∉ names ∧ body.Speaks names

/-- The constants are those of logic. Variables may have any names. -/
def Declared : Term → Prop
  | const c => Logical c
  | var _ => True
  | app f x => f.Declared ∧ x.Declared
  | lam _ b => b.Declared

/-- No variable, free or bound, has one of some names. -/
def Spares (names : List String) (t : Term) : Prop :=
  ∀ v : Symbol, var v ∈ t.atoms → v.name ∉ names

variable {t f x b : Term} {v : Symbol} {names fewer : List String} {M : Model.{u}}

/-- A term of the constants of logic whose variables have other names. -/
theorem speaks_iff : t.Speaks names ↔ t.Declared ∧ t.Spares names := by
  induction t with
  | const c => simp [Speaks, Declared, Spares, atoms]
  | var s => simp [Speaks, Declared, Spares, atoms]
  | app f x ihF ihX =>
    rw [Speaks, ihF, ihX]
    simp only [Declared, Spares, atoms, List.mem_append, or_imp, forall_and]
    tauto
  | lam v b ih =>
    rw [Speaks, ih]
    simp only [Declared, Spares, atoms, List.mem_cons, var.injEq, or_imp, forall_and, forall_eq]
    tauto

/-- Fewer names are spared as well. -/
theorem Spares.mono (spares : t.Spares names) (subset : fewer ⊆ names) : t.Spares fewer :=
  fun v inside taken => spares v inside (subset taken)

/-- A term of logic that spares some names is one that spares fewer. -/
theorem Speaks.mono (speaks : t.Speaks names) (subset : fewer ⊆ names) : t.Speaks fewer := by
  obtain ⟨declared, spares⟩ := speaks_iff.mp speaks
  exact speaks_iff.mpr ⟨declared, spares.mono subset⟩

/-- A well-typed term has a value of its type. -/
theorem WellTyped.denote_type (wellTyped : t.WellTyped) (speaks : t.Speaks names)
    (ρ : M.Assignment) :
    (M.denote t ρ).type = t.type := by
  induction t generalizing ρ with
  | const c => exact speaks.constant_type M
  | var s => rfl
  | app f x ihF ihX =>
    obtain ⟨codomain, typed⟩ := wellTyped.2.2
    have function := ihF wellTyped.1 speaks.1 ρ
    rw [typed] at function
    rw [Model.denote, Model.Value.eq_mk function, Model.Value.apply_mk, type, typed]
    rfl
  | lam v body ih => rfl

/-- A term's value depends only on the values of its free variables. -/
theorem WellTyped.denote_congr (wellTyped : t.WellTyped) (discerning : t.Discerning)
    {ρ ρ' : M.Assignment} (agree : ∀ s ∈ t.free, ρ s = ρ' s) : M.denote t ρ = M.denote t ρ' := by
  induction t generalizing ρ ρ' with
  | const c => rfl
  | var s => rw [Model.denote, Model.denote, agree s (by simp [free])]
  | app f x ihF ihX =>
    rw [Model.denote, Model.denote,
      ihF wellTyped.1 discerning.1 fun s member => agree s (List.mem_append_left _ member),
      ihX wellTyped.2.1 discerning.2 fun s member => agree s (List.mem_append_right _ member)]
  | lam v body ih =>
    have bodies : ∀ a, M.denote body (ρ.set v a) = M.denote body (ρ'.set v a) := by
      intro a
      refine ih wellTyped.1 discerning.2 fun s member => ?_
      by_cases bound : s.name = v.name
      · have same : s = v := Symbol.ext_iff'.mpr ⟨bound, wellTyped.2 s member bound⟩
        subst same
        rw [Model.Assignment.set_same, Model.Assignment.set_same]
      · have other : s ≠ v := fun same => bound (same ▸ rfl)
        rw [Model.Assignment.set_other other, Model.Assignment.set_other other]
        exact agree s ((wellTyped.mem_free_lam discerning).mpr ⟨member, bound⟩)
    rw [Model.denote, Model.denote]
    simp only [bodies]

end Term

end Turnstile
