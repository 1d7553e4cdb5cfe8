import Mathlib.Logic.Function.Basic
import Mathlib.Logic.Relation
import Turnstile.Proofs.SubstitutionMeaning

/-!
# Substitution up to the names of bound variables

A nameless term counts its bound variables from their binders, so that terms are the same without
names exactly if they differ in the names of bound variables only, and putting a term for a free
variable cannot capture anything. Substituting in a term with names computes a reduct of what is got
without names, unless a bound variable is renamed to the variable that is replaced.

A binding says what each variable stands for. That a substitution computes a reduct is stated for
all bindings, since the names of bound variables are other ones below each binder.
-/

namespace Turnstile

open Function (update update_self update_of_ne update_comm)

/-- A term whose bound variables are counted from their binders, the innermost first. -/
inductive Nameless where
  /-- A constant. -/
  | const (symbol : Symbol)
  /-- A free variable. -/
  | free (symbol : Symbol)
  /-- A bound variable, with the number of binders between it and its own. -/
  | bound (index : Nat)
  /-- A function applied to an argument. -/
  | app (function argument : Nameless)
  /-- A function of a bound variable of a type. -/
  | lam (domain : Ty) (body : Nameless)
  deriving DecidableEq, Repr

namespace Nameless

/-- A change of indices below one more binder. -/
def lift (ξ : Nat → Nat) : Nat → Nat
  | 0 => 0
  | i + 1 => ξ i + 1

/-- A term with the indices of its outer variables changed. -/
def rename (ξ : Nat → Nat) : Nameless → Nameless
  | const s => const s
  | free s => free s
  | bound i => bound (ξ i)
  | app f x => app (f.rename ξ) (x.rename ξ)
  | lam domain b => lam domain (b.rename (lift ξ))

/-- A term that stands below one more binder. -/
def shift (t : Nameless) : Nameless := t.rename Nat.succ

/-- What indices stand for, below one more binder. -/
def raise (σ : Nat → Nameless) : Nat → Nameless
  | 0 => bound 0
  | i + 1 => (σ i).shift

/-- Put terms for outer variables and for free ones. -/
def put (σ : Nat → Nameless) (φ : Symbol → Nameless) : Nameless → Nameless
  | const s => const s
  | free s => φ s
  | bound i => σ i
  | app f x => app (f.put σ φ) (x.put σ φ)
  | lam domain b => lam domain (b.put (raise σ) (shift ∘ φ))

/-- The argument stands for the innermost variable, whose binder goes. -/
def top (x : Nameless) : Nat → Nameless
  | 0 => x
  | i + 1 => bound i

/-- Put a term for a free variable. -/
def replace (t : Nameless) (p : Symbol) (value : Nameless) : Nameless :=
  t.put bound (update free p value)

/-! ## Putting terms for variables -/

variable {t x : Nameless} {ξ ζ : Nat → Nat} {σ : Nat → Nameless} {φ : Symbol → Nameless}

/-- Raising bound variables gives bound variables. -/
@[simp] theorem raise_bound : raise bound = bound := by
  funext i
  cases i <;> rfl

/-- Free variables stay free when shifted. -/
@[simp] theorem shift_free : shift ∘ free = free := rfl

/-- Putting every variable for itself changes nothing. -/
@[simp] theorem put_self (t : Nameless) : t.put bound free = t := by
  induction t with
  | app f x ihF ihX => rw [put, ihF, ihX]
  | lam domain b ih => rw [put, raise_bound, shift_free, ih]
  | _ => rfl

/-- Renaming twice is renaming once. -/
theorem rename_rename : (t.rename ξ).rename ζ = t.rename (ζ ∘ ξ) := by
  induction t generalizing ξ ζ with
  | app f x ihF ihX => rw [rename, rename, rename, ihF, ihX]
  | lam domain b ih =>
    have below : lift ζ ∘ lift ξ = lift (ζ ∘ ξ) := by
      funext i
      cases i <;> rfl
    rw [rename, rename, rename, ih, below]
  | _ => rfl

/-- Shifting and renaming commute if the renaming is lifted. -/
theorem rename_lift_shift : t.shift.rename (lift ξ) = (t.rename ξ).shift := by
  rw [shift, shift, rename_rename, rename_rename]
  rfl

/-- Putting terms for renamed variables is putting them for the variables. -/
theorem put_rename : (t.rename ξ).put σ φ = t.put (σ ∘ ξ) φ := by
  induction t generalizing ξ σ φ with
  | app f x ihF ihX => rw [rename, put, put, ihF, ihX]
  | lam domain b ih =>
    have below : raise σ ∘ lift ξ = raise (σ ∘ ξ) := by
      funext i
      cases i <;> rfl
    rw [rename, put, put, ih, below]
  | _ => rfl

/-- Renaming what was put for variables is putting renamed terms. -/
theorem rename_put : (t.put σ φ).rename ξ = t.put (rename ξ ∘ σ) (rename ξ ∘ φ) := by
  induction t generalizing ξ σ φ with
  | app f x ihF ihX => rw [put, rename, put, ihF, ihX]
  | lam domain b ih =>
    have below : rename (lift ξ) ∘ raise σ = raise (rename ξ ∘ σ) := by
      funext i
      cases i with
      | zero => rfl
      | succ i => exact rename_lift_shift
    have below' : rename (lift ξ) ∘ shift ∘ φ = shift ∘ rename ξ ∘ φ :=
      funext fun s => rename_lift_shift
    rw [put, rename, put, ih, below, below']
  | _ => rfl

/-- Below one more binder the same is put. -/
theorem put_shift : t.shift.put (raise σ) (shift ∘ φ) = (t.put σ φ).shift := by
  rw [shift, put_rename, shift, rename_put]
  rfl

/-- What does not refer to the innermost variable stays when its binder goes. -/
theorem put_top_shift : t.shift.put (top x) free = t := by
  rw [shift, put_rename]
  exact put_self t

/-! ## Free variables -/

/-- The occurrences of free variables. -/
def symbols : Nameless → List Symbol
  | const _ => []
  | free s => [s]
  | bound _ => []
  | app f x => f.symbols ++ x.symbols
  | lam _ b => b.symbols

/-- Renaming bound variables leaves the symbols. -/
@[simp] theorem symbols_rename : (t.rename ξ).symbols = t.symbols := by
  induction t generalizing ξ with
  | app f x ihF ihX => rw [rename, symbols, symbols, ihF, ihX]
  | lam domain b ih => rw [rename, symbols, symbols, ih]
  | _ => rfl

/-- So does shifting. -/
@[simp] theorem symbols_shift : t.shift.symbols = t.symbols := symbols_rename

/-- A free variable comes from what is put for an index or for a free variable. -/
theorem mem_symbols_put {s : Symbol} (member : s ∈ (t.put σ φ).symbols) :
    (∃ i, s ∈ (σ i).symbols) ∨ ∃ r ∈ t.symbols, s ∈ (φ r).symbols := by
  induction t generalizing σ φ with
  | const c => cases member
  | free r => exact .inr ⟨r, List.mem_singleton_self r, member⟩
  | bound i => exact .inl ⟨i, member⟩
  | app f x ihF ihX =>
    rcases List.mem_append.mp member with left | right
    · exact (ihF left).imp_right fun ⟨r, inside, from'⟩ => ⟨r, List.mem_append_left _ inside, from'⟩
    · exact (ihX right).imp_right fun ⟨r, inside, from'⟩ =>
        ⟨r, List.mem_append_right _ inside, from'⟩
  | lam domain b ih =>
    rcases ih member with ⟨i, here⟩ | ⟨r, inside, here⟩
    · cases i with
      | zero => cases here
      | succ i => exact .inl ⟨i, by simpa [raise] using here⟩
    · exact .inr ⟨r, inside, by simpa using here⟩

/-! ## Reduction -/

/-- One abstraction that is applied is reduced. -/
inductive Step : Nameless → Nameless → Prop
  /-- The whole term is. -/
  | beta (domain : Ty) (b x : Nameless) : Step (app (lam domain b) x) (b.put (top x) free)
  /-- It stands in the function. -/
  | function {f f' : Nameless} (x : Nameless) (step : Step f f') : Step (app f x) (app f' x)
  /-- It stands in the argument. -/
  | argument (f : Nameless) {x x' : Nameless} (step : Step x x') : Step (app f x) (app f x')
  /-- It stands in the body. -/
  | body (domain : Ty) {b b' : Nameless} (step : Step b b') : Step (lam domain b) (lam domain b')

/-- Some steps lead from a term to its reduct. -/
def ReducesTo : Nameless → Nameless → Prop := Relation.ReflTransGen Step

namespace ReducesTo

variable {t t' t'' f f' x x' b b' : Nameless}

/-- Every term reduces to itself. -/
theorem refl (t : Nameless) : ReducesTo t t := Relation.ReflTransGen.refl

/-- Reducing twice is reducing. -/
theorem trans (first : ReducesTo t t') (second : ReducesTo t' t'') : ReducesTo t t'' :=
  Relation.ReflTransGen.trans first second

/-- An abstraction that is applied reduces to its body with the argument put in. -/
theorem beta (domain : Ty) (b x : Nameless) :
    ReducesTo (.app (.lam domain b) x) (b.put (top x) free) := .single (.beta domain b x)

/-- An application reduces in both of its parts. -/
theorem app (function : ReducesTo f f') (argument : ReducesTo x x') :
    ReducesTo (.app f x) (.app f' x') :=
  (Relation.ReflTransGen.lift (Nameless.app · x) (fun _ _ => Step.function x) _ _ function).trans
    (Relation.ReflTransGen.lift (Nameless.app f') (fun _ _ => Step.argument f') _ _ argument)

/-- An abstraction reduces in its body. -/
theorem lam (domain : Ty) (body : ReducesTo b b') : ReducesTo (.lam domain b) (.lam domain b') :=
  Relation.ReflTransGen.lift (Nameless.lam domain) (fun _ _ => Step.body domain) _ _ body

end ReducesTo

/-- A step brings in no symbols. -/
theorem Step.symbols_subset {t t' : Nameless} (step : Step t t') : t'.symbols ⊆ t.symbols := by
  induction step with
  | beta domain b x =>
    intro s member
    rcases mem_symbols_put member with ⟨i, here⟩ | ⟨r, inside, here⟩
    · cases i with
      | zero => exact List.mem_append_right _ here
      | succ i => cases here
    · obtain rfl := List.mem_singleton.mp here
      exact List.mem_append_left _ inside
  | function x _ ih =>
    exact List.append_subset.mpr
      ⟨List.Subset.trans ih (List.subset_append_left _ _), List.subset_append_right _ _⟩
  | argument f _ ih =>
    exact List.append_subset.mpr
      ⟨List.subset_append_left _ _, List.Subset.trans ih (List.subset_append_right _ _)⟩
  | body _ _ ih => exact ih

/-- Reduction brings in no free variables. -/
theorem ReducesTo.symbols_subset {t t' : Nameless} (reduces : ReducesTo t t') :
    t'.symbols ⊆ t.symbols := by
  induction reduces with
  | refl => exact List.Subset.refl _
  | tail _ step ih => exact List.Subset.trans step.symbols_subset ih

end Nameless

/-! ## Forgetting names -/

namespace Term

open Nameless

/-- What variables stand for below a binder. -/
def binding (v : Symbol) (ρ : Symbol → Nameless) : Symbol → Nameless :=
  update (shift ∘ ρ) v (.bound 0)

/-- A term without names, where its free variables stand for given terms. -/
def nameless (ρ : Symbol → Nameless) : Term → Nameless
  | const s => .const s
  | var s => ρ s
  | app f x => .app (f.nameless ρ) (x.nameless ρ)
  | lam v b => .lam v.type (b.nameless (binding v ρ))

variable {t f x b value : Term} {v p : Symbol} {ρ ρ' : Symbol → Nameless}

/-- Putting terms for variables is the same before and after forgetting names. -/
theorem nameless_put (t : Term) (ρ : Symbol → Nameless) (σ : Nat → Nameless)
    (φ : Symbol → Nameless) : (t.nameless ρ).put σ φ = t.nameless fun s => (ρ s).put σ φ := by
  induction t generalizing ρ σ φ with
  | app f x ihF ihX => rw [nameless, put, nameless, ihF, ihX]
  | lam v b ih =>
    have inside : (fun s => (binding v ρ s).put (raise σ) (shift ∘ φ)) =
        binding v fun s => (ρ s).put σ φ := by
      funext s
      by_cases same : s = v
      · subst same
        rw [binding, binding, update_self, update_self]
        rfl
      · rw [binding, binding, update_of_ne same, update_of_ne same]
        exact put_shift
    rw [nameless, put, nameless, ih, inside]
  | _ => rfl

/-- Shifting a term without names is shifting what its variables stand for. -/
theorem nameless_shift (t : Term) (ρ : Symbol → Nameless) :
    (t.nameless ρ).shift = t.nameless (shift ∘ ρ) := by
  have renames : ∀ t : Nameless, t.put (.bound ∘ Nat.succ) .free = t.shift := fun t => by
    rw [← put_rename (σ := .bound), put_self, shift]
  rw [← renames, nameless_put]
  exact congrArg t.nameless (funext fun s => renames (ρ s))

/-- Only what free variables stand for matters. -/
theorem WellTyped.nameless_congr (wellTyped : t.WellTyped) (discerning : t.Discerning)
    (agree : ∀ s ∈ t.free, ρ s = ρ' s) : t.nameless ρ = t.nameless ρ' := by
  induction t generalizing ρ ρ' with
  | const c => rfl
  | var s => exact agree s (List.mem_singleton_self s)
  | app f x ihF ihX =>
    rw [nameless, nameless,
      ihF wellTyped.1 discerning.1 fun s member => agree s (List.mem_append_left _ member),
      ihX wellTyped.2.1 discerning.2 fun s member => agree s (List.mem_append_right _ member)]
  | lam v b ih =>
    have inside : ∀ s ∈ b.free, binding v ρ s = binding v ρ' s := by
      intro s member
      by_cases same : s = v
      · subst same
        rw [binding, binding, update_self, update_self]
      · have other : s.name ≠ v.name := fun name =>
          same (Symbol.ext_iff'.mpr ⟨name, wellTyped.2 s member name⟩)
        have outside := (wellTyped.mem_free_lam discerning).mpr ⟨member, other⟩
        rw [binding, binding, update_of_ne same, update_of_ne same, Function.comp, Function.comp,
          agree s outside]
    rw [nameless, nameless, ih wellTyped.1 discerning.2 inside]

/-- The free variables of a term without names are those of what its free variables stand for. -/
theorem WellTyped.mem_symbols (wellTyped : t.WellTyped) (discerning : t.Discerning) {s : Symbol} :
    s ∈ (t.nameless ρ).symbols ↔ ∃ r ∈ t.free, s ∈ (ρ r).symbols := by
  induction t generalizing ρ with
  | const c => simp [nameless, symbols, free]
  | var r => simp [nameless, free]
  | app f x ihF ihX =>
    rw [nameless, symbols, List.mem_append, ihF wellTyped.1 discerning.1,
      ihX wellTyped.2.1 discerning.2]
    simp only [free, List.mem_append, or_and_right, exists_or]
  | lam v b ih =>
    rw [nameless, symbols, ih wellTyped.1 discerning.2]
    refine exists_congr fun r => ?_
    rw [wellTyped.mem_free_lam discerning]
    by_cases same : r = v
    · subst same
      simp [binding, symbols]
    · rw [binding, update_of_ne same, Function.comp, symbols_shift]
      have other : r ∈ b.free → r.name ≠ v.name := fun member name =>
        same (Symbol.ext_iff'.mpr ⟨name, wellTyped.2 r member name⟩)
      constructor
      · rintro ⟨member, here⟩
        exact ⟨⟨member, other member⟩, here⟩
      · rintro ⟨⟨member, -⟩, here⟩
        exact ⟨member, here⟩

/-! ## What a substitution computes -/

namespace Rigid

/-- What a variable stands for that is not free does not matter. -/
theorem nameless_unused (rigid : t.Rigid) (unused : p ∉ t.free) (x : Nameless) :
    t.nameless (update ρ p x) = t.nameless ρ := by
  refine rigid.proper.wellTyped.nameless_congr rigid.proper.plain.discerning fun s member => ?_
  refine update_of_ne ?_ _ _
  rintro rfl
  exact unused member

/-- A term in which a variable is not free stands below a binder of it unchanged. -/
theorem nameless_binding (rigid : value.Rigid) (unused : v.name ∉ value.freeNames)
    (ρ : Symbol → Nameless) : value.nameless (binding v ρ) = (value.nameless ρ).shift := by
  rw [nameless_shift]
  exact rigid.nameless_unused (fun member => unused (List.mem_map_of_mem member)) _

/-- It does not matter whether a variable stands for a value outside or inside of a binder. -/
theorem binding_update (rigid : value.Rigid) (unused : v.name ∉ value.freeNames) (other : v ≠ p)
    (ρ : Symbol → Nameless) : binding v (update ρ p (value.nameless ρ)) =
      update (binding v ρ) p (value.nameless (binding v ρ)) := by
  rw [rigid.nameless_binding unused, binding, binding, Function.comp_update,
    update_comm other.symm]

end Rigid

/-- Reducing an abstraction that is applied is putting its argument for its variable. -/
theorem reduces_nameless (ρ : Symbol → Nameless) :
    ReducesTo ((app (lam v b) x).nameless ρ) (b.nameless (update ρ v (x.nameless ρ))) := by
  have inside : (fun s => (binding v ρ s).put (top (x.nameless ρ)) .free) =
      update ρ v (x.nameless ρ) := by
    funext s
    by_cases same : s = v
    · subst same
      rw [binding, update_self, update_self]
      rfl
    · rw [binding, update_of_ne same, update_of_ne same]
      exact put_top_shift
  rw [← inside, ← nameless_put]
  exact .beta v.type _ _

/-- What comes of putting a value for a variable: a term of the same type, which is a reduct of the
term with the variable standing for the value unless a renaming went wrong. -/
structure Contracted (value : Term) (p : Symbol) (t t' : Term) (captured : Bool) : Prop where
  /-- The result is proper and has no type variables. -/
  rigid : t'.Rigid
  /-- The type stays. -/
  type_eq : t'.type = t.type
  /-- It is a reduct. -/
  reduces : captured = false → ∀ ρ : Symbol → Nameless,
    ReducesTo (t.nameless (update ρ p (value.nameless ρ))) (t'.nameless ρ)

/-- Every run of a substitution within some depth computes a reduct. -/
def Contracting (depth : Nat) : Prop :=
  ∀ {t value t' : Term} {p : Symbol} {s s' : Supply}, t.Rigid → value.Rigid → (var p).Rigid →
    p.type = value.type →
    (Term.substituteWithin depth t value (.var p)).runFrom s = (.ok t', s') →
    Contracted value p t t' (capturesWithin depth t value (.var p) s)

/-- The function and the argument are substituted, and an abstraction that comes up as the function
is reduced. -/
theorem Contracting.app {depth : Nat} (contracting : Contracting depth) {s s' : Supply} {t' : Term}
    (rigid : (Term.app f x).Rigid) (rigidValue : value.Rigid) (rigidP : (var p).Rigid)
    (typed : p.type = value.type)
    (run : (Term.substituteWithin (depth + 1) (.app f x) value (.var p)).runFrom s = (.ok t', s')) :
    Contracted value p (.app f x) t' (capturesWithin (depth + 1) (.app f x) value (.var p) s) := by
  rw [Term.substituteWithin] at run
  obtain ⟨f', s₁, runF, run⟩ := Build.bind_ok run
  obtain ⟨x', s₂, runX, run⟩ := Build.bind_ok run
  obtain ⟨applied, s₃, runA, run⟩ := Build.bind_ok run
  have function := contracting rigid.function rigidValue rigidP typed runF
  have argument := contracting rigid.argument rigidValue rigidP typed runX
  obtain ⟨rfl, together⟩ := function.rigid.mkApp argument.rigid runA
  have type_eq : (Term.app f' x').type = (Term.app f x).type := by
    rw [type, type, function.type_eq]
  rw [capturesWithin, Build.leadsTo_of_run runF, Build.leadsTo_of_run runX,
    Build.leadsTo_of_run runA]
  cases f' with
  | lam v b =>
    obtain ⟨codomain, domain⟩ := together.proper.wellTyped.2.2
    have body := contracting together.function.body argument.rigid together.function.bound
      (Ty.arrow.inj domain).1 run
    refine ⟨body.rigid, body.type_eq.trans type_eq, fun clear ρ => ?_⟩
    simp only [Bool.or_eq_false_iff] at clear
    have both := (function.reduces clear.1 ρ).app (argument.reduces clear.2.1 ρ)
    exact (both.trans (reduces_nameless ρ)).trans (body.reduces clear.2.2 ρ)
  | _ =>
    cases run
    refine ⟨together, type_eq, fun clear ρ => ?_⟩
    simp only [Bool.or_eq_false_iff] at clear
    exact (function.reduces clear.1 ρ).app (argument.reduces clear.2.1 ρ)

/-- A body whose bound variable is renamed before the substitution is a reduct as it should be,
unless the new variable is the replaced one. -/
theorem Contracted.renamed {b₁ b₂ : Term} {w : Symbol} {capturedFirst capturedSecond : Bool}
    (first : Contracted (.var w) v b b₁ capturedFirst)
    (second : Contracted value p b₁ b₂ capturedSecond) (rigid : b.Rigid)
    (rigidValue : value.Rigid) (other : v ≠ p) (unbound : ∀ s ∈ b.free, s ≠ w)
    (unused : w.name ∉ value.freeNames) (clear : w = p → b.hasFree v = false)
    (clearFirst : capturedFirst = false) (clearSecond : capturedSecond = false)
    (ρ : Symbol → Nameless) :
    ReducesTo (b.nameless (binding v (update ρ p (value.nameless ρ))))
      (b₂.nameless (binding w ρ)) := by
  have last := second.reduces clearSecond (binding w ρ)
  have before := first.reduces clearFirst
    (update (binding w ρ) p (value.nameless (binding w ρ)))
  rw [rigidValue.nameless_binding unused] at before last
  refine ReducesTo.trans ?_ last
  convert before using 1
  refine rigid.proper.wellTyped.nameless_congr rigid.proper.plain.discerning fun s member => ?_
  by_cases same : s = v
  · subst same
    have apart : w ≠ p := fun hit => ne_of_hasFree (clear hit) member rfl
    rw [binding, update_self, update_self, nameless, update_of_ne apart, binding, update_self]
  · rw [binding, update_of_ne same, update_of_ne same, Function.comp]
    by_cases hit : s = p
    · subst hit
      rw [update_self, update_self]
    · rw [update_of_ne hit, update_of_ne hit, binding, update_of_ne (unbound s member),
        Function.comp]

/-- An abstraction over the variable that is replaced stays as it is. -/
theorem contracted_hidden (rigid : (lam v b).Rigid) (rigidP : (var p).Rigid)
    (hidden : (var p).hasFree v = true) : Contracted value p (.lam v b) (.lam v b) false := by
  have same : p = v := Symbol.varKey_inj rigidP.proper.plain rigid.proper.plain.1
    (by simpa [hasFree, free] using hidden)
  have unused : p ∉ (Term.lam v b).free := fun member =>
    (rigid.proper.plain.mem_free_lam.mp member).2 same
  refine ⟨rigid, rfl, fun _ ρ => ?_⟩
  rw [rigid.nameless_unused unused]
  exact .refl _

/-- The body of an abstraction is substituted, its variable being renamed first if need be. -/
theorem Contracting.lam {depth : Nat} (contracting : Contracting depth) {s s' : Supply} {t' : Term}
    (rigid : (Term.lam v b).Rigid) (rigidValue : value.Rigid) (rigidP : (var p).Rigid)
    (typed : p.type = value.type)
    (run : (Term.substituteWithin (depth + 1) (.lam v b) value (.var p)).runFrom s = (.ok t', s')) :
    Contracted value p (.lam v b) t' (capturesWithin (depth + 1) (.lam v b) value (.var p) s) := by
  rw [Term.substituteWithin] at run
  rw [capturesWithin]
  split at run
  next hidden =>
    cases run
    rw [if_pos hidden]
    exact contracted_hidden rigid rigidP hidden
  next apart =>
    rw [if_neg apart]
    have other : v ≠ p := fun same =>
      var_ne_of_hasFree (Bool.eq_false_iff.mpr apart) (congrArg var same)
    split at run
    next clash =>
      obtain ⟨b₁, s₁, runFirst, run⟩ := Build.bind_ok run
      obtain ⟨b₂, s₂, runSecond, run⟩ := Build.bind_ok run
      have fresh := rigid.renamed value.freeNames
      have first := contracting rigid.body fresh rigid.bound rfl runFirst
      have second := contracting first.rigid rigidValue rigidP typed runSecond
      obtain ⟨rfl, together⟩ := fresh.mkLam second.rigid (Build.lift_ok run).1
      obtain ⟨unbound, unused⟩ := renamedBound_fresh v b value.freeNames
      rw [if_pos clash]
      dsimp only
      rw [Build.leadsTo_of_run runFirst]
      refine ⟨together, ?_, fun clear ρ => ?_⟩
      · rw [type, type, second.type_eq, first.type_eq]
        rfl
      · simp only [Bool.or_eq_false_iff] at clear
        exact .lam _ (first.renamed second rigid.body rigidValue other unbound unused
          (fun hit => by simpa [hit] using clear.1.1) clear.1.2 clear.2 ρ)
    next unclashed =>
      obtain ⟨b₁, s₁, runBody, run⟩ := Build.bind_ok run
      have body := contracting rigid.body rigidValue rigidP typed runBody
      obtain ⟨rfl, together⟩ := rigid.bound.mkLam body.rigid (Build.lift_ok run).1
      rw [if_neg unclashed]
      refine ⟨together, by rw [type, type, body.type_eq], fun clear ρ => ?_⟩
      have unused : v.name ∉ value.freeNames := by simpa using unclashed
      rw [nameless, nameless, rigidValue.binding_update unused other]
      exact .lam _ (body.reduces clear (binding v ρ))

/-- To every depth, contracting reduces. -/
theorem contracting (depth : Nat) : Contracting depth := by
  induction depth with
  | zero =>
    intro t value t' p s s' _ _ _ _ run
    cases run
  | succ depth ih =>
    intro t value t' p s s' rigid rigidValue rigidP typed run
    cases t with
    | const c =>
      cases run
      exact ⟨rigid, rfl, fun _ _ => .refl _⟩
    | var r =>
      obtain rfl : (if Term.var r = .var p then value else .var r) = t' :=
        Except.ok.inj (Prod.ext_iff.mp run).1
      by_cases same : r = p
      · subst same
        rw [if_pos rfl]
        refine ⟨rigidValue, typed.symm, fun _ ρ => ?_⟩
        rw [nameless, update_self]
        exact .refl _
      · rw [if_neg fun equal => same (Term.var.inj equal)]
        refine ⟨rigid, rfl, fun _ ρ => ?_⟩
        rw [nameless, nameless, update_of_ne same]
        exact .refl _
    | app f x => exact ih.app rigid rigidValue rigidP typed run
    | lam v b => exact ih.lam rigid rigidValue rigidP typed run

/-- A substitution whose renamings go well computes a reduct of the substitution that cannot
capture anything: its free variables are those of the value and those of the term but the replaced
one, and where that one is not free the result is a reduct of the term. -/
theorem Rigid.substitute_reduces {s s' : Supply} {t' : Term} (rigid : t.Rigid)
    (rigidValue : value.Rigid) (rigidP : (var p).Rigid) (typed : p.type = value.type)
    (run : (t.substitute value (.var p)).runFrom s = (.ok t', s'))
    (clear : t.captures value (.var p) s = false) :
    ReducesTo ((t.nameless .free).replace p (value.nameless .free)) (t'.nameless .free) ∧
      (∀ r ∈ t'.free, r ∈ value.free ∨ r ∈ t.free ∧ r ≠ p) ∧
      (p ∉ t.free → ReducesTo (t.nameless .free) (t'.nameless .free)) := by
  have contracted := contracting s.depth rigid rigidValue rigidP typed run
  have reduces := contracted.reduces clear .free
  refine ⟨?_, fun r member => ?_, fun absent => ?_⟩
  · rw [replace, nameless_put]
    exact reduces
  · have here : r ∈ (t'.nameless .free).symbols :=
      (contracted.rigid.proper.wellTyped.mem_symbols contracted.rigid.proper.plain.discerning).mpr
        ⟨r, member, List.mem_singleton_self r⟩
    obtain ⟨q, inside, from'⟩ :=
      (rigid.proper.wellTyped.mem_symbols rigid.proper.plain.discerning).mp
        (reduces.symbols_subset here)
    by_cases same : q = p
    · subst same
      rw [update_self] at from'
      obtain ⟨q', inside', from'⟩ := (rigidValue.proper.wellTyped.mem_symbols
        rigidValue.proper.plain.discerning).mp from'
      obtain rfl := List.mem_singleton.mp from'
      exact .inl inside'
    · rw [update_of_ne same] at from'
      obtain rfl := List.mem_singleton.mp from'
      exact .inr ⟨inside, same⟩
  · rwa [rigid.nameless_unused absent] at reduces

/-- A bound variable that the value has free is renamed. -/
example :
    let x : Symbol := ⟨"x", .obj⟩
    let y : Symbol := ⟨"y", .obj⟩
    let f := Term.var ⟨"f", .arrow .obj (.arrow .obj .obj)⟩
    let t := Term.lam y (.app (.app f (.var x)) (.var y))
    t.captures (.var y) (.var x) { Supply.initial with depth := 9 } = false ∧
      ((t.substitute (.var y) (.var x)).runFrom { Supply.initial with depth := 9 }).1.toOption =
        some (.lam ⟨"y1", .obj⟩ (.app (.app f (.var y)) (.var ⟨"y1", .obj⟩))) := by
  decide

/-- Putting `x` for `x1` in the identity renames its variable to `x1` and then replaces it, though
`x1` is not free in the identity: the result is a constant function. -/
theorem substitute_captures :
    let x : Symbol := ⟨"x", .obj⟩
    let x1 : Symbol := ⟨"x1", .obj⟩
    let t := Term.lam x (.var x)
    x1 ∉ t.free ∧
      ((t.substitute (.var x) (.var x1)).runFrom { Supply.initial with depth := 9 }).1.toOption =
        some (.lam x1 (.var x)) ∧
      ¬ ReducesTo (t.nameless .free) ((Term.lam x1 (.var x)).nameless .free) := by
  refine ⟨by decide, by decide, fun reduces => ?_⟩
  have member : (⟨"x", .obj⟩ : Symbol) ∈ [] := reduces.symbols_subset (by decide)
  cases member

end Term

end Turnstile
