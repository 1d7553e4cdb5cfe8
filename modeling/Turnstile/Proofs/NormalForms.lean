import Turnstile.Proofs.Applications
import Turnstile.Proofs.SubstitutionMeaning

/-!
# Substitution in normal forms

Substitution reduces what it makes reducible, and this need not end. In terms that have nothing to
reduce it does: a value can only make an application reducible where it is a function, the reduction
then puts an argument for a variable of a smaller type, and so on down. This is hereditary
substitution, and it ends in spite of the names that go wrong: where a bound variable is renamed to
the atom that is replaced more is replaced than should be, but nothing whose type is larger.

The measure is the type of the atom that is replaced, then the size of the term. What carries it is
that an application can only become an abstraction if its type is a part of the atom's type. It is
enough to follow values that have the type of the atom and share its names: an application that has
been built is good, so that what it reduces to is again of this kind, whatever the substitution was
that built it.
-/

namespace Turnstile

open Build

namespace Term

variable {t t' f f' x x' b b' r value pattern : Term} {u v w s : Symbol}

/-! ## Normal terms -/

/-- No abstraction is applied. -/
def Normal : Term → Prop
  | const _ => True
  | var _ => True
  | app f x => f.Normal ∧ x.Normal ∧ ∀ v b, f ≠ lam v b
  | lam _ b => b.Normal

/-- The number of constructors of a term. -/
def size : Term → Nat
  | const _ => 1
  | var _ => 1
  | app f x => f.size + x.size + 1
  | lam _ b => b.size + 1

/-- What refines a term is an abstraction only if the term is one. -/
theorem Refines.ne_lam (refines : f.Refines f') (other : ∀ v b, f ≠ lam v b) (v : Symbol)
    (b : Term) : f' ≠ lam v b := by
  rintro rfl
  match f with
  | lam u c => exact other u c rfl

/-- Types do not matter to what can be reduced. -/
theorem Normal.refines (normal : t.Normal) (refines : t.Refines t') : t'.Normal := by
  induction t generalizing t' with
  | const c => match t' with | const _ => trivial
  | var s => match t' with | var _ => trivial
  | app f x ihF ihX =>
    match t' with
    | app f' x' =>
      exact ⟨ihF normal.1 refines.1, ihX normal.2.1 refines.2, refines.1.ne_lam normal.2.2⟩
  | lam v b ih =>
    match t' with
    | lam _ b' =>
      have body : b'.Normal := ih normal refines.2
      exact body

/-! ## Substitutions that end -/

/-- From some depth on and from every supply, the substitution gives a certain term and draws
nothing. -/
def Settles (value pattern t r : Term) : Prop :=
  ∃ n, ∀ depth, n ≤ depth → ∀ s, (t.substituteWithin depth value pattern).runFrom s = (.ok r, s)

/-- Another constant settles on itself. -/
theorem settles_const {c : Symbol} (other : const c ≠ pattern) :
    Settles value pattern (const c) (const c) := by
  refine ⟨1, fun depth enough s => ?_⟩
  obtain ⟨depth, rfl⟩ : ∃ d, depth = d + 1 := ⟨depth - 1, by omega⟩
  rw [substituteWithin, if_neg other]
  rfl

/-- Another variable settles on itself. -/
theorem settles_var (other : var v ≠ pattern) : Settles value pattern (var v) (var v) := by
  refine ⟨1, fun depth enough s => ?_⟩
  obtain ⟨depth, rfl⟩ : ∃ d, depth = d + 1 := ⟨depth - 1, by omega⟩
  rw [substituteWithin, if_neg other]
  rfl

/-- An atom that is replaced settles on the value. -/
theorem settles_value (atom : t.isAtom = true) : Settles value t t value := by
  refine ⟨1, fun depth enough s => ?_⟩
  obtain ⟨depth, rfl⟩ : ∃ d, depth = d + 1 := ⟨depth - 1, by omega⟩
  match t with
  | const c | var c =>
    rw [substituteWithin, if_pos rfl]
    rfl

/-- An application settles part by part if the function does not settle on an abstraction. -/
theorem settles_app (function : Settles value pattern f f') (argument : Settles value pattern x x')
    (proper : (app f' x').Proper) (other : ∀ v b, f' ≠ lam v b) :
    Settles value pattern (app f x) (app f' x') := by
  obtain ⟨n, function⟩ := function
  obtain ⟨m, argument⟩ := argument
  refine ⟨n + m + 1, fun depth enough s => ?_⟩
  obtain ⟨depth, rfl⟩ : ∃ d, depth = d + 1 := ⟨depth - 1, by omega⟩
  rw [substituteWithin, runFrom_bind_ok (function depth (by omega) s),
    runFrom_bind_ok (argument depth (by omega) s), runFrom_bind_ok (proper.mkApp_good s)]
  split
  next v b y same => exact absurd (Term.app.inj same).1 (other v b)
  next => rfl

/-- An application whose function becomes an abstraction becomes what it reduces to. -/
theorem settles_redex (function : Settles value pattern f (lam v b))
    (argument : Settles value pattern x x') (proper : (app (lam v b) x').Proper)
    (reduced : Settles x' (var v) b r) : Settles value pattern (app f x) r := by
  obtain ⟨n, function⟩ := function
  obtain ⟨m, argument⟩ := argument
  obtain ⟨k, reduced⟩ := reduced
  refine ⟨n + m + k + 1, fun depth enough s => ?_⟩
  obtain ⟨depth, rfl⟩ : ∃ d, depth = d + 1 := ⟨depth - 1, by omega⟩
  rw [substituteWithin, runFrom_bind_ok (function depth (by omega) s),
    runFrom_bind_ok (argument depth (by omega) s), runFrom_bind_ok (proper.mkApp_good s)]
  exact reduced depth (by omega) s

/-- Below a binder of the pattern nothing is replaced. -/
theorem settles_hidden (hidden : pattern.hasFree v = true) :
    Settles value pattern (lam v b) (lam v b) := by
  refine ⟨1, fun depth enough s => ?_⟩
  obtain ⟨depth, rfl⟩ : ∃ d, depth = d + 1 := ⟨depth - 1, by omega⟩
  rw [substituteWithin, if_pos hidden]
  rfl

/-- An abstraction settles under its binder if this need not be renamed. -/
theorem settles_lam (apart : pattern.hasFree v = false) (unused : v.name ∉ value.freeNames)
    (body : Settles value pattern b b') (proper : (lam v b').Proper) :
    Settles value pattern (lam v b) (lam v b') := by
  obtain ⟨n, body⟩ := body
  refine ⟨n + 1, fun depth enough s => ?_⟩
  obtain ⟨depth, rfl⟩ : ∃ d, depth = d + 1 := ⟨depth - 1, by omega⟩
  have absent : ¬ value.freeNames.contains v.name = true := by simpa using unused
  rw [substituteWithin, if_neg (ne_true_of_eq_false apart), if_neg absent,
    runFrom_bind_ok (body depth (by omega) s), proper.mkLam_good]
  rfl

/-- Below a binder whose name is free in the value the bound variable is renamed first. -/
theorem settles_renamed {fresh : Symbol} (apart : pattern.hasFree v = false)
    (used : v.name ∈ value.freeNames) (is : renamedBound v b value.freeNames = fresh)
    (renamed : Settles (var fresh) (var v) b b') (body : Settles value pattern b' r)
    (proper : (lam fresh r).Proper) : Settles value pattern (lam v b) (lam fresh r) := by
  obtain ⟨n, renamed⟩ := renamed
  obtain ⟨m, body⟩ := body
  refine ⟨n + m + 1, fun depth enough s => ?_⟩
  obtain ⟨depth, rfl⟩ : ∃ d, depth = d + 1 := ⟨depth - 1, by omega⟩
  have present : value.freeNames.contains v.name = true := by simpa using used
  rw [substituteWithin, if_neg (ne_true_of_eq_false apart), if_pos present, is,
    runFrom_bind_ok (renamed depth (by omega) s), runFrom_bind_ok (body depth (by omega) s),
    proper.mkLam_good]
  rfl

/-- A substitution that may nest deeper goes on where the first one may not, and else does the
same. -/
theorem substituteWithin_outlasts {depth deeper : Nat} (le : depth ≤ deeper)
    (t value pattern : Term) : Outlasts (t.substituteWithin depth value pattern)
      (t.substituteWithin deeper value pattern) := by
  induction depth generalizing deeper t value pattern with
  | zero => exact fun s ended => absurd rfl ended
  | succ depth ih =>
    obtain ⟨deeper, rfl⟩ : ∃ d, deeper = d + 1 := ⟨deeper - 1, by omega⟩
    have le : depth ≤ deeper := by omega
    match t with
    | const c | var c =>
      rw [substituteWithin, substituteWithin]
      exact .refl _
    | app f x =>
      rw [substituteWithin, substituteWithin]
      refine (ih le f value pattern).bind fun f' => (ih le x value pattern).bind fun x' => ?_
      refine (Outlasts.refl (f'.mkApp x')).bind fun built => ?_
      split
      next v b y => exact ih le b y (var v)
      next => exact .refl _
    | lam v b =>
      rw [substituteWithin, substituteWithin]
      split
      next => exact .refl _
      next =>
        split
        next =>
          refine (ih le b _ (var v)).bind fun renamed => ?_
          exact (ih le renamed value pattern).bind fun _ => .refl _
        next => exact (ih le b value pattern).bind fun _ => .refl _

/-- At every depth a substitution that settles gives what it settles on, or nests too deeply. -/
theorem Settles.or_deep (settles : Settles value pattern t r) (depth : Nat) (s : Supply) :
    (t.substituteWithin depth value pattern).runFrom s = (.ok r, s) ∨
      ((t.substituteWithin depth value pattern).runFrom s).1 = .error .tooDeep := by
  obtain ⟨n, settles⟩ := settles
  by_cases deep : ((t.substituteWithin depth value pattern).runFrom s).1 = .error .tooDeep
  · exact .inr deep
  · have same := substituteWithin_outlasts (Nat.le_add_right depth n) t value pattern s deep
    exact .inl (same.symm.trans (settles (depth + n) (by omega) s))

/-- A run that succeeds, however deep, gives what the substitution settles on. -/
theorem Settles.run {depth : Nat} {s s' : Supply} (settles : Settles value pattern t r)
    (run : (t.substituteWithin depth value pattern).runFrom s = (.ok r', s')) :
    r' = r ∧ s' = s := by
  rcases settles.or_deep depth s with same | deep
  · rw [run] at same
    obtain ⟨result, supply⟩ := Prod.mk.inj same
    exact ⟨Except.ok.inj result, supply⟩
  · rw [run] at deep
    cases deep

/-- What a substitution settles on is one term. -/
theorem Settles.unique (first : Settles value pattern t r) (second : Settles value pattern t r') :
    r = r' := by
  obtain ⟨n, first⟩ := first
  obtain ⟨m, second⟩ := second
  have runs := (first (n + m) (by omega) .initial).symm.trans (second (n + m) (by omega) .initial)
  exact Except.ok.inj (Prod.mk.inj runs).1

/-! ## Renaming -/

/-- A term with a variable in place of the free occurrences of another. -/
@[simp] def relabel (v w : Symbol) : Term → Term
  | const c => const c
  | var s => if s = v then var w else var s
  | app f x => app (f.relabel v w) (x.relabel v w)
  | lam u b => if u = v then lam u b else lam u (b.relabel v w)

/-- Relabelling a variable by itself changes nothing. -/
@[simp] theorem relabel_self (v : Symbol) (t : Term) : t.relabel v v = t := by
  induction t with
  | const c => rfl
  | var s =>
    rw [relabel]
    split
    next is => rw [is]
    next => rfl
  | app f x ihF ihX => rw [relabel, ihF, ihX]
  | lam u b ih => rw [relabel, ih, ite_self]

/-- Relabelling leaves the size. -/
theorem size_relabel (v w : Symbol) (t : Term) : (t.relabel v w).size = t.size := by
  induction t with
  | const c => rfl
  | var s => rw [relabel]; split <;> rfl
  | app f x ihF ihX => rw [relabel, size, size, ihF, ihX]
  | lam u b ih =>
    rw [relabel]
    split
    · rfl
    · rw [size, size, ih]

/-- Relabelling by a variable of the same type leaves the type. -/
theorem type_relabel (same : w.type = v.type) (t : Term) : (t.relabel v w).type = t.type := by
  induction t with
  | const c => rfl
  | var s =>
    rw [relabel]
    split
    next is => rw [is]; exact same
    next => rfl
  | app f x ihF _ => rw [relabel, type, type, ihF]
  | lam u b ih =>
    rw [relabel]
    split
    · rfl
    · rw [type, type, ih]

/-- Relabelling does not make abstractions. -/
theorem relabel_ne_lam (other : ∀ v b, f ≠ lam v b) (v w u : Symbol) (b : Term) :
    f.relabel v w ≠ lam u b := by
  match f with
  | const c => simp [relabel]
  | var s => rw [relabel]; split <;> simp
  | app g x => simp [relabel]
  | lam u' b' => exact absurd rfl (other u' b')

/-- Relabelling makes nothing to be reduced. -/
theorem Normal.relabel (normal : t.Normal) (v w : Symbol) : (t.relabel v w).Normal := by
  induction t with
  | const c => trivial
  | var s => rw [Term.relabel]; split <;> trivial
  | app f x ihF ihX => exact ⟨ihF normal.1, ihX normal.2.1, relabel_ne_lam normal.2.2 v w⟩
  | lam u b ih =>
    rw [Term.relabel]
    split
    · exact normal
    · exact ih normal

/-- What is free after a renaming. -/
theorem mem_free_relabel (s : Symbol) (member : s ∈ (t.relabel v w).free) :
    (s ∈ t.free ∧ s ≠ v) ∨ s = w := by
  induction t with
  | const c => cases member
  | var r =>
    rw [relabel] at member
    split at member
    next => exact .inr (by simpa [free] using member)
    next other =>
      obtain rfl : s = r := by simpa [free] using member
      exact .inl ⟨member, other⟩
  | app f x ihF ihX =>
    rcases List.mem_append.mp member with left | right
    · exact (ihF left).imp_left (And.imp_left (List.mem_append_left _))
    · exact (ihX right).imp_left (And.imp_left (List.mem_append_right _))
  | lam u b ih =>
    rw [relabel] at member
    split at member
    next is =>
      refine .inl ⟨member, ?_⟩
      rintro rfl
      have differs := (List.mem_filter.mp member).2
      simp [is] at differs
    next =>
      obtain ⟨inside, differs⟩ := List.mem_filter.mp member
      exact (ih inside).imp_left
        (And.imp_left fun inside' => List.mem_filter.mpr ⟨inside', differs⟩)

/-- Renaming variables leaves the constants. -/
theorem const_mem_atoms_relabel {c : Symbol} :
    const c ∈ (t.relabel v w).atoms ↔ const c ∈ t.atoms := by
  induction t with
  | const d => rfl
  | var s => rw [relabel]; split <;> simp [atoms]
  | app f x ihF ihX => simp only [relabel, atoms, List.mem_append, ihF, ihX]
  | lam u b ih =>
    rw [relabel]
    split
    · rfl
    · simp [atoms, ih]

/-- A term stays in the words of logic if a variable is renamed to another one. -/
theorem Speaks.relabel {names : List String} (speaks : t.Speaks names) (apart : w.name ∉ names) :
    (t.relabel v w).Speaks names := by
  induction t with
  | const c => exact speaks
  | var s =>
    rw [Term.relabel]
    split
    · exact apart
    · exact speaks
  | app f x ihF ihX => exact ⟨ihF speaks.1, ihX speaks.2⟩
  | lam u b ih =>
    rw [Term.relabel]
    split
    · exact speaks
    · exact ⟨speaks.1, ih speaks.2⟩

/-- Occurrences stay uniform when a variable of another name comes in. -/
theorem uniform_extend {before after : List Symbol} (uniform : Uniform before)
    (fresh : ∀ s ∈ before, s.name ≠ w.name) (inside : ∀ s ∈ after, s ∈ before ∨ s = w) :
    Uniform after := by
  intro s member s' member' name
  rcases inside s member with old | rfl <;> rcases inside s' member' with old' | rfl
  · exact uniform s old s' old' name
  · exact absurd name (fresh s old)
  · exact absurd name.symm (fresh s' old')
  · rfl

/-- A name that no atom of the term has. -/
def Unheard (name : String) (t : Term) : Prop := ∀ a ∈ t.atoms, a.name ≠ name

/-- A name that is not heard in a term is no free name of it. -/
theorem Unheard.free (unheard : t.Unheard w.name) : ∀ s ∈ t.free, s.name ≠ w.name :=
  fun _ member => unheard _ (mem_atoms_of_mem_free member)

/-- A proper term stays proper when a variable is renamed to one of its type whose name is not
heard of in the term. -/
theorem Proper.relabel (proper : t.Proper) (plain : w.type.Plain) (same : w.type = v.type)
    (unheard : t.Unheard w.name) : (t.relabel v w).Proper := by
  induction t with
  | const c => exact proper
  | var s =>
    rw [Term.relabel]
    split
    · exact proper_var plain
    · exact proper
  | app f x ihF ihX =>
    have unheardF : f.Unheard w.name := fun a inside => unheard a (List.mem_append_left _ inside)
    have unheardX : x.Unheard w.name := fun a inside => unheard a (List.mem_append_right _ inside)
    have properF := ihF proper.function unheardF
    have properX := ihX proper.argument unheardX
    obtain ⟨codomain, typed⟩ := proper.wellTyped.2.2
    refine ⟨⟨⟨properF.wellTyped, properX.wellTyped, codomain, ?_⟩, ?_⟩,
      ⟨properF.plain, properX.plain⟩⟩
    · rw [type_relabel same, type_relabel same, typed]
    · exact uniform_extend proper.uniform unheard.free fun s member =>
        (mem_free_relabel (t := app f x) s member).imp_left And.left
  | lam u b ih =>
    rw [Term.relabel]
    split
    · exact proper
    · have unheardB : b.Unheard w.name := fun a inside => unheard a (List.mem_cons_of_mem _ inside)
      have properB := ih proper.body unheardB
      have plainL : (lam u (b.relabel v w)).Plain := ⟨proper.plain.1, properB.plain⟩
      refine ⟨(properB.toGood.lam_iff plainL.discerning).mpr ?_, plainL⟩
      have whole := (proper.body.toGood.lam_iff proper.plain.discerning).mp proper.toGood
      have fresh : ∀ s ∈ u :: b.free, s.name ≠ w.name :=
        List.forall_mem_cons.mpr ⟨unheard (var u) (by simp [atoms]), unheardB.free⟩
      refine uniform_extend whole fresh fun s member => ?_
      rcases List.mem_cons.mp member with rfl | inside
      · exact .inl (by simp)
      · exact (mem_free_relabel s inside).imp_left fun old => List.mem_cons_of_mem _ old.1

/-- In a normal term, renaming a variable to one whose name is not heard of ends, and renames
nothing else. -/
theorem settles_relabel (proper : t.Proper) (normal : t.Normal) (plainV : v.type.Plain)
    (plain : w.type.Plain) (same : w.type = v.type) (unheard : t.Unheard w.name) :
    Settles (var w) (var v) t (t.relabel v w) := by
  induction t with
  | const c => exact settles_const (by simp)
  | var s =>
    rw [relabel]
    split
    next is =>
      subst is
      exact settles_value rfl
    next other => exact settles_var (by simpa using other)
  | app f x ihF ihX =>
    have unheardF : f.Unheard w.name := fun a inside => unheard a (List.mem_append_left _ inside)
    have unheardX : x.Unheard w.name := fun a inside => unheard a (List.mem_append_right _ inside)
    exact settles_app (ihF proper.function normal.1 unheardF)
      (ihX proper.argument normal.2.1 unheardX) (proper.relabel plain same unheard)
      (relabel_ne_lam normal.2.2 v w)
  | lam u b ih =>
    have properL := proper.relabel plain same unheard
    rw [relabel] at properL ⊢
    have unheardB : b.Unheard w.name := fun a inside => unheard a (List.mem_cons_of_mem _ inside)
    split at properL
    next is =>
      subst is
      rw [if_pos rfl]
      exact settles_hidden (hasFree_var u)
    next other =>
      rw [if_neg other]
      have unused : u.name ∉ (var w).freeNames := by
        have apart : u.name ≠ w.name := unheard (var u) (by simp [atoms])
        simpa [freeNames, free] using apart
      have apart : (var v).hasFree u = false := by
        have differs : v.varKey ≠ u.varKey := fun keys =>
          other (Symbol.varKey_inj plainV proper.plain.1 keys).symm
        simpa [hasFree, free] using differs
      exact settles_lam apart unused (ih proper.body normal unheardB) properL

/-! ## Values of the type of the atom -/

/-- What is free in a proper abstraction. -/
theorem Proper.mem_free_lam (proper : (lam v b).Proper) :
    s ∈ (lam v b).free ↔ s ∈ b.free ∧ s ≠ v :=
  proper.plain.mem_free_lam

/-- What may be free after a substitution: what was free and is not replaced, and what is free in
the value. -/
def freeAfter (value pattern t : Term) : List Symbol :=
  t.free.filter (fun s => decide (var s ≠ pattern)) ++ value.free

/-- The free variables after putting a value for a pattern. -/
@[simp] theorem mem_freeAfter :
    s ∈ freeAfter value pattern t ↔ (s ∈ t.free ∧ var s ≠ pattern) ∨ s ∈ value.free := by
  simp [freeAfter]

/-- A normal value may be put for a pattern: names keep one type each. -/
structure Fit (value pattern t : Term) : Prop where
  /-- The term is proper. -/
  proper : t.Proper
  /-- So is the value. -/
  properValue : value.Proper
  /-- The value has nothing to reduce. -/
  normalValue : value.Normal
  /-- Variables of one name have one type. -/
  uniform : Uniform (freeAfter value pattern t)

/-- The substitution settles on a normal term of the same type. -/
structure Reduces (value pattern t r : Term) : Prop where
  /-- It settles. -/
  settles : Settles value pattern t r
  /-- The result is proper. -/
  proper : r.Proper
  /-- It has nothing to reduce. -/
  normal : r.Normal
  /-- It has the type. -/
  type : r.type = t.type
  /-- Only what may be free is. -/
  free : ∀ s ∈ r.free, s ∈ freeAfter value pattern t
  /-- It is in the words of logic if the term and the value are. -/
  speaks : ∀ names ⊆ Logic.defined, t.Speaks names → value.Speaks names → r.Speaks names
  /-- Its constants are those that were there and are not replaced, and those of the value. -/
  consts : ∀ c, const c ∈ r.atoms → (const c ∈ t.atoms ∧ const c ≠ pattern) ∨ const c ∈ value.atoms

/-- What fits an application fits its function. -/
theorem Fit.function (fit : Fit value pattern (app f x)) : Fit value pattern f where
  proper := fit.proper.function
  properValue := fit.properValue
  normalValue := fit.normalValue
  uniform := fit.uniform.subset fun s member => by
    simp only [mem_freeAfter, free, List.mem_append] at member ⊢
    tauto

/-- What fits an application fits its argument. -/
theorem Fit.argument (fit : Fit value pattern (app f x)) : Fit value pattern x where
  proper := fit.proper.argument
  properValue := fit.properValue
  normalValue := fit.normalValue
  uniform := fit.uniform.subset fun s member => by
    simp only [mem_freeAfter, free, List.mem_append] at member ⊢
    tauto

/-- A replaced atom. -/
theorem Fit.replaced (fit : Fit value t t) (typed : t.type = value.type)
    (atom : t.isAtom = true) : Reduces value t t value where
  settles := settles_value atom
  proper := fit.properValue
  normal := fit.normalValue
  type := typed.symm
  free := fun _ member => mem_freeAfter.mpr (.inr member)
  speaks := fun _ _ _ words => words
  consts := fun _ member => .inr member

/-- An atom that is not replaced. -/
theorem Fit.kept (fit : Fit value pattern t) (settles : Settles value pattern t t)
    (atom : t.isAtom = true) (other : t ≠ pattern) : Reduces value pattern t t where
  settles := settles
  proper := fit.proper
  normal := by
    cases t with
    | const d => trivial
    | var r => trivial
    | app f x => cases atom
    | lam v b => cases atom
  type := rfl
  free := fun s member => by
    cases t with
    | const d => cases member
    | var r =>
      obtain rfl : s = r := by simpa [Term.free] using member
      exact mem_freeAfter.mpr (.inl ⟨member, other⟩)
    | app f x => cases atom
    | lam v b => cases atom
  speaks := fun _ _ words _ => words
  consts := fun c member => by
    cases t with
    | const d =>
      obtain same : const c = const d := by simpa [atoms] using member
      exact .inl ⟨member, same ▸ other⟩
    | var r => simp [atoms] at member
    | app f x => cases atom
    | lam v b => cases atom

/-- What becomes of an application is proper. -/
theorem Fit.applied (fit : Fit value pattern (app f x)) (function : Reduces value pattern f f')
    (argument : Reduces value pattern x x') :
    (app f' x').Proper ∧ ∀ s ∈ (app f' x').free, s ∈ freeAfter value pattern (app f x) := by
  have inside : ∀ s ∈ (app f' x').free, s ∈ freeAfter value pattern (app f x) := by
    intro s member
    have parts := List.mem_append.mp member
    have left := function.free s
    have right := argument.free s
    simp only [mem_freeAfter, free, List.mem_append] at left right ⊢
    tauto
  obtain ⟨codomain, typed⟩ := fit.proper.wellTyped.2.2
  refine ⟨⟨⟨⟨function.proper.wellTyped, argument.proper.wellTyped, codomain, ?_⟩, ?_⟩,
    function.proper.plain, argument.proper.plain⟩, inside⟩
  · rw [function.type, argument.type, typed]
  · exact fit.uniform.subset inside

/-- The constants of what becomes of an application. -/
theorem Reduces.consts_app (function : Reduces value pattern f f')
    (argument : Reduces value pattern x x') (c : Symbol) (member : const c ∈ (app f' x').atoms) :
    (const c ∈ (app f x).atoms ∧ const c ≠ pattern) ∨ const c ∈ value.atoms := by
  have left := function.consts c
  have right := argument.consts c
  simp only [atoms, List.mem_append] at member ⊢
  tauto

/-- An application whose function does not become an abstraction. -/
theorem Fit.rebuilt (fit : Fit value pattern (app f x)) (function : Reduces value pattern f f')
    (argument : Reduces value pattern x x') (other : ∀ v b, f' ≠ lam v b) :
    Reduces value pattern (app f x) (app f' x') := by
  obtain ⟨proper, inside⟩ := fit.applied function argument
  refine ⟨settles_app function.settles argument.settles proper other, proper,
    ⟨function.normal, argument.normal, other⟩, by rw [Term.type, Term.type, function.type], inside,
    fun names defined words value => ⟨function.speaks names defined words.1 value,
      argument.speaks names defined words.2 value⟩,
    function.consts_app argument⟩

/-- The argument of an abstraction may be put for the bound variable. -/
theorem Proper.fit_redex (proper : (app (lam v b) x).Proper) (normal : x.Normal) :
    Fit x (var v) b ∧ v.type = x.type := by
  obtain ⟨codomain, typed⟩ := proper.wellTyped.2.2
  refine ⟨⟨proper.function.body, proper.argument, normal, ?_⟩, (Ty.arrow.inj typed).1⟩
  refine proper.uniform.subset fun s member => ?_
  rcases mem_freeAfter.mp member with ⟨inside, other⟩ | inside
  · exact List.mem_append_left _ (proper.function.mem_free_lam.mpr ⟨inside, by simpa using other⟩)
  · exact List.mem_append_right _ inside

/-- Where the function becomes an abstraction, its argument may be put for the bound variable. -/
theorem Fit.redex (fit : Fit value pattern (app f x))
    (function : Reduces value pattern f (lam v b)) (argument : Reduces value pattern x x') :
    Fit x' (var v) b ∧ v.type = x'.type :=
  (fit.applied function argument).1.fit_redex argument.normal

/-- An application whose function becomes an abstraction becomes what it reduces to. -/
theorem Fit.reduced (fit : Fit value pattern (app f x))
    (function : Reduces value pattern f (lam v b)) (argument : Reduces value pattern x x')
    (body : Reduces x' (var v) b r) : Reduces value pattern (app f x) r := by
  obtain ⟨proper, inside⟩ := fit.applied function argument
  obtain ⟨codomain, typed⟩ := fit.proper.wellTyped.2.2
  refine ⟨settles_redex function.settles argument.settles proper body.settles, body.proper,
    body.normal, ?_, fun s member => inside s ?_, fun names defined words value =>
      body.speaks names defined (function.speaks names defined words.1 value).2
        (argument.speaks names defined words.2 value),
    fun c member => function.consts_app argument c ?_⟩
  · have functions := function.type
    rw [typed] at functions
    rw [body.type, Term.type, typed]
    exact (Ty.arrow.inj functions).2
  · rcases mem_freeAfter.mp (body.free s member) with ⟨old, other⟩ | new
    · exact List.mem_append_left _ (function.proper.mem_free_lam.mpr ⟨old, by simpa using other⟩)
    · exact List.mem_append_right _ new
  · rcases body.consts c member with ⟨old, -⟩ | new
    · exact List.mem_append_left _ (List.mem_cons_of_mem _ old)
    · exact List.mem_append_right _ new

/-! ### Below binders -/

/-- A name for a bound variable that is not free in the value: the variable's own, or the name that
it gets instead. -/
structure Entered (value : Term) (v : Symbol) (b : Term) (u : Symbol) : Prop where
  /-- The body is proper. -/
  proper : (b.relabel v u).Proper
  /-- The variable has a plain type. -/
  plain : u.type.Plain
  /-- It has the type of the bound one. -/
  type : u.type = v.type
  /-- Nothing that is free in the abstraction has its name. -/
  apart : ∀ s ∈ (lam v b).free, s.name ≠ u.name
  /-- What else is free in the body is free in the abstraction. -/
  others : ∀ s ∈ (b.relabel v u).free, s ≠ u → s ∈ (lam v b).free
  /-- The name is not free in the value. -/
  unused : u.name ∉ value.freeNames
  /-- The abstraction stays in the words of logic. -/
  speaks : ∀ names ⊆ Logic.defined, (lam v b).Speaks names → (lam u (b.relabel v u)).Speaks names

/-- Only the variable has its name. -/
theorem Entered.bound (entered : Entered value v b u) (inside : s ∈ (b.relabel v u).free)
    (name : s.name = u.name) : s = u := by
  by_contra other
  exact entered.apart s (entered.others s inside other) name

/-- The body of a proper abstraction is entered without renaming if the value does not use the name.
-/
theorem Proper.entered (proper : (lam v b).Proper) (unused : v.name ∉ value.freeNames) :
    Entered value v b v := by
  refine ⟨?_, proper.plain.1, rfl, fun s inside name => ?_, fun s inside other => ?_, unused, ?_⟩
  · rw [relabel_self]
    exact proper.body
  · obtain ⟨inside, other⟩ := proper.mem_free_lam.mp inside
    exact other (Symbol.ext_iff'.mpr ⟨name, proper.wellTyped.2 s inside name⟩)
  · rw [relabel_self] at inside
    exact proper.mem_free_lam.mpr ⟨inside, other⟩
  · rw [relabel_self]
    exact fun _ _ => id

/-- The new name of a bound variable is not heard of in the body. -/
theorem unheard_renamedBound (v : Symbol) (b : Term) (names : List String) :
    b.Unheard (renamedBound v b names).name := by
  intro a inside is
  have fresh := freshName_not_mem v.name (b.atoms.map Term.name ++ names)
  refine fresh (List.mem_append_left _ (List.mem_map.mpr ⟨a, inside, is⟩))

/-- It is entered with a renamed binder else. -/
theorem Proper.entered_renamed (proper : (lam v b).Proper) :
    Entered value v b (renamedBound v b value.freeNames) := by
  have unheard := unheard_renamedBound v b value.freeNames
  have plain : (renamedBound v b value.freeNames).type.Plain := proper.plain.1
  have same : (renamedBound v b value.freeNames).type = v.type := rfl
  refine ⟨proper.body.relabel plain same unheard, plain, same, fun s inside => ?_,
    fun s inside other => ?_, (renamedBound_fresh v b _).2,
    fun names defined words => ⟨freshName_speaks defined words.1 _,
      words.2.relabel (freshName_speaks defined words.1 _)⟩⟩
  · exact unheard.free s (proper.mem_free_lam.mp inside).1
  · rcases mem_free_relabel s inside with ⟨old, kept⟩ | new
    · exact proper.mem_free_lam.mpr ⟨old, kept⟩
    · exact absurd new other

/-- The value may be put for the pattern in the body. -/
theorem Fit.enter (fit : Fit value pattern (lam v b)) (entered : Entered value v b u) :
    Fit value pattern (b.relabel v u) := by
  refine ⟨entered.proper, fit.properValue, fit.normalValue, ?_⟩
  have outside : ∀ s ∈ freeAfter value pattern (b.relabel v u), s ≠ u →
      s ∈ freeAfter value pattern (lam v b) := by
    intro s member other
    rw [mem_freeAfter] at member ⊢
    exact member.imp_left fun ⟨inside, kept⟩ => ⟨entered.others s inside other, kept⟩
  have own : ∀ s ∈ freeAfter value pattern (b.relabel v u), s.name = u.name → s = u := by
    intro s member name
    rcases mem_freeAfter.mp member with ⟨inside, _⟩ | inside
    · exact entered.bound inside name
    · exact absurd (List.mem_map.mpr ⟨s, inside, name⟩) entered.unused
  intro s member s' member' name
  by_cases is : s = u
  · rw [is, own s' member' (is ▸ name.symm)]
  · have is' : s' ≠ u := fun is' => is (own s member (is' ▸ name))
    exact fit.uniform s (outside s member is) s' (outside s' member' is') name

/-- What becomes of the body is abstracted over the variable. -/
theorem Entered.abstracted (entered : Entered value v b u)
    (body : Reduces value pattern (b.relabel v u) r) : (lam u r).Proper := by
  have plain : (lam u r).Plain := ⟨entered.plain, body.proper.plain⟩
  refine ⟨(body.proper.toGood.lam_iff plain.discerning).mpr ?_, plain⟩
  have own : ∀ s ∈ u :: r.free, s.name = u.name → s = u := by
    intro s member name
    rcases List.mem_cons.mp member with is | inside
    · exact is
    · rcases mem_freeAfter.mp (body.free s inside) with ⟨old, _⟩ | new
      · exact entered.bound old name
      · exact absurd (List.mem_map.mpr ⟨s, new, name⟩) entered.unused
  intro s member s' member' name
  by_cases is : s = u
  · rw [is, own s' member' (is ▸ name.symm)]
  · have is' : s' ≠ u := fun is' => is (own s member (is' ▸ name))
    exact body.proper.uniform s (List.mem_of_ne_of_mem is member) s'
      (List.mem_of_ne_of_mem is' member') name

/-- What the body is reduced to and settles on, the abstraction is. -/
theorem Entered.reduces (entered : Entered value v b u)
    (body : Reduces value pattern (b.relabel v u) r)
    (settles : Settles value pattern (lam v b) (lam u r)) :
    Reduces value pattern (lam v b) (lam u r) := by
  have proper := entered.abstracted body
  refine ⟨settles, proper, body.normal, ?_, fun s member => ?_, fun names defined words value =>
    ⟨(entered.speaks names defined words).1,
      body.speaks names defined (entered.speaks names defined words).2 value⟩, fun c member => ?_⟩
  · rw [Term.type, Term.type, body.type, type_relabel entered.type, entered.type]
  · obtain ⟨inside, other⟩ := proper.mem_free_lam.mp member
    rw [mem_freeAfter]
    exact (mem_freeAfter.mp (body.free s inside)).imp_left
      (And.imp_left fun old => entered.others s old other)
  · have inside : const c ∈ r.atoms := by simpa [atoms] using member
    exact (body.consts c inside).imp_left
      (And.imp_left fun old => List.mem_cons_of_mem _ (const_mem_atoms_relabel.mp old))

/-- Below a binder of another variable the value is put into the body. -/
theorem Fit.entered (fit : Fit value pattern (lam v b)) (normal : b.Normal)
    (apart : pattern.hasFree v = false) : ∃ u, Entered value v b u ∧
      ∀ r, Reduces value pattern (b.relabel v u) r → Reduces value pattern (lam v b) (lam u r) := by
  by_cases used : v.name ∈ value.freeNames
  · have entered : Entered value v b _ := fit.proper.entered_renamed
    have renamed := settles_relabel fit.proper.body normal fit.proper.plain.1 entered.plain rfl
      (unheard_renamedBound v b value.freeNames)
    exact ⟨_, entered, fun r body => entered.reduces body
      (settles_renamed apart used rfl renamed body.settles (entered.abstracted body))⟩
  · have entered := fit.proper.entered used
    refine ⟨v, entered, fun r body => entered.reduces body
      (settles_lam apart used ?_ (entered.abstracted body))⟩
    rw [relabel_self] at body
    exact body.settles

/-- Below a binder of the pattern nothing is replaced. -/
theorem Fit.hidden (fit : Fit value pattern (lam v b)) (normal : b.Normal)
    (hidden : pattern.hasFree v = true) : Reduces value pattern (lam v b) (lam v b) := by
  refine ⟨settles_hidden hidden, fit.proper, normal, rfl, fun s member => ?_,
    fun _ _ words _ => words, fun c member => .inl ⟨member, ?_⟩⟩
  swap
  · rintro rfl
    cases hidden
  refine mem_freeAfter.mpr (.inl ⟨member, ?_⟩)
  rintro rfl
  have keys : s.varKey = v.varKey := by simpa [hasFree, free] using hidden
  have differs := (List.mem_filter.mp member).2
  simp [keys] at differs

/-! ### The measure -/

/-- A function's result has a smaller type. -/
theorem size_type_app (proper : (app f x).Proper) : (app f x).type.size < f.type.size := by
  obtain ⟨codomain, typed⟩ := proper.wellTyped.2.2
  rw [type, typed]
  simp only [Ty.resultType, Ty.size]
  omega

/-- The variable of an abstraction has a smaller type. -/
theorem size_type_bound (v : Symbol) (b : Term) : v.type.size < (lam v b).type.size := by
  simp only [type, Ty.size]
  omega

/-- In a normal term a normal value may be put for an atom of its type: the substitution settles on
a normal term. What was no abstraction becomes one only if its type is no larger than the atom's. -/
theorem Fit.reduces {value pattern t : Term} (fit : Fit value pattern t) (normal : t.Normal)
    (typed : pattern.type = value.type) : ∃ r, Reduces value pattern t r ∧
      ((∀ v b, t ≠ lam v b) → (∃ v b, r = lam v b) → t.type.size ≤ pattern.type.size) := by
  match t with
  | const c =>
    by_cases hit : const c = pattern
    · subst hit
      exact ⟨value, fit.replaced typed rfl, fun _ _ => Nat.le_refl _⟩
    · exact ⟨const c, fit.kept (settles_const hit) rfl hit, fun _ ⟨_, _, is⟩ => nomatch is⟩
  | var s =>
    by_cases hit : var s = pattern
    · subst hit
      exact ⟨value, fit.replaced typed rfl, fun _ _ => Nat.le_refl _⟩
    · exact ⟨var s, fit.kept (settles_var hit) rfl hit, fun _ ⟨_, _, is⟩ => nomatch is⟩
  | app f x =>
    obtain ⟨f', function, small⟩ := fit.function.reduces normal.1 typed
    obtain ⟨x', argument, _⟩ := fit.argument.reduces normal.2.1 typed
    by_cases abstraction : ∃ v b, f' = lam v b
    · obtain ⟨v, b, rfl⟩ := abstraction
      -- The bound variable's type is a part of the function's, which is no larger than the atom's.
      have smaller := small normal.2.2 ⟨v, b, rfl⟩
      have bound := size_type_bound v b
      have functions := congrArg Ty.size function.type
      have result := size_type_app fit.proper
      obtain ⟨fits, typed'⟩ := fit.redex function argument
      obtain ⟨r, body, _⟩ := fits.reduces function.normal typed'
      exact ⟨r, fit.reduced function argument body, fun _ _ => by omega⟩
    · have other : ∀ v b, f' ≠ lam v b := fun v b is => abstraction ⟨v, b, is⟩
      exact ⟨app f' x', fit.rebuilt function argument other, fun _ ⟨v, b, is⟩ => nomatch is⟩
  | lam v b =>
    have normal : b.Normal := normal
    by_cases hidden : pattern.hasFree v = true
    · exact ⟨_, fit.hidden normal hidden, fun other => absurd rfl (other v b)⟩
    · obtain ⟨u, entered, closes⟩ := fit.entered normal (eq_false_of_ne_true hidden)
      obtain ⟨r, body, _⟩ := (fit.enter entered).reduces (normal.relabel v u) typed
      exact ⟨_, closes r body, fun other => absurd rfl (other v b)⟩
termination_by (pattern.type.size, t.size)
decreasing_by
  · exact .right _ (by simp only [Term.size]; omega)
  · exact .right _ (by simp only [Term.size]; omega)
  · exact .left _ _ (by simp only [Term.type]; omega)
  · exact .right _ (by simp only [size_relabel, Term.size]; omega)

/-! ## Closed values -/

/-- A closed normal value may be put for a constant of its type in any term: no bound variable is
renamed, and what the term can reduce is reduced by putting arguments into normal bodies. -/
theorem Proper.reduces_const {c : Symbol} (proper : t.Proper) (properValue : value.Proper)
    (normalValue : value.Normal) (closed : value.free = []) (typed : c.type = value.type) :
    ∃ r, Reduces value (const c) t r := by
  induction t with
  | const d =>
    have fit : Fit value (const c) (const d) :=
      ⟨proper, properValue, normalValue, proper.uniform.subset fun s => by simp [closed]⟩
    by_cases hit : const d = const c
    · rw [hit] at fit ⊢
      exact ⟨value, fit.replaced typed rfl⟩
    · exact ⟨const d, fit.kept (settles_const hit) rfl hit⟩
  | var s =>
    have fit : Fit value (const c) (var s) :=
      ⟨proper, properValue, normalValue, proper.uniform.subset fun s => by simp [closed]⟩
    exact ⟨var s, fit.kept (settles_var (by simp)) rfl (by simp)⟩
  | app f x ihF ihX =>
    have fit : Fit value (const c) (app f x) :=
      ⟨proper, properValue, normalValue, proper.uniform.subset fun s => by simp [closed]⟩
    obtain ⟨f', function⟩ := ihF proper.function
    obtain ⟨x', argument⟩ := ihX proper.argument
    by_cases abstraction : ∃ v b, f' = lam v b
    · obtain ⟨v, b, rfl⟩ := abstraction
      obtain ⟨fits, typed'⟩ := fit.redex function argument
      obtain ⟨r, body, _⟩ := fits.reduces function.normal typed'
      exact ⟨r, fit.reduced function argument body⟩
    · have other : ∀ v b, f' ≠ lam v b := fun v b is => abstraction ⟨v, b, is⟩
      exact ⟨app f' x', fit.rebuilt function argument other⟩
  | lam v b ih =>
    have unused : v.name ∉ value.freeNames := by simp [freeNames, closed]
    have entered := proper.entered unused
    obtain ⟨r, body⟩ := ih proper.body
    have body' : Reduces value (const c) (b.relabel v v) r := by rwa [relabel_self]
    exact ⟨lam v r, entered.reduces body'
      (settles_lam rfl unused body.settles (entered.abstracted body'))⟩

/-! ## Any values -/

/-- What a substitution in normal terms ends with. -/
inductive Finished : Except Failure Term × Supply → Prop
  /-- A proper term that has nothing to reduce. -/
  | term {r : Term} {s : Supply} (proper : r.Proper) (normal : r.Normal) : Finished (.ok r, s)
  /-- Types clash. -/
  | clash {failure : Failure} {s : Supply} (clash : failure.IsClash) : Finished (.error failure, s)

/-- From some depth on a build always ends in the same way. -/
def Ends (build : Nat → Build Term) (s : Supply) : Prop :=
  ∃ n outcome, Finished outcome ∧ ∀ depth, n ≤ depth → (build depth).runFrom s = outcome

section

variable {build : Nat → Build Term} {next : Nat → Term → Build Term} {st : Supply}

/-- What ends one level deeper ends. -/
theorem Ends.succ (ends : Ends (fun depth => build (depth + 1)) st) : Ends build st := by
  obtain ⟨n, outcome, finished, ends⟩ := ends
  refine ⟨n + 1, outcome, finished, fun depth enough => ?_⟩
  obtain ⟨depth, rfl⟩ : ∃ d, depth = d + 1 := ⟨depth - 1, by omega⟩
  exact ends depth (by omega)

/-- What follows a build that ends is only of interest where it gave a term. -/
theorem Ends.bind (first : Ends build st)
    (second : ∀ r st', r.Proper → r.Normal → Ends (fun depth => next depth r) st') :
    Ends (fun depth => build depth >>= next depth) st := by
  obtain ⟨n, outcome, finished, first⟩ := first
  cases finished with
  | @clash failure st' clash =>
    exact ⟨n, (.error failure, st'), .clash clash, fun depth enough => by
      rw [runFrom_bind, first depth enough]⟩
  | @term r st' proper normal =>
    obtain ⟨m, outcome, finished, second⟩ := second r st' proper normal
    exact ⟨n + m, outcome, finished, fun depth enough =>
      (runFrom_bind_ok (first depth (by omega))).trans (second depth (by omega))⟩

/-- What settles on a normal term ends. -/
theorem Settles.ends (settles : Settles value pattern t r) (proper : r.Proper) (normal : r.Normal)
    (st : Supply) : Ends (fun depth => t.substituteWithin depth value pattern) st := by
  obtain ⟨n, settles⟩ := settles
  exact ⟨n, _, .term proper normal, fun depth enough => settles depth enough st⟩

/-- What follows a substitution that settles goes on from what it settles on. -/
theorem Settles.ends_bind (settles : Settles value pattern t r)
    (rest : Ends (fun depth => next depth r) st) :
    Ends (fun depth => t.substituteWithin depth value pattern >>= next depth) st := by
  obtain ⟨n, settles⟩ := settles
  obtain ⟨m, outcome, finished, rest⟩ := rest
  exact ⟨n + m, outcome, finished, fun depth enough =>
    (runFrom_bind_ok (settles depth (by omega) st)).trans (rest depth (by omega))⟩

/-- What is built of a raw term that is normal is normal. -/
theorem Finished.of_built {raw : Term} {outcome : Except Failure Term × Supply}
    (built : Built raw st outcome) (normal : raw.Normal) : Finished outcome := by
  cases built with
  | impossible _ clash _ => exact .clash clash
  | done proper generalizes => exact .term proper (normal.refines generalizes.refines)

/-- Building an application of normal terms and reducing it ends. -/
theorem Proper.mkApp_ends (proper : f.Proper) (properX : x.Proper) (normal : f.Normal)
    (normalX : x.Normal) (st : Supply) : Ends (fun depth => do
      match ← f.mkApp x with
      | .app (.lam bound body) argument => Term.substituteWithin depth body argument (.var bound)
      | t => return t) st := by
  have built := proper.mkApp_built properX st
  rcases run : (f.mkApp x).runFrom st with ⟨failure | a, st'⟩ <;> rw [run] at built
  · cases built with
    | impossible _ clash _ =>
      exact ⟨0, (.error failure, st'), .clash clash, fun depth _ => by rw [runFrom_bind, run]⟩
  · cases built with
    | done properA generalizes =>
      match a, generalizes.refines with
      | app f' x', refines =>
        have normalF := normal.refines refines.1
        have normalX' := normalX.refines refines.2
        by_cases abstraction : ∃ v b, f' = lam v b
        · obtain ⟨v, b, rfl⟩ := abstraction
          obtain ⟨fit, typed⟩ := properA.fit_redex normalX'
          obtain ⟨r, reduces, _⟩ := fit.reduces normalF typed
          obtain ⟨n, outcome, finished, ends⟩ :=
            reduces.settles.ends reduces.proper reduces.normal st'
          exact ⟨n, outcome, finished, fun depth enough =>
            (runFrom_bind_ok run).trans (ends depth enough)⟩
        · have other : ∀ v b, f' ≠ lam v b := fun v b is => abstraction ⟨v, b, is⟩
          refine ⟨0, (.ok (app f' x'), st'), .term properA ⟨normalF, normalX', other⟩,
            fun depth _ => (runFrom_bind_ok run).trans ?_⟩
          split
          next v b y same => exact absurd (Term.app.inj same).1 (other v b)
          next => rfl

/-- Whatever is put for whatever atom, a substitution in normal terms ends: with a normal term, or
because types clash. -/
theorem Proper.ends {t value : Term} (proper : t.Proper) (normal : t.Normal)
    (properValue : value.Proper) (normalValue : value.Normal) (pattern : Term) (st : Supply) :
    Ends (fun depth => t.substituteWithin depth value pattern) st := by
  match t with
  | const c =>
    by_cases hit : const c = pattern
    · subst hit
      exact (settles_value rfl).ends properValue normalValue st
    · exact (settles_const hit).ends proper normal st
  | var v =>
    by_cases hit : var v = pattern
    · subst hit
      exact (settles_value rfl).ends properValue normalValue st
    · exact (settles_var hit).ends proper normal st
  | app f x =>
    refine Ends.succ ?_
    simp only [Term.substituteWithin]
    refine (proper.function.ends normal.1 properValue normalValue pattern st).bind ?_
    intro f' st₁ properF normalF
    refine (proper.argument.ends normal.2.1 properValue normalValue pattern st₁).bind ?_
    intro x' st₂ properX normalX
    exact properF.mkApp_ends properX normalF normalX st₂
  | lam v b =>
    have normal : b.Normal := normal
    by_cases hidden : pattern.hasFree v = true
    · exact (settles_hidden hidden).ends proper normal st
    have closes : ∀ {u : Symbol} (r : Term) (st : Supply), u.type.Plain → r.Proper → r.Normal →
        Ends (fun _ => (liftM (Term.mkLam (.var u) r) : Build Term)) st := by
      intro u r st plain properR normalR
      exact ⟨0, _, Finished.of_built (properR.mkLam_built plain st) normalR, fun _ _ => rfl⟩
    refine Ends.succ ?_
    by_cases used : value.freeNames.contains v.name = true
    · have entered : Entered value v b _ := proper.entered_renamed
      have renamed := settles_relabel proper.body normal proper.plain.1 entered.plain rfl
        (unheard_renamedBound v b value.freeNames)
      simp only [Term.substituteWithin, if_neg hidden, if_pos used]
      refine renamed.ends_bind ?_
      refine (entered.proper.ends (normal.relabel _ _) properValue normalValue pattern st).bind ?_
      exact fun r st₁ properR normalR => closes r st₁ entered.plain properR normalR
    · simp only [Term.substituteWithin, if_neg hidden, if_neg used]
      refine (proper.body.ends normal properValue normalValue pattern st).bind ?_
      exact fun r st₁ properR normalR => closes r st₁ proper.plain.1 properR normalR
termination_by t.size
decreasing_by all_goals simp only [size_relabel, Term.size]; omega

end

end Term

end Turnstile
