import Turnstile.Proofs.LogicTheory
import Turnstile.Proofs.NormalForms
import Turnstile.Proofs.Orders
import Turnstile.Proofs.Reports

/-!
# Unfolding the connectives

The values of the defined constants are closed and have nothing to reduce. Unfolding a definition in
a formula of logic therefore ends and draws nothing, however often the constant occurs in it and
whatever it is applied to. A formula that is a defined connective between two operands becomes what
the connective is defined as. The operands do not come through as they are: the connective is
unfolded in them too, and bound variables of the first one are renamed where the second one has
variables of their names.
-/

namespace Turnstile

open Build

namespace Logic

/-! ## The values of the definitions -/

/-- What is put for a defined constant. -/
structure Unfoldable (c : Symbol) (value : Term) : Prop where
  /-- The value is proper. -/
  proper : value.Proper
  /-- It has nothing to reduce. -/
  normal : value.Normal
  /-- It is closed. -/
  closed : value.free = []
  /-- It has the constant's type. -/
  typed : c.type = value.type
  /-- It is in the words of logic. -/
  speaks : value.Speaks defined
  /-- No other constant of logic has its name. -/
  only : ∀ d, Logical d → d.name = c.name → d = c

/-- The definitions of logic can be unfolded. -/
theorem definitions_unfoldable {c : Symbol} {value : Term} (defined : (c, value) ∈ definitions) :
    Unfoldable c value := by
  simp only [definitions, List.mem_cons, Prod.mk.injEq, List.not_mem_nil, or_false] at defined
  have closed : value.free = [] := by
    rcases defined with ⟨_, rfl⟩ | ⟨_, rfl⟩ | ⟨_, rfl⟩ | ⟨_, rfl⟩ <;> decide
  have wellTyped : value.WellTyped := by
    rcases defined with ⟨_, rfl⟩ | ⟨_, rfl⟩ | ⟨_, rfl⟩ | ⟨_, rfl⟩ <;>
      simp [neg, join, forAll, Term.WellTyped, Term.type, Term.free, Ty.resultType]
  have plain : value.Plain := by
    rcases defined with ⟨_, rfl⟩ | ⟨_, rfl⟩ | ⟨_, rfl⟩ | ⟨_, rfl⟩ <;>
      simp [neg, join, forAll, Term.Plain, Ty.Plain, Ty.plain_bool, Ty.plain_obj]
  have normal : value.Normal := by
    rcases defined with ⟨_, rfl⟩ | ⟨_, rfl⟩ | ⟨_, rfl⟩ | ⟨_, rfl⟩ <;>
      simp [neg, join, forAll, Term.Normal]
  have speaks : value.Speaks Logic.defined := by
    rcases defined with ⟨_, rfl⟩ | ⟨_, rfl⟩ | ⟨_, rfl⟩ | ⟨_, rfl⟩ <;>
      simp [neg, join, forAll, Term.Speaks, Logic.defined, Logical.not, Logical.connective,
        Logical.quantifier]
  have proper : value.Proper :=
    ⟨⟨wellTyped, by rw [closed]; intro s member; cases member⟩, plain⟩
  have only : ∀ d, Logical d → d.name = c.name → d = c := by
    intro d logical named
    rcases defined with ⟨rfl, _⟩ | ⟨rfl, _⟩ | ⟨rfl, _⟩ | ⟨rfl, _⟩ <;> cases logical <;> simp_all
  rcases defined with ⟨rfl, rfl⟩ | ⟨rfl, rfl⟩ | ⟨rfl, rfl⟩ | ⟨rfl, rfl⟩
  · exact ⟨proper, normal, closed, rfl, speaks, only⟩
  · exact ⟨proper, normal, closed, rfl, speaks, only⟩
  · exact ⟨proper, normal, closed, rfl, speaks, only⟩
  · exact ⟨proper, normal, closed, rfl, speaks, only⟩

/-- A name is defined once. -/
theorem definitions_unique {c c' : Symbol} {value value' : Term}
    (defined : (c, value) ∈ definitions) (defined' : (c', value') ∈ definitions)
    (same : c.name = c'.name) : value = value' := by
  simp only [definitions, List.mem_cons, Prod.mk.injEq, List.not_mem_nil, or_false]
    at defined defined'
  rcases defined with ⟨rfl, rfl⟩ | ⟨rfl, rfl⟩ | ⟨rfl, rfl⟩ | ⟨rfl, rfl⟩ <;>
    rcases defined' with ⟨rfl, rfl⟩ | ⟨rfl, rfl⟩ | ⟨rfl, rfl⟩ | ⟨rfl, rfl⟩ <;>
    first | rfl | exact absurd same (by decide)

/-! ## Connectives -/

/-- How a connective is put together from its operands. -/
inductive Scheme where
  /-- The first operand. -/
  | first
  /-- The second operand. -/
  | second
  /-- A negation. -/
  | neg (a : Scheme)
  /-- A connective that is used. -/
  | join (name : String) (a b : Scheme)

namespace Scheme

/-- The formula that is put together from two formulas. -/
def of (a b : Term) : Scheme → Term
  | first => a
  | second => b
  | neg p => Logic.neg (p.of a b)
  | join name p q => Logic.join name (p.of a b) (q.of a b)

/-- The value of a connective that is put together in this way. -/
def value (p : Scheme) : Term :=
  .lam Logic.first (.lam Logic.second (p.of (.var Logic.first) (.var Logic.second)))

/-- Neither of two formulas is denied. -/
abbrev and : Scheme := .neg (.join "or" (.neg .first) (.neg .second))

/-- The first formula is denied or the second one holds. -/
abbrev implies : Scheme := .join "or" (.neg .first) .second

/-- Each of two formulas implies the other. -/
abbrev iff : Scheme := .join "and" (.join "implies" .first .second) (.join "implies" .second .first)

end Scheme

/-- The defined connectives. -/
def connectives : List (String × Scheme) := [("and", .and), ("implies", .implies), ("iff", .iff)]

/-- Conjunction is one of the defined connectives. -/
theorem and_known : ("and", .and) ∈ connectives := .head _

/-- Implication is one of them. -/
theorem implies_known : ("implies", .implies) ∈ connectives := .tail _ (.head _)

/-- Equivalence is one of them. -/
theorem iff_known : ("iff", .iff) ∈ connectives := .tail _ (.tail _ (.head _))

/-- A connective between formulas. -/
abbrev connective (name : String) : Symbol := ⟨name, .arrow .bool (.arrow .bool .bool)⟩

/-- The connectives by their names. -/
theorem connectives_propositional {name : String} {p : Scheme} (known : (name, p) ∈ connectives) :
    name ∈ propositional := by
  simp only [connectives, List.mem_cons, Prod.mk.injEq, List.not_mem_nil, or_false] at known
  rcases known with ⟨rfl, _⟩ | ⟨rfl, _⟩ | ⟨rfl, _⟩ <;> simp [propositional]

/-- Each of them is defined by its scheme. -/
theorem connectives_defined {name : String} {p : Scheme} (known : (name, p) ∈ connectives) :
    (connective name, p.value) ∈ definitions := by
  simp only [connectives, List.mem_cons, Prod.mk.injEq, List.not_mem_nil, or_false] at known
  rcases known with ⟨rfl, rfl⟩ | ⟨rfl, rfl⟩ | ⟨rfl, rfl⟩ <;>
    simp [definitions, connective, Scheme.value, Scheme.of]

/-- No connective is defined by itself. -/
theorem of_ne_join {name : String} {p : Scheme} (known : (name, p) ∈ connectives)
    {a b c d : Term} : p.of a b ≠ join name c d := by
  simp only [connectives, List.mem_cons, Prod.mk.injEq, List.not_mem_nil, or_false] at known
  rcases known with ⟨rfl, rfl⟩ | ⟨rfl, rfl⟩ | ⟨rfl, rfl⟩ <;> simp [Scheme.of, neg, join]

/-- Every connective uses its first operand. -/
theorem connectives_use_first {name : String} {p : Scheme} (known : (name, p) ∈ connectives) :
    first ∈ (Term.lam second (p.of (.var first) (.var second))).free := by
  simp only [connectives, List.mem_cons, Prod.mk.injEq, List.not_mem_nil, or_false] at known
  rcases known with ⟨rfl, rfl⟩ | ⟨rfl, rfl⟩ | ⟨rfl, rfl⟩ <;> decide

end Logic

namespace Term

variable {A B X X' Y Y' P r value pattern : Term} {u v w c : Symbol} {name : String}
  {p : Logic.Scheme}

open Logic

/-- Relabelling a scheme is relabelling what stands in it. -/
theorem relabel_of (X Y : Term) (v w : Symbol) (p : Scheme) :
    (p.of X Y).relabel v w = p.of (X.relabel v w) (Y.relabel v w) := by
  induction p with
  | first => rfl
  | second => rfl
  | neg p ih => simp only [Scheme.of, Logic.neg, relabel, ih]
  | join name p q ihP ihQ => simp only [Scheme.of, Logic.join, relabel, ihP, ihQ]

/-- A scheme brings nothing to be reduced. -/
theorem Normal.of (normal : X.Normal) (normal' : Y.Normal) (p : Scheme) : (p.of X Y).Normal := by
  induction p with
  | first => exact normal
  | second => exact normal'
  | neg p ih => exact ⟨trivial, ih, by simp⟩
  | join name p q ihP ihQ => exact ⟨⟨trivial, ihP, by simp⟩, ihQ, by simp⟩

/-- Substitution goes below a negation. -/
theorem Fit.neg (fit : Fit value pattern (Logic.neg X))
    (other : const ⟨"not", .arrow .bool .bool⟩ ≠ pattern) (operand : Reduces value pattern X X') :
    Reduces value pattern (Logic.neg X) (Logic.neg X') :=
  fit.rebuilt (fit.function.kept (settles_const other) rfl other) operand (by simp)

/-- Substitution goes below a connective. -/
theorem Fit.join (fit : Fit value pattern (Logic.join name X Y))
    (other : const (connective name) ≠ pattern) (left : Reduces value pattern X X')
    (right : Reduces value pattern Y Y') :
    Reduces value pattern (Logic.join name X Y) (Logic.join name X' Y') := by
  have head := fit.function.function.kept (settles_const other) rfl other
  exact fit.rebuilt (fit.function.rebuilt head left (by simp)) right (by simp)

/-- What is put for a variable goes into the operands. -/
theorem Fit.of (left : Fit value (var u) X → Reduces value (var u) X X')
    (right : Fit value (var u) Y → Reduces value (var u) Y Y') (p : Scheme)
    (fit : Fit value (var u) (p.of X Y)) : Reduces value (var u) (p.of X Y) (p.of X' Y') := by
  induction p with
  | first => exact left fit
  | second => exact right fit
  | neg p ih => exact Fit.neg fit (by simp) (ih fit.argument)
  | join name p q ihP ihQ =>
    exact Fit.join fit (by simp) (ihP fit.function.argument) (ihQ fit.argument)

/-- A defined constant may be unfolded in any formula. -/
theorem Proper.reduces_defined (proper : A.Proper) (unfoldable : Unfoldable c value) :
    ∃ r, Reduces value (const c) A r :=
  proper.reduces_const unfoldable.proper unfoldable.normal unfoldable.closed unfoldable.typed

/-- Where unfolding puts nothing that is free. -/
theorem Proper.fit_defined (proper : A.Proper) (unfoldable : Unfoldable c value) :
    Fit value (const c) A :=
  ⟨proper, unfoldable.proper, unfoldable.normal,
    proper.uniform.subset fun s => by simp [unfoldable.closed]⟩

/-- What becomes of an operand has its free variables. -/
theorem Reduces.free_subset (operand : Reduces value (const c) A r)
    (unfoldable : Unfoldable c value) : r.free ⊆ A.free := fun s member => by
  have inside := operand.free s member
  simpa [unfoldable.closed] using inside

/-- What becomes of the operands of a connective that is unfolded. The connective is unfolded in
both; then what has become of the second one is put into the first one for the variable that stood
for it, which may rename bound variables. -/
structure Operands (value : Term) (c : Symbol) (A B P Q : Term) : Prop where
  /-- The second operand. -/
  second : Reduces value (const c) B Q
  /-- The first operand. -/
  first : ∃ A' u, Reduces value (const c) A A' ∧ u.type.Plain ∧ u.name ∉ A'.freeNames ∧
    Fit Q (var u) A' ∧ u.type = Q.type ∧ Reduces Q (var u) A' P

/-- A connective between two operands becomes what it is defined as. -/
theorem Proper.reduces_connective (proper : (Logic.join name A B).Proper)
    (known : (name, p) ∈ connectives) : ∃ P Q, Operands p.value (connective name) A B P Q ∧
      Reduces p.value (const (connective name)) (Logic.join name A B) (p.of P Q) := by
  have unfoldable := definitions_unfoldable (connectives_defined known)
  have fit := proper.fit_defined unfoldable
  obtain ⟨A', left⟩ := proper.function.argument.reduces_defined unfoldable
  obtain ⟨Q, right⟩ := proper.argument.reduces_defined unfoldable
  -- The value takes the first operand, below the binder of the second one.
  have head : Reduces p.value (const (connective name)) (const (connective name)) p.value :=
    fit.function.function.replaced unfoldable.typed rfl
  obtain ⟨fitsLeft, typedLeft⟩ := fit.function.redex head left
  obtain ⟨u, entered, closes⟩ :=
    fitsLeft.entered (Normal.of (X := var first) (Y := var second) trivial trivial p) (by decide)
  have apart : var u ≠ var first := fun same =>
    entered.apart first (connectives_use_first known) (by rw [Term.var.inj same])
  have operands : (p.of (var first) (var second)).relabel second u = p.of (var first) (var u) := by
    have named : (var second).relabel second u = var u := if_pos rfl
    rw [relabel_of, named]
    rfl
  have inner := fitsLeft.enter entered
  have closes := closes (p.of A' (var u))
  rw [operands] at inner closes
  have half := closes (Fit.of (fun fits => fits.replaced typedLeft rfl)
    (fun fits => fits.kept (settles_var apart) rfl apart) p inner)
  -- What has come of that takes the second operand.
  have function := fit.function.reduced head left half
  obtain ⟨fitsRight, typedRight⟩ := fit.redex function right
  have fitsFirst : Fit Q (var u) A' := by
    refine ⟨left.proper, right.proper, right.normal, proper.uniform.subset fun s member => ?_⟩
    rcases mem_freeAfter.mp member with ⟨inside, _⟩ | inside
    · exact List.mem_append_left _ (left.free_subset unfoldable inside)
    · exact List.mem_append_right _ (right.free_subset unfoldable inside)
  obtain ⟨P, renamed, _⟩ := fitsFirst.reduces left.normal typedRight
  exact ⟨P, Q, ⟨right, A', u, left, entered.plain, entered.unused, fitsFirst, typedRight, renamed⟩,
    fit.reduced function right
      (Fit.of (fun _ => renamed) (fun fits => fits.replaced typedRight rfl) p fitsRight)⟩

/-- A connective stays when another constant is unfolded in its operands. -/
theorem Proper.reduces_join (proper : (Logic.join name X Y).Proper)
    (unfoldable : Unfoldable c value) (other : name ≠ c.name)
    (left : Reduces value (const c) X X') (right : Reduces value (const c) Y Y') :
    Reduces value (const c) (Logic.join name X Y) (Logic.join name X' Y') := by
  have differs : const (connective name) ≠ const c := fun same =>
    other (congrArg Symbol.name (Term.const.inj same))
  exact (proper.fit_defined unfoldable).join differs left right

/-- Unfolding another constant leaves a compound a compound of what its operands become. -/
theorem Reduces.join (whole : Reduces value (const c) (Logic.join name X Y) r)
    (proper : (Logic.join name X Y).Proper) (unfoldable : Unfoldable c value)
    (other : name ≠ c.name) : ∃ X' Y', r = Logic.join name X' Y' := by
  obtain ⟨X', left⟩ := proper.function.argument.reduces_defined unfoldable
  obtain ⟨Y', right⟩ := proper.argument.reduces_defined unfoldable
  exact ⟨X', Y', whole.settles.unique
    (proper.reduces_join unfoldable other left right).settles⟩

/-- A first operand that is another connective stays one. -/
theorem Operands.join (operands : Operands value c (Logic.join name X Y) B P Q)
    (proper : (Logic.join name X Y).Proper) (unfoldable : Unfoldable c value)
    (other : name ≠ c.name) : ∃ X' Y', P = Logic.join name X' Y' := by
  obtain ⟨A', u, whole, -, -, fit, typed, renamed⟩ := operands.first
  obtain ⟨X', Y', rfl⟩ := whole.join proper unfoldable other
  obtain ⟨X'', left, _⟩ := fit.function.argument.reduces whole.normal.1.2.1 typed
  obtain ⟨Y'', right, _⟩ := fit.argument.reduces whole.normal.2.1 typed
  exact ⟨X'', Y'', renamed.settles.unique (fit.join (by simp) left right).settles⟩

/-- A substitution nests as deep as the supply allows. -/
theorem runFrom_substitute (t value pattern : Term) (s : Supply) :
    (t.substitute value pattern).runFrom s = (t.substituteWithin s.depth value pattern).runFrom s :=
  rfl

/-! ## The atoms of a name -/

/-- In a formula of logic that leaves the name of a defined constant to it, nothing else has this
name. -/
theorem Speaks.atom_eq {a F : Term} {names : List String} (speaks : F.Speaks names)
    (taken : c.name ∈ names) (unfoldable : Unfoldable c value) (member : a ∈ F.atoms)
    (named : a.name = c.name) : a = const c := by
  have undefined : ∀ v : Symbol, v.name ∉ names → a ≠ var v := by
    rintro v apart rfl
    exact apart ((show v.name = c.name from named) ▸ taken)
  induction F with
  | const d =>
    obtain rfl := List.mem_singleton.mp member
    have same : d.name = c.name := named
    exact congrArg const (unfoldable.only d speaks same)
  | var v => exact absurd (List.mem_singleton.mp member) (undefined v speaks)
  | app f x ihF ihX => exact (List.mem_append.mp member).elim (ihF speaks.1) (ihX speaks.2)
  | lam v b ih =>
    rcases List.mem_cons.mp member with is | inside
    · exact absurd is (undefined v speaks.1)
    · exact ih speaks.2 inside

end Term

/-! ## Unfolding -/

/-- A list of one element only, however often it occurs. -/
theorem eraseDups_of_forall_eq {α : Type} [BEq α] [LawfulBEq α] {items : List α} {a : α}
    (all : ∀ b ∈ items, b = a) : items = [] ∨ items.eraseDups = [a] := by
  cases items with
  | nil => exact .inl rfl
  | cons b rest =>
    obtain rfl := all b (by simp)
    have none : rest.filter (fun c => !c == b) = [] :=
      List.filter_eq_nil_iff.mpr fun c member => by simp [all c (by simp [member])]
    exact .inr (by rw [List.eraseDups_cons, none, List.eraseDups_nil])

namespace Rule

open Logic

variable {th : Theory} {F form value A B : Term} {c : Symbol} {s s' : Supply} {name : String}
  {octets : Text.Octets} {p : Scheme} {names : List String}

/-- At most one atom is unfolded. -/
theorem atomsNamed_cases (speaks : F.Speaks names) (taken : c.name ∈ names)
    (unfoldable : Unfoldable c value) :
    (Term.const c ∉ F.atoms ∧ atomsNamed F c.name = []) ∨ atomsNamed F c.name = [.const c] := by
  have all : ∀ a ∈ F.atoms.filter (fun atom => atom.name == c.name), a = .const c := by
    intro a member
    obtain ⟨inside, named⟩ := List.mem_filter.mp member
    exact speaks.atom_eq taken unfoldable inside (by simpa using named)
  refine (eraseDups_of_forall_eq all).imp (fun none => ⟨fun inside => ?_, ?_⟩) id
  · have member : Term.const c ∈ F.atoms.filter fun atom => atom.name == c.name :=
      List.mem_filter.mpr ⟨inside, beq_self_eq_true c.name⟩
    rw [none] at member
    cases member
  · rw [atomsNamed, none, List.eraseDups_nil]

/-- So there is nothing to choose. -/
theorem runFrom_arrange (speaks : F.Speaks names) (taken : c.name ∈ names)
    (unfoldable : Unfoldable c value) (s : Supply) :
    (arrange F c.name).runFrom s = (.ok (atomsNamed F c.name), s) := by
  refine runFrom_arrange_of_le ?_ s
  rcases atomsNamed_cases speaks taken unfoldable with ⟨_, none⟩ | only
  · rw [none]
    exact Nat.zero_le 1
  · rw [only, List.length_singleton]

/-- A definition of logic is looked up by its name. -/
theorem definition_ok {d : Definition} (logic : th.OfLogic)
    (found : th.definition? (.ofString name) = some d) :
    ∃ c, d.name = name ∧ c.name = name ∧ (c, d.value) ∈ definitions := by
  have member : (d.name, d.value) ∈ th.definitions.map fun d => (d.name, d.value) :=
    List.mem_map.mpr ⟨d, List.mem_of_find?_eq_some found, rfl⟩
  rw [logic.definitions] at member
  obtain ⟨⟨c, value⟩, inside, same⟩ := List.mem_map.mp member
  obtain ⟨named, rfl⟩ := Prod.mk.inj same
  have same' : Text.Octets.ofString d.name = .ofString name := by
    simpa using List.find?_some found
  have named' := Text.Octets.ofString_injective same'
  exact ⟨c, named', named.trans named', inside⟩

/-- Every definition of logic is found under its name. -/
theorem definition_found (logic : th.OfLogic) (defined : (c, value) ∈ definitions) :
    ∃ d, th.definition? (.ofString c.name) = some d ∧ d.name = c.name ∧ d.value = value := by
  have member : (c.name, value) ∈ definitions.map fun entry => (entry.1.name, entry.2) :=
    List.mem_map.mpr ⟨(c, value), defined, rfl⟩
  rw [← logic.definitions] at member
  obtain ⟨e, inside, same⟩ := List.mem_map.mp member
  cases found : th.definition? (.ofString c.name) with
  | none =>
    have named : e.name = c.name := (Prod.mk.inj same).1
    have differs := List.find?_eq_none.mp found e inside
    simp [named] at differs
  | some d =>
    obtain ⟨c', named, named', defined'⟩ := definition_ok logic found
    exact ⟨d, rfl, named, definitions_unique defined' defined named'⟩

/-- A formula that has been unfolded is what putting the value of a defined constant settles on. -/
theorem unfold_ok (logic : th.OfLogic) (proper : F.Proper) (speaks : F.Speaks names)
    (taken : name ∈ names)
    (run : (unfold th F (.ofString name)).runFrom s = (.ok form, s')) : ∃ c value,
      Unfoldable c value ∧ Term.Reduces value (.const c) F form ∧ s' = s := by
  rw [unfold] at run
  split at run
  next => cases run
  next d found =>
    obtain ⟨c, named, rfl, defined⟩ := definition_ok logic found
    have unfoldable := definitions_unfoldable defined
    rw [named, runFrom_bind_ok (runFrom_arrange speaks taken unfoldable s)] at run
    obtain ⟨⟨unfolded, replaced⟩, s₁, folded, run⟩ := bind_ok run
    rcases atomsNamed_cases speaks taken unfoldable with ⟨_, none⟩ | only
    · rw [none] at folded
      cases folded
      cases run
    · rw [only, List.foldlM_cons] at folded
      obtain ⟨state, s₂, step, folded⟩ := bind_ok folded
      cases folded
      obtain ⟨r, s₃, substituted, step⟩ := bind_ok step
      cases step
      dsimp only at run
      split at run
      next =>
        cases run
        rw [Term.runFrom_substitute] at substituted
        obtain ⟨r', reduces⟩ := proper.reduces_defined unfoldable
        obtain ⟨rfl, rfl⟩ := reduces.settles.run substituted
        exact ⟨c, d.value, unfoldable, reduces, rfl⟩
      next => cases run

/-- Where recursion may go deep enough, unfolding a name in a formula gives a certain formula and
draws nothing. -/
def Unfolds (th : Theory) (F : Term) (name : String) (form : Term) : Prop :=
  ∃ depth, ∀ s : Supply, depth ≤ s.depth →
    (unfold th F (.ofString name)).runFrom s = (.ok form, s)

/-- Unfolding gives what putting the value settles on, if the constant occurs and the formula
changes. -/
theorem unfolds_of_reduces (logic : th.OfLogic) (defined : (c, value) ∈ definitions)
    (speaks : F.Speaks names) (taken : c.name ∈ names)
    (reduces : Term.Reduces value (.const c) F form)
    (occurs : .const c ∈ F.atoms) (changes : form ≠ F) : Unfolds th F c.name form := by
  have unfoldable := definitions_unfoldable defined
  obtain ⟨d, found, named, rfl⟩ := definition_found logic defined
  have only := (atomsNamed_cases speaks taken unfoldable).resolve_left fun none => none.1 occurs
  obtain ⟨depth, settles⟩ := reduces.settles
  refine ⟨depth, fun s enough => ?_⟩
  have step : (unfoldAtom d.value (F, false) (.const c)).runFrom s = (.ok (form, true), s) := by
    rw [unfoldAtom, runFrom_bind_ok (by rw [Term.runFrom_substitute]; exact settles _ enough s)]
    simp [bne_iff_ne.mpr changes]
  have folded : ([Term.const c].foldlM (unfoldAtom d.value) (F, false)).runFrom s =
      (.ok (form, true), s) := by
    rw [List.foldlM_cons, runFrom_bind_ok step]
    rfl
  rw [unfold, found]
  simp only [named]
  rw [runFrom_bind_ok (runFrom_arrange speaks taken unfoldable s), only, runFrom_bind_ok folded]
  rfl

/-- A connective between two operands is unfolded to what it is defined as. -/
theorem unfolds_connective (logic : th.OfLogic) (known : (name, p) ∈ connectives)
    (proper : (join name A B).Proper) (speaks : (join name A B).Speaks names)
    (taken : name ∈ names) : ∃ P Q,
      Term.Operands p.value (connective name) A B P Q ∧
      Unfolds th (join name A B) name (p.of P Q) := by
  obtain ⟨P, Q, operands, whole⟩ := proper.reduces_connective known
  have occurs : Term.const (connective name) ∈ (join name A B).atoms := by
    simp [join, Term.atoms]
  exact ⟨P, Q, operands, unfolds_of_reduces logic (connectives_defined known) speaks taken whole
    occurs (of_ne_join known)⟩

end Rule

end Turnstile
