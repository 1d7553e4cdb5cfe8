import Turnstile.Proofs.NormalForms

/-!
# Terms that substitution leaves alone

A substitution does more than put a value for an atom. It renames the bound variables whose names
are free in the value, whether or not the atom occurs below them, and it reduces what can be
reduced, whether or not the atom occurs there. So a term without the atom need not come through as
it is. It does if none of its bound variables has the name of a variable of the value and it has
nothing to reduce.
-/

namespace Turnstile.Term

variable {t f x b value pattern : Term} {v w c : Symbol} {names names' : List String}

/-- No bound variable has one of the names. -/
def Clear (names : List String) : Term → Prop
  | const _ => True
  | var _ => True
  | app f x => f.Clear names ∧ x.Clear names
  | lam v b => v.name ∉ names ∧ b.Clear names

/-- Every term is clear of no names. -/
theorem clear_nil (t : Term) : t.Clear [] := by
  induction t with
  | const c | var s => trivial
  | app f x ihF ihX => exact ⟨ihF, ihX⟩
  | lam v b ih => exact ⟨List.not_mem_nil, ih⟩

/-- A term that is clear of some names is clear of fewer. -/
theorem Clear.mono (clear : t.Clear names) (fewer : names' ⊆ names) : t.Clear names' := by
  induction t with
  | const c | var s => trivial
  | app f x ihF ihX => exact ⟨ihF clear.1, ihX clear.2⟩
  | lam v b ih => exact ⟨fun inside => clear.1 (fewer inside), ih clear.2⟩

/-- An atom has a free occurrence in a term. -/
def FreeIn (a : Term) : Term → Prop
  | const c => const c = a
  | var s => var s = a
  | app f x => FreeIn a f ∨ FreeIn a x
  | lam v b => var v ≠ a ∧ FreeIn a b

/-- Only atoms occur. -/
theorem FreeIn.isAtom {a : Term} (inside : FreeIn a t) : a.isAtom = true := by
  induction t with
  | const c | var s =>
    obtain rfl := inside
    rfl
  | app f x ihF ihX => exact inside.elim ihF ihX
  | lam v b ih => exact ih inside.2

/-- What occurs free is one of the atoms. -/
theorem FreeIn.mem_atoms {a : Term} (inside : FreeIn a t) : a ∈ t.atoms := by
  induction t with
  | const c | var s =>
    obtain rfl := inside
    exact List.mem_singleton_self _
  | app f x ihF ihX => exact List.mem_append.mpr (inside.imp ihF ihX)
  | lam v b ih => exact List.mem_cons_of_mem _ (ih inside.2)

/-- A variable has a free occurrence if it is free. -/
theorem Plain.freeIn_iff (plain : t.Plain) : FreeIn (var v) t ↔ v ∈ t.free := by
  induction t with
  | const c => simp [FreeIn, free]
  | var s => simp [FreeIn, free, eq_comm]
  | app f x ihF ihX => rw [FreeIn, ihF plain.1, ihX plain.2, free, List.mem_append]
  | lam u b ih =>
    rw [FreeIn, ih plain.2, plain.mem_free_lam, and_comm]
    refine and_congr_right fun _ => not_congr ?_
    rw [var.injEq, eq_comm]

/-- A variable is free in a proper term if it is one of its free variables. -/
theorem Proper.freeIn_iff (proper : t.Proper) : FreeIn (var v) t ↔ v ∈ t.free :=
  proper.plain.freeIn_iff

/-- A constant has a free occurrence if it is one of the atoms. -/
theorem freeIn_const_iff : FreeIn (const c) t ↔ const c ∈ t.atoms := by
  induction t with
  | const d => simp [FreeIn, atoms, eq_comm]
  | var s => simp [FreeIn, atoms]
  | app f x ihF ihX => rw [FreeIn, ihF, ihX, atoms, List.mem_append]
  | lam v b ih => simp [FreeIn, atoms, ih]

/-- A variable occurs free in itself only. -/
theorem hasFree_var_of_ne (plain : w.type.Plain) (plainV : v.type.Plain) (other : w ≠ v) :
    (var w).hasFree v = false := by
  have keys : w.varKey ≠ v.varKey := mt (Symbol.varKey_inj plain plainV) other
  simpa [hasFree, free] using keys

/-- Where the atom does not occur, nothing is reducible and no bound variable has the name of one
that is free in the value, the substitution changes nothing. -/
theorem Proper.settles_self (proper : t.Proper) (normal : t.Normal)
    (clear : t.Clear value.freeNames) (absent : ¬ FreeIn pattern t) :
    Settles value pattern t t := by
  induction t with
  | const c => exact settles_const absent
  | var s => exact settles_var absent
  | app f x ihF ihX =>
    have function := ihF proper.function normal.1 clear.1 fun inside => absent (.inl inside)
    have argument := ihX proper.argument normal.2.1 clear.2 fun inside => absent (.inr inside)
    exact settles_app function argument proper normal.2.2
  | lam v b ih =>
    by_cases hidden : pattern.hasFree v = true
    · exact settles_hidden hidden
    · have apart := eq_false_of_ne_true hidden
      have body := ih proper.body normal clear.2 fun inside =>
        absent ⟨var_ne_of_hasFree apart, inside⟩
      exact settles_lam apart clear.1 body proper

/-- A normal term in which the pattern is not free and nothing would be captured is reduced to
itself. -/
theorem Fit.untouched (fit : Fit value pattern t) (normal : t.Normal)
    (clear : t.Clear value.freeNames) (absent : ¬ FreeIn pattern t) :
    Reduces value pattern t t where
  settles := fit.proper.settles_self normal clear absent
  proper := fit.proper
  normal := normal
  type := rfl
  free := fun s member => by
    refine mem_freeAfter.mpr (.inl ⟨member, ?_⟩)
    rintro rfl
    exact absent (fit.proper.freeIn_iff.mpr member)
  speaks := fun _ _ words _ => words
  consts := fun c member => by
    refine .inl ⟨member, ?_⟩
    rintro rfl
    exact absent (freeIn_const_iff.mpr member)

/-- A bound variable whose name is free in the value gets a new name, also where the atom that is
replaced does not occur. -/
theorem Fit.renamed (fit : Fit value pattern (lam v b)) (normal : b.Normal)
    (apart : pattern.hasFree v = false) (used : v.name ∈ value.freeNames)
    (is : renamedBound v b value.freeNames = w) (clear : (b.relabel v w).Clear value.freeNames)
    (absent : ¬ FreeIn pattern (b.relabel v w)) :
    Reduces value pattern (lam v b) (lam w (b.relabel v w)) := by
  subst is
  have entered : Entered value v b _ := fit.proper.entered_renamed
  have renamed := settles_relabel fit.proper.body normal fit.proper.plain.1 entered.plain rfl
    (unheard_renamedBound v b value.freeNames)
  have body := (fit.enter entered).untouched (normal.relabel _ _) clear absent
  exact entered.reduces body
    (settles_renamed apart used rfl renamed body.settles (entered.abstracted body))

end Turnstile.Term
