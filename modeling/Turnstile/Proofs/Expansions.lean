import Turnstile.Proofs.Connectives
import Turnstile.Proofs.PlanSoundness
import Turnstile.Proofs.Reducts
import Turnstile.Proofs.Untouched

/-!
# Expanding definitions

A definition is expanded by putting its value for one atom of the defined name after the other, and
that one of them was free is concluded from the formula not being what it was. In formulas with
nothing to reduce this puts the value for all of them. If none is free and no bound variable has the
name of a variable of the value then the formula stays as it is and the expansion is refused.

Both conditions are needed. A substitution also renames bound variables and reduces, wherever in the
formula, and each of these passes for an occurrence.
-/

namespace Turnstile

open Build

namespace Term

variable {t u r a value pattern : Term} {atoms : List Term} {found : Bool}

/-! ## What is free after a substitution -/

/-- What is free in the result was free before and has not been replaced, or is free in the
value. -/
theorem Fit.freeIn (fit : Fit value pattern t) (reduces : Reduces value pattern t r)
    (inside : FreeIn a r) : FreeIn a t ∧ a ≠ pattern ∨ FreeIn a value := by
  cases a with
  | const c =>
    rw [freeIn_const_iff, freeIn_const_iff]
    exact reduces.consts c (freeIn_const_iff.mp inside)
  | var v =>
    rw [fit.proper.freeIn_iff, fit.properValue.freeIn_iff]
    exact mem_freeAfter.mp (reduces.free v (reduces.proper.freeIn_iff.mp inside))
  | app f x | lam v b => cases inside.isAtom

/-! ## One atom after the other -/

/-- Putting a value for one atom after the other settles on a certain term. The flag says whether
one of the steps changed something. -/
inductive Expands (value : Term) : List Term → Term → Term → Bool → Prop
  /-- There is no atom left. -/
  | done (t : Term) : Expands value [] t t false
  /-- The value is put for the first atom, then for the others. -/
  | next {a t u r : Term} {atoms : List Term} {found : Bool} (step : Settles value a t u)
      (rest : Expands value atoms u r found) : Expands value (a :: atoms) t r (u != t || found)

/-- Where no step changes anything the term is what it was. -/
theorem Expands.unchanged (expands : Expands value atoms t r found) (none : found = false) :
    r = t := by
  induction expands with
  | done t => rfl
  | next step rest ih =>
    obtain ⟨same, none⟩ := Bool.or_eq_false_iff.mp none
    rw [ih none]
    simpa using same

/-- Where every step gives the term again, so do all of them. -/
theorem expands_self (same : ∀ a ∈ atoms, Settles value a t t) :
    Expands value atoms t t false := by
  induction atoms with
  | nil => exact .done t
  | cons a atoms ih =>
    have rest := ih fun b member => same b (List.mem_cons_of_mem _ member)
    simpa using Expands.next (same a List.mem_cons_self) rest

/-- What an expansion of atoms in a normal term has come to. -/
structure Expanded (value : Term) (atoms : List Term) (t r : Term) : Prop where
  /-- It is proper. -/
  proper : r.Proper
  /-- It has nothing to reduce. -/
  normal : r.Normal
  /-- It has the type. -/
  type : r.type = t.type
  /-- What is free was free before and has not been replaced, or is free in the value. -/
  free : ∀ a, FreeIn a r → FreeIn a t ∧ a ∉ atoms ∨ FreeIn a value

/-- In which order the atoms stand does not matter for this. -/
theorem Expanded.of_mem_iff {order : List Term} (expanded : Expanded value order t r)
    (same : ∀ a, a ∈ order ↔ a ∈ atoms) : Expanded value atoms t r :=
  ⟨expanded.proper, expanded.normal, expanded.type, fun a inside => by
    rw [← same]
    exact expanded.free a inside⟩

/-- In a normal term a normal value may be put for any atoms of its type. -/
theorem Proper.expands (proper : t.Proper) (normal : t.Normal) (properValue : value.Proper)
    (normalValue : value.Normal) (uniform : Uniform (t.free ++ value.free))
    (typed : ∀ a ∈ atoms, a.type = value.type) :
    ∃ r found, Expands value atoms t r found ∧ Expanded value atoms t r := by
  induction atoms generalizing t with
  | nil => exact ⟨t, false, .done t, proper, normal, rfl, fun a inside => .inl ⟨inside, by simp⟩⟩
  | cons a atoms ih =>
    have fit : Fit value a t := ⟨proper, properValue, normalValue, uniform.subset fun s member => by
      rcases mem_freeAfter.mp member with ⟨old, -⟩ | new <;> simp [*]⟩
    obtain ⟨u, step, -⟩ := fit.reduces normal (typed a List.mem_cons_self)
    have uniform' : Uniform (u.free ++ value.free) := uniform.subset fun s member => by
      rcases List.mem_append.mp member with inside | new
      · rcases mem_freeAfter.mp (step.free s inside) with ⟨old, -⟩ | new <;> simp [*]
      · simp [new]
    obtain ⟨r, found, rest, expanded⟩ := ih step.proper step.normal uniform' fun b member =>
      typed b (List.mem_cons_of_mem _ member)
    refine ⟨r, _, .next step.settles rest, expanded.proper, expanded.normal,
      expanded.type.trans step.type, fun b inside => ?_⟩
    rcases expanded.free b inside with ⟨old, others⟩ | new
    · refine (fit.freeIn step old).imp_left fun ⟨older, other⟩ => ⟨older, ?_⟩
      simp [other, others]
    · exact .inr new

end Term

namespace Rule

open Logic
open Term (FreeIn Expands Expanded Settles)

variable {th : Theory} {d : Definition} {F r p : Term} {octets : Text.Octets} {found : Bool}
  {s s' : Supply} {side : Side} {here there : List Term}

/-! ## Unfolding a name -/

/-- Where recursion may go deep enough, unfolding atom by atom gives what the atoms are expanded to.
-/
theorem folds_of_expands {value t r : Term} {atoms : List Term}
    (expands : Expands value atoms t r found) : ∃ depth, ∀ flag (s : Supply), depth ≤ s.depth →
      (atoms.foldlM (unfoldAtom value) (t, flag)).runFrom s = (.ok (r, flag || found), s) := by
  induction expands with
  | done t => exact ⟨0, fun flag s _ => by rw [Bool.or_false]; rfl⟩
  | next step rest ih =>
    obtain ⟨n, settles⟩ := step
    obtain ⟨m, folds⟩ := ih
    refine ⟨n + m, fun flag s enough => ?_⟩
    rw [List.foldlM_cons, unfoldAtom, bind_assoc, runFrom_bind_ok (by
      rw [Term.runFrom_substitute]
      exact settles s.depth (by omega) s), pure_bind, folds _ s (by omega), Bool.or_assoc]

/-- Unfolding a name gives what its atoms are expanded to in the order in which they are visited, if
a step changed something, and else is refused. -/
theorem unfold_of_expands {P : Term → Prop} (known : th.definition? octets = some d) (found : Bool)
    (expands : ∀ order : List Term, order.Perm (atomsNamed F d.name) →
      ∃ r, P r ∧ Expands d.value order F r found) : ∃ depth, ∀ s : Supply, depth ≤ s.depth →
        ∃ r n, P r ∧ (unfold th F octets).runFrom s =
          (if found then .ok r else refuse (.doesNotOccur octets r),
            { s with lastChoice := n }) := by
  obtain ⟨depth, folds⟩ := exists_depth
    (P := fun order depth => ∃ r, P r ∧ ∀ flag (s : Supply), depth ≤ s.depth →
      (order.foldlM (unfoldAtom d.value) (F, flag)).runFrom s = (.ok (r, flag || found), s))
    (fun _ _ _ le => fun ⟨r, holds, folds⟩ =>
      ⟨r, holds, fun flag s enough => folds flag s (Nat.le_trans le enough)⟩)
    (fun order (perm : order.Perm (atomsNamed F d.name)) => by
      obtain ⟨r, holds, expands⟩ := expands order perm
      obtain ⟨depth, folds⟩ := folds_of_expands expands
      exact ⟨depth, r, holds, folds⟩)
  refine ⟨depth, fun s enough => ?_⟩
  obtain ⟨order, n, perm, arranged⟩ := exists_arrange F d.name s
  obtain ⟨r, holds, folds⟩ := folds order perm
  refine ⟨r, n, holds, ?_⟩
  rw [unfold, known]
  dsimp only
  rw [runFrom_bind_ok arranged, runFrom_bind_ok (folds false { s with lastChoice := n } enough),
    Bool.false_or]
  cases found <;> rfl

/-- A name with a free occurrence is unfolded, in a formula with nothing to reduce: in the result no
atom of the name is free. -/
theorem unfold_replaces (known : th.definition? octets = some d) (proper : F.Proper)
    (normal : F.Normal) (properValue : d.value.Proper) (normalValue : d.value.Normal)
    (uniform : Uniform (F.free ++ d.value.free))
    (typed : ∀ a ∈ atomsNamed F d.name, a.type = d.value.type)
    (fresh : ∀ a ∈ atomsNamed F d.name, ¬ FreeIn a d.value)
    (occurs : ∃ a ∈ atomsNamed F d.name, FreeIn a F) :
    ∃ depth, ∀ s : Supply, depth ≤ s.depth → ∃ r n,
      (Expanded d.value (atomsNamed F d.name) F r ∧ ∀ a ∈ atomsNamed F d.name, ¬ FreeIn a r) ∧
        (unfold th F octets).runFrom s = (.ok r, { s with lastChoice := n }) := by
  refine unfold_of_expands known true fun order perm => ?_
  obtain ⟨r, found, expands, expanded⟩ := proper.expands normal properValue normalValue uniform
    fun a member => typed a (perm.mem_iff.mp member)
  replace expanded := expanded.of_mem_iff fun a => perm.mem_iff
  have gone : ∀ a ∈ atomsNamed F d.name, ¬ FreeIn a r := fun a member inside => by
    rcases expanded.free a inside with ⟨-, other⟩ | new
    · exact other member
    · exact fresh a member new
  -- An atom that was free no longer is, so that a step has changed something.
  obtain rfl : found = true := by
    by_contra none
    obtain ⟨a, member, inside⟩ := occurs
    rw [← expands.unchanged (eq_false_of_ne_true none)] at inside
    exact gone a member inside
  exact ⟨r, ⟨expanded, gone⟩, expands⟩

/-- A name without a free occurrence is refused, in a formula with nothing to reduce of which no
bound variable has the name of a variable of the value. -/
theorem unfold_refuses (known : th.definition? octets = some d) (proper : F.Proper)
    (normal : F.Normal) (clear : F.Clear d.value.freeNames)
    (absent : ∀ a ∈ atomsNamed F d.name, ¬ FreeIn a F) : ∃ depth, ∀ s : Supply,
      depth ≤ s.depth → ∃ n, (unfold th F octets).runFrom s =
        (.error (.refused "" (.doesNotOccur octets F)), { s with lastChoice := n }) := by
  obtain ⟨depth, run⟩ := unfold_of_expands (P := (· = F)) known false
    fun order perm => ⟨F, rfl, Term.expands_self fun a member =>
      proper.settles_self normal clear (absent a (perm.mem_iff.mp member))⟩
  refine ⟨depth, fun s enough => ?_⟩
  obtain ⟨_, n, rfl, refused⟩ := run s enough
  exact ⟨n, refused⟩

/-- In any formula, what a name is unfolded to is a reduct of the formula in which the value stands
for the variable of that name where it was free, unless a bound variable was renamed to it. -/
theorem unfold_reduces {p : Symbol} (known : th.definition? octets = some d) (rigid : F.Rigid)
    (rigidValue : d.value.Rigid) (rigidP : (Term.var p).Rigid) (typed : p.type = d.value.type)
    (only : atomsNamed F d.name = [.var p])
    (run : (unfold th F octets).runFrom s = (.ok r, s'))
    (uncaptured : unfoldCaptures th F octets s = false) :
    Nameless.ReducesTo ((F.nameless .free).replace p (d.value.nameless .free))
      (r.nameless .free) := by
  rw [unfold, known] at run
  rw [unfoldCaptures, known] at uncaptured
  have arranged := runFrom_arrange_of_le (by rw [only, List.length_singleton]) s
  dsimp only at run uncaptured
  rw [runFrom_bind_ok arranged, only] at run
  rw [Build.leadsTo_of_run arranged, only] at uncaptured
  obtain ⟨state, s₁, folded, run⟩ := bind_ok run
  obtain ⟨first, s₂, step, folded⟩ := bind_ok folded
  obtain ⟨unfolded, s₃, substituted, step⟩ := bind_ok step
  cases step
  cases folded
  obtain rfl : unfolded = r := by
    dsimp only at run
    split at run <;> cases run
    rfl
  exact (rigid.substitute_reduces rigidValue rigidP typed substituted
    (Bool.or_eq_false_iff.mp uncaptured).1).1

/-! ## The rules -/

/-- Expand a definition in the first formula of a side. -/
def expand (th : Theory) : Side → Text.Octets → Plan
  | .left, name => leftExpand th name
  | .right, name => rightExpand th name

/-- What the rule is called. -/
def expandName : Side → String
  | .left => "left_expand"
  | .right => "right_expand"

/-- The first formula is replaced by what the name is unfolded to, if the names of the new goal have
one type each. -/
theorem expand_runs (run : (unfold th F octets).runFrom s = (.ok r, s'))
    (proper : (side.goal (r :: here) there).Proper)
    (uniform : Uniform (side.goal (r :: here) there).free) :
    ((expand th side octets).subgoals (side.goal (F :: here) there)).runFrom s =
      (.ok [side.goal (r :: here) there], s') := by
  match side with
  | .left | .right =>
    have made := Sequent.make_self proper uniform
    exact runFrom_primitive ((runFrom_bind_ok run).trans (runFrom_one made s'))

/-- Where the name is not unfolded the rule is refused under its own name. -/
theorem expand_refuses {refusal : Refusal}
    (run : (unfold th F octets).runFrom s = (.error (.refused "" refusal), s')) :
    ((expand th side octets).subgoals (side.goal (F :: here) there)).runFrom s =
      (.error (.refused (expandName side) refusal), s') := by
  match side with
  | .left | .right =>
    refine runFrom_primitive_error (e := .refused "" refusal) ?_
    exact (runFrom_bind _ _ s).trans (by rw [run])

/-! ## Where something else passes for an occurrence -/

/-- `(for_all v . p(v)) or t`, where `v` has a given name. -/
def beside (name : String) (t : Term) : Term :=
  join "or" (forAll ⟨name, .obj⟩ (.app (.var ⟨"p", .arrow .obj .bool⟩) (.var ⟨name, .obj⟩))) t

variable {name : String} {t t' : Term}

/-- The bound variable is the only atom of its name. -/
theorem beside_atoms (apart : name ∉ ["p", "or", "for_all"]) (unheard : t.Unheard name) :
    atomsNamed (beside name t) name = [.var ⟨name, .obj⟩] := by
  simp only [List.mem_cons, List.not_mem_nil, or_false, not_or] at apart
  obtain ⟨p, disjunction, quantifier⟩ := apart
  have none : t.atoms.filter (fun a => a.name == name) = [] := by
    simpa [Term.Unheard] using unheard
  rw [atomsNamed, beside, join, Term.atoms, List.filter_append, none, List.append_nil]
  simp [forAll, Term.atoms, Term.name, Term.symbol?, Ne.symm p, Ne.symm disjunction,
    Ne.symm quantifier, List.eraseDups_cons]

/-- It is not free. -/
theorem beside_absent (unheard : t.Unheard name) :
    ¬ FreeIn (.var ⟨name, .obj⟩) (beside name t) := by
  have absent : ¬ FreeIn (.var ⟨name, .obj⟩) t := fun inside => unheard _ inside.mem_atoms rfl
  simp [beside, join, forAll, FreeIn, absent]

/-- A formula beside another one that binds the name is a proper formula. -/
theorem beside_proper (apart : name ≠ "p") (proper : t.Proper) (typed : t.type = .bool)
    (other : ∀ s ∈ t.free, s.name ≠ "p") : (beside name t).Proper := by
  refine ⟨⟨?_, ?_⟩, ?_⟩
  · simp [beside, join, forAll, Term.WellTyped, Term.type, Term.free, Ty.resultType, apart.symm,
      proper.wellTyped, typed]
  · have uniform : Uniform (⟨"p", .arrow .obj .bool⟩ :: t.free) := by
      intro s member s' member' same
      rcases List.mem_cons.mp member with rfl | inside <;>
        rcases List.mem_cons.mp member' with rfl | inside'
      · rfl
      · exact absurd same.symm (other s' inside')
      · exact absurd same (other s inside)
      · exact proper.uniform s inside s' inside' same
    refine uniform.subset fun s member => ?_
    simp only [beside, join, forAll, Term.free, List.mem_append, List.mem_filter,
      List.mem_singleton, List.not_mem_nil, false_or] at member
    rcases member with ⟨rfl | rfl, differs⟩ | inside
    · exact List.mem_cons_self
    · simp at differs
    · exact List.mem_cons_of_mem _ inside
  · simp [beside, join, forAll, Term.Plain, Ty.Plain, Ty.plain_bool, Ty.plain_obj, proper.plain]

/-- A definition is expanded in a formula in which its name is not free, if putting its value for a
variable that is not there changes something. -/
theorem expand_beside (known : th.definition? octets = some d)
    (apart : d.name ∉ ["p", "or", "for_all"]) (unheard : t.Unheard d.name)
    (settles : Settles d.value (.var ⟨d.name, .obj⟩) t t') (changes : t' ≠ t)
    (proper : (beside d.name t').Proper) :
    (∀ a ∈ atomsNamed (beside d.name t) d.name, ¬ FreeIn a (beside d.name t)) ∧
      ∃ depth, ∀ s : Supply, depth ≤ s.depth →
        ((expand th side octets).subgoals (side.goal [beside d.name t] [])).runFrom s =
          (.ok [side.goal [beside d.name t'] []], s) := by
  have only := beside_atoms apart unheard
  have whole : Settles d.value (.var ⟨d.name, .obj⟩) (beside d.name t) (beside d.name t') := by
    refine Term.settles_app (Term.settles_app (Term.settles_const (by simp)) ?_ proper.function
      (by simp)) settles proper (by simp)
    exact Term.settles_app (Term.settles_const (by simp))
      (Term.settles_hidden (Term.hasFree_var ⟨d.name, .obj⟩)) proper.function.argument (by simp)
  obtain ⟨depth, folds⟩ := folds_of_expands (Expands.next whole (.done _))
  refine ⟨fun a member => ?_, depth, fun s enough => expand_runs ?_ ?_ ?_⟩
  · rw [only, List.mem_singleton] at member
    exact member ▸ beside_absent unheard
  · have arranged := runFrom_arrange_of_le (by rw [only, List.length_singleton]) s
    rw [unfold, known]
    dsimp only
    rw [runFrom_bind_ok arranged, only, runFrom_bind_ok (folds false s enough)]
    simp [beside, join, changes]
  · cases side <;> exact List.forall_mem_singleton.mpr proper
  · cases side <;> simpa [Side.goal, Sequent.free] using proper.uniform

/-- `q(w)` -/
def holdsOf (w : Symbol) : Term := .app (.var ⟨"q", .arrow .obj .bool⟩) (.var w)

/-- A formula about an object is proper. -/
theorem holdsOf_proper {w : Symbol} (typed : w.type = .obj) (apart : w.name ≠ "q") :
    (holdsOf w).Proper := by
  have plain : w.type.Plain := typed ▸ Ty.plain_obj
  refine ⟨⟨?_, ?_⟩, ⟨Ty.plain_obj, Ty.plain_bool⟩, plain⟩
  · simp [holdsOf, Term.WellTyped, Term.type, typed]
  · simp [holdsOf, Term.free, Uniform, apart, apart.symm]

/-- Putting a variable for the object settles. -/
theorem settles_holdsOf {value : Term} {v w w' : Symbol}
    (hit : Settles value (.var v) (.var w) (.var w')) (object : v.type = .obj)
    (proper : (holdsOf w').Proper) : Settles value (.var v) (holdsOf w) (holdsOf w') := by
  have function : Settles value (.var v) (.var ⟨"q", .arrow .obj .bool⟩) _ :=
    Term.settles_var (by rintro ⟨⟩; cases object)
  exact Term.settles_app function hit proper (by simp)

/-- A reduction passes for an occurrence: any defined `v` is expanded in
`(for_all v . p(v)) or (\y . q(y))(z)`, to `(for_all v . p(v)) or q(z)`. -/
theorem expand_reduced (known : th.definition? octets = some d)
    (apart : d.name ∉ ["p", "or", "for_all", "q", "y", "z"])
    (unused : "y" ∉ d.value.freeNames) : ∃ depth, ∀ s : Supply, depth ≤ s.depth →
      ((expand th side octets).subgoals (side.goal [beside d.name
          (.app (.lam ⟨"y", .obj⟩ (holdsOf ⟨"y", .obj⟩)) (.var ⟨"z", .obj⟩))] [])).runFrom s =
        (.ok [side.goal [beside d.name (holdsOf ⟨"z", .obj⟩)] []], s) := by
  simp only [List.mem_cons, List.not_mem_nil, or_false, not_or] at apart
  obtain ⟨p, disjunction, quantifier, q, y, z⟩ := apart
  have body : (holdsOf ⟨"y", .obj⟩).Proper := holdsOf_proper rfl (by decide)
  have reduced : (holdsOf ⟨"z", .obj⟩).Proper := holdsOf_proper rfl (by decide)
  have proper : (Term.app (.lam ⟨"y", .obj⟩ (holdsOf ⟨"y", .obj⟩)) (.var ⟨"z", .obj⟩)).Proper := by
    refine ⟨⟨?_, ?_⟩, ⟨Ty.plain_obj, body.plain⟩, Ty.plain_obj⟩
    · simp [holdsOf, Term.WellTyped, Term.type, Term.free, Ty.resultType]
    · have uniform : Uniform [⟨"q", .arrow .obj .bool⟩, ⟨"y", .obj⟩, ⟨"z", .obj⟩] := by
        simp [Uniform]
      refine uniform.subset fun s member => ?_
      rcases List.mem_append.mp member with bound | argument
      · exact List.mem_append_left [_] (List.mem_of_mem_filter bound)
      · exact List.mem_append_right [_, _] argument
  refine (expand_beside known (by simp [*]) ?_ ?_ (by simp [holdsOf]) ?_).2
  · intro a inside
    simp only [Term.atoms, holdsOf, List.cons_append, List.nil_append, List.mem_cons,
      List.not_mem_nil, or_false] at inside
    rcases inside with rfl | rfl | rfl | rfl <;> simp [Term.name, Term.symbol?, Ne.symm, *]
  · have apartY : (Term.var ⟨d.name, .obj⟩).hasFree ⟨"y", .obj⟩ = false :=
      Term.hasFree_var_of_ne Ty.plain_obj Ty.plain_obj (by simp [y])
    have kept : Settles d.value (.var ⟨d.name, .obj⟩) (holdsOf ⟨"y", .obj⟩) (holdsOf ⟨"y", .obj⟩) :=
      settles_holdsOf (Term.settles_var (by simp [Ne.symm y])) rfl body
    refine Term.settles_redex (Term.settles_lam apartY unused kept proper.function)
      (Term.settles_var (by simp [Ne.symm z])) proper ?_
    exact settles_holdsOf (Term.settles_value rfl) rfl reduced
  · exact beside_proper p reduced rfl (by simp [holdsOf, Term.free])

/-- The only free variable of the quantified formula is its predicate. -/
theorem mem_free_forAll_holdsOf {w v : Symbol} (free : v ∈ (forAll w (holdsOf w)).free) :
    v = ⟨"q", .arrow .obj .bool⟩ := by
  simp only [forAll, holdsOf, Term.free, List.nil_append, List.mem_filter, List.mem_append,
    List.mem_singleton] at free
  rcases free with ⟨rfl | rfl, differs⟩
  · rfl
  · simp at differs

/-- The quantified formula is proper. -/
theorem forAll_holdsOf_proper {w : Symbol} (object : w.type = .obj) (apart : w.name ≠ "q") :
    (forAll w (holdsOf w)).Proper := by
  have body := holdsOf_proper object apart
  refine ⟨⟨?_, fun v free v' free' _ => ?_⟩, ?_⟩
  · simp [forAll, holdsOf, Term.WellTyped, Term.type, Term.free, Ty.resultType, object, apart.symm]
  · rw [mem_free_forAll_holdsOf free, mem_free_forAll_holdsOf free']
  · exact ⟨⟨⟨Ty.plain_obj, Ty.plain_bool⟩, Ty.plain_bool⟩, object ▸ Ty.plain_obj, body.plain⟩

/-- A new name for a bound variable passes for an occurrence: where `w` is free in the value, any
defined `v` is expanded in `(for_all v . p(v)) or (for_all w . q(w))`. -/
theorem expand_renamed {w w' : Symbol} (known : th.definition? octets = some d)
    (apart : d.name ∉ ["p", "or", "for_all", "q"]) (object : w.type = .obj)
    (used : w.name ∈ d.value.freeNames)
    (is : Term.renamedBound w (holdsOf w) d.value.freeNames = w') (distinct : w.name ≠ "q")
    (other : w.name ≠ d.name) (other' : w'.name ≠ d.name) :
    ∃ depth, ∀ s : Supply, depth ≤ s.depth →
      ((expand th side octets).subgoals (side.goal [beside d.name (forAll w (holdsOf w))]
          [])).runFrom s =
        (.ok [side.goal [beside d.name (forAll w' (holdsOf w'))] []], s) := by
  simp only [List.mem_cons, List.not_mem_nil, or_false, not_or] at apart
  obtain ⟨p, disjunction, quantifier, q⟩ := apart
  have object' : w'.type = .obj := is ▸ object
  have fresh : w'.name ∉ d.value.freeNames := is ▸ (Term.renamedBound_fresh w _ _).2
  have unheard : (holdsOf w).Unheard w'.name := is ▸ Term.unheard_renamedBound w _ _
  have distinct' : w'.name ≠ "q" := (unheard _ List.mem_cons_self).symm
  have proper' := forAll_holdsOf_proper object' distinct'
  have body := proper'.argument.body
  refine (expand_beside known (by simp [*]) ?_ ?_ ?_ ?_).2
  · intro a inside
    simp only [Term.atoms, forAll, holdsOf, List.cons_append, List.nil_append, List.mem_cons,
      List.not_mem_nil, or_false] at inside
    rcases inside with rfl | rfl | rfl | rfl <;> simp [Term.name, Term.symbol?, Ne.symm, *]
  · have apartW : (Term.var ⟨d.name, .obj⟩).hasFree w = false :=
      Term.hasFree_var_of_ne Ty.plain_obj (object ▸ Ty.plain_obj) fun same => other (same ▸ rfl)
    have kept : Settles d.value (.var ⟨d.name, .obj⟩) (holdsOf w') (holdsOf w') := by
      refine settles_holdsOf (Term.settles_var ?_) rfl body
      rintro ⟨⟩
      exact other' rfl
    have bound := Term.settles_renamed apartW used is
      (settles_holdsOf (Term.settles_value rfl) object body) kept proper'.argument
    exact Term.settles_app (Term.settles_const (by simp)) bound proper' (by simp)
  · intro same
    obtain rfl : w' = w := by simpa [forAll, holdsOf] using same
    exact fresh used
  · refine beside_proper p proper' rfl fun v free => ?_
    rw [mem_free_forAll_holdsOf free]
    decide

end Rule

end Turnstile
