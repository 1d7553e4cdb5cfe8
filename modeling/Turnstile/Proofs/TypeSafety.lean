import Turnstile.PlanText.Reader
import Turnstile.Proofs.Building
import Turnstile.Proofs.PlanRuns
import Turnstile.Proofs.Reading

/-!
# Type safety

Proper terms stay proper: whatever inference, substitution and matching make of proper terms is
proper, what the parser reads is proper, and the rules and the plan engine only ever reach proper
goals. In particular the function of every application that comes up has a function type, and the
check with which an application is completed never fails on proper parts.
-/

namespace Turnstile

open Build

namespace Term

variable {t f x b value pattern : Term} {v : Symbol}

/-! ## Building -/

/-- An application of proper terms is proper. -/
theorem Proper.mkApp (proper : f.Proper) (properX : x.Proper) : (f.mkApp x).Gives Proper := by
  intro s s' t run
  have built := proper.mkApp_built properX s
  rw [run] at built
  cases built with
  | done properT _ => exact properT

/-- Apply one term to another without looking at the types again when they are joined. -/
def mkAppUnchecked (f x : Term) : Build Term := do
  let f ← f.narrow x.type
  match f.type with
  | .arrow domain _ =>
    let u ← equate domain x.type
    joinUnchecked (f.applyTypes u) (x.applyTypes u)
  | t => throw (.clash ⟨t, .arrow x.type (← Build.freshType), false⟩)

/-- The check with which an application is completed never fails on proper parts. -/
theorem Proper.mkApp_unchecked (proper : f.Proper) (properX : x.Proper) (s : Supply) :
    (f.mkApp x).runFrom s = (f.mkAppUnchecked x).runFrom s := by
  have narrowing := proper.plain.narrow properX.plain.type_plain s
  rw [Term.mkApp, mkAppUnchecked, runFrom_bind, runFrom_bind]
  generalize (f.narrow x.type).runFrom s = outcome at narrowing ⊢
  cases narrowing with
  | impossible later clash none => rfl
  | @found _ θ s' later most drawn =>
    have properG := proper.under most.plain
    cases kind : (f.under θ).type with
    | const name => simp only [kind]
    | var id => simp only [kind]
    | arrow domain codomain =>
      simp only [kind, runFrom_bind, runFrom_lift]
      cases solved : equate domain x.type with
      | error failure => rfl
      | ok u => simp only [properG.join_unchecked properX kind solved]

/-- An application to several proper terms is proper. -/
theorem Proper.mkApps {xs : List Term} (proper : f.Proper) (propers : ∀ x ∈ xs, x.Proper) :
    (f.mkApps xs).Gives Proper := by
  intro s s' t run
  have built := proper.mkApps_built propers s
  rw [run] at built
  cases built with
  | done properT _ => exact properT

/-- An abstraction from a proper term is proper. -/
theorem Proper.mkLam {bound : Term} (properBound : bound.Proper) (proper : b.Proper)
    (built : Term.mkLam bound b = .ok t) : t.Proper := by
  match bound with
  | var v =>
    have outcome := proper.mkLam_built properBound.plain default
    rw [built] at outcome
    cases outcome with
    | done properT _ => exact properT
  | const _ => cases built
  | app _ _ => cases built
  | lam _ _ => cases built

/-- A binder over proper terms is proper. -/
theorem Proper.mkBinder {binder bound : Term} (proper : binder.Proper)
    (properBound : bound.Proper) (properB : b.Proper) :
    (binder.mkBinder bound b).Gives Proper := by
  refine (gives_lift fun abstraction built => properBound.mkLam properB built).bind ?_
  exact fun abstraction properA => proper.mkApp properA

/-- Proper terms with one type for all free variables of one name are proper, and the types of
their variables agree. -/
theorem unifyTypes_proper {terms results : List Term} (propers : ∀ t ∈ terms, t.Proper)
    (unified : unifyTypes terms = .ok results) :
    (∀ t ∈ results, t.Proper) ∧ Uniform (freeIn results) := by
  have plain : ∀ t ∈ terms, t.Plain := fun t member => (propers t member).plain
  have solution := jointTypes_solution plain
  rw [unifyTypes] at unified
  obtain ⟨u, joined, unified⟩ := Formula.bind_ok unified
  cases unified
  rw [joined] at solution
  cases solution with
  | @found _ θ apply most =>
    constructor
    · intro t member
      obtain ⟨r, inside, rfl⟩ := List.mem_map.mp member
      rw [Term.applyTypes_eq apply]
      exact (propers r inside).under most.plain
    · have free : freeIn (terms.map (Term.applyTypes u)) = (freeIn terms).map (Symbol.under θ) := by
        rw [show Term.applyTypes u = Term.under θ from funext (Term.applyTypes_eq apply)]
        exact freeIn_under (fun t member => (propers t member).wellTyped) fun t member =>
          (plain t member).discerningUnder most.plain
      rw [free]
      exact most.holds

/-! ## Substitution -/

/-- Numbers are spelled with characters of identifiers. -/
theorem isPlain_toString (n : Nat) : isPlain (toString n) = true := by
  refine List.all_eq_true.mpr fun c inside => ?_
  have digit : c.isDigit = true := isDigit_of_mem_repr inside
  have small : c.toNat < 0x80 := by
    simp only [Char.isDigit, Bool.and_eq_true, decide_eq_true_eq] at digit
    have upper : c.val.toNat ≤ (57 : UInt32).toNat := digit.2
    exact Nat.lt_of_le_of_lt upper (by decide)
  have part : Text.isDigit c = true := by rw [Text.isDigit, if_pos small, digit]
  simp [Formula.isNamePart, part]

/-- Numbering a plain name gives a plain name. -/
theorem isPlain_numberedName {base : String} (plain : isPlain base = true) (n : Nat) :
    isPlain (numberedName base n) = true := by
  cases n with
  | zero => exact plain
  | succ n =>
    have number := isPlain_toString (n + 1)
    rw [isPlain] at plain number ⊢
    rw [numberedName, String.toList_append, List.all_append, plain, number]
    rfl

/-- A fresh name is the base with some number. -/
theorem freshName_eq (base : String) (taken : List String) :
    ∃ n, freshName base taken = numberedName base n := by
  rw [freshName]
  cases found : ((List.range (taken.length + 1)).map (numberedName base)).find?
      fun name => !taken.contains name with
  | none => exact ⟨0, rfl⟩
  | some name =>
    obtain ⟨n, _, rfl⟩ := List.mem_map.mp (List.mem_of_find?_eq_some found)
    exact ⟨n, rfl⟩

/-- A fresh name made of a plain one is plain. -/
theorem isPlain_freshName {base : String} (plain : isPlain base = true) (taken : List String) :
    isPlain (freshName base taken) = true := by
  obtain ⟨n, is⟩ := freshName_eq base taken
  rw [is]
  exact isPlain_numberedName plain n

/-- A variable of a plain type is proper. -/
theorem proper_var (plain : v.type.Plain) : (var v).Proper := by
  refine ⟨⟨trivial, ?_⟩, plain⟩
  simp [Uniform, free]

/-- A constant of a plain type is proper. -/
theorem proper_const (plain : v.type.Plain) : (const v).Proper :=
  ⟨⟨trivial, by simp [Uniform, free]⟩, plain⟩

/-- The bound variable of a proper abstraction is proper. -/
theorem Proper.bound (proper : (lam v b).Proper) : (var v).Proper := proper_var proper.plain.1

/-- Substituting a proper term in a proper term gives proper terms, however often reductions and
renamings come up on the way. -/
theorem Proper.substituteWithin (depth : Nat) :
    ∀ {t value pattern : Term}, t.Proper → value.Proper →
      (substituteWithin depth t value pattern).Gives Proper := by
  induction depth with
  | zero =>
    intro t value pattern _ _
    exact gives_throw _
  | succ depth ih =>
    intro t value pattern proper properV
    match t with
    | const s =>
      rw [Term.substituteWithin]
      refine gives_pure ?_
      split
      · exact properV
      · exact proper
    | var s =>
      rw [Term.substituteWithin]
      refine gives_pure ?_
      split
      · exact properV
      · exact proper
    | app f x =>
      rw [Term.substituteWithin]
      refine (ih proper.function properV).bind fun f' properF => ?_
      refine (ih proper.argument properV).bind fun x' properX => ?_
      refine (properF.mkApp properX).bind fun t' properT => ?_
      split
      next bound body argument =>
        exact ih properT.function.body properT.argument
      next => exact gives_pure properT
    | lam bound body =>
      rw [Term.substituteWithin]
      split
      · exact gives_pure proper
      · split
        · have fresh : (var (renamedBound bound body value.freeNames)).Proper :=
            proper_var proper.plain.1
          refine (ih proper.body fresh).bind fun body' properB => ?_
          refine (ih properB properV).bind fun body'' properB' => ?_
          exact gives_lift fun t built => fresh.mkLam properB' built
        · refine (ih proper.body properV).bind fun body' properB => ?_
          exact gives_lift fun t built => proper.bound.mkLam properB built

/-- Substituting a proper value in a proper term gives a proper term. -/
theorem Proper.substitute (proper : t.Proper) (properV : value.Proper) (pattern : Term) :
    (t.substitute value pattern).Gives Proper :=
  (gives_any _).bind fun _ _ => Proper.substituteWithin _ proper properV

/-- Reducing a proper term gives a proper term. -/
theorem Proper.betaReduce (proper : t.Proper) : t.betaReduce.Gives Proper := by
  match t with
  | app (lam bound body) argument =>
    exact proper.function.body.substitute proper.argument (var bound)
  | app (const _) _ => exact gives_pure proper
  | app (var _) _ => exact gives_pure proper
  | app (app _ _) _ => exact gives_pure proper
  | const _ => exact gives_pure proper
  | var _ => exact gives_pure proper
  | lam _ _ => exact gives_pure proper

/-- The default term is proper. -/
theorem proper_default : (default : Term).Proper := proper_const (show isPlain "" = true by decide)

end Term

/-! ## Matching -/

/-- The parts that the variables of a pattern stand for are proper. -/
def Bindings.Proper (bindings : Bindings) : Prop := ∀ entry ∈ bindings, entry.2.Proper

/-- Each part of proper bindings is proper. -/
theorem Bindings.Proper.part {bindings : Bindings} (propers : bindings.Proper) (name : String) :
    (Rule.part bindings name).Proper := by
  rw [Rule.part, Bindings.value]
  cases found : bindings.lookup name with
  | none => exact Term.proper_default
  | some t =>
    obtain ⟨before, after, rfl, _⟩ := List.lookup_eq_some_iff.mp found
    exact propers (name, t) (by simp)

/-- Binding a proper term keeps bindings proper. -/
theorem Term.Proper.bindPattern {t : Term} {v : Symbol} {bindings bindings' : Bindings}
    (propers : bindings.Proper) (proper : t.Proper)
    (bound : Term.bindPattern bindings v t = .ok bindings') : bindings'.Proper := by
  rw [Term.bindPattern] at bound
  split at bound
  · split at bound
    · cases bound
      intro entry member
      rcases List.mem_append.mp member with old | new
      · exact propers entry old
      · rw [List.mem_singleton.mp new]
        exact proper
    · split at bound
      · cases bound
        exact propers
      · cases bound
  · cases bound

/-- Matching gives parts of the term that is matched. -/
theorem Term.Proper.matchFrom {pattern : Term} :
    ∀ {t : Term} {bindings bindings' : Bindings}, bindings.Proper → t.Proper →
      Term.matchFrom bindings pattern t = .ok bindings' → bindings'.Proper := by
  induction pattern with
  | var v =>
    intro t bindings bindings' propers proper done
    rw [Term.matchFrom] at done
    exact Term.Proper.bindPattern propers proper done
  | const p =>
    intro t bindings bindings' propers proper done
    match t with
    | .const c =>
      rw [Term.matchFrom] at done
      split at done
      · cases done
        exact propers
      · cases done
    | .var _ => cases done
    | .app _ _ => cases done
    | .lam _ _ => cases done
  | app p q ihP ihQ =>
    intro t bindings bindings' propers proper done
    match t with
    | .app f x =>
      rw [Term.matchFrom] at done
      obtain ⟨middle, first, done⟩ := Formula.bind_ok done
      exact ihQ (ihP propers proper.function first) proper.argument done
    | .const _ => cases done
    | .var _ => cases done
    | .lam _ _ => cases done
  | lam p q ih =>
    intro t bindings bindings' propers proper done
    match t with
    | .lam v body =>
      rw [Term.matchFrom] at done
      obtain ⟨middle, first, done⟩ := Formula.bind_ok done
      exact ih (Term.Proper.bindPattern propers proper.bound first) proper.body done
    | .const _ => cases done
    | .var _ => cases done
    | .app _ _ => cases done

/-! ## Goals and theories -/

/-- The formulas of a goal are proper. -/
def Sequent.Proper (goal : Sequent) : Prop := ∀ t ∈ goal.left ++ goal.right, t.Proper

namespace Sequent

variable {goal : Sequent} {l r : List Term}

/-- A sequent of proper terms is proper. -/
theorem proper_mk (propersLeft : ∀ t ∈ l, t.Proper) (propersRight : ∀ t ∈ r, t.Proper) :
    (⟨l, r⟩ : Sequent).Proper := by
  intro t member
  rcases List.mem_append.mp member with inLeft | inRight
  · exact propersLeft t inLeft
  · exact propersRight t inRight

/-- The terms on the left of a proper sequent are proper. -/
theorem Proper.left (proper : goal.Proper) : ∀ t ∈ goal.left, t.Proper := fun t member =>
  proper t (List.mem_append_left _ member)

/-- The terms on the right of a proper sequent are proper. -/
theorem Proper.right (proper : goal.Proper) : ∀ t ∈ goal.right, t.Proper := fun t member =>
  proper t (List.mem_append_right _ member)

/-- The terms on each side of a proper sequent are proper. -/
theorem Proper.side (proper : goal.Proper) (side : Side) : ∀ t ∈ goal.side side, t.Proper := by
  cases side with
  | left => exact proper.left
  | right => exact proper.right

/-- Giving variables of one name one type keeps formulas proper. -/
theorem make_proper (propersLeft : ∀ t ∈ l, t.Proper) (propersRight : ∀ t ∈ r, t.Proper)
    (made : Sequent.make l r = .ok goal) : goal.Proper := by
  rw [Sequent.make] at made
  split at made
  · cases made
    exact proper_mk propersLeft propersRight
  · obtain ⟨u, joined, made⟩ := Formula.bind_ok made
    cases made
    have propers : ∀ t ∈ l ++ r, t.Proper := proper_mk propersLeft propersRight
    have unified : unifyTypes (l ++ r) = .ok ((l ++ r).map (Term.applyTypes u)) := by
      rw [unifyTypes, joined]
      rfl
    have results := (Term.unifyTypes_proper propers unified).1
    rw [List.map_append] at results
    exact results

end Sequent

/-- What rules take from a theory is proper. -/
structure Theory.Proper (th : Theory) : Prop where
  /-- The terms that show shapes. -/
  shapes : ∀ entry ∈ th.shapes, entry.2.Proper
  /-- The definitions and both of their sides. -/
  definitions : ∀ d ∈ th.definitions, d.atom.Proper ∧ d.value.Proper ∧ d.equation.Proper
  /-- The postulated formulas. -/
  postulates : ∀ p ∈ th.postulates, p.formula.Proper

/-- Taking apart a formula of a proper sequent gives proper parts. -/
theorem Sequent.Proper.parts {goal : Sequent} (proper : goal.Proper) (th : Theory) (side : Side)
    (index : Nat) (s : Shape) : (th.parts goal side index s).Gives Bindings.Proper := by
  rw [Theory.parts]
  split
  next => exact gives_throw _
  next formula found =>
    have properF := proper.side side formula (List.mem_of_getElem? found)
    refine (gives_any _).bind fun pattern _ => ?_
    split
    next bindings done =>
      exact gives_pure (Term.Proper.matchFrom (by simp [Bindings.Proper]) properF done)
    next => exact gives_throw _

/-- The parts that are known of a proper sequent are proper. -/
theorem Sequent.Proper.knownParts {goal : Sequent} (proper : goal.Proper) (th : Theory)
    (side : Side) (s : Shape) : (th.knownParts goal side s).Proper := by
  rw [Theory.knownParts]
  split
  next formula pattern found _ =>
    have properF := proper.side side formula (List.mem_of_getElem? found)
    split
    next bindings done => exact Term.Proper.matchFrom (by simp [Bindings.Proper]) properF done
    next => simp [Bindings.Proper]
  next => simp [Bindings.Proper]

/-! ## Primitive rules -/

namespace Rule

variable {goal : Sequent} {th : Theory} {l r : List Term}

/-- Several goals, all of them proper. -/
def AllProper (goals : List Sequent) : Prop := ∀ g ∈ goals, g.Proper

/-- A primitive rule keeps sequents proper if its function does. -/
theorem primitive_keeps {name : String} {args : List Arg}
    {apply : Sequent → Build (List Sequent)}
    (safe : ∀ goal : Sequent, goal.Proper → (apply goal).Gives AllProper) :
    (primitive name args apply).Keeps Sequent.Proper :=
  fun goal proper => (safe goal proper).reported _

/-- Leaving one goal of proper terms leaves a proper goal. -/
theorem one_proper (left : ∀ t ∈ l, t.Proper) (right : ∀ t ∈ r, t.Proper) :
    (liftM (one l r) : Build (List Sequent)).Gives AllProper := by
  refine gives_lift fun goals done => ?_
  rw [one] at done
  obtain ⟨goal, made, done⟩ := Formula.bind_ok done
  cases done
  intro g member
  rw [List.mem_singleton.mp member]
  exact Sequent.make_proper left right made

/-- A sequent that is made of proper terms is proper. -/
theorem make_gives (left : ∀ t ∈ l, t.Proper) (right : ∀ t ∈ r, t.Proper) :
    (liftM (Sequent.make l r) : Build Sequent).Gives Sequent.Proper :=
  gives_lift fun _ made => Sequent.make_proper left right made

/-- Permuting brings in no formulas. -/
theorem permuted_subset {index : Int} {formulas : List Term}
    (done : permuted l index = .ok formulas) : formulas ⊆ l := by
  rw [permuted] at done
  split at done
  · cases done
  · split at done
    · cases done
    next formula found =>
      cases done
      intro t member
      rcases List.mem_cons.mp member with rfl | rest
      · exact List.mem_of_getElem? found
      · exact List.mem_of_mem_eraseIdx rest

/-- Contracting brings in no formulas. -/
theorem contracted_subset {formulas : List Term} (done : contracted l = .ok formulas) :
    formulas ⊆ l := by
  match l with
  | [] => cases done
  | formula :: rest =>
    cases done
    intro t member
    simpa using member

/-- Weakening brings in no formulas. -/
theorem weakened_subset {formulas : List Term} (done : weakened l = .ok formulas) :
    formulas ⊆ l := by
  match l with
  | [] => cases done
  | formula :: rest =>
    cases done
    exact List.subset_cons_self _ _

/-- A proper term before proper terms. -/
theorem cons_proper {t : Term} (proper : t.Proper) (propers : ∀ t ∈ l, t.Proper) :
    ∀ t' ∈ t :: l, t'.Proper := by
  intro t' member
  rcases List.mem_cons.mp member with rfl | rest
  · exact proper
  · exact propers t' rest

/-- Proper terms without the first one. -/
theorem tail_proper (propers : ∀ t ∈ l, t.Proper) : ∀ t ∈ l.tail, t.Proper := fun t member =>
  propers t (List.mem_of_mem_tail member)

/-- The first of some proper terms, or the default term, is proper. -/
theorem headD_proper (propers : ∀ t ∈ l, t.Proper) : (l.headD default).Proper := by
  match l with
  | [] => exact Term.proper_default
  | t :: _ => exact propers t (by simp)

/-- The head of a proper term is proper. -/
theorem head_proper {t : Term} (proper : t.Proper) : t.head.Proper := by
  induction t with
  | const s => exact proper
  | var s => exact proper
  | app f x ihF ihX => exact ihF proper.function
  | lam v body ih => exact proper

/-- Permutation on the left keeps goals proper. -/
@[simp] theorem leftPermutation_keeps (index : Int) :
    (leftPermutation index).Keeps Sequent.Proper := by
  refine primitive_keeps fun goal proper => ?_
  refine (gives_lift fun formulas done => permuted_subset done).bind fun formulas inside => ?_
  exact one_proper (fun t member => proper.left t (inside member)) proper.right

/-- Permutation on the right keeps goals proper. -/
@[simp] theorem rightPermutation_keeps (index : Int) :
    (rightPermutation index).Keeps Sequent.Proper := by
  refine primitive_keeps fun goal proper => ?_
  refine (gives_lift fun formulas done => permuted_subset done).bind fun formulas inside => ?_
  exact one_proper proper.left fun t member => proper.right t (inside member)

/-- Contraction on the left keeps goals proper. -/
@[simp] theorem leftContraction_keeps : leftContraction.Keeps Sequent.Proper := by
  refine primitive_keeps fun goal proper => ?_
  refine (gives_lift fun formulas done => contracted_subset done).bind fun formulas inside => ?_
  exact one_proper (fun t member => proper.left t (inside member)) proper.right

/-- Contraction on the right keeps goals proper. -/
@[simp] theorem rightContraction_keeps : rightContraction.Keeps Sequent.Proper := by
  refine primitive_keeps fun goal proper => ?_
  refine (gives_lift fun formulas done => contracted_subset done).bind fun formulas inside => ?_
  exact one_proper proper.left fun t member => proper.right t (inside member)

/-- Weakening on the left keeps goals proper. -/
@[simp] theorem leftWeakening_keeps : leftWeakening.Keeps Sequent.Proper := by
  refine primitive_keeps fun goal proper => ?_
  refine (gives_lift fun formulas done => weakened_subset done).bind fun formulas inside => ?_
  exact one_proper (fun t member => proper.left t (inside member)) proper.right

/-- Weakening on the right keeps goals proper. -/
@[simp] theorem rightWeakening_keeps : rightWeakening.Keeps Sequent.Proper := by
  refine primitive_keeps fun goal proper => ?_
  refine (gives_lift fun formulas done => weakened_subset done).bind fun formulas inside => ?_
  exact one_proper proper.left fun t member => proper.right t (inside member)

/-- Doing nothing keeps goals proper. -/
@[simp] theorem noop_keeps : noop.Keeps Sequent.Proper :=
  primitive_keeps fun goal proper => gives_pure (by simpa [AllProper] using proper)

/-- Closing a goal keeps goals proper. -/
@[simp] theorem close_keeps : close.Keeps Sequent.Proper := by
  refine primitive_keeps fun goal proper => ?_
  split
  · split
    · exact gives_pure (by simp [AllProper])
    · exact gives_lift fun _ done => nomatch done
  · exact gives_lift fun _ done => nomatch done

/-- A cut with a proper formula keeps goals proper. -/
@[simp] theorem cut_keeps {witness : Term} (properW : witness.Proper) :
    (cut witness).Keeps Sequent.Proper := by
  refine primitive_keeps fun goal proper => ?_
  refine (make_gives proper.left (cons_proper properW proper.right)).bind fun prove first => ?_
  refine (make_gives (cons_proper properW proper.left) proper.right).bind fun use second => ?_
  refine gives_pure ?_
  simp only [AllProper, List.mem_cons, List.not_mem_nil, or_false, forall_eq_or_imp, forall_eq]
  exact ⟨first, second⟩

/-- Negation on the left keeps goals proper. -/
@[simp] theorem leftNegation_keeps : (leftNegation th).Keeps Sequent.Proper := by
  refine primitive_keeps fun goal proper => ?_
  refine (proper.parts th .left 0 .negation).bind fun m propers => ?_
  exact one_proper (tail_proper proper.left) (cons_proper (propers.part "a") proper.right)

/-- Negation on the right keeps goals proper. -/
@[simp] theorem rightNegation_keeps : (rightNegation th).Keeps Sequent.Proper := by
  refine primitive_keeps fun goal proper => ?_
  refine (proper.parts th .right 0 .negation).bind fun m propers => ?_
  exact one_proper (cons_proper (propers.part "a") proper.left) (tail_proper proper.right)

/-- Disjunction on the left keeps goals proper. -/
@[simp] theorem leftDisjunction_keeps : (leftDisjunction th).Keeps Sequent.Proper := by
  refine primitive_keeps fun goal proper => ?_
  refine (proper.parts th .left 0 .disjunction).bind fun m propers => ?_
  have rest := tail_proper proper.left
  refine (make_gives (cons_proper (propers.part "a") rest) proper.right).bind fun first good => ?_
  refine (make_gives (cons_proper (propers.part "b") rest) proper.right).bind fun second good' => ?_
  refine gives_pure ?_
  simp only [AllProper, List.mem_cons, List.not_mem_nil, or_false, forall_eq_or_imp, forall_eq]
  exact ⟨good, good'⟩

/-- Disjunction on the right keeps goals proper. -/
@[simp] theorem rightDisjunction_keeps : (rightDisjunction th).Keeps Sequent.Proper := by
  refine primitive_keeps fun goal proper => ?_
  refine (proper.parts th .right 0 .disjunction).bind fun m propers => ?_
  exact one_proper proper.left
    (cons_proper (propers.part "a") (cons_proper (propers.part "b") (tail_proper proper.right)))

/-- An instance on the left keeps goals proper for a proper witness. -/
@[simp] theorem leftUniversal_keeps {witness : Term} (properW : witness.Proper) :
    (leftUniversal th witness).Keeps Sequent.Proper := by
  refine primitive_keeps fun goal proper => ?_
  refine (proper.parts th .left 0 .universal).bind fun m propers => ?_
  refine ((propers.part "phi").substitute properW _).bind fun t properT => ?_
  exact one_proper (cons_proper properT proper.left) proper.right

/-- An instance on the right keeps goals proper for a proper witness. -/
@[simp] theorem rightUniversal_keeps {witness : Term} (properW : witness.Proper) :
    (rightUniversal th witness).Keeps Sequent.Proper := by
  refine primitive_keeps fun goal proper => ?_
  refine (proper.parts th .right 0 .universal).bind fun m propers => ?_
  split
  · split
    · exact gives_lift fun _ done => nomatch done
    · refine ((propers.part "phi").substitute properW _).bind fun t properT => ?_
      exact one_proper proper.left (cons_proper properT (tail_proper proper.right))
  · exact gives_lift fun _ done => nomatch done

/-- An instance of a schema keeps goals proper for a proper predicate. -/
@[simp] theorem leftSchema_keeps {witness : Term} (properW : witness.Proper) :
    (leftSchema th witness).Keeps Sequent.Proper := by
  refine primitive_keeps fun goal proper => ?_
  refine (proper.parts th .left 0 .schema).bind fun m propers => ?_
  refine ((propers.part "psi").substitute properW _).bind fun t properT => ?_
  exact one_proper (cons_proper properT proper.left) proper.right

/-- Substitution on the left keeps goals proper. -/
@[simp] theorem leftSubstitution_keeps : (leftSubstitution th).Keeps Sequent.Proper := by
  refine primitive_keeps fun goal proper => ?_
  refine (proper.parts th .left 1 .equation).bind fun m propers => ?_
  refine ((headD_proper proper.left).substitute (propers.part "b") _).bind fun t properT => ?_
  exact one_proper (cons_proper properT (tail_proper proper.left)) proper.right

/-- Substitution on the right keeps goals proper. -/
@[simp] theorem rightSubstitution_keeps : (rightSubstitution th).Keeps Sequent.Proper := by
  refine primitive_keeps fun goal proper => ?_
  refine (proper.parts th .left 0 .equation).bind fun m propers => ?_
  have right := proper.right
  split
  · exact gives_lift fun _ done => nomatch done
  next formula rest shown =>
    rw [shown] at right
    refine ((right formula (by simp)).substitute (propers.part "b") _).bind fun t properT => ?_
    exact one_proper proper.left
      (cons_proper properT fun t member => right t (List.mem_cons_of_mem _ member))

/-- Exchanging the sides of a proper equation gives a proper term. -/
theorem flipped_proper {equation : Term} {m : Bindings} (proper : equation.Proper)
    (propers : m.Proper) : (flipped equation m).Gives Term.Proper := by
  refine (head_proper proper).mkApps ?_
  simp only [List.mem_cons, List.not_mem_nil, or_false, forall_eq_or_imp, forall_eq]
  exact ⟨propers.part "b", propers.part "a"⟩

/-- Symmetry on the left keeps goals proper. -/
@[simp] theorem leftSymmetry_keeps : (leftSymmetry th).Keeps Sequent.Proper := by
  refine primitive_keeps fun goal proper => ?_
  refine (proper.parts th .left 0 .equation).bind fun m propers => ?_
  refine (flipped_proper (headD_proper proper.left) propers).bind fun t properT => ?_
  exact one_proper (cons_proper properT (tail_proper proper.left)) proper.right

/-- Symmetry on the right keeps goals proper. -/
@[simp] theorem rightSymmetry_keeps : (rightSymmetry th).Keeps Sequent.Proper := by
  refine primitive_keeps fun goal proper => ?_
  refine (proper.parts th .right 0 .equation).bind fun m propers => ?_
  refine (flipped_proper (headD_proper proper.right) propers).bind fun t properT => ?_
  exact one_proper proper.left (cons_proper properT (tail_proper proper.right))

/-- Assuming a postulate of a proper theory keeps goals proper. -/
@[simp] theorem theoremCut_keeps (properTh : th.Proper) (name : Text.Octets) :
    (theoremCut th name).Keeps Sequent.Proper := by
  refine primitive_keeps fun goal proper => ?_
  split
  · exact gives_lift fun _ done => nomatch done
  next formula found =>
    obtain ⟨p, listed, rfl⟩ := Option.map_eq_some_iff.mp found
    have properP := properTh.postulates p (List.mem_of_find?_eq_some listed)
    exact one_proper (cons_proper properP proper.left) proper.right

/-- Unfolding a definition of a proper theory gives a proper term. -/
theorem unfold_proper (properTh : th.Proper) {formula : Term} (proper : formula.Proper)
    (name : Text.Octets) : (unfold th formula name).Gives Term.Proper := by
  rw [unfold]
  split
  · exact gives_lift fun _ done => nomatch done
  next d found =>
    obtain ⟨_, properD, _⟩ := properTh.definitions d (List.mem_of_find?_eq_some found)
    refine (gives_any _).bind fun atoms _ => ?_
    refine (gives_foldlM (Q := fun state : Term × Bool => state.1.Proper) ?_ (formula, false)
      proper).bind fun state properS => ?_
    · intro state properS atom _
      refine (properS.substitute properD atom).bind fun unfolded properU => ?_
      exact gives_pure properU
    · obtain ⟨unfolded, replaced⟩ := state
      dsimp only
      split
      · exact gives_pure properS
      · exact gives_lift fun _ done => nomatch done

/-- Unfolding on the left keeps goals proper. -/
@[simp] theorem leftExpand_keeps (properTh : th.Proper) (name : Text.Octets) :
    (leftExpand th name).Keeps Sequent.Proper := by
  refine primitive_keeps fun goal proper => ?_
  have left := proper.left
  split
  · exact gives_lift fun _ done => nomatch done
  next formula rest shown =>
    rw [shown] at left
    refine (unfold_proper properTh (left formula (by simp)) name).bind fun t properT => ?_
    exact one_proper (cons_proper properT fun t member => left t (List.mem_cons_of_mem _ member))
      proper.right

/-- Unfolding on the right keeps goals proper. -/
@[simp] theorem rightExpand_keeps (properTh : th.Proper) (name : Text.Octets) :
    (rightExpand th name).Keeps Sequent.Proper := by
  refine primitive_keeps fun goal proper => ?_
  have right := proper.right
  split
  · exact gives_lift fun _ done => nomatch done
  next formula rest shown =>
    rw [shown] at right
    refine (unfold_proper properTh (right formula (by simp)) name).bind fun t properT => ?_
    exact one_proper proper.left
      (cons_proper properT fun t member => right t (List.mem_cons_of_mem _ member))

/-! ## Tactics -/

/-- A tactic keeps goals proper if its expansion does. -/
theorem fixed_keeps {name : String} {args : List Arg} {expansion : Plan}
    (keeps : expansion.Keeps Sequent.Proper) :
    (fixed name args expansion).Keeps Sequent.Proper := fun _ _ => keeps

/-- A tactic on a shape keeps goals proper if its expansion does on proper parts. -/
theorem onShape_keeps {name : String} {args : List Arg} {side : Side} {s : Shape}
    {expansion : Bindings → Plan}
    (keeps : ∀ m : Bindings, m.Proper → (expansion m).Keeps Sequent.Proper) :
    (onShape th name args side s expansion).Keeps Sequent.Proper := fun _ proper =>
  keeps _ (proper.knownParts th side s)

/-- A sequence keeps goals proper if its plans do. -/
@[simp] theorem sequence_keeps {first : Plan} {rest : List Plan} :
    (Plan.sequence first rest).Keeps Sequent.Proper ↔
      ∀ p ∈ first :: rest, p.Keeps Sequent.Proper := by
  induction rest generalizing first with
  | nil => simp [Plan.sequence]
  | cons next rest ih => simp [Plan.sequence, Plan.Keeps, Plan.KeepsAll, ih]

/-- A branch keeps goals proper if its plans do. -/
@[simp] theorem branch_keeps {first : Plan} {rest : List Plan} :
    (Plan.branch first rest).Keeps Sequent.Proper ↔
      ∀ p ∈ first :: rest, p.Keeps Sequent.Proper := by
  simp [Plan.Keeps, Plan.keepsAll_iff]

/-- Looking for a formula on both sides keeps goals proper. -/
@[simp] theorem qed_keeps : qed.Keeps Sequent.Proper := by
  intro goal _
  simp

variable {witness : Term}

/-- The tactic for a conjunction on the left keeps goals proper. -/
@[simp] theorem leftConjunction_keeps (properTh : th.Proper) :
    (leftConjunction th).Keeps Sequent.Proper :=
  fixed_keeps (by simp [leftUnfold, properTh])

/-- The tactic for a conjunction on the right keeps goals proper. -/
@[simp] theorem rightConjunction_keeps (properTh : th.Proper) :
    (rightConjunction th).Keeps Sequent.Proper :=
  fixed_keeps (by simp [rightUnfold, properTh])

/-- The tactic for an implication on the left keeps goals proper. -/
@[simp] theorem leftImplication_keeps (properTh : th.Proper) :
    (leftImplication th).Keeps Sequent.Proper :=
  fixed_keeps (by simp [leftUnfold, properTh])

/-- The tactic for an implication on the right keeps goals proper. -/
@[simp] theorem rightImplication_keeps (properTh : th.Proper) :
    (rightImplication th).Keeps Sequent.Proper :=
  fixed_keeps (by simp [rightUnfold, properTh])

/-- The tactic for an equivalence on the right keeps goals proper. -/
@[simp] theorem rightBidirectional_keeps (properTh : th.Proper) :
    (rightBidirectional th).Keeps Sequent.Proper :=
  fixed_keeps (by simp [rightUnfold, properTh])

/-- The tactic for an equivalence on the left keeps goals proper. -/
@[simp] theorem leftBidirectional_keeps (properTh : th.Proper) :
    (leftBidirectional th).Keeps Sequent.Proper :=
  fixed_keeps (by simp [leftUnfold, properTh])

/-- The tactic for existence on the right keeps goals proper for a proper witness. -/
@[simp] theorem rightExistential_keeps (properTh : th.Proper) (properW : witness.Proper) :
    (rightExistential th witness).Keeps Sequent.Proper :=
  fixed_keeps (by simp [rightUnfold, properTh, properW])

/-- The tactic for existence on the left keeps goals proper for a proper witness. -/
@[simp] theorem leftExistential_keeps (properTh : th.Proper) (properW : witness.Proper) :
    (leftExistential th witness).Keeps Sequent.Proper :=
  fixed_keeps (by simp [leftUnfold, properTh, properW])

/-- Excluded middle keeps goals proper. -/
@[simp] theorem excludedMiddle_keeps : (excludedMiddle th).Keeps Sequent.Proper :=
  fixed_keeps (by simp)

/-- Extension on the right keeps goals proper for a proper witness. -/
@[simp] theorem rightExtension_keeps (properTh : th.Proper) (properW : witness.Proper) :
    (rightExtension th witness).Keeps Sequent.Proper := by
  refine onShape_keeps fun m propers => ?_
  simp [postulate, instantiate, properTh, properW, propers.part]

/-- The tactic for a subset on the left keeps goals proper for a proper witness. -/
@[simp] theorem leftSubset_keeps (properTh : th.Proper) (properW : witness.Proper) :
    (leftSubset th witness).Keeps Sequent.Proper :=
  fixed_keeps (by simp [leftUnfold, instantiate, properTh, properW])

/-- The tactic for a subset on the right keeps goals proper for a proper witness. -/
@[simp] theorem rightSubset_keeps (properTh : th.Proper) (properW : witness.Proper) :
    (rightSubset th witness).Keeps Sequent.Proper :=
  fixed_keeps (by simp [rightUnfold, properTh, properW])

/-- The tactic for a power set on the left keeps goals proper. -/
@[simp] theorem leftPowerset_keeps (properTh : th.Proper) :
    (leftPowerset th).Keeps Sequent.Proper := by
  refine onShape_keeps fun m propers => ?_
  simp [powersetMeaning, postulate, instantiate, properTh, propers.part]

/-- The tactic for a power set on the right keeps goals proper. -/
@[simp] theorem rightPowerset_keeps (properTh : th.Proper) :
    (rightPowerset th).Keeps Sequent.Proper := by
  refine onShape_keeps fun m propers => ?_
  simp [powersetMeaning, postulate, instantiate, properTh, propers.part]

/-- Separation on the right keeps goals proper. -/
@[simp] theorem rightSeparation_keeps (properTh : th.Proper) :
    (rightSeparation th).Keeps Sequent.Proper := by
  refine onShape_keeps fun m propers => ?_
  simp [separationMeaning, postulate, instantiate, properTh, propers.part]

/-- Separation on the left keeps goals proper. -/
@[simp] theorem leftSeparation_keeps (properTh : th.Proper) :
    (leftSeparation th).Keeps Sequent.Proper := by
  refine onShape_keeps fun m propers => ?_
  simp [separationMeaning, postulate, instantiate, properTh, propers.part]

/-! ## The catalogue -/

/-- The terms among arguments are proper. -/
def ProperArgs (args : List Arg) : Prop := ∀ t, Arg.term t ∈ args → t.Proper

/-- A rule's descriptor builds plans that keep goals proper. -/
def Safe (d : Descriptor) : Prop :=
  ∀ th : Theory, th.Proper → ∀ args, ProperArgs args →
    (d.build th args).Gives (Plan.Keeps Sequent.Proper)

variable {d : Descriptor}

/-- A rule without arguments is safe if its plan keeps goals proper. -/
theorem Safe.plain {f : Theory → Plan} (build : d.build = Rule.plain f)
    (safe : ∀ th : Theory, th.Proper → (f th).Keeps Sequent.Proper) : Safe d := by
  intro th properTh args _
  rw [build]
  exact gives_pure (safe th properTh)

/-- A rule about a term is safe if its plan keeps goals proper for each proper term. -/
theorem Safe.onTerm {f : Theory → Term → Plan} (build : d.build = Rule.onTerm f)
    (safe : ∀ th : Theory, th.Proper → ∀ t : Term, t.Proper → (f th t).Keeps Sequent.Proper) :
    Safe d := by
  intro th properTh args properArgs
  rw [build, Rule.onTerm.eq_def]
  split
  · exact gives_pure (safe th properTh _ (properArgs _ (by simp)))
  · exact gives_pure noop_keeps

/-- A rule about a number is safe if its plan keeps goals proper for each number. -/
theorem Safe.onInt {f : Theory → Int → Plan} (build : d.build = Rule.onInt f)
    (safe : ∀ th i, (f th i).Keeps Sequent.Proper) : Safe d := by
  intro th _ args _
  rw [build, Rule.onInt.eq_def]
  split
  · exact gives_pure (safe _ _)
  · exact gives_pure noop_keeps

/-- A rule about a name is safe if its plan keeps goals proper for each name. -/
theorem Safe.onString {f : Theory → Text.Octets → Plan} (build : d.build = Rule.onString f)
    (safe : ∀ th : Theory, th.Proper → ∀ name, (f th name).Keeps Sequent.Proper) : Safe d := by
  intro th properTh args _
  rw [build, Rule.onString.eq_def]
  split
  · exact gives_pure (safe th properTh _)
  · exact gives_pure noop_keeps

/-- The structural rules are safe. -/
theorem structuralRules_safe : ∀ d ∈ structuralRules, Safe d := by
  simp only [structuralRules, List.forall_mem_cons, List.not_mem_nil, false_imp_iff, implies_true,
    and_true]
  exact ⟨fun _ _ _ _ => (gives_any _).bind fun _ _ => gives_pure trivial,
    .onInt rfl fun _ => leftPermutation_keeps, .onInt rfl fun _ => rightPermutation_keeps,
    .plain rfl fun _ _ => leftContraction_keeps, .plain rfl fun _ _ => rightContraction_keeps,
    .plain rfl fun _ _ => leftWeakening_keeps, .plain rfl fun _ _ => rightWeakening_keeps,
    .plain rfl fun _ _ => noop_keeps⟩

/-- The logical rules are safe. -/
theorem logicalRules_safe : ∀ d ∈ logicalRules, Safe d := by
  simp only [logicalRules, List.forall_mem_cons, List.not_mem_nil, false_imp_iff, implies_true,
    and_true]
  exact ⟨.plain rfl fun _ _ => close_keeps, .onTerm rfl fun _ _ _ => cut_keeps,
    .plain rfl fun _ _ => leftNegation_keeps, .plain rfl fun _ _ => rightNegation_keeps,
    .plain rfl fun _ _ => leftDisjunction_keeps, .plain rfl fun _ _ => rightDisjunction_keeps,
    .onTerm rfl fun _ _ _ => leftUniversal_keeps, .onTerm rfl fun _ _ _ => rightUniversal_keeps,
    .onTerm rfl fun _ _ _ => leftSchema_keeps, .plain rfl fun _ _ => leftSubstitution_keeps,
    .plain rfl fun _ _ => rightSubstitution_keeps, .plain rfl fun _ _ => leftSymmetry_keeps,
    .plain rfl fun _ _ => rightSymmetry_keeps, .onString rfl fun _ => theoremCut_keeps,
    .onString rfl fun _ => leftExpand_keeps, .onString rfl fun _ => rightExpand_keeps⟩

/-- The tactics are safe. -/
theorem derivedRules_safe : ∀ d ∈ derivedRules, Safe d := by
  simp only [derivedRules, List.forall_mem_cons, List.not_mem_nil, false_imp_iff, implies_true,
    and_true]
  exact ⟨.plain rfl fun _ _ => qed_keeps, .plain rfl fun _ => leftConjunction_keeps,
    .plain rfl fun _ => rightConjunction_keeps, .plain rfl fun _ => leftImplication_keeps,
    .plain rfl fun _ => rightImplication_keeps, .plain rfl fun _ => leftBidirectional_keeps,
    .plain rfl fun _ => rightBidirectional_keeps,
    .onTerm rfl fun _ proper _ => leftExistential_keeps proper,
    .onTerm rfl fun _ proper _ => rightExistential_keeps proper,
    .plain rfl fun _ _ => excludedMiddle_keeps⟩

/-- The rules of set theory are safe. -/
theorem setRules_safe : ∀ d ∈ setRules, Safe d := by
  simp only [setRules, List.forall_mem_cons, List.not_mem_nil, false_imp_iff, implies_true,
    and_true]
  exact ⟨.onTerm rfl fun _ proper _ => rightExtension_keeps proper,
    .onTerm rfl fun _ proper _ => leftSubset_keeps proper,
    .onTerm rfl fun _ proper _ => rightSubset_keeps proper,
    .plain rfl fun _ => leftPowerset_keeps, .plain rfl fun _ => rightPowerset_keeps,
    .plain rfl fun _ => leftSeparation_keeps, .plain rfl fun _ => rightSeparation_keeps⟩

/-- Every rule of the catalogue keeps goals proper. -/
theorem catalogue_safe : ∀ d ∈ catalogue, Safe d := by
  simp only [catalogue, List.forall_mem_append]
  exact ⟨⟨⟨structuralRules_safe, logicalRules_safe⟩, derivedRules_safe⟩, setRules_safe⟩

end Rule

end Turnstile
