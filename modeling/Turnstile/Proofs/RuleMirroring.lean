import Turnstile.Proofs.Orders
import Turnstile.Proofs.ReadingMirroring

/-!
# Rules under a renaming

Matching, the rules and the tactics do on renamed goals what they do on the goals. The renaming
must leave the theory's own terms as they are; the fresh variables of a run it moves along with
the run. `Plan.Mirrors` says this of two plans node by node, and then it holds of their runs.
-/

namespace Turnstile

open Build Renaming

variable {ρ : Renaming}

/-! ## Matching -/

/-- Two computations succeed with related results, or both fail. -/
inductive Agrees {α β : Type} (R : α → β → Prop) : Except Failure α → Except Failure β → Prop
  /-- Both succeed. -/
  | ok {a : α} {b : β} (related : R a b) : Agrees R (.ok a) (.ok b)
  /-- Both fail, not necessarily with the same message. -/
  | error {failure failure' : Failure} : Agrees R (.error failure) (.error failure')

/-- Agreeing computations that go on in agreement agree as a whole. -/
theorem Agrees.bind {α β γ δ : Type} {R : α → β → Prop} {S : γ → δ → Prop}
    {first : Except Failure α} {second : Except Failure β} {next : α → Except Failure γ}
    {next' : β → Except Failure δ} (agrees : Agrees R first second)
    (continues : ∀ a b, R a b → Agrees S (next a) (next' b)) :
    Agrees S (first >>= next) (second >>= next') := by
  cases agrees with
  | ok related => exact continues _ _ related
  | error => exact .error

/-- The same pattern variables, standing for renamed terms. -/
def Renaming.TakesParts (ρ : Renaming) : Bindings → Bindings → Prop :=
  List.Forall₂ fun entry entry' => entry'.1 = entry.1 ∧ ρ.Takes entry.2 entry'.2

namespace Renaming

variable {m m' : Bindings} {t t' : Term} {v : Symbol}

/-- A pattern variable stands for something on both sides or on neither. -/
theorem TakesParts.lookup (parts : ρ.TakesParts m m') (name : String) :
    (m.lookup name = none ∧ m'.lookup name = none) ∨
      ∃ t t', m.lookup name = some t ∧ m'.lookup name = some t' ∧ ρ.Takes t t' := by
  induction parts with
  | nil => exact .inl ⟨rfl, rfl⟩
  | @cons entry entry' _ _ first _ ih =>
    obtain ⟨key, t⟩ := entry
    obtain ⟨key', t'⟩ := entry'
    obtain ⟨rfl, takes⟩ := first
    rw [List.lookup_cons, List.lookup_cons]
    cases here : name == key' with
    | true => exact .inr ⟨t, t', rfl, rfl, takes⟩
    | false => exact ih

/-- The renaming takes each part to the part of its name. -/
theorem TakesParts.part (parts : ρ.TakesParts m m') (name : String) :
    ρ.Takes (Rule.part m name) (Rule.part m' name) := by
  rw [Rule.part, Rule.part, Bindings.value, Bindings.value]
  rcases parts.lookup name with ⟨here, here'⟩ | ⟨t, t', here, here', takes⟩
  · rw [here, here']
    exact takes_default
  · rw [here, here']
    exact takes

/-- Binding a pattern variable in taken parts agrees. -/
theorem TakesParts.bindPattern (parts : ρ.TakesParts m m') (sound : (Term.var v).Sound)
    (takes : ρ.Takes t t') :
    Agrees ρ.TakesParts (Term.bindPattern m v t)
      (Term.bindPattern m' (v.under ρ.types) t') := by
  rw [Term.bindPattern, Term.bindPattern, Symbol.under_type, takes.type,
    Ty.renamed_canUnify sound.plain takes.sound.plain.type_plain, Symbol.under_name]
  split
  · rcases parts.lookup v.name with ⟨here, here'⟩ | ⟨known, known', here, here', takesK⟩
    · rw [here, here']
      exact .ok (List.rel_append parts (.cons ⟨rfl, takes⟩ .nil))
    · have keys : (known'.key == t'.key) = (known.key == t.key) := by
        rw [Bool.eq_iff_iff, beq_iff_eq, beq_iff_eq, takesK.renamed, takes.renamed]
        exact takesK.sound.renamed_key takes.sound
      rw [here, here']
      simp only [keys]
      split
      · exact .ok parts
      · exact .error
  · exact .error

/-- A renamed pattern is matched against a renamed term as the pattern is against the term. -/
theorem agrees_matchFrom {pattern : Term} : ∀ {t : Term} {m m' : Bindings}, pattern.Sound →
    t.Sound → ρ.TakesParts m m' →
      Agrees ρ.TakesParts (Term.matchFrom m pattern t)
        (Term.matchFrom m' (pattern.under ρ.types) (t.under ρ.types)) := by
  induction pattern with
  | const p =>
    intro t m m' soundP sound parts
    cases t with
    | const c =>
      simp only [Term.under_const, Term.matchFrom, Symbol.under_name, Symbol.under_type,
        Ty.renamed_canUnify soundP.plain sound.plain]
      split
      · exact .ok parts
      · exact .error
    | var s => exact .error
    | app f x => exact .error
    | lam v b => exact .error
  | var v =>
    intro t m m' soundP sound parts
    simp only [Term.under_var, Term.matchFrom]
    exact parts.bindPattern soundP (takes_of_sound ρ sound)
  | app p q ihP ihQ =>
    intro t m m' soundP sound parts
    cases t with
    | app f x =>
      simp only [Term.under_app, Term.matchFrom]
      refine (ihP soundP.function sound.function parts).bind fun n n' first => ?_
      exact ihQ soundP.argument sound.argument first
    | const s => exact .error
    | var s => exact .error
    | lam v b => exact .error
  | lam p q ih =>
    intro t m m' soundP sound parts
    cases t with
    | lam v b =>
      simp only [Term.under_lam, Term.matchFrom]
      refine (parts.bindPattern soundP.bound (takes_of_sound ρ sound.bound)).bind ?_
      exact fun n n' first => ih soundP.body sound.body first
    | const s => exact .error
    | var s => exact .error
    | app f x => exact .error

/-- Matching taken terms agrees. -/
theorem Takes.matchWith {pattern pattern' : Term} (takesP : ρ.Takes pattern pattern')
    (takes : ρ.Takes t t') :
    Agrees ρ.TakesParts (pattern.matchWith t) (pattern'.matchWith t') := by
  rw [takesP.renamed, takes.renamed]
  exact agrees_matchFrom takesP.sound takes.sound .nil

end Renaming

/-! ## Theories -/

/-- A renaming leaves the terms of a theory as they are, and these are sound. It takes along the
choices that unfolding makes. -/
structure Theory.FixedBy (th : Theory) (ρ : Renaming) : Prop where
  /-- Choices are taken along. -/
  choosing : ρ.choosing
  /-- Texts are read in a vocabulary of plain names. -/
  vocabulary : th.vocabulary.Labelled
  /-- The terms that show shapes. -/
  shapes : ∀ entry ∈ th.shapes, ρ.Takes entry.2 entry.2
  /-- The values of definitions. -/
  definitions : ∀ d ∈ th.definitions, ρ.Takes d.value d.value
  /-- The postulated formulas. -/
  postulates : ∀ p ∈ th.postulates, ρ.Takes p.formula p.formula

namespace Theory.FixedBy

variable {th : Theory} {goal goal' : Sequent}

/-- A shape that is found is one of the theory. -/
theorem shape_mem {s : Shape} {pattern : Term} (found : th.shapes.lookup s = some pattern) :
    (s, pattern) ∈ th.shapes := by
  obtain ⟨before, after, listed, _⟩ := List.lookup_eq_some_iff.mp found
  rw [listed]
  simp

/-- Looking up a shape is mirrored. -/
theorem shape (fixed : th.FixedBy ρ) (s : Shape) : Mirrors ρ ρ.Takes (th.shape s) (th.shape s) := by
  rw [Theory.shape]
  split
  next pattern found => exact mirrors_pure (fixed.shapes _ (shape_mem found))
  next => exact (fixed.vocabulary.parse s.pattern).within _ _

end Theory.FixedBy

namespace Renaming

variable {th : Theory} {goal goal' : Sequent} {l l' : List Term}

/-- The formulas on each side of a taken goal are taken. -/
theorem TakesGoal.side (takes : ρ.TakesGoal goal goal') (side : Side) :
    List.Forall₂ ρ.Takes (goal.side side) (goal'.side side) := by
  cases side
  · exact takes.left
  · exact takes.right

/-- Renamed lists have renamed formulas in the same places. -/
theorem takes_getElem? (takes : List.Forall₂ ρ.Takes l l') (index : Nat) :
    (l[index]? = none ∧ l'[index]? = none) ∨
      ∃ t t', l[index]? = some t ∧ l'[index]? = some t' ∧ ρ.Takes t t' := by
  obtain ⟨sounds, rfl⟩ := takesAll_iff.mp takes
  rw [List.getElem?_map]
  cases found : l[index]? with
  | none => exact .inl ⟨rfl, rfl⟩
  | some t => exact .inr ⟨t, _, rfl, rfl, takes_of_sound ρ (sounds t (List.mem_of_getElem? found))⟩

/-- Taking a formula of a goal apart is mirrored. -/
theorem TakesGoal.parts (takes : ρ.TakesGoal goal goal') (fixed : th.FixedBy ρ) (side : Side)
    (index : Nat) (s : Shape) :
    Mirrors ρ ρ.TakesParts (th.parts goal side index s) (th.parts goal' side index s) := by
  rw [Theory.parts, Theory.parts]
  rcases takes_getElem? (takes.side side) index with ⟨here, _⟩ | ⟨t, t', here, here', taken⟩
  · rw [here]
    exact mirrors_throw _ _
  · rw [here, here']
    refine (fixed.shape s).bind fun pattern pattern' takesP => ?_
    have matched := takesP.matchWith taken
    generalize pattern.matchWith t = outcome at matched ⊢
    generalize pattern'.matchWith t' = outcome' at matched ⊢
    cases matched with
    | ok parts => exact mirrors_pure parts
    | error => exact mirrors_throw _ _

/-- The parts that are known are taken. -/
theorem TakesGoal.knownParts (takes : ρ.TakesGoal goal goal') (fixed : th.FixedBy ρ) (side : Side)
    (s : Shape) : ρ.TakesParts (th.knownParts goal side s) (th.knownParts goal' side s) := by
  rw [Theory.knownParts, Theory.knownParts]
  rcases takes_getElem? (takes.side side) 0 with ⟨here, here'⟩ | ⟨t, t', here, here', taken⟩
  · rw [here, here']
    exact .nil
  · rw [here, here']
    cases found : th.shapes.lookup s with
    | none => exact .nil
    | some pattern =>
      have matched := (fixed.shapes _ (Theory.FixedBy.shape_mem found)).matchWith taken
      dsimp only
      generalize pattern.matchWith t = outcome at matched ⊢
      generalize pattern.matchWith t' = outcome' at matched ⊢
      cases matched with
      | ok parts => exact parts
      | error => exact .nil

end Renaming

/-! ## Plans -/

/-- Two plans of one form. The rules of the second do on renamed goals what those of the first do
on the goals, and its tactics expand to such plans there. -/
inductive Plan.Mirrors (ρ : Renaming) : Plan → Plan → Prop
  /-- Open goals. -/
  | assumption (id id' : Nat) : Mirrors ρ (.assumption id) (.assumption id')
  /-- Rules. -/
  | rule {call call' : Call} {apply apply' : Sequent → Build (List Sequent)}
    (same : ∀ goal goal', ρ.TakesGoal goal goal' →
      Build.Mirrors ρ (List.Forall₂ ρ.TakesGoal) (apply goal) (apply' goal')) :
    Mirrors ρ (.rule call apply) (.rule call' apply')
  /-- Tactics. -/
  | compound {call call' : Call} {check check' : Sequent → Build Unit}
    {expansion expansion' : Sequent → Plan}
    (checks : ∀ goal goal', ρ.TakesGoal goal goal' →
      Build.Mirrors ρ (fun _ _ => True) (check goal) (check' goal'))
    (expands : ∀ goal goal', ρ.TakesGoal goal goal' →
      Mirrors ρ (expansion goal) (expansion' goal')) :
    Mirrors ρ (.compound call check expansion) (.compound call' check' expansion')
  /-- Branches. -/
  | branch {first first' : Plan} {branches branches' : List Plan} (head : Mirrors ρ first first')
    (rest : List.Forall₂ (Mirrors ρ) branches branches') :
    Mirrors ρ (.branch first branches) (.branch first' branches')

namespace Plan

/-- Branches mirror each other if heads and branches do. -/
@[simp] theorem mirrors_branch {first first' : Plan} {branches branches' : List Plan} :
    Plan.Mirrors ρ (.branch first branches) (.branch first' branches') ↔
      Plan.Mirrors ρ first first' ∧ List.Forall₂ (Plan.Mirrors ρ) branches branches' := by
  constructor
  · rintro ⟨⟩
    next head rest => exact ⟨head, rest⟩
  · rintro ⟨head, rest⟩
    exact .branch head rest

mutual

/-- Mirrored plans leave renamed goals open. -/
theorem Mirrors.subgoals : (p : Plan) → ∀ {p' : Plan}, Plan.Mirrors ρ p p' →
    ∀ {goal goal' : Sequent}, ρ.TakesGoal goal goal' →
      Build.Mirrors ρ (List.Forall₂ ρ.TakesGoal) (p.subgoals goal) (p'.subgoals goal')
  | .assumption id, _, .assumption _ id', goal, goal', takes => by
    rw [Plan.subgoals, Plan.subgoals]
    exact mirrors_pure (.cons takes .nil)
  | .rule call apply, _, .rule same, goal, goal', takes => by
    rw [Plan.subgoals, Plan.subgoals]
    exact same goal goal' takes
  | .compound call check expansion, _, .compound checks expands, goal, goal', takes => by
    rw [Plan.subgoals, Plan.subgoals]
    exact (checks goal goal' takes).bind fun _ _ _ =>
      Mirrors.subgoals (expansion goal) (expands goal goal' takes) takes
  | .branch first branches, _, .branch head rest, goal, goal', takes => by
    rw [Plan.subgoals, Plan.subgoals]
    refine (Mirrors.subgoals first head takes).bind fun goals goals' taken => ?_
    rw [taken.length_eq, rest.length_eq]
    split
    · exact Mirrors.subgoalsOf branches rest taken
    · exact mirrors_throw _ _

/-- Mirrored plans leave renamed goals open on one goal each. -/
theorem Mirrors.subgoalsOf : (plans : List Plan) → ∀ {plans' : List Plan},
    List.Forall₂ (Plan.Mirrors ρ) plans plans' → ∀ {goals goals' : List Sequent},
      List.Forall₂ ρ.TakesGoal goals goals' →
      Build.Mirrors ρ (List.Forall₂ ρ.TakesGoal) (Plan.subgoalsOf plans goals)
        (Plan.subgoalsOf plans' goals')
  | [], _, .nil, goals, goals', takes => by
    rw [Plan.subgoalsOf, Plan.subgoalsOf]
    · exact mirrors_pure .nil
    · simp
    · simp
  | p :: plans, _, .cons first rest, _, _, .nil => by
    rw [Plan.subgoalsOf, Plan.subgoalsOf]
    · exact mirrors_pure .nil
    · simp
    · simp
  | p :: plans, _, .cons first rest, _, _, .cons takes later => by
    rw [Plan.subgoalsOf, Plan.subgoalsOf]
    refine (Mirrors.subgoals p first takes).bind fun here here' taken => ?_
    refine (Mirrors.subgoalsOf plans rest later).bind fun more more' taken' => ?_
    exact mirrors_pure (List.rel_append taken taken')

end

end Plan

/-! ## Primitive rules -/

namespace Rule

variable {th : Theory} {l l' r r' : List Term} {goal goal' : Sequent} {witness witness' : Term}

/-- Primitive rules mirror each other if their functions do on taken goals. -/
theorem primitive_mirrors {name : String} {args args' : List Arg}
    {apply apply' : Sequent → Build (List Sequent)}
    (same : ∀ goal goal', ρ.TakesGoal goal goal' →
      Build.Mirrors ρ (List.Forall₂ ρ.TakesGoal) (apply goal) (apply' goal')) :
    Plan.Mirrors ρ (primitive name args apply) (primitive name args' apply') :=
  .rule fun goal goal' takes => (same goal goal' takes).reported _ _

/-- A refusal is mirrored by anything. -/
theorem refuse_mirrors {α β : Type} {R : α → β → Prop} (refusal : Refusal) (second : Build β) :
    Build.Mirrors ρ R (liftM (refuse refusal : Except Failure α) : Build α) second :=
  mirrors_of_fails (grows_lift _) (gives_lift (by intro a done; cases done)) second

/-- Leaving one goal of taken formulas is mirrored. -/
theorem one_mirrors (left : List.Forall₂ ρ.Takes l l') (right : List.Forall₂ ρ.Takes r r') :
    Build.Mirrors ρ (List.Forall₂ ρ.TakesGoal) (liftM (one l r) : Build (List Sequent))
      (liftM (one l' r') : Build (List Sequent)) :=
  mirrors_lift ((Sequent.follows_make left right).bind fun _ _ takes =>
    follows_ok (.cons takes .nil))

/-- Making a sequent of taken formulas is mirrored. -/
theorem make_mirrors (left : List.Forall₂ ρ.Takes l l') (right : List.Forall₂ ρ.Takes r r') :
    Build.Mirrors ρ ρ.TakesGoal (liftM (Sequent.make l r) : Build Sequent)
      (liftM (Sequent.make l' r') : Build Sequent) :=
  mirrors_lift (Sequent.follows_make left right)

/-- Formulas without the one at a place are taken. -/
theorem takes_eraseIdx (takes : List.Forall₂ ρ.Takes l l') (index : Nat) :
    List.Forall₂ ρ.Takes (l.eraseIdx index) (l'.eraseIdx index) := by
  induction takes generalizing index with
  | nil => exact .nil
  | cons first rest ih =>
    cases index with
    | zero => exact rest
    | succ index => exact .cons first (ih index)

/-- Formulas without the first one are taken. -/
theorem takes_tail (takes : List.Forall₂ ρ.Takes l l') :
    List.Forall₂ ρ.Takes l.tail l'.tail := by
  cases takes with
  | nil => exact .nil
  | cons _ rest => exact rest

/-- The first formula is taken. -/
theorem takes_headD (takes : List.Forall₂ ρ.Takes l l') :
    ρ.Takes (l.headD default) (l'.headD default) := by
  cases takes with
  | nil => exact takes_default
  | cons first _ => exact first

/-- Permuting taken formulas follows. -/
theorem permuted_follows (takes : List.Forall₂ ρ.Takes l l') (index : Int) :
    Follows (List.Forall₂ ρ.Takes) (permuted l index) (permuted l' index) := by
  rw [permuted, permuted]
  split
  · exact follows_error _ _
  · rcases takes_getElem? takes index.toNat with ⟨here, _⟩ | ⟨t, t', here, here', taken⟩
    · rw [here]
      exact follows_error _ _
    · rw [here, here']
      exact follows_ok (.cons taken (takes_eraseIdx takes _))

/-- Contracting taken formulas follows. -/
theorem contracted_follows (takes : List.Forall₂ ρ.Takes l l') :
    Follows (List.Forall₂ ρ.Takes) (contracted l) (contracted l') := by
  cases takes with
  | nil => exact follows_error _ _
  | cons first rest => exact follows_ok (.cons first (.cons first rest))

/-- Weakening taken formulas follows. -/
theorem weakened_follows (takes : List.Forall₂ ρ.Takes l l') :
    Follows (List.Forall₂ ρ.Takes) (weakened l) (weakened l') := by
  cases takes with
  | nil => exact follows_error _ _
  | cons _ rest => exact follows_ok rest

/-- Permutation on the left is taken to itself. -/
@[simp] theorem leftPermutation_mirrors (index : Int) :
    Plan.Mirrors ρ (leftPermutation index) (leftPermutation index) := by
  refine primitive_mirrors fun goal goal' takes => ?_
  refine (mirrors_lift (permuted_follows takes.left index)).bind fun l l' left => ?_
  exact one_mirrors left takes.right

/-- Permutation on the right is taken to itself. -/
@[simp] theorem rightPermutation_mirrors (index : Int) :
    Plan.Mirrors ρ (rightPermutation index) (rightPermutation index) := by
  refine primitive_mirrors fun goal goal' takes => ?_
  refine (mirrors_lift (permuted_follows takes.right index)).bind fun r r' right => ?_
  exact one_mirrors takes.left right

/-- Contraction on the left is taken to itself. -/
@[simp] theorem leftContraction_mirrors : Plan.Mirrors ρ leftContraction leftContraction := by
  refine primitive_mirrors fun goal goal' takes => ?_
  refine (mirrors_lift (contracted_follows takes.left)).bind fun l l' left => ?_
  exact one_mirrors left takes.right

/-- Contraction on the right is taken to itself. -/
@[simp] theorem rightContraction_mirrors : Plan.Mirrors ρ rightContraction rightContraction := by
  refine primitive_mirrors fun goal goal' takes => ?_
  refine (mirrors_lift (contracted_follows takes.right)).bind fun r r' right => ?_
  exact one_mirrors takes.left right

/-- Weakening on the left is taken to itself. -/
@[simp] theorem leftWeakening_mirrors : Plan.Mirrors ρ leftWeakening leftWeakening := by
  refine primitive_mirrors fun goal goal' takes => ?_
  refine (mirrors_lift (weakened_follows takes.left)).bind fun l l' left => ?_
  exact one_mirrors left takes.right

/-- Weakening on the right is taken to itself. -/
@[simp] theorem rightWeakening_mirrors : Plan.Mirrors ρ rightWeakening rightWeakening := by
  refine primitive_mirrors fun goal goal' takes => ?_
  refine (mirrors_lift (weakened_follows takes.right)).bind fun r r' right => ?_
  exact one_mirrors takes.left right

/-- Doing nothing is taken to itself. -/
@[simp] theorem noop_mirrors : Plan.Mirrors ρ noop noop :=
  primitive_mirrors fun _ _ takes => mirrors_pure (.cons takes .nil)

/-- Closing a goal is taken to itself. -/
@[simp] theorem close_mirrors : Plan.Mirrors ρ close close := by
  refine primitive_mirrors fun goal goal' takes => ?_
  obtain ⟨left, right⟩ := takes
  obtain ⟨l, r⟩ := goal
  obtain ⟨l', r'⟩ := goal'
  cases left with
  | nil => exact refuse_mirrors _ _
  | cons first _ =>
    cases right with
    | nil => exact refuse_mirrors _ _
    | cons first' _ =>
      simp only [first.eq_iff first']
      split
      · exact mirrors_pure .nil
      · exact refuse_mirrors _ _

/-- A cut is taken to the cut of the renamed formula. -/
@[simp] theorem cut_mirrors (takesW : ρ.Takes witness witness') :
    Plan.Mirrors ρ (cut witness) (cut witness') := by
  refine primitive_mirrors fun goal goal' takes => ?_
  refine (make_mirrors takes.left (.cons takesW takes.right)).bind fun prove prove' first => ?_
  refine (make_mirrors (.cons takesW takes.left) takes.right).bind fun use use' second => ?_
  exact mirrors_pure (.cons first (.cons second .nil))

/-- Negation on the left is taken to itself. -/
@[simp] theorem leftNegation_mirrors (fixed : th.FixedBy ρ) :
    Plan.Mirrors ρ (leftNegation th) (leftNegation th) := by
  refine primitive_mirrors fun goal goal' takes => ?_
  refine (takes.parts fixed .left 0 .negation).bind fun m m' parts => ?_
  exact one_mirrors (takes_tail takes.left) (.cons (parts.part "a") takes.right)

/-- Negation on the right is taken to itself. -/
@[simp] theorem rightNegation_mirrors (fixed : th.FixedBy ρ) :
    Plan.Mirrors ρ (rightNegation th) (rightNegation th) := by
  refine primitive_mirrors fun goal goal' takes => ?_
  refine (takes.parts fixed .right 0 .negation).bind fun m m' parts => ?_
  exact one_mirrors (.cons (parts.part "a") takes.left) (takes_tail takes.right)

/-- Disjunction on the left is taken to itself. -/
@[simp] theorem leftDisjunction_mirrors (fixed : th.FixedBy ρ) :
    Plan.Mirrors ρ (leftDisjunction th) (leftDisjunction th) := by
  refine primitive_mirrors fun goal goal' takes => ?_
  refine (takes.parts fixed .left 0 .disjunction).bind fun m m' parts => ?_
  have rest := takes_tail takes.left
  refine (make_mirrors (.cons (parts.part "a") rest) takes.right).bind fun g g' first => ?_
  refine (make_mirrors (.cons (parts.part "b") rest) takes.right).bind fun h h' second => ?_
  exact mirrors_pure (.cons first (.cons second .nil))

/-- Disjunction on the right is taken to itself. -/
@[simp] theorem rightDisjunction_mirrors (fixed : th.FixedBy ρ) :
    Plan.Mirrors ρ (rightDisjunction th) (rightDisjunction th) := by
  refine primitive_mirrors fun goal goal' takes => ?_
  refine (takes.parts fixed .right 0 .disjunction).bind fun m m' parts => ?_
  exact one_mirrors takes.left
    (.cons (parts.part "a") (.cons (parts.part "b") (takes_tail takes.right)))

/-- An instance on the left is taken to that of the renamed witness. -/
@[simp] theorem leftUniversal_mirrors (fixed : th.FixedBy ρ) (takesW : ρ.Takes witness witness') :
    Plan.Mirrors ρ (leftUniversal th witness) (leftUniversal th witness') := by
  refine primitive_mirrors fun goal goal' takes => ?_
  refine (takes.parts fixed .left 0 .universal).bind fun m m' parts => ?_
  refine ((parts.part "phi").substitute takesW (parts.part "x")).bind fun t t' taken => ?_
  exact one_mirrors (.cons taken takes.left) takes.right

/-- The names of the free variables of a sequent. -/
theorem takes_freeNames (takes : ρ.TakesGoal goal goal') :
    goal'.free.map Symbol.name = goal.free.map Symbol.name := by
  have names : ∀ {terms terms' : List Term}, List.Forall₂ ρ.Takes terms terms' →
      (terms'.flatMap Term.free).map Symbol.name = (terms.flatMap Term.free).map Symbol.name := by
    intro terms terms' taken
    induction taken with
    | nil => rfl
    | cons first _ ih =>
      have here := first.sound.renamed_freeNames (ρ := ρ)
      rw [Term.freeNames, Term.freeNames, ← first.renamed] at here
      rw [List.flatMap_cons, List.flatMap_cons, List.map_append, List.map_append, ih, here]
  exact names (List.rel_append takes.left takes.right)

/-- An instance on the right is taken to that of the renamed witness. -/
@[simp] theorem rightUniversal_mirrors (fixed : th.FixedBy ρ) (takesW : ρ.Takes witness witness') :
    Plan.Mirrors ρ (rightUniversal th witness) (rightUniversal th witness') := by
  refine primitive_mirrors fun goal goal' takes => ?_
  refine (takes.parts fixed .right 0 .universal).bind fun m m' parts => ?_
  rw [takes_freeNames takes]
  have substituted := (parts.part "phi").substitute takesW (parts.part "x")
  obtain rfl := takesW.renamed
  cases witness with
  | var v =>
    cases known : (goal.free.map Symbol.name).contains v.name with
    | true =>
      simp only [known, if_true]
      exact refuse_mirrors _ _
    | false =>
      simp only [Term.under_var, Symbol.under_name, known]
      refine substituted.bind fun t t' taken => ?_
      exact one_mirrors takes.left (.cons taken (takes_tail takes.right))
  | const _ => exact refuse_mirrors _ _
  | app _ _ => exact refuse_mirrors _ _
  | lam _ _ => exact refuse_mirrors _ _

/-- An instance of a schema is taken to that of the renamed predicate. -/
@[simp] theorem leftSchema_mirrors (fixed : th.FixedBy ρ) (takesW : ρ.Takes witness witness') :
    Plan.Mirrors ρ (leftSchema th witness) (leftSchema th witness') := by
  refine primitive_mirrors fun goal goal' takes => ?_
  refine (takes.parts fixed .left 0 .schema).bind fun m m' parts => ?_
  refine ((parts.part "psi").substitute takesW (parts.part "phi")).bind fun t t' taken => ?_
  exact one_mirrors (.cons taken takes.left) takes.right

/-- Substitution on the left is taken to itself. -/
@[simp] theorem leftSubstitution_mirrors (fixed : th.FixedBy ρ) :
    Plan.Mirrors ρ (leftSubstitution th) (leftSubstitution th) := by
  refine primitive_mirrors fun goal goal' takes => ?_
  refine (takes.parts fixed .left 1 .equation).bind fun m m' parts => ?_
  have replaced := (takes_headD takes.left).substitute (parts.part "b") (parts.part "a")
  refine replaced.bind fun t t' taken => ?_
  exact one_mirrors (.cons taken (takes_tail takes.left)) takes.right

/-- Substitution on the right is taken to itself. -/
@[simp] theorem rightSubstitution_mirrors (fixed : th.FixedBy ρ) :
    Plan.Mirrors ρ (rightSubstitution th) (rightSubstitution th) := by
  refine primitive_mirrors fun goal goal' takes => ?_
  refine (takes.parts fixed .left 0 .equation).bind fun m m' parts => ?_
  obtain ⟨left, right⟩ := takes
  obtain ⟨l, r⟩ := goal
  obtain ⟨l', r'⟩ := goal'
  cases right with
  | nil => exact refuse_mirrors _ _
  | cons first rest =>
    refine (first.substitute (parts.part "b") (parts.part "a")).bind fun t t' taken => ?_
    exact one_mirrors left (.cons taken rest)

/-- The head of a taken term is taken. -/
theorem takes_head {t t' : Term} (takes : ρ.Takes t t') : ρ.Takes t.head t'.head := by
  rw [takes.renamed, Term.renamed_head]
  refine takes_of_sound ρ ?_
  have sound := takes.sound
  clear takes
  induction t with
  | const s => exact sound
  | var s => exact sound
  | app f x ihF ihX => exact ihF sound.function
  | lam v body ih => exact sound

/-- Exchanging the sides of a taken equation is mirrored. -/
theorem flipped_mirrors {equation equation' : Term} {m m' : Bindings}
    (takes : ρ.Takes equation equation') (parts : ρ.TakesParts m m') :
    Build.Mirrors ρ ρ.Takes (flipped equation m) (flipped equation' m') :=
  (takes_head takes).mkApps (.cons (parts.part "b") (.cons (parts.part "a") .nil))

/-- Symmetry on the left is taken to itself. -/
@[simp] theorem leftSymmetry_mirrors (fixed : th.FixedBy ρ) :
    Plan.Mirrors ρ (leftSymmetry th) (leftSymmetry th) := by
  refine primitive_mirrors fun goal goal' takes => ?_
  refine (takes.parts fixed .left 0 .equation).bind fun m m' parts => ?_
  refine (flipped_mirrors (takes_headD takes.left) parts).bind fun t t' taken => ?_
  exact one_mirrors (.cons taken (takes_tail takes.left)) takes.right

/-- Symmetry on the right is taken to itself. -/
@[simp] theorem rightSymmetry_mirrors (fixed : th.FixedBy ρ) :
    Plan.Mirrors ρ (rightSymmetry th) (rightSymmetry th) := by
  refine primitive_mirrors fun goal goal' takes => ?_
  refine (takes.parts fixed .right 0 .equation).bind fun m m' parts => ?_
  refine (flipped_mirrors (takes_headD takes.right) parts).bind fun t t' taken => ?_
  exact one_mirrors takes.left (.cons taken (takes_tail takes.right))

/-- Assuming a postulate is taken to itself. -/
@[simp] theorem theoremCut_mirrors (fixed : th.FixedBy ρ) (name : Text.Octets) :
    Plan.Mirrors ρ (theoremCut th name) (theoremCut th name) := by
  refine primitive_mirrors fun goal goal' takes => ?_
  cases found : th.postulate? name with
  | none => exact refuse_mirrors _ _
  | some formula =>
    obtain ⟨p, listed, rfl⟩ := Option.map_eq_some_iff.mp found
    have takesP := fixed.postulates p (List.mem_of_find?_eq_some listed)
    exact one_mirrors (.cons takesP takes.left) takes.right

/-- Repetitions are dropped from a list as from its images under a one-to-one map. -/
theorem eraseDups_map {α β : Type} [DecidableEq α] [DecidableEq β] {f : α → β}
    (injective : Function.Injective f) :
    ∀ items : List α, (items.map f).eraseDups = items.eraseDups.map f
  | [] => rfl
  | a :: rest => by
    have same : ∀ b, (!f b == f a) = !b == a := by
      intro b
      rw [Bool.eq_iff_iff]
      simp [injective.eq_iff]
    rw [List.map_cons, List.eraseDups_cons, List.eraseDups_cons, List.map_cons, List.filter_map]
    simp only [Function.comp_def, same]
    rw [eraseDups_map injective (rest.filter fun b => !b == a)]
termination_by items => items.length
decreasing_by
  exact Nat.lt_succ_of_le (List.length_filter_le _ _)

/-- The atoms of a name in a taken term are taken. -/
theorem takes_atomsNamed {t t' : Term} (takes : ρ.Takes t t') (name : String) :
    List.Forall₂ ρ.Takes (atomsNamed t name) (atomsNamed t' name) := by
  rw [takesAll_iff]
  constructor
  · intro atom member
    have inside := (List.mem_filter.mp (List.mem_eraseDups.mp member)).1
    have sound := takes.sound
    clear member takes
    induction t with
    | const s =>
      obtain rfl : atom = .const s := by simpa [Term.atoms] using inside
      exact sound
    | var s =>
      obtain rfl : atom = .var s := by simpa [Term.atoms] using inside
      exact sound
    | app f x ihF ihX =>
      rcases List.mem_append.mp inside with left | right
      · exact ihF left sound.function
      · exact ihX right sound.argument
    | lam v b ih =>
      rcases List.mem_cons.mp inside with rfl | later
      · exact sound.bound
      · exact ih later sound.body
  · have injective : Function.Injective (Term.under ρ.types) := fun _ _ => Term.renamed_inj.mp
    rw [atomsNamed, atomsNamed, takes.renamed, Term.renamed_atoms, List.filter_map,
      eraseDups_map injective]
    simp only [Function.comp_def, Term.renamed_name]

/-- The atoms of a name are renamed in whatever order they are put. -/
theorem arrange_mirrors (choosing : ρ.choosing) {t t' : Term} (takes : ρ.Takes t t')
    (name : String) :
    Build.Mirrors ρ (List.Forall₂ ρ.Takes) (arrange t name) (arrange t' name) := by
  have atoms := takes_atomsNamed takes name
  obtain ⟨sounds, renamed⟩ := takesAll_iff.mp atoms
  simp only [arrange, ← atoms.length_eq]
  split
  · exact mirrors_pure atoms
  · rw [takes.renamed] at renamed ⊢
    refine (mirrors_choose choosing name t).bind ?_
    rintro number _ rfl
    refine mirrors_pure (takesAll_iff.mpr ⟨fun atom member => ?_, ?_⟩)
    · exact sounds atom ((ordered_perm number _).mem_iff.mp member)
    · rw [renamed, ordered_map]

/-- Unfolding a name in a taken term is mirrored. -/
theorem unfold_mirrors (fixed : th.FixedBy ρ) {t t' : Term} (takes : ρ.Takes t t')
    (name : Text.Octets) : Build.Mirrors ρ ρ.Takes (unfold th t name) (unfold th t' name) := by
  rw [unfold, unfold]
  cases found : th.definition? name with
  | none => exact refuse_mirrors _ _
  | some d =>
    have takesD := fixed.definitions d (List.mem_of_find?_eq_some found)
    have step : ∀ state state' : Term × Bool, ρ.Takes state.1 state'.1 ∧ state'.2 = state.2 →
        ∀ atom atom', ρ.Takes atom atom' →
          Build.Mirrors ρ (fun state state' : Term × Bool =>
            ρ.Takes state.1 state'.1 ∧ state'.2 = state.2)
            (unfoldAtom d.value state atom) (unfoldAtom d.value state' atom') := by
      intro state state' related atom atom' takesA
      refine (related.1.substitute takesD takesA).bind fun u u' unfolded => mirrors_pure ?_
      refine ⟨unfolded, ?_⟩
      have changed : (u' != state'.1) = (u != state.1) := by
        rw [Bool.eq_iff_iff, bne_iff_ne, bne_iff_ne]
        exact not_congr (unfolded.eq_iff related.1)
      simp only [related.2, changed]
    refine (arrange_mirrors fixed.choosing takes d.name).bind fun atoms atoms' arranged => ?_
    refine (mirrors_foldlM arranged step (c := (t, false)) (d := (t', false)) ⟨takes, rfl⟩).bind ?_
    rintro ⟨u, found⟩ ⟨u', _⟩ ⟨unfolded, rfl⟩
    dsimp only
    split
    · exact mirrors_pure unfolded
    · exact refuse_mirrors _ _

/-- Unfolding on the left is taken to itself. -/
@[simp] theorem leftExpand_mirrors (fixed : th.FixedBy ρ) (name : Text.Octets) :
    Plan.Mirrors ρ (leftExpand th name) (leftExpand th name) := by
  refine primitive_mirrors fun goal goal' takes => ?_
  obtain ⟨left, right⟩ := takes
  obtain ⟨l, r⟩ := goal
  obtain ⟨l', r'⟩ := goal'
  cases left with
  | nil => exact refuse_mirrors _ _
  | cons first rest =>
    refine (unfold_mirrors fixed first name).bind fun t t' taken => ?_
    exact one_mirrors (.cons taken rest) right

/-- Unfolding on the right is taken to itself. -/
@[simp] theorem rightExpand_mirrors (fixed : th.FixedBy ρ) (name : Text.Octets) :
    Plan.Mirrors ρ (rightExpand th name) (rightExpand th name) := by
  refine primitive_mirrors fun goal goal' takes => ?_
  obtain ⟨left, right⟩ := takes
  obtain ⟨l, r⟩ := goal
  obtain ⟨l', r'⟩ := goal'
  cases right with
  | nil => exact refuse_mirrors _ _
  | cons first rest =>
    refine (unfold_mirrors fixed first name).bind fun t t' taken => ?_
    exact one_mirrors left (.cons taken rest)

/-! ## Tactics -/

/-- A tactic is taken to one whose expansion mirrors its own. -/
theorem fixed_mirrors {name : String} {args args' : List Arg} {expansion expansion' : Plan}
    (mirrors : Plan.Mirrors ρ expansion expansion') :
    Plan.Mirrors ρ (fixed name args expansion) (fixed name args' expansion') :=
  .compound (fun _ _ _ => mirrors_pure trivial) fun _ _ _ => mirrors

/-- A tactic on a shape is taken to one whose expansion mirrors its own on taken parts. -/
theorem onShape_mirrors (fixed : th.FixedBy ρ) {name : String} {args args' : List Arg}
    {side : Side} {s : Shape} {expansion expansion' : Bindings → Plan}
    (mirrors : ∀ m m', ρ.TakesParts m m' → Plan.Mirrors ρ (expansion m) (expansion' m')) :
    Plan.Mirrors ρ (onShape th name args side s expansion)
      (onShape th name args' side s expansion') := by
  refine .compound (fun goal goal' takes => ?_) fun goal goal' takes =>
    mirrors _ _ (takes.knownParts fixed side s)
  have checks : Build.Mirrors ρ (fun _ _ => True)
      (th.parts goal side 0 s >>= fun _ => pure ())
      (th.parts goal' side 0 s >>= fun _ => pure ()) :=
    (takes.parts fixed side 0 s).bind fun _ _ _ => mirrors_pure trivial
  exact checks.reported _ _

/-- The same places hold one formula on both sides. -/
theorem takes_shared? (takes : ρ.TakesGoal goal goal') : shared? goal' = shared? goal := by
  obtain ⟨_, left⟩ := takesAll_iff.mp takes.left
  obtain ⟨_, right⟩ := takesAll_iff.mp takes.right
  rw [shared?, shared?, left, right, List.zipIdx_map, List.zipIdx_map, List.findSome?_map]
  congr 1
  funext entry
  simp only [Function.comp_apply, List.findSome?_map, Prod.map_fst, Prod.map_snd]
  congr 1
  funext entry'
  simp only [Function.comp_apply, Prod.map_fst, Prod.map_snd, Term.renamed_inj, id_eq]

/-- Looking for a formula on both sides is taken to itself. -/
@[simp] theorem qed_mirrors : Plan.Mirrors ρ qed qed := by
  refine .compound (fun goal goal' takes => ?_) fun goal goal' takes => ?_
  · rw [takes_shared? takes]
    split
    · exact mirrors_pure trivial
    · exact mirrors_throw _ _
  · rw [takes_shared? takes]
    simp [Plan.sequence]

/-- The tactic for a conjunction on the left is taken to itself. -/
@[simp] theorem leftConjunction_mirrors (fixed : th.FixedBy ρ) :
    Plan.Mirrors ρ (leftConjunction th) (leftConjunction th) :=
  fixed_mirrors (by simp [Plan.sequence, leftUnfold, fixed])

/-- The tactic for a conjunction on the right is taken to itself. -/
@[simp] theorem rightConjunction_mirrors (fixed : th.FixedBy ρ) :
    Plan.Mirrors ρ (rightConjunction th) (rightConjunction th) :=
  fixed_mirrors (by simp [Plan.sequence, rightUnfold, fixed])

/-- The tactic for an implication on the left is taken to itself. -/
@[simp] theorem leftImplication_mirrors (fixed : th.FixedBy ρ) :
    Plan.Mirrors ρ (leftImplication th) (leftImplication th) :=
  fixed_mirrors (by simp [Plan.sequence, leftUnfold, fixed])

/-- The tactic for an implication on the right is taken to itself. -/
@[simp] theorem rightImplication_mirrors (fixed : th.FixedBy ρ) :
    Plan.Mirrors ρ (rightImplication th) (rightImplication th) :=
  fixed_mirrors (by simp [Plan.sequence, rightUnfold, fixed])

/-- The tactic for an equivalence on the right is taken to itself. -/
@[simp] theorem rightBidirectional_mirrors (fixed : th.FixedBy ρ) :
    Plan.Mirrors ρ (rightBidirectional th) (rightBidirectional th) :=
  fixed_mirrors (by simp [Plan.sequence, rightUnfold, fixed])

/-- The tactic for an equivalence on the left is taken to itself. -/
@[simp] theorem leftBidirectional_mirrors (fixed : th.FixedBy ρ) :
    Plan.Mirrors ρ (leftBidirectional th) (leftBidirectional th) :=
  fixed_mirrors (by simp [Plan.sequence, leftUnfold, fixed])

/-- The tactic for existence on the right is taken to that of the renamed witness. -/
@[simp] theorem rightExistential_mirrors (fixed : th.FixedBy ρ)
    (takesW : ρ.Takes witness witness') :
    Plan.Mirrors ρ (rightExistential th witness) (rightExistential th witness') :=
  fixed_mirrors (by simp [Plan.sequence, rightUnfold, fixed, takesW])

/-- The tactic for existence on the left is taken to that of the renamed witness. -/
@[simp] theorem leftExistential_mirrors (fixed : th.FixedBy ρ)
    (takesW : ρ.Takes witness witness') :
    Plan.Mirrors ρ (leftExistential th witness) (leftExistential th witness') :=
  fixed_mirrors (by simp [Plan.sequence, leftUnfold, fixed, takesW])

/-- Excluded middle is taken to itself. -/
@[simp] theorem excludedMiddle_mirrors (fixed : th.FixedBy ρ) :
    Plan.Mirrors ρ (excludedMiddle th) (excludedMiddle th) :=
  fixed_mirrors (by simp [Plan.sequence, fixed])

/-- Extension on the right is taken to that of the renamed witness. -/
@[simp] theorem rightExtension_mirrors (fixed : th.FixedBy ρ)
    (takesW : ρ.Takes witness witness') :
    Plan.Mirrors ρ (rightExtension th witness) (rightExtension th witness') := by
  refine onShape_mirrors fixed fun m m' parts => ?_
  simp [Plan.sequence, postulate, instantiate, fixed, takesW, parts.part]

/-- The tactic for a subset on the left is taken to that of the renamed witness. -/
@[simp] theorem leftSubset_mirrors (fixed : th.FixedBy ρ) (takesW : ρ.Takes witness witness') :
    Plan.Mirrors ρ (leftSubset th witness) (leftSubset th witness') :=
  fixed_mirrors (by simp [Plan.sequence, leftUnfold, instantiate, fixed, takesW])

/-- The tactic for a subset on the right is taken to that of the renamed witness. -/
@[simp] theorem rightSubset_mirrors (fixed : th.FixedBy ρ) (takesW : ρ.Takes witness witness') :
    Plan.Mirrors ρ (rightSubset th witness) (rightSubset th witness') :=
  fixed_mirrors (by simp [Plan.sequence, rightUnfold, fixed, takesW])

/-- The tactic for a power set on the left is taken to itself. -/
@[simp] theorem leftPowerset_mirrors (fixed : th.FixedBy ρ) :
    Plan.Mirrors ρ (leftPowerset th) (leftPowerset th) := by
  refine onShape_mirrors fixed fun m m' parts => ?_
  simp [Plan.sequence, powersetMeaning, postulate, instantiate, fixed, parts.part]

/-- The tactic for a power set on the right is taken to itself. -/
@[simp] theorem rightPowerset_mirrors (fixed : th.FixedBy ρ) :
    Plan.Mirrors ρ (rightPowerset th) (rightPowerset th) := by
  refine onShape_mirrors fixed fun m m' parts => ?_
  simp [Plan.sequence, powersetMeaning, postulate, instantiate, fixed, parts.part]

/-- Separation on the right is taken to itself. -/
@[simp] theorem rightSeparation_mirrors (fixed : th.FixedBy ρ) :
    Plan.Mirrors ρ (rightSeparation th) (rightSeparation th) := by
  refine onShape_mirrors fixed fun m m' parts => ?_
  simp [Plan.sequence, separationMeaning, postulate, instantiate, fixed, parts.part]

/-- Separation on the left is taken to itself. -/
@[simp] theorem leftSeparation_mirrors (fixed : th.FixedBy ρ) :
    Plan.Mirrors ρ (leftSeparation th) (leftSeparation th) := by
  refine onShape_mirrors fixed fun m m' parts => ?_
  simp [Plan.sequence, separationMeaning, postulate, instantiate, fixed, parts.part]

end Rule

end Turnstile
