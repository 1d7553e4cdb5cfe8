import Turnstile.Proofs.EnvironmentSafety

/-!
# Principal types

A typing of a formula is a term that spells it with types: variables have the types that are
written, every occurrence of a constant has an instance of the declared type, and the term is
good. Inference finds a typing of which all others are instances, or there is none.

Inference goes from the leaves up, and the parts of a formula are inferred one after the other.
What is carried along is that the parts inferred so far are principal together: one substitution
takes them to the corresponding parts of a given typing, whatever it was before on the type
variables that had been handed out earlier.
-/

namespace Turnstile

open Build

/-! ## Typings -/

/-- The type that is written. A schematic variable does not say what it means. -/
def TypeExpr.Means : TypeExpr → Ty → Prop
  | known t, meant => meant = t
  | schematic _, _ => False
  | arrow domain codomain, meant =>
    ∃ a b, meant = .arrow a b ∧ domain.Means a ∧ codomain.Means b

/-- A variable with the name that is read, and with the type that is written if one is. -/
structure NameExpr.Elaborates (x : NameExpr) (s : Symbol) : Prop where
  /-- The name. -/
  name : s.name = x.name
  /-- The type. -/
  type : ∀ t ∈ x.declared, t.Means s.type

mutual

/-- A term that spells a formula: types are given to the variables, instances of their types to
the constants. -/
def Expr.Elaborates : Expr → Term → Prop
  | .var x, t => ∃ s, t = .var s ∧ x.Elaborates s
  | .const constant, t => ∃ τ, t = .const (constant.under τ)
  | .apply _ function arguments, t =>
    ∃ f xs, t = Term.apps f xs ∧ function.Elaborates f ∧ Expr.AllElaborate arguments xs
  | .unary _ operator operand, t =>
    ∃ τ x, t = .app (.const (operator.under τ)) x ∧ operand.Elaborates x
  | .binary _ operator left right, t =>
    ∃ τ a b, t = .app (.app (.const (operator.under τ)) a) b ∧ left.Elaborates a ∧
      right.Elaborates b
  | .bind _ binder bound body, t =>
    ∃ τ v b, t = .app (.const (binder.under τ)) (.lam v b) ∧ bound.Elaborates v ∧
      body.Elaborates b
  | .lambda _ bound body, t => ∃ v b, t = .lam v b ∧ bound.Elaborates v ∧ body.Elaborates b
  | .setOf _ builder bound set body, t =>
    ∃ τ v a b, t = .app (.app (.const (builder.under τ)) a) (.lam v b) ∧ bound.Elaborates v ∧
      set.Elaborates a ∧ body.Elaborates b

/-- Terms that spell formulas, one for each. -/
def Expr.AllElaborate : List Expr → List Term → Prop
  | [], ts => ts = []
  | e :: rest, ts => ∃ t others, ts = t :: others ∧ e.Elaborates t ∧ Expr.AllElaborate rest others

end

/-- A typing of a formula. -/
structure Expr.HasTyping (e : Expr) (t : Term) : Prop where
  /-- The term spells the formula with types. -/
  elaborates : e.Elaborates t
  /-- Applications are well typed, bound variables have the types of their binders and free
  variables of one name have one type. -/
  good : t.Good

/-- The variables with the name that is read, and with the type that is written if one is. -/
def NameExpr.Meant (x : NameExpr) (t : Term) : Prop := ∃ r, t = .var r ∧ x.Elaborates r

/-! ## Outcomes of inference -/

namespace Typing

variable {α β : Type} {P : α → Supply → Prop} {Q : β → Supply → Prop} {barred : Prop}

/-- The outcome of inference that leaves the schematic names as they are: a result, or a clash of
types in which case something is impossible. -/
inductive Outcome (known : Schematics) (P : α → Supply → Prop) (barred : Prop) :
    Except Failure (α × Schematics) × Supply → Prop
  /-- A result. -/
  | done {a : α} {s : Supply} (holds : P a s) : Outcome known P barred (.ok (a, known), s)
  /-- A clash of types. -/
  | impossible {failure : Failure} {s : Supply} (clash : failure.IsClash) (no : barred) :
    Outcome known P barred (.error failure, s)

/-- From a supply, inference has a result or clashes. -/
def Yields (typing : Typing α) (s : Supply) (P : α → Supply → Prop) (barred : Prop) : Prop :=
  ∀ known, Outcome known P barred ((typing.run known).runFrom s)

/-- Returning a value yields it. -/
theorem yields_pure {a : α} {s : Supply} (holds : P a s) :
    Yields (pure a) s P barred := fun _ => .done holds

/-- If the first inference yields a value and the next one yields with it, then so do both. -/
theorem Yields.bind {typing : Typing α} {next : α → Typing β} {s : Supply}
    (first : Yields typing s P barred) (second : ∀ a s', P a s' → Yields (next a) s' Q barred) :
    Yields (typing >>= next) s Q barred := by
  intro known
  have outcome := first known
  rw [StateT.run_bind, runFrom_bind]
  generalize (typing.run known).runFrom s = result at outcome ⊢
  cases outcome with
  | done holds => exact second _ _ holds known
  | impossible clash no => exact .impossible clash no

/-- What is yielded has each weaker property. -/
theorem Yields.mono {typing : Typing α} {s : Supply} {P' : α → Supply → Prop} {barred' : Prop}
    (yields : Yields typing s P barred) (weaker : ∀ a s', P a s' → P' a s')
    (no : barred → barred') : Yields typing s P' barred' := by
  intro known
  have outcome := yields known
  generalize (typing.run known).runFrom s = result at outcome ⊢
  cases outcome with
  | done holds => exact .done (weaker _ _ holds)
  | impossible clash nothing => exact .impossible clash (no nothing)

/-- A build that succeeds. -/
theorem yields_lift {build : Build α} {s s' : Supply} {a : α} (run : build.runFrom s = (.ok a, s'))
    (holds : P a s') : Yields (liftM build) s P barred := by
  intro known
  have lifted : ((liftM build : Typing α).run known).runFrom s = (.ok (a, known), s') := by
    change (build >>= fun a => pure (a, known)).runFrom s = _
    rw [runFrom_bind, run]
    rfl
  rw [lifted]
  exact .done holds


/-- Building a part of a term clashes only if the raw term has no good instance. -/
theorem yields_build {position : Position} {part : Build Term} {raw : Term} {s : Supply}
    {P : Term → Supply → Prop} (built : Built raw s (part.runFrom s))
    (done : ∀ t s', t.Proper → Generalizes raw s t s' → P t s')
    (impossible : Hopeless raw s → barred) : Yields (Typing.build position part) s P barred := by
  intro known
  have run : ((Typing.build position part).run known).runFrom s =
      match part.runFrom s with
      | (.ok t, s') => (.ok (t, known), s')
      | (.error failure, s') => (.error (.within (.position position) failure), s') := by
    change (part.within (.position position) >>= fun t => pure (t, known)).runFrom s = _
    rw [runFrom_bind, runFrom_within]
    rcases part.runFrom s with ⟨failure | t, s'⟩ <;> rfl
  rw [run]
  generalize part.runFrom s = result at built
  cases built with
  | done proper generalizes => exact .done (done _ _ proper generalizes)
  | impossible later clash hopeless => exact .impossible clash (impossible hopeless)

end Typing

/-! ## Principal parts -/

/-- Terms of which all others of some kind are instances, by one substitution that may be any on
the type variables handed out before. -/
structure Principal (T : List Term → Prop) (s : Supply) (ts : List Term) (s' : Supply) : Prop where
  /-- The supply only grows. -/
  later : s.lastType ≤ s'.lastType
  /-- All type variables have been handed out. -/
  drawn : ∀ t ∈ ts, t.Drawn s'
  /-- The others are instances. -/
  general : ∀ ts', T ts' → ∀ σ : Int → Ty,
    ∃ σ' : Int → Ty, (∀ id : Int, id ≤ s.lastType → σ' id = σ id) ∧ ts' = ts.map (Term.under σ')

/-- Terms of two kinds one after the other. -/
def Both (T T' : List Term → Prop) (ts : List Term) : Prop := ∃ a b, ts = a ++ b ∧ T a ∧ T' b

/-- A single term of some kind. -/
def One (T : Term → Prop) (ts : List Term) : Prop := ∃ t, ts = [t] ∧ T t

namespace Principal

variable {T T' : List Term → Prop} {s s' s'' : Supply} {ts ts' : List Term}

/-- No terms are principal where none are asked for. -/
theorem nil (s : Supply) : Principal (· = []) s [] s where
  later := Nat.le_refl _
  drawn := by simp
  general := fun _ is σ => ⟨σ, fun _ _ => rfl, is⟩

/-- Terms that do not use newer type variables are the same under substitutions that agree on the
older ones. -/
theorem map_under_congr {σ σ' : Int → Ty} (drawn : ∀ t ∈ ts, t.Drawn s)
    (agree : ∀ id : Int, id ≤ s.lastType → σ id = σ' id) :
    ts.map (Term.under σ) = ts.map (Term.under σ') :=
  List.map_congr_left fun t member => (drawn t member).under_congr agree

/-- Parts that are inferred one after the other are principal together. -/
theorem append (first : Principal T s ts s') (second : Principal T' s' ts' s'') :
    Principal (Both T T') s (ts ++ ts') s'' where
  later := Nat.le_trans first.later second.later
  drawn := by
    intro t member
    rcases List.mem_append.mp member with left | right
    · have later := second.later
      exact (first.drawn t left).mono fun id le => by omega
    · exact second.drawn t right
  general := by
    rintro _ ⟨a, b, rfl, holds, holds'⟩ σ
    obtain ⟨σ₁, old, rfl⟩ := first.general a holds σ
    obtain ⟨σ₂, old', rfl⟩ := second.general b holds' σ₁
    have later := first.later
    refine ⟨σ₂, fun id le => (old' id (by omega)).trans (old id le), ?_⟩
    rw [List.map_append, map_under_congr first.drawn fun id le => (old' id le).symm]

/-- Terms of a kind come of parts of another kind: some are kept, the last is put together to an
instance of a raw term. -/
def Splits (T' T : List Term → Prop) (ts kept : List Term) (raw : Term) : Prop :=
  ∀ ts', T' ts' → ∃ parts, T parts ∧ ∀ σ, parts = ts.map (Term.under σ) →
    (raw.under σ).Good ∧ ts' = kept.map (Term.under σ) ++ [raw.under σ]

variable {kept : List Term} {raw t : Term}

/-- What is built from a raw term is principal together with the parts that are kept. -/
theorem build (parts : Principal T s ts s') (generalizes : Generalizes raw s' t s'')
    (keptDrawn : ∀ k ∈ kept, k.Drawn s') (rawDrawn : raw.Drawn s') (named : raw.Named)
    (split : Splits T' T ts kept raw) : Principal T' s (kept ++ [t]) s'' where
  later := Nat.le_trans parts.later generalizes.later
  drawn := by
    intro k member
    have later := generalizes.later
    rcases List.mem_append.mp member with old | new
    · exact (keptDrawn k old).mono fun id le => by omega
    · rw [List.mem_singleton.mp new]
      exact generalizes.drawn rawDrawn
  general := by
    intro ts' holds σ
    obtain ⟨parts', holds', whole⟩ := split ts' holds
    obtain ⟨σ₁, old, same⟩ := parts.general parts' holds' σ
    obtain ⟨good, rfl⟩ := whole σ₁ same
    obtain ⟨σ₂, old', built⟩ := generalizes.general rawDrawn named σ₁ good
    have later := parts.later
    refine ⟨σ₂, fun id le => (old' id (by omega)).trans (old id le), ?_⟩
    rw [List.map_append, built, map_under_congr keptDrawn fun id le => (old' id le).symm]
    rfl

/-- Building from principal parts gives a principal term, or nothing of the kind exists. -/
theorem yields {position : Position} {part : Build Term} (parts : Principal T s ts s')
    (built : Built raw s' (part.runFrom s')) (keptDrawn : ∀ k ∈ kept, k.Drawn s')
    (rawDrawn : raw.Drawn s') (named : raw.Named) (split : Splits T' T ts kept raw) :
    Typing.Yields (Typing.build position part) s'
      (fun t s'' => t.Proper ∧ raw.Refines t ∧ Principal T' s (kept ++ [t]) s'')
      (∀ ts', ¬ T' ts') := by
  refine Typing.yields_build built (fun t s'' proper generalizes => ?_) fun hopeless ts' holds => ?_
  · exact ⟨proper, generalizes.refines, parts.build generalizes keptDrawn rawDrawn named split⟩
  · obtain ⟨parts', holds', whole⟩ := split ts' holds
    obtain ⟨σ, _, same⟩ := parts.general parts' holds' .var
    exact hopeless rawDrawn named σ (whole σ same).1

end Principal

/-! ## Leaves -/

/-- Fresh copies of type variables can be taken to any types. -/
theorem fresh_copies (ids : List Int) : ∀ s : Supply, ∃ (fresh : List (Int × Ty)) (s' : Supply),
    (ids.mapM fun id => do return (id, ← freshType) : Build (List (Int × Ty))).runFrom s =
        (.ok fresh, s') ∧ s.lastType ≤ s'.lastType ∧
      (∀ id ∈ ids, Unifier.VarsIn (· ≤ (s'.lastType : Int)) ((fresh.lookup id).getD (.var id))) ∧
      ∀ τ σ : Int → Ty, ∃ σ' : Int → Ty, (∀ id : Int, id ≤ s.lastType → σ' id = σ id) ∧
        ∀ id ∈ ids, ((fresh.lookup id).getD (.var id)).mapVars σ' = τ id := by
  induction ids with
  | nil => exact fun s => ⟨[], s, rfl, Nat.le_refl _, by simp, fun τ σ => ⟨σ, by simp⟩⟩
  | cons first rest ih =>
    intro s
    obtain ⟨fresh, s', run, later, drawn, general⟩ := ih { s with lastType := s.lastType + 1 }
    have grown : s.lastType + 1 ≤ s'.lastType := later
    have head : ((first, Ty.var s.nextType) :: fresh).lookup first = some (.var s.nextType) := by
      simp
    have tail : ∀ id, id ≠ first →
        ((first, Ty.var s.nextType) :: fresh).lookup id = fresh.lookup id := by
      intro id other
      rw [List.lookup_cons, beq_false_of_ne other]
    refine ⟨(first, .var s.nextType) :: fresh, s', ?_, by omega, ?_, ?_⟩
    · rw [List.mapM_cons, runFrom_bind, runFrom_bind, runFrom_freshType]
      simp only [runFrom_pure, runFrom_bind, run]
      rfl
    · intro id member
      by_cases same : id = first
      · rw [same, head]
        intro w inside
        obtain rfl : w = s.nextType := by simpa [Ty.vars] using inside
        rw [Supply.nextType]
        omega
      · rw [tail id same]
        exact drawn id ((List.mem_cons.mp member).resolve_left same)
    · intro τ σ
      -- The first copy gets its type before the others are taken care of.
      obtain ⟨σ', old, values⟩ := general τ fun id => if id = s.nextType then τ first else σ id
      refine ⟨σ', fun id le => ?_, fun id member => ?_⟩
      · rw [old id (by simp only; omega), if_neg (by rw [Supply.nextType]; omega)]
      · by_cases same : id = first
        · rw [same, head]
          exact (old _ (Int.le_refl _)).trans (if_pos rfl)
        · rw [tail id same]
          exact values id ((List.mem_cons.mp member).resolve_left same)

/-- Every occurrence of a constant can be taken to any instance of its type. -/
theorem Symbol.occurrence_principal {constant : Symbol} (plain : constant.type.Plain)
    (s : Supply) : ∃ t s', constant.occurrence.runFrom s = (.ok t, s') ∧ t.Proper ∧
      (∃ τ, t = .const (constant.under τ)) ∧
      Principal (One fun t => ∃ τ, t = .const (constant.under τ)) s [t] s' := by
  obtain ⟨fresh, s', run, later, drawn, general⟩ := fresh_copies constant.type.vars.eraseDups s
  let copy : Int → Ty := fun id => (fresh.lookup id).getD (.var id)
  have result : constant.occurrence.runFrom s = (.ok (.const (constant.under copy)), s') := by
    rw [Symbol.occurrence, Symbol.instantiate, Ty.instantiate]
    simp only [runFrom_bind, run, runFrom_pure]
    rfl
  have member : ∀ id ∈ constant.type.vars, id ∈ constant.type.vars.eraseDups := fun id inside =>
    List.mem_eraseDups.mpr inside
  refine ⟨_, s', result, Symbol.occurrence_gives plain _ _ _ result, ⟨copy, rfl⟩, later, ?_, ?_⟩
  · simp only [List.mem_singleton, forall_eq]
    intro w inside
    obtain ⟨id, part, inCopy⟩ := Ty.mem_vars_mapVars.mp inside
    exact drawn id (member id part) w inCopy
  · rintro _ ⟨_, rfl, τ, rfl⟩ σ
    obtain ⟨σ', old, values⟩ := general τ σ
    refine ⟨σ', old, ?_⟩
    have types : constant.type.mapVars τ = (constant.type.mapVars copy).mapVars σ' := by
      rw [Ty.mapVars_mapVars]
      exact Ty.mapVars_congr fun id inside => (values id (member id inside)).symm
    simp only [List.map_cons, List.map_nil, Term.under_const, List.cons.injEq, Term.const.injEq,
      and_true]
    exact Symbol.ext_iff'.mpr ⟨rfl, types⟩

/-- Identifiers are plain and there are no schematic type variables. -/
def unschematic : Spelling := ⟨fun name => isPlain name = true, False⟩

section

variable {v : Vocabulary}

/-- A type that is written without schematic variables means one type without variables. -/
theorem TypeExpr.resolve_eq (regular : v.Regular) {t : TypeExpr} (made : t.From v unschematic) :
    ∃ meant, t.resolve = pure meant ∧ meant.vars = [] ∧ ∀ other, t.Means other ↔ other = meant := by
  induction t with
  | known t =>
    obtain ⟨name, spelled, found⟩ := made
    exact ⟨t, rfl, regular.ground name t spelled found, fun _ => Iff.rfl⟩
  | schematic name => exact made.elim
  | arrow domain codomain ihDomain ihCodomain =>
    obtain ⟨a, resolved, ground, means⟩ := ihDomain made.1
    obtain ⟨b, resolved', ground', means'⟩ := ihCodomain made.2
    refine ⟨.arrow a b, ?_, by simp [Ty.vars, ground, ground'], fun other => ?_⟩
    · rw [TypeExpr.resolve, resolved, resolved']
      rfl
    · simp only [TypeExpr.Means, means, means']
      constructor
      · rintro ⟨_, _, rfl, rfl, rfl⟩
        rfl
      · rintro rfl
        exact ⟨a, b, rfl, rfl, rfl⟩

/-- A variable that is read is principal among those of its name and type. -/
theorem NameExpr.resolve_yields (regular : v.Regular) {x : NameExpr}
    (made : x.From v unschematic) (s : Supply) (barred : Prop) :
    Typing.Yields x.resolve s
      (fun t s' => ∃ r : Symbol, t = .var r ∧ r.type.Plain ∧ x.Elaborates r ∧
        Principal (One x.Meant) s [t] s') barred := by
  rw [NameExpr.resolve]
  cases written : x.declared with
  | some t =>
    obtain ⟨meant, resolved, ground, means⟩ :=
      TypeExpr.resolve_eq regular (made.declared t written)
    have plain : meant.Plain := by
      have gives := TypeExpr.resolve_gives regular.toPlain (made.declared t written)
      rw [resolved] at gives
      exact (gives [] (by simp [Typing.Known]) default default (meant, []) rfl).1
    simp only [resolved, pure_bind]
    refine Typing.yields_pure ⟨⟨x.name, meant⟩, rfl, plain, ?_, Nat.le_refl _, ?_, ?_⟩
    · exact ⟨rfl, by simp [written, means]⟩
    · simp [Term.Drawn, Term.VarsIn, Unifier.VarsIn, ground]
    · rintro _ ⟨_, rfl, r, rfl, elaborates⟩ σ
      have type : r.type = meant := (means _).mp (elaborates.type t written)
      have same : meant.mapVars σ = meant := Ty.mapVars_of_vars_nil ground σ
      refine ⟨σ, fun _ _ => rfl, ?_⟩
      simp only [List.map_cons, List.map_nil, Term.under_var, List.cons.injEq, Term.var.injEq,
        and_true]
      exact Symbol.ext_iff'.mpr ⟨elaborates.name, type.trans same.symm⟩
  | none =>
    refine (Typing.yields_lift (runFrom_freshType s)
      (P := fun t s' => t = .var s.nextType ∧ s'.lastType = s.lastType + 1) ⟨rfl, rfl⟩).bind ?_
    rintro _ s' ⟨rfl, drawn⟩
    refine Typing.yields_pure ⟨⟨x.name, .var s.nextType⟩, rfl, trivial,
      ⟨rfl, by simp [written]⟩, by omega, ?_, ?_⟩
    · simp only [List.mem_singleton, forall_eq, Term.Drawn, Term.VarsIn]
      intro w inside
      obtain rfl : w = s.nextType := by simpa [Ty.vars] using inside
      rw [Supply.nextType]
      omega
    · rintro _ ⟨_, rfl, r, rfl, elaborates⟩ σ
      refine ⟨fun id => if id = s.nextType then r.type else σ id, fun id le => ?_, ?_⟩
      · exact if_neg (by rw [Supply.nextType]; omega)
      · simp only [List.map_cons, List.map_nil, Term.under_var, List.cons.injEq, Term.var.injEq,
          and_true]
        exact Symbol.ext_iff'.mpr ⟨elaborates.name, (if_pos rfl).symm⟩

/-! ## Typings stay typings -/

/-- A name that is elaborated is elaborated by its instances, too. -/
theorem NameExpr.Elaborates.refines (regular : v.Regular) {x : NameExpr} {r r' : Symbol}
    (made : x.From v unschematic) (elaborates : x.Elaborates r) (more : ∃ θ, r' = r.under θ) :
    x.Elaborates r' := by
  obtain ⟨θ, rfl⟩ := more
  refine ⟨elaborates.name, fun t written => ?_⟩
  obtain ⟨meant, _, ground, means⟩ := TypeExpr.resolve_eq regular (made.declared t written)
  have type := (means _).mp (elaborates.type t written)
  rw [Symbol.under_type, type, Ty.mapVars_of_vars_nil ground]
  exact (means _).mpr rfl

/-- What refines a nested application is one of refined parts. -/
theorem Term.Refines.of_apps {f t : Term} {xs : List Term} (refines : (f.apps xs).Refines t) :
    ∃ f' xs', t = f'.apps xs' ∧ f.Refines f' ∧ List.Forall₂ Term.Refines xs xs' := by
  induction xs generalizing f with
  | nil => exact ⟨t, [], rfl, refines, .nil⟩
  | cons x rest ih =>
    obtain ⟨g, rest', rfl, refinesG, refinesRest⟩ := ih refines
    match g with
    | .app f' x' => exact ⟨f', x' :: rest', rfl, refinesG.1, .cons refinesG.2 refinesRest⟩
    | .const _ => cases refinesG
    | .var _ => cases refinesG
    | .lam _ _ => cases refinesG

/-- Only instances of a constant refine it. -/
theorem Term.Refines.of_const {c : Symbol} {t : Term} (refines : (Term.const c).Refines t) :
    ∃ τ, t = .const (c.under τ) := by
  match t with
  | .const _ =>
    obtain ⟨τ, rfl⟩ := refines
    exact ⟨τ, rfl⟩
  | .var _ => cases refines
  | .app _ _ => cases refines
  | .lam _ _ => cases refines

/-- Only applications refine an application. -/
theorem Term.Refines.of_app {f x t : Term} (refines : (Term.app f x).Refines t) :
    ∃ f' x', t = .app f' x' ∧ f.Refines f' ∧ x.Refines x' := by
  match t with
  | .app f' x' => exact ⟨f', x', rfl, refines⟩
  | .const _ => cases refines
  | .var _ => cases refines
  | .lam _ _ => cases refines

/-- Only abstractions refine an abstraction. -/
theorem Term.Refines.of_lam {r : Symbol} {b t : Term} (refines : (Term.lam r b).Refines t) :
    ∃ r' b', t = .lam r' b' ∧ (∃ θ, r' = r.under θ) ∧ b.Refines b' := by
  match t with
  | .lam r' b' => exact ⟨r', b', rfl, refines⟩
  | .const _ => cases refines
  | .var _ => cases refines
  | .app _ _ => cases refines

/-- Only instances of a constant refine an instance of it. -/
theorem Term.Refines.of_instance {c : Symbol} {τ : Int → Ty} {t : Term}
    (refines : (Term.const (c.under τ)).Refines t) : ∃ τ', t = .const (c.under τ') := by
  obtain ⟨σ, rfl⟩ := refines.of_const
  exact ⟨_, congrArg Term.const (Symbol.under_under τ σ c)⟩

mutual

/-- More special types still spell a formula. -/
theorem Expr.Elaborates.refines (regular : v.Regular) : ∀ {e : Expr} {t t' : Term},
    e.From v unschematic → e.Elaborates t → t.Refines t' → e.Elaborates t'
  | .var x, _, t', made, ⟨r, is, elaborates⟩, more => by
    subst is
    match t' with
    | .var r' => exact ⟨r', rfl, elaborates.refines regular made more⟩
    | .const _ => cases more
    | .app _ _ => cases more
    | .lam _ _ => cases more
  | .const c, _, t', _, ⟨τ, is⟩, more => by
    subst is
    exact more.of_instance
  | .apply _ _ _, _, t', ⟨madeF, madeXs⟩, ⟨f, xs, is, elaborates, all⟩, more => by
    subst is
    obtain ⟨f', xs', rfl, moreF, moreXs⟩ := more.of_apps
    exact ⟨f', xs', rfl, Expr.Elaborates.refines regular madeF elaborates moreF,
      Expr.AllElaborate.refines regular madeXs all moreXs⟩
  | .unary _ _ _, _, t', ⟨_, madeX⟩, ⟨τ, x, is, elaborates⟩, more => by
    subst is
    obtain ⟨op, x', rfl, moreOp, moreX⟩ := more.of_app
    obtain ⟨τ', rfl⟩ := moreOp.of_instance
    exact ⟨τ', x', rfl, Expr.Elaborates.refines regular madeX elaborates moreX⟩
  | .binary _ _ _ _, _, t', ⟨_, madeA, madeB⟩, ⟨τ, a, b, is, elaboratesA, elaboratesB⟩, more => by
    subst is
    obtain ⟨g, b', rfl, moreG, moreB⟩ := more.of_app
    obtain ⟨op, a', rfl, moreOp, moreA⟩ := moreG.of_app
    obtain ⟨τ', rfl⟩ := moreOp.of_instance
    exact ⟨τ', a', b', rfl, Expr.Elaborates.refines regular madeA elaboratesA moreA,
      Expr.Elaborates.refines regular madeB elaboratesB moreB⟩
  | .bind _ _ _ _, _, t', ⟨_, madeV, madeB⟩, ⟨τ, r, b, is, elaboratesV, elaboratesB⟩, more => by
    subst is
    obtain ⟨op, l, rfl, moreOp, moreL⟩ := more.of_app
    obtain ⟨r', b', rfl, moreV, moreB⟩ := moreL.of_lam
    obtain ⟨τ', rfl⟩ := moreOp.of_instance
    exact ⟨τ', r', b', rfl, elaboratesV.refines regular madeV moreV,
      Expr.Elaborates.refines regular madeB elaboratesB moreB⟩
  | .lambda _ _ _, _, t', ⟨madeV, madeB⟩, ⟨r, b, is, elaboratesV, elaboratesB⟩, more => by
    subst is
    obtain ⟨r', b', rfl, moreV, moreB⟩ := more.of_lam
    exact ⟨r', b', rfl, elaboratesV.refines regular madeV moreV,
      Expr.Elaborates.refines regular madeB elaboratesB moreB⟩
  | .setOf _ _ _ _ _, _, t', ⟨_, madeV, madeA, madeB⟩,
      ⟨τ, r, a, b, is, elaboratesV, elaboratesA, elaboratesB⟩, more => by
    subst is
    obtain ⟨g, l, rfl, moreG, moreL⟩ := more.of_app
    obtain ⟨op, a', rfl, moreOp, moreA⟩ := moreG.of_app
    obtain ⟨r', b', rfl, moreV, moreB⟩ := moreL.of_lam
    obtain ⟨τ', rfl⟩ := moreOp.of_instance
    exact ⟨τ', r', a', b', rfl, elaboratesV.refines regular madeV moreV,
      Expr.Elaborates.refines regular madeA elaboratesA moreA,
      Expr.Elaborates.refines regular madeB elaboratesB moreB⟩

/-- Arguments that are elaborated are elaborated by terms that refine them. -/
theorem Expr.AllElaborate.refines (regular : v.Regular) : ∀ {es : List Expr} {ts ts' : List Term},
    Expr.AllFrom v unschematic es → Expr.AllElaborate es ts → List.Forall₂ Term.Refines ts ts' →
      Expr.AllElaborate es ts'
  | [], _, ts', _, is, more => by
    rw [Expr.AllElaborate] at is
    subst is
    cases more
    rfl
  | _ :: _, _, ts', ⟨made, madeRest⟩, ⟨t, others, is, elaborates, all⟩, more => by
    subst is
    cases more with
    | cons moreT moreOthers =>
      exact ⟨_, _, rfl, Expr.Elaborates.refines regular made elaborates moreT,
        Expr.AllElaborate.refines regular madeRest all moreOthers⟩

end

/-- An application of named terms is named. -/
theorem Term.Named.apps {f : Term} {xs : List Term} (named : f.Named)
    (all : ∀ x ∈ xs, x.Named) : (f.apps xs).Named := by
  induction xs generalizing f with
  | nil => exact named
  | cons x rest ih => exact ih ⟨named, all x (by simp)⟩ fun y inside => all y (by simp [inside])

mutual

/-- Terms that spell formulas have plain names. -/
theorem Expr.Elaborates.named : ∀ {e : Expr} {t : Term},
    e.From v unschematic → e.Elaborates t → t.Named
  | .var x, _, made, ⟨r, is, elaborates⟩ => by
    rw [is, Term.Named, elaborates.name]
    exact made.spelled
  | .const c, _, _, ⟨τ, is⟩ => by
    rw [is]
    trivial
  | .apply _ _ _, _, ⟨madeF, madeXs⟩, ⟨f, xs, is, elaborates, all⟩ => by
    rw [is]
    exact Term.Named.apps (Expr.Elaborates.named madeF elaborates)
      (Expr.AllElaborate.named madeXs all)
  | .unary _ _ _, _, ⟨_, madeX⟩, ⟨τ, x, is, elaborates⟩ => by
    rw [is]
    exact ⟨trivial, Expr.Elaborates.named madeX elaborates⟩
  | .binary _ _ _ _, _, ⟨_, madeA, madeB⟩, ⟨τ, a, b, is, elaboratesA, elaboratesB⟩ => by
    rw [is]
    exact ⟨⟨trivial, Expr.Elaborates.named madeA elaboratesA⟩,
      Expr.Elaborates.named madeB elaboratesB⟩
  | .bind _ _ _ _, _, ⟨_, madeV, madeB⟩, ⟨τ, r, b, is, elaboratesV, elaboratesB⟩ => by
    rw [is]
    exact ⟨trivial, elaboratesV.name ▸ madeV.spelled, Expr.Elaborates.named madeB elaboratesB⟩
  | .lambda _ _ _, _, ⟨madeV, madeB⟩, ⟨r, b, is, elaboratesV, elaboratesB⟩ => by
    rw [is]
    exact ⟨elaboratesV.name ▸ madeV.spelled, Expr.Elaborates.named madeB elaboratesB⟩
  | .setOf _ _ _ _ _, _, ⟨_, madeV, madeA, madeB⟩,
      ⟨τ, r, a, b, is, elaboratesV, elaboratesA, elaboratesB⟩ => by
    rw [is]
    exact ⟨⟨trivial, Expr.Elaborates.named madeA elaboratesA⟩, elaboratesV.name ▸ madeV.spelled,
      Expr.Elaborates.named madeB elaboratesB⟩

/-- What elaborates expressions of plain names is named. -/
theorem Expr.AllElaborate.named : ∀ {es : List Expr} {ts : List Term},
    Expr.AllFrom v unschematic es → Expr.AllElaborate es ts → ∀ t ∈ ts, t.Named
  | [], _, _, is => by
    rw [Expr.AllElaborate] at is
    simp [is]
  | _ :: _, _, ⟨made, madeRest⟩, ⟨t, others, is, elaborates, all⟩ => by
    rw [is]
    simp only [List.mem_cons, forall_eq_or_imp]
    exact ⟨Expr.Elaborates.named made elaborates, Expr.AllElaborate.named madeRest all⟩

end

/-! ## Inference -/

/-- Typings of several formulas. -/
structure Expr.AllTyped (es : List Expr) (ts : List Term) : Prop where
  /-- The terms spell the formulas with types. -/
  elaborate : Expr.AllElaborate es ts
  /-- Each of them is good. -/
  good : ∀ t ∈ ts, t.Good

/-- A proper typing of a formula that is principal. -/
structure Expr.Infers (e : Expr) (s : Supply) (t : Term) (s' : Supply) : Prop where
  /-- The typing is proper. -/
  proper : t.Proper
  /-- It spells the formula. -/
  elaborates : e.Elaborates t
  /-- All typings are instances of it. -/
  principal : Principal (One e.HasTyping) s [t] s'

/-- Proper typings of several formulas that are principal together. -/
structure Expr.InfersAll (es : List Expr) (s : Supply) (ts : List Term) (s' : Supply) : Prop where
  /-- The typings are proper. -/
  proper : ∀ t ∈ ts, t.Proper
  /-- They spell the formulas. -/
  elaborate : Expr.AllElaborate es ts
  /-- All typings are instances of them. -/
  principal : Principal (Expr.AllTyped es) s ts s'

/-- Terms that are principal for some kind are so for fewer. -/
theorem Principal.mono {T T' : List Term → Prop} {s s' : Supply} {ts : List Term}
    (principal : Principal T s ts s') (fewer : ∀ ts', T' ts' → T ts') : Principal T' s ts s' :=
  ⟨principal.later, principal.drawn, fun ts' holds => principal.general ts' (fewer ts' holds)⟩

/-- The last step of inference: building a raw term that spells the formula from principal
parts. -/
theorem Expr.yields_whole (regular : v.Regular) {e : Expr} (made : e.From v unschematic)
    {T : List Term → Prop} {s s' : Supply} {ts : List Term} {raw : Term} {position : Position}
    {part : Build Term} (parts : Principal T s ts s') (built : Built raw s' (part.runFrom s'))
    (rawDrawn : raw.Drawn s') (elaborates : e.Elaborates raw)
    (split : ∀ t, e.HasTyping t → ∃ parts, T parts ∧ ∀ σ, parts = ts.map (Term.under σ) →
      t = raw.under σ) :
    Typing.Yields (Typing.build position part) s' (e.Infers s) (∀ t, ¬ e.HasTyping t) := by
  have splits : Principal.Splits (One e.HasTyping) T ts [] raw := by
    rintro _ ⟨t, rfl, typing⟩
    obtain ⟨parts', holds, whole⟩ := split t typing
    refine ⟨parts', holds, fun σ same => ?_⟩
    rw [← whole σ same]
    exact ⟨typing.good, rfl⟩
  refine (parts.yields built (by simp) rawDrawn (elaborates.named made) splits).mono ?_
    fun no t typing => ?_
  · rintro t s'' ⟨proper, refines, principal⟩
    exact ⟨proper, elaborates.refines regular made refines, principal⟩
  · exact no [t] ⟨t, rfl, typing⟩

/-- An instance of a declared constant that can be taken to every other. -/
structure Symbol.Occurs (c : Symbol) (s : Supply) (t : Term) (s' : Supply) : Prop where
  /-- The occurrence is proper. -/
  proper : t.Proper
  /-- It is an instance. -/
  instances : ∃ τ, t = .const (c.under τ)
  /-- It can be taken to every instance. -/
  principal : Principal (One fun t => ∃ τ, t = .const (c.under τ)) s [t] s'

/-- An occurrence of a declared constant is its fresh copy. -/
theorem Symbol.occurrence_yields (regular : v.Regular) {c : Symbol} (declared : v.Declares c)
    (s : Supply) (barred : Prop) :
    Typing.Yields (liftM c.occurrence) s (c.Occurs s) barred := by
  obtain ⟨t, s', run, proper, instances, principal⟩ :=
    Symbol.occurrence_principal (regular.constants c declared) s
  exact Typing.yields_lift run ⟨proper, instances, principal⟩

namespace Expr

variable {position : Position} {c : Symbol} {x : NameExpr} {e left right : Expr} {es : List Expr}
  {s s₁ s₂ s₃ s₄ : Supply} {f op a b : Term} {xs : List Term} {r : Symbol}

/-- An application of what was drawn was drawn. -/
theorem drawn_apps (drawn : f.Drawn s) (all : ∀ x ∈ xs, x.Drawn s) : (f.apps xs).Drawn s := by
  induction xs generalizing f with
  | nil => exact drawn
  | cons x rest ih =>
    exact ih ⟨drawn, all x (by simp)⟩ fun y inside => all y (by simp [inside])

/-- The arguments of a good application are good. -/
theorem good_of_apps (good : (f.apps xs).Good) : ∀ x ∈ xs, x.Good := by
  induction xs generalizing f with
  | nil => simp
  | cons x rest ih =>
    intro y member
    rcases List.mem_cons.mp member with rfl | inside
    · exact (Term.Good.of_apps (f := .app f y) good).argument
    · exact ih good y inside

/-- Applying what was inferred infers the application or clashes when it has no typing. -/
theorem apply_yields (regular : v.Regular) (made : (apply position e es).From v unschematic)
    (function : e.Infers s f s₁) (arguments : InfersAll es s₁ xs s₂) :
    Typing.Yields (Typing.build position (f.mkApps xs)) s₂ ((apply position e es).Infers s)
      (∀ t, ¬ (apply position e es).HasTyping t) := by
  have parts := function.principal.append arguments.principal
  refine yields_whole regular made parts (function.proper.mkApps_built arguments.proper s₂)
    (drawn_apps (parts.drawn f (by simp)) fun x inside => parts.drawn x (by simp [inside]))
    ⟨f, xs, rfl, function.elaborates, arguments.elaborate⟩ ?_
  rintro t ⟨⟨f', xs', rfl, elaborates, all⟩, good⟩
  refine ⟨[f'] ++ xs', ⟨_, _, rfl, ⟨f', rfl, elaborates, good.of_apps⟩, all, good_of_apps good⟩, ?_⟩
  intro σ same
  rw [List.map_append] at same
  obtain ⟨first, rest⟩ := List.append_inj same rfl
  rw [Term.under_apps, ← rest]
  simpa using congrArg (Term.apps · xs') (List.cons.inj first).1

/-- A prefix operator on what was inferred is inferred or clashes when it has no typing. -/
theorem unary_yields (regular : v.Regular) (made : (unary position c e).From v unschematic)
    (operand : e.Infers s a s₁) (operator : c.Occurs s₁ op s₂) :
    Typing.Yields (Typing.build position (op.mkApp a)) s₂ ((unary position c e).Infers s)
      (∀ t, ¬ (unary position c e).HasTyping t) := by
  have parts := operand.principal.append operator.principal
  obtain ⟨τ, is⟩ := operator.instances
  refine yields_whole regular made parts (operator.proper.mkApp_built operand.proper s₂)
    ⟨parts.drawn op (by simp), parts.drawn a (by simp)⟩
    ⟨τ, a, by rw [is], operand.elaborates⟩ ?_
  rintro t ⟨⟨τ', a', rfl, elaborates⟩, good⟩
  refine ⟨[a'] ++ [_], ⟨_, _, rfl, ⟨a', rfl, elaborates, good.argument⟩, ⟨_, rfl, τ', rfl⟩⟩, ?_⟩
  intro σ same
  obtain ⟨rfl, isOp⟩ : a' = a.under σ ∧ Term.const (c.under τ') = op.under σ := by
    simpa using same
  rw [Term.under_app, isOp]

/-- An infix operator between what was inferred is inferred or clashes when it has no typing. -/
theorem binary_yields (regular : v.Regular)
    (made : (binary position c left right).From v unschematic) (first : left.Infers s a s₁)
    (second : right.Infers s₁ b s₂) (operator : c.Occurs s₂ op s₃) :
    Typing.Yields (Typing.build position (op.mkApps [a, b])) s₃
      ((binary position c left right).Infers s)
      (∀ t, ¬ (binary position c left right).HasTyping t) := by
  have parts := first.principal.append (second.principal.append operator.principal)
  obtain ⟨τ, is⟩ := operator.instances
  have propers : ∀ x ∈ [a, b], x.Proper := by simp [first.proper, second.proper]
  refine yields_whole regular made parts (operator.proper.mkApps_built propers s₃)
    ⟨⟨parts.drawn op (by simp), parts.drawn a (by simp)⟩, parts.drawn b (by simp)⟩
    ⟨τ, a, b, by rw [is]; rfl, first.elaborates, second.elaborates⟩ ?_
  rintro t ⟨⟨τ', a', b', rfl, elaboratesA, elaboratesB⟩, good⟩
  refine ⟨[a'] ++ ([b'] ++ [_]), ⟨_, _, rfl, ⟨a', rfl, elaboratesA, good.function.argument⟩,
    _, _, rfl, ⟨b', rfl, elaboratesB, good.argument⟩, ⟨_, rfl, τ', rfl⟩⟩, ?_⟩
  intro σ same
  obtain ⟨rfl, rfl, isOp⟩ :
      a' = a.under σ ∧ b' = b.under σ ∧ Term.const (c.under τ') = op.under σ := by
    simpa using same
  rw [isOp]
  rfl

/-- A variable that was read for a binder. -/
structure Binds (x : NameExpr) (s : Supply) (r : Symbol) (s' : Supply) : Prop where
  /-- The variable has a plain type. -/
  plain : r.type.Plain
  /-- It has the name and type that are read. -/
  elaborates : x.Elaborates r
  /-- It is principal. -/
  principal : Principal (One x.Meant) s [.var r] s'

/-- Abstracting from what was inferred is inferred or clashes when it has no typing. -/
theorem lambda_yields (regular : v.Regular) (made : (lambda position x e).From v unschematic)
    (bound : Binds x s r s₁) (body : e.Infers s₁ b s₂) :
    Typing.Yields (Typing.build position (liftM (Term.mkLam (.var r) b))) s₂
      ((lambda position x e).Infers s) (∀ t, ¬ (lambda position x e).HasTyping t) := by
  have parts := bound.principal.append body.principal
  refine yields_whole regular made parts (body.proper.mkLam_built bound.plain s₂)
    ⟨parts.drawn (.var r) (by simp), parts.drawn b (by simp)⟩
    ⟨r, b, rfl, bound.elaborates, body.elaborates⟩ ?_
  rintro t ⟨elaborates, good⟩
  have named := elaborates.named made
  obtain ⟨r', b', rfl, elaboratesV, elaboratesB⟩ := elaborates
  refine ⟨[.var r'] ++ [b'], ⟨_, _, rfl, ⟨_, rfl, r', rfl, elaboratesV⟩,
    ⟨b', rfl, elaboratesB, good.body named.discerning⟩⟩, ?_⟩
  intro σ same
  obtain ⟨rfl, rfl⟩ : r' = r.under σ ∧ b' = b.under σ := by simpa using same
  rfl

/-- Binding in what was inferred is inferred or clashes when it has no typing. -/
theorem bind_yields (regular : v.Regular) (made : (bind position c x e).From v unschematic)
    (bound : Binds x s r s₁) (body : e.Infers s₁ b s₂) (operator : c.Occurs s₂ op s₃) :
    Typing.Yields (Typing.build position (op.mkBinder (.var r) b)) s₃
      ((bind position c x e).Infers s) (∀ t, ¬ (bind position c x e).HasTyping t) := by
  have parts := bound.principal.append (body.principal.append operator.principal)
  obtain ⟨τ, is⟩ := operator.instances
  refine yields_whole regular made parts
    (operator.proper.mkBinder_built bound.plain body.proper s₃)
    ⟨parts.drawn op (by simp), parts.drawn (.var r) (by simp), parts.drawn b (by simp)⟩
    ⟨τ, r, b, by rw [is], bound.elaborates, body.elaborates⟩ ?_
  rintro t ⟨elaborates, good⟩
  have named := elaborates.named made
  obtain ⟨τ', r', b', rfl, elaboratesV, elaboratesB⟩ := elaborates
  refine ⟨[.var r'] ++ ([b'] ++ [_]), ⟨_, _, rfl, ⟨_, rfl, r', rfl, elaboratesV⟩,
    _, _, rfl, ⟨b', rfl, elaboratesB, good.argument.body named.2.discerning⟩,
      ⟨_, rfl, τ', rfl⟩⟩, ?_⟩
  intro σ same
  obtain ⟨rfl, rfl, isOp⟩ : r' = r.under σ ∧ b' = b.under σ ∧
      Term.const (c.under τ') = op.under σ := by
    simpa using same
  rw [isOp]
  rfl

/-- The set and the abstraction of a set builder, which are there before its constant. -/
structure Separates (position : Position) (x : NameExpr) (set body : Expr) (a : Term)
    (s : Supply) (t : Term) (s' : Supply) : Prop where
  /-- The abstraction is proper. -/
  proper : t.Proper
  /-- It spells an abstraction. -/
  elaborates : (lambda position x body).Elaborates t
  /-- Both are principal. -/
  principal : Principal (Both (One set.HasTyping) (One (lambda position x body).HasTyping)) s
    [a, t] s'

/-- The abstraction of a set builder is built with the set kept in mind. -/
theorem setOf_abstraction_yields (regular : v.Regular)
    (made : (setOf position c x left right).From v unschematic) (bound : Binds x s r s₁)
    (set : left.Infers s₁ a s₂) (body : right.Infers s₂ b s₃) :
    Typing.Yields (Typing.build position (liftM (Term.mkLam (.var r) b))) s₃
      (Separates position x left right a s)
      (∀ t, ¬ (setOf position c x left right).HasTyping t) := by
  have parts := bound.principal.append (set.principal.append body.principal)
  have madeL : (lambda position x right).From v unschematic := ⟨made.2.1, made.2.2.2⟩
  have elaborates : (lambda position x right).Elaborates (.lam r b) :=
    ⟨r, b, rfl, bound.elaborates, body.elaborates⟩
  have splits : Principal.Splits (Both (One left.HasTyping)
      (One (lambda position x right).HasTyping))
      (Both (One x.Meant) (Both (One left.HasTyping) (One right.HasTyping)))
      ([.var r] ++ ([a] ++ [b])) [a] (.lam r b) := by
    rintro _ ⟨_, _, rfl, ⟨a', rfl, typing⟩, _, rfl, elaboratesL, good⟩
    have named := elaboratesL.named madeL
    obtain ⟨r', b', rfl, elaboratesV, elaboratesB⟩ := elaboratesL
    refine ⟨[.var r'] ++ ([a'] ++ [b']), ⟨_, _, rfl, ⟨_, rfl, r', rfl, elaboratesV⟩,
      _, _, rfl, ⟨a', rfl, typing⟩, ⟨b', rfl, elaboratesB, good.body named.discerning⟩⟩, ?_⟩
    intro σ same
    obtain ⟨rfl, rfl, rfl⟩ : r' = r.under σ ∧ a' = a.under σ ∧ b' = b.under σ := by
      simpa using same
    exact ⟨good, rfl⟩
  refine (parts.yields (body.proper.mkLam_built bound.plain s₃) ?_ ?_ (elaborates.named madeL)
    splits).mono ?_ ?_
  · simpa using parts.drawn a (by simp)
  · exact ⟨parts.drawn (.var r) (by simp), parts.drawn b (by simp)⟩
  · rintro t s' ⟨proper, refines, principal⟩
    exact ⟨proper, elaborates.refines regular madeL refines, principal⟩
  · rintro no t ⟨⟨τ, r', a', b', rfl, elaboratesV, elaboratesA, elaboratesB⟩, good⟩
    exact no _ ⟨_, _, rfl, ⟨a', rfl, elaboratesA, good.function.argument⟩, _, rfl,
      ⟨r', b', rfl, elaboratesV, elaboratesB⟩, good.argument⟩

/-- A set of what was inferred is inferred or clashes when it has no typing. -/
theorem setOf_yields (regular : v.Regular)
    (made : (setOf position c x left right).From v unschematic) {t : Term}
    (set : left.Infers s₁ a s₂) (separates : Separates position x left right a s t s₃)
    (operator : c.Occurs s₃ op s₄) :
    Typing.Yields (Typing.build position (op.mkApps [a, t])) s₄
      ((setOf position c x left right).Infers s)
      (∀ t, ¬ (setOf position c x left right).HasTyping t) := by
  have parts := separates.principal.append operator.principal
  obtain ⟨τ, is⟩ := operator.instances
  have propers : ∀ y ∈ [a, t], y.Proper := by simp [set.proper, separates.proper]
  have elaborates : (setOf position c x left right).Elaborates (op.apps [a, t]) := by
    obtain ⟨r, b, rfl, elaboratesV, elaboratesB⟩ := separates.elaborates
    exact ⟨τ, r, a, b, by rw [is]; rfl, elaboratesV, set.elaborates, elaboratesB⟩
  refine yields_whole regular made parts (operator.proper.mkApps_built propers s₄)
    ⟨⟨parts.drawn op (by simp), parts.drawn a (by simp)⟩, parts.drawn t (by simp)⟩ elaborates ?_
  rintro t' ⟨⟨τ', r', a', b', rfl, elaboratesV, elaboratesA, elaboratesB⟩, good⟩
  refine ⟨([a'] ++ [.lam r' b']) ++ [_], ⟨_, _, rfl, ⟨_, _, rfl,
    ⟨a', rfl, elaboratesA, good.function.argument⟩, _, rfl, ⟨r', b', rfl, elaboratesV, elaboratesB⟩,
    good.argument⟩, ⟨_, rfl, τ', rfl⟩⟩, ?_⟩
  intro σ same
  obtain ⟨rfl, isL, isOp⟩ : a' = a.under σ ∧ Term.lam r' b' = t.under σ ∧
      Term.const (c.under τ') = op.under σ := by
    simpa using same
  rw [isL, isOp]
  rfl

mutual

/-- Inference finds a principal typing of a formula, or there is none. -/
theorem infer_yields (regular : v.Regular) : ∀ (e : Expr), e.From v unschematic →
    ∀ s, Typing.Yields e.infer s (e.Infers s) (∀ t, ¬ e.HasTyping t)
  | var x, made, s => by
    rw [infer]
    refine (NameExpr.resolve_yields regular made s _).mono ?_ fun no => no
    rintro _ s' ⟨r, rfl, plain, elaborates, principal⟩
    refine ⟨Term.proper_var plain, ⟨r, rfl, elaborates⟩, principal.mono ?_⟩
    rintro _ ⟨t, rfl, typing⟩
    exact ⟨t, rfl, typing.elaborates⟩
  | const c, declared, s => by
    rw [infer]
    refine (Symbol.occurrence_yields regular declared s _).mono ?_ fun no => no
    intro t s' occurs
    refine ⟨occurs.proper, occurs.instances, occurs.principal.mono ?_⟩
    rintro _ ⟨t, rfl, typing⟩
    exact ⟨t, rfl, typing.elaborates⟩
  | apply position e es, made, s => by
    rw [infer]
    refine Typing.Yields.bind ((infer_yields regular e made.1 s).mono (fun _ _ holds => holds) ?_)
      fun f s₁ function => ?_
    · rintro no _ ⟨⟨f, xs, rfl, elaborates, _⟩, good⟩
      exact no f ⟨elaborates, good.of_apps⟩
    refine Typing.Yields.bind ((inferAll_yields regular es made.2 s₁).mono
      (fun _ _ holds => holds) ?_) fun xs s₂ arguments => ?_
    · rintro no _ ⟨⟨f, xs, rfl, _, all⟩, good⟩
      exact no xs ⟨all, good_of_apps good⟩
    exact apply_yields regular made function arguments
  | unary position c e, made, s => by
    rw [infer]
    refine Typing.Yields.bind ((infer_yields regular e made.2 s).mono (fun _ _ holds => holds) ?_)
      fun x s₁ operand => ?_
    · rintro no _ ⟨⟨τ, x, rfl, elaborates⟩, good⟩
      exact no x ⟨elaborates, good.argument⟩
    refine (Symbol.occurrence_yields regular made.1 s₁ _).bind fun op s₂ operator => ?_
    exact unary_yields regular made operand operator
  | binary position c left right, made, s => by
    rw [infer]
    refine Typing.Yields.bind ((infer_yields regular left made.2.1 s).mono
      (fun _ _ holds => holds) ?_) fun a s₁ first => ?_
    · rintro no _ ⟨⟨τ, a, b, rfl, elaborates, _⟩, good⟩
      exact no a ⟨elaborates, good.function.argument⟩
    refine Typing.Yields.bind ((infer_yields regular right made.2.2 s₁).mono
      (fun _ _ holds => holds) ?_) fun b s₂ second => ?_
    · rintro no _ ⟨⟨τ, a, b, rfl, _, elaborates⟩, good⟩
      exact no b ⟨elaborates, good.argument⟩
    refine (Symbol.occurrence_yields regular made.1 s₂ _).bind fun op s₃ operator => ?_
    exact binary_yields regular made first second operator
  | bind position c x e, made, s => by
    rw [infer]
    refine (NameExpr.resolve_yields regular made.2.1 s _).bind ?_
    rintro _ s₁ ⟨r, rfl, plain, elaboratesV, principal⟩
    refine Typing.Yields.bind ((infer_yields regular e made.2.2 s₁).mono
      (fun _ _ holds => holds) ?_) fun b s₂ body => ?_
    · rintro no t ⟨elaborates, good⟩
      have named := elaborates.named made
      obtain ⟨τ, r, b, rfl, _, elaboratesB⟩ := elaborates
      exact no b ⟨elaboratesB, good.argument.body named.2.discerning⟩
    refine (Symbol.occurrence_yields regular made.1 s₂ _).bind fun op s₃ operator => ?_
    exact bind_yields regular made ⟨plain, elaboratesV, principal⟩ body operator
  | lambda position x e, made, s => by
    rw [infer]
    refine (NameExpr.resolve_yields regular made.1 s _).bind ?_
    rintro _ s₁ ⟨r, rfl, plain, elaboratesV, principal⟩
    refine Typing.Yields.bind ((infer_yields regular e made.2 s₁).mono
      (fun _ _ holds => holds) ?_) fun b s₂ body => ?_
    · rintro no t ⟨elaborates, good⟩
      have named := elaborates.named made
      obtain ⟨r, b, rfl, _, elaboratesB⟩ := elaborates
      exact no b ⟨elaboratesB, good.body named.discerning⟩
    exact lambda_yields regular made ⟨plain, elaboratesV, principal⟩ body
  | setOf position c x set body, made, s => by
    rw [infer]
    refine (NameExpr.resolve_yields regular made.2.1 s _).bind ?_
    rintro _ s₁ ⟨r, rfl, plain, elaboratesV, principal⟩
    refine Typing.Yields.bind ((infer_yields regular set made.2.2.1 s₁).mono
      (fun _ _ holds => holds) ?_) fun a s₂ inSet => ?_
    · rintro no _ ⟨⟨τ, r, a, b, rfl, _, elaborates, _⟩, good⟩
      exact no a ⟨elaborates, good.function.argument⟩
    refine Typing.Yields.bind ((infer_yields regular body made.2.2.2 s₂).mono
      (fun _ _ holds => holds) ?_) fun b s₃ inBody => ?_
    · rintro no t ⟨elaborates, good⟩
      have named := elaborates.named made
      obtain ⟨τ, r, a, b, rfl, _, _, elaboratesB⟩ := elaborates
      exact no b ⟨elaboratesB, good.argument.body named.2.discerning⟩
    have bound : Binds x s r s₁ := ⟨plain, elaboratesV, principal⟩
    refine (setOf_abstraction_yields regular made bound inSet inBody).bind
      fun t s₄ separates => ?_
    refine (Symbol.occurrence_yields regular made.1 s₄ _).bind fun op s₅ operator => ?_
    exact setOf_yields regular made inSet separates operator

/-- Inference finds principal typings of several formulas, or one of them has none. -/
theorem inferAll_yields (regular : v.Regular) : ∀ (es : List Expr), AllFrom v unschematic es →
    ∀ s, Typing.Yields (inferAll es) s (InfersAll es s) (∀ ts, ¬ AllTyped es ts)
  | [], _, s => by
    rw [inferAll]
    refine Typing.yields_pure ⟨by simp, rfl, (Principal.nil s).mono fun ts typed => ?_⟩
    exact typed.elaborate
  | e :: es, made, s => by
    rw [inferAll]
    refine Typing.Yields.bind ((infer_yields regular e made.1 s).mono (fun _ _ holds => holds) ?_)
      fun t s₁ first => ?_
    · rintro no _ ⟨⟨t, others, rfl, elaborates, _⟩, good⟩
      exact no t ⟨elaborates, good t (by simp)⟩
    refine Typing.Yields.bind ((inferAll_yields regular es made.2 s₁).mono
      (fun _ _ holds => holds) ?_) fun ts s₂ rest => ?_
    · rintro no _ ⟨⟨t, others, rfl, _, all⟩, good⟩
      exact no others ⟨all, fun t inside => good t (by simp [inside])⟩
    refine Typing.yields_pure ⟨?_, ⟨t, ts, rfl, first.elaborates, rest.elaborate⟩,
      (first.principal.append rest.principal).mono ?_⟩
    · simpa using ⟨first.proper, rest.proper⟩
    · rintro _ ⟨⟨t, others, rfl, elaborates, all⟩, good⟩
      exact ⟨[t], others, rfl, ⟨t, rfl, elaborates, good t (by simp)⟩, all,
        fun t inside => good t (by simp [inside])⟩

end

end Expr

/-- The formula that a text without schematic variables spells is made of what is offered. -/
theorem Formula.unschematic_from {text : String} {tokens : List Token} {e : Expr}
    (unmarked : '?' ∉ text.toList) (cut : Formula.tokens text = .ok tokens)
    (read : Formula.wholeTerm v tokens = .ok e) : e.From v unschematic := by
  have spelled : Formula.Spelled unschematic tokens := fun token inside =>
    ⟨(Formula.tokens_spelled cut token inside).1,
      fun is => unmarked ((Formula.tokens_spelled cut token inside).2 is)⟩
  exact Formula.wholeTerm_from spelled read

/-- What parsing amounts to once the grammar has accepted a text. -/
theorem Vocabulary.parse_eq {text : String} {tokens : List Token} {e : Expr}
    (cut : Formula.tokens text = .ok tokens) (read : Formula.wholeTerm v tokens = .ok e) :
    v.parse text = e.infer.within := by
  rw [Vocabulary.parse, cut]
  change Vocabulary.settle (Formula.wholeTerm v tokens) Expr.infer = _
  rw [read]
  rfl

/-- A text without schematic variables that the grammar accepts is parsed exactly if its formula
has a typing, and otherwise types clash; all typings are instances of the term that is returned,
by one substitution each. -/
theorem Vocabulary.parse_principal (regular : v.Regular) {text : String}
    {tokens : List Token} {e : Expr} (unmarked : '?' ∉ text.toList)
    (cut : Formula.tokens text = .ok tokens) (read : Formula.wholeTerm v tokens = .ok e)
    (s : Supply) :
    ((∃ t s', (v.parse text).runFrom s = (.ok t, s')) ↔ ∃ t, e.HasTyping t) ∧
      (∀ failure s', (v.parse text).runFrom s = (.error failure, s') → failure.IsClash) ∧
      ∀ t s', (v.parse text).runFrom s = (.ok t, s') →
        ∀ t', e.HasTyping t' ↔ ∃ σ, t' = t.under σ := by
  have made := Formula.unschematic_from unmarked cut read
  have outcome := Expr.infer_yields regular e made s []
  have run : (v.parse text).runFrom s = match (e.infer.run []).runFrom s with
      | (.ok result, s') => (.ok result.1, s')
      | (.error failure, s') => (.error failure, s') := by
    rw [Vocabulary.parse_eq cut read, Typing.within_eq, runFrom_bind]
    rcases (e.infer.run []).runFrom s with ⟨failure | result, s'⟩ <;> rfl
  rw [run]
  generalize (e.infer.run []).runFrom s = result at outcome
  cases outcome with
  | impossible clash no =>
    refine ⟨⟨fun ⟨t, s', done⟩ => (nomatch done), fun ⟨t, typing⟩ => absurd typing (no t)⟩,
      fun failure s' failed => ?_, fun t s' done => (nomatch done)⟩
    cases failed
    exact clash
  | @done t s' infers =>
    have typing : e.HasTyping t := ⟨infers.elaborates, infers.proper.toGood⟩
    refine ⟨⟨fun _ => ⟨t, typing⟩, fun _ => ⟨t, s', rfl⟩⟩,
      fun failure s' failed => (nomatch failed),
      fun t₁ s₁ done t' => ?_⟩
    cases done
    constructor
    · intro typing'
      obtain ⟨σ, _, same⟩ := infers.principal.general [t'] ⟨t', rfl, typing'⟩ .var
      exact ⟨σ, by simpa using same⟩
    · rintro ⟨σ, rfl⟩
      exact ⟨infers.elaborates.refines regular made (t.refines_under σ),
        infers.proper.toGood.under (infers.elaborates.named made).discerningUnder⟩

end

/-- The formula of `f(x)`. -/
def applicationExpr : Expr := .apply ⟨1, 1, 2⟩ (.var ⟨"f", none⟩) [.var ⟨"x", none⟩]

/-- The term that is read from `f(x)`. -/
def applicationTerm : Term :=
  .app (.var ⟨"f", .arrow (.var 1000000002) (.var 1000000003)⟩) (.var ⟨"x", .var 1000000002⟩)

/-- The typings of `f(x)` are the instances of what is read. -/
theorem Vocabulary.parse_principal_application :
    ((standardTypes.parse "f(x)").runFrom Supply.initial).1.toOption = some applicationTerm ∧
      ∀ t, applicationExpr.HasTyping t ↔ ∃ σ, t = applicationTerm.under σ := by
  have regular : standardTypes.Regular :=
    Vocabulary.regular_of_words Declarations.typeWords_regular
  have parsed : ((standardTypes.parse "f(x)").runFrom Supply.initial).1.toOption =
      some applicationTerm := by
    decide
  refine ⟨parsed, ?_⟩
  obtain ⟨_, _, instances⟩ := @Vocabulary.parse_principal standardTypes regular "f(x)" _
    applicationExpr (by decide) rfl rfl Supply.initial
  rcases run : (standardTypes.parse "f(x)").runFrom Supply.initial with ⟨failure | t, s'⟩ <;>
    rw [run] at parsed
  · cases parsed
  · cases parsed
    exact instances _ s' run

/-- A type that is written but stands for a type variable. -/
def openWords : List Word := [.type "obj" .obj, .type "t" (.var 5)]

/-- With types that are written alike, or with a written type that is a variable, a text can be
parsed although its formula has no typing. -/
theorem Vocabulary.parse_without_typing :
    (∃ e, Formula.wholeTerm ⟨crossedWords, []⟩
        ((Formula.tokens "\\x:s. x:t").toOption.getD []) = .ok e ∧ (∀ t, ¬ e.HasTyping t) ∧
      (((⟨crossedWords, []⟩ : Vocabulary).parse "\\x:s. x:t").runFrom
        Supply.initial).1.toOption.isSome = true) ∧
    (∃ e, Formula.wholeTerm ⟨openWords, []⟩
        ((Formula.tokens "f:(t->obj)(y:obj)").toOption.getD []) = .ok e ∧ (∀ t, ¬ e.HasTyping t) ∧
      (((⟨openWords, []⟩ : Vocabulary).parse "f:(t->obj)(y:obj)").runFrom
        Supply.initial).1.toOption.isSome = true) := by
  constructor
  · refine ⟨.lambda ⟨0, 1, 1⟩ ⟨"x", some (.known (.arrow (.const "a,'b") (.const "c")))⟩
      (.var ⟨"x", some (.known (.arrow (.const "a") (.const "b,'c")))⟩), rfl, ?_, by decide +kernel⟩
    rintro _ ⟨⟨r, _, rfl, bound, s, rfl, occurrence⟩, good⟩
    have binder : r.type = .arrow (.const "a,'b") (.const "c") := bound.type _ rfl
    have written : s.type = .arrow (.const "a") (.const "b,'c") := occurrence.type _ rfl
    have same := good.wellTyped.2 s (by simp [Term.free]) (occurrence.name.trans bound.name.symm)
    rw [binder, written] at same
    exact absurd same (by decide)
  · refine ⟨.apply ⟨10, 1, 11⟩ (.var ⟨"f", some (.arrow (.known (.var 5)) (.known .obj))⟩)
      [.var ⟨"y", some (.known .obj)⟩], rfl, ?_, by decide +kernel⟩
    rintro _ ⟨⟨_, _, rfl, ⟨f, rfl, function⟩, _, _, rfl, ⟨y, rfl, argument⟩, rfl⟩, good⟩
    obtain ⟨_, _, isF, rfl, rfl⟩ := function.type _ rfl
    have isY : y.type = .obj := argument.type _ rfl
    obtain ⟨codomain, typed⟩ := good.wellTyped.2.2
    simp only [Term.type, isF, isY, Ty.arrow.injEq] at typed
    exact absurd typed.1 (by decide)

end Turnstile
