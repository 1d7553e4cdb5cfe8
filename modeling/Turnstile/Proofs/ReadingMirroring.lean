import Turnstile.Proofs.EnvironmentSafety
import Turnstile.Proofs.Mirroring

/-!
# Reading under a renaming

Reading a text again, from another supply, gives the renamed term: all that a text leaves open are
the type variables that reading it draws, since the types it can name have no variables and the
constants in it are copies.
-/

namespace Turnstile

open Build

/-- A regular vocabulary whose constants have plain names. -/
structure Vocabulary.Labelled (v : Vocabulary) : Prop extends v.Regular where
  /-- The names of the constants. -/
  names : ∀ c, v.Declares c → isPlain c.name = true

variable {ρ : Renaming}

namespace Typing

variable {α β γ δ : Type} {R : α → β → Prop} {S : γ → δ → Prop}

/-- The same schematic names, with renamed types. -/
def Mirrored (ρ : Renaming) : Schematics → Schematics → Prop :=
  List.Forall₂ fun entry entry' => entry'.1 = entry.1 ∧ ρ.TakesType entry.2 entry'.2

/-- Inference within two texts does the same under a renaming. -/
def Mirrors (ρ : Renaming) (R : α → β → Prop) (first : Typing α) (second : Typing β) : Prop :=
  ∀ known known', Mirrored ρ known known' →
    Build.Mirrors ρ (fun r r' => R r.1 r'.1 ∧ Mirrored ρ r.2 r'.2) (first.run known)
      (second.run known')

/-- Returning related values is mirrored. -/
theorem mirrors_pure {a : α} {b : β} (related : R a b) :
    Typing.Mirrors ρ R (pure a) (pure b) := fun _ _ mirrored =>
  Build.mirrors_pure ⟨related, mirrored⟩

/-- If the first parts are mirrored and the next ones are on related values, then so is the whole.
-/
theorem Mirrors.bind {first : Typing α} {second : Typing β} {next : α → Typing γ}
    {next' : β → Typing δ} (mirrors : Typing.Mirrors ρ R first second)
    (continues : ∀ a b, R a b → Typing.Mirrors ρ S (next a) (next' b)) :
    Typing.Mirrors ρ S (first >>= next) (second >>= next') := by
  intro known known' mirrored
  rw [StateT.run_bind, StateT.run_bind]
  exact (mirrors known known' mirrored).bind fun r r' related =>
    continues r.1 r'.1 related.1 r.2 r'.2 related.2

/-- Builds that mirror each other do so inside of inference. -/
theorem mirrors_lift {first : Build α} {second : Build β}
    (mirrors : Build.Mirrors ρ R first second) :
    Typing.Mirrors ρ R (liftM first) (liftM second) := fun _ _ mirrored =>
  Build.Mirrors.bind mirrors fun _ _ related => Build.mirrors_pure ⟨related, mirrored⟩

/-- Parts that are built mirror each other if the builds do. -/
theorem mirrors_build {position : Position} {first second : Build Term} {R : Term → Term → Prop}
    (mirrors : Build.Mirrors ρ R first second) :
    Typing.Mirrors ρ R (Typing.build position first) (Typing.build position second) :=
  mirrors_lift (mirrors.within _ _)

/-- The same names are known on both sides. -/
theorem Mirrored.lookup {known known' : Schematics} (mirrored : Mirrored ρ known known')
    (name : String) :
    (known.lookup name = none ∧ known'.lookup name = none) ∨
      ∃ a a', known.lookup name = some a ∧ known'.lookup name = some a' ∧ ρ.TakesType a a' := by
  induction mirrored with
  | nil => exact .inl ⟨rfl, rfl⟩
  | @cons entry entry' _ _ first _ ih =>
    obtain ⟨key, a⟩ := entry
    obtain ⟨key', a'⟩ := entry'
    obtain ⟨rfl, takes⟩ := first
    rw [List.lookup_cons, List.lookup_cons]
    cases here : name == key' with
    | true => exact .inr ⟨a, a', rfl, rfl, takes⟩
    | false => exact ih

/-- A schematic name that is known has its type, another one gets a new one. -/
theorem run_schematic (name : String) (known : Schematics) :
    (Typing.schematic name).run known = match known.lookup name with
      | some t => pure (t, known)
      | none => freshType >>= fun t => pure (t, (name, t) :: known) := by
  rw [Typing.schematic, StateT.run_bind]
  change (match known.lookup name with
    | some t => _
    | none => _ : Typing Ty).run known = _
  cases known.lookup name with
  | some t => rfl
  | none => rfl

/-- A schematic name is given types that the renaming takes. -/
theorem mirrors_schematic (name : String) :
    Typing.Mirrors ρ ρ.TakesType (Typing.schematic name) (Typing.schematic name) := by
  intro known known' mirrored
  rw [run_schematic, run_schematic]
  rcases mirrored.lookup name with ⟨here, here'⟩ | ⟨a, a', here, here', takes⟩
  · rw [here, here']
    exact mirrors_freshType.bind fun a a' takes =>
      Build.mirrors_pure ⟨takes, .cons ⟨rfl, takes⟩ mirrored⟩
  · rw [here, here']
    exact Build.mirrors_pure ⟨takes, mirrored⟩

/-- Inferences that mirror each other do so as builds. -/
theorem mirrors_within {first : Typing α} {second : Typing β}
    (mirrors : Typing.Mirrors ρ R first second) :
    Build.Mirrors ρ R first.within second.within := by
  rw [within_eq, within_eq]
  exact (mirrors [] [] .nil).bind fun _ _ related => Build.mirrors_pure related.1

end Typing

/-! ## Growing supplies -/

namespace Typing

variable {α β : Type}

/-- Nothing that was drawn is given back. -/
def Grows (typing : Typing α) : Prop := ∀ known, Build.Grows (typing.run known)

/-- Returning a value draws nothing. -/
theorem grows_pure (a : α) : Typing.Grows (pure a) := fun _ => Build.grows_pure _

/-- If two parts never go back in the supply, then neither do both together. -/
theorem Grows.bind {typing : Typing α} {next : α → Typing β} (grows : Typing.Grows typing)
    (continues : ∀ a, Typing.Grows (next a)) : Typing.Grows (typing >>= next) := by
  intro known
  rw [StateT.run_bind]
  exact (grows known).bind fun _ r _ _ => continues r.1 r.2

/-- A build that never goes back does not do so inside of inference. -/
theorem grows_lift {build : Build α} (grows : Build.Grows build) :
    Typing.Grows (liftM build) := fun _ =>
  Build.Grows.bind grows fun _ _ _ _ => Build.grows_pure _

/-- Building a part never goes back if the build does not. -/
theorem grows_build {position : Position} {part : Build Term} (grows : Build.Grows part) :
    Typing.Grows (Typing.build position part) := grows_lift (grows.reported _)

/-- An inference that never goes back does not do so as a build. -/
theorem grows_within {typing : Typing α} (grows : Typing.Grows typing) :
    Build.Grows typing.within := by
  rw [within_eq]
  exact (grows []).bind fun _ _ _ _ => Build.grows_pure _

/-- A schematic name never goes back in the supply. -/
theorem grows_schematic (name : String) : Typing.Grows (Typing.schematic name) := by
  intro known
  rw [run_schematic]
  split
  · exact Build.grows_pure _
  · exact grows_freshType.bind fun _ _ _ _ => Build.grows_pure _

end Typing

/-- Making an application never goes back in the supply. -/
theorem Term.grows_mkApp (f x : Term) : Grows (f.mkApp x) := by
  have narrow : Grows (f.narrow x.type) := by
    rw [Term.narrow]
    split
    · exact grows_freshType.bind fun _ _ _ _ => (grows_lift _).bind fun _ _ _ _ => grows_pure _
    · exact grows_pure _
  refine narrow.bind fun _ g _ _ => ?_
  split
  · exact (grows_lift _).bind fun _ _ _ _ => grows_lift _
  · exact grows_freshType.bind fun _ _ _ _ => grows_throw _

/-- Making several applications never goes back in the supply. -/
theorem Term.grows_mkApps : ∀ (xs : List Term) (f : Term), Grows (f.mkApps xs)
  | [], _ => grows_pure _
  | x :: rest, f => (f.grows_mkApp x).bind fun _ g _ _ => Term.grows_mkApps rest g

/-- An occurrence of a constant never goes back in the supply. -/
theorem Symbol.grows_occurrence (constant : Symbol) : Grows constant.occurrence := by
  have copies : Grows constant.type.instantiate :=
    (grows_mapM (fun _ => grows_freshType.bind fun _ _ _ _ => grows_pure _) _).bind
      fun _ _ _ _ => grows_pure _
  exact (copies.bind fun _ _ _ _ => grows_pure _).bind fun _ _ _ _ => grows_pure _

/-- Resolving a type never goes back in the supply. -/
theorem TypeExpr.grows_resolve : ∀ t : TypeExpr, Typing.Grows t.resolve
  | .known _ => Typing.grows_pure _
  | .schematic name => Typing.grows_schematic name
  | .arrow d c => d.grows_resolve.bind fun _ => c.grows_resolve.bind fun _ => Typing.grows_pure _

/-- Resolving a name never goes back in the supply. -/
theorem NameExpr.grows_resolve (x : NameExpr) : Typing.Grows x.resolve := by
  rw [NameExpr.resolve]
  split
  · exact (TypeExpr.grows_resolve _).bind fun _ => Typing.grows_pure _
  · exact (Typing.grows_lift grows_freshType).bind fun _ => Typing.grows_pure _

mutual

/-- Inference never goes back in the supply. -/
theorem Expr.grows_infer : ∀ e : Expr, Typing.Grows e.infer
  | .var x => by
    rw [Expr.infer]
    exact x.grows_resolve
  | .const constant => by
    rw [Expr.infer]
    exact Typing.grows_lift constant.grows_occurrence
  | .apply _ function arguments => by
    rw [Expr.infer]
    exact function.grows_infer.bind fun f => (Expr.grows_inferAll arguments).bind fun xs =>
      Typing.grows_build (f.grows_mkApps xs)
  | .unary _ operator operand => by
    rw [Expr.infer]
    exact operand.grows_infer.bind fun x =>
      (Typing.grows_lift operator.grows_occurrence).bind fun op =>
        Typing.grows_build (op.grows_mkApp x)
  | .binary _ operator left right => by
    rw [Expr.infer]
    exact left.grows_infer.bind fun a => right.grows_infer.bind fun b =>
      (Typing.grows_lift operator.grows_occurrence).bind fun op =>
        Typing.grows_build (op.grows_mkApps [a, b])
  | .bind _ binder bound body => by
    rw [Expr.infer]
    exact bound.grows_resolve.bind fun x => body.grows_infer.bind fun b =>
      (Typing.grows_lift binder.grows_occurrence).bind fun op =>
        Typing.grows_build ((grows_lift _).bind fun _ l _ _ => op.grows_mkApp l)
  | .lambda _ bound body => by
    rw [Expr.infer]
    exact bound.grows_resolve.bind fun x => body.grows_infer.bind fun b =>
      Typing.grows_build (grows_lift _)
  | .setOf _ builder bound set body => by
    rw [Expr.infer]
    exact bound.grows_resolve.bind fun x => set.grows_infer.bind fun a =>
      body.grows_infer.bind fun b => (Typing.grows_build (grows_lift _)).bind fun l =>
        (Typing.grows_lift builder.grows_occurrence).bind fun op =>
          Typing.grows_build (op.grows_mkApps [a, l])

/-- Inference of several expressions never goes back in the supply. -/
theorem Expr.grows_inferAll : ∀ es : List Expr, Typing.Grows (Expr.inferAll es)
  | [] => by
    rw [Expr.inferAll]
    exact Typing.grows_pure _
  | e :: rest => by
    rw [Expr.inferAll]
    exact e.grows_infer.bind fun _ => (Expr.grows_inferAll rest).bind fun _ => Typing.grows_pure _

end

section

variable {v : Vocabulary} {offers : Prop}

/-- A type without variables is its own renamed form. -/
theorem Ty.renamed_of_ground {a : Ty} (ground : a.vars = []) : a.mapVars ρ.types = a := by
  have same : a.mapVars ρ.types = a.mapVars .var := mapVars_congr (by simp [ground])
  rw [same, mapVars_var]

/-- What a text calls a type is the same type again, except for schematic variables. -/
theorem TypeExpr.mirrors_resolve (regular : v.Regular) :
    ∀ {t : TypeExpr}, t.From v ⟨fun name => isPlain name = true, offers⟩ →
      Typing.Mirrors ρ ρ.TakesType t.resolve t.resolve
  | .known t, ⟨name, spelled, found⟩ =>
    Typing.mirrors_pure ⟨regular.types name t spelled found,
      (Ty.renamed_of_ground (regular.ground name t spelled found)).symm⟩
  | .schematic name, _ => Typing.mirrors_schematic name
  | .arrow _ _, ⟨fromDomain, fromCodomain⟩ => by
    refine (TypeExpr.mirrors_resolve regular fromDomain).bind fun d d' domain => ?_
    refine (TypeExpr.mirrors_resolve regular fromCodomain).bind fun c c' codomain => ?_
    refine Typing.mirrors_pure ⟨⟨domain.plain, codomain.plain⟩, ?_⟩
    rw [domain.renamed, codomain.renamed, Ty.renamed_arrow]

/-- Resolving a name is mirrored. -/
theorem NameExpr.mirrors_resolve (regular : v.Regular) {x : NameExpr}
    (made : x.From v ⟨fun name => isPlain name = true, offers⟩) :
    Typing.Mirrors ρ ρ.Takes x.resolve x.resolve := by
  rw [NameExpr.resolve]
  split
  next t written =>
    refine (TypeExpr.mirrors_resolve regular (made.declared t written)).bind fun a a' takes => ?_
    exact Typing.mirrors_pure (Renaming.takes_var made.spelled takes)
  next =>
    refine (Typing.mirrors_lift mirrors_freshType).bind fun a a' takes => ?_
    exact Typing.mirrors_pure (Renaming.takes_var made.spelled takes)

/-- An occurrence of a declared constant is mirrored. -/
theorem Symbol.mirrors_occurrence {constant : Symbol} (labelled : v.Labelled)
    (declared : v.Declares constant) :
    Build.Mirrors ρ ρ.Takes constant.occurrence constant.occurrence := by
  refine Build.Mirrors.bind (R := fun c c' : Symbol => c.name = constant.name ∧
    c'.name = constant.name ∧ ρ.TakesType c.type c'.type) ?_ ?_
  · refine (Ty.mirrors_instantiate (labelled.constants constant declared)).bind ?_
    exact fun a a' takes => Build.mirrors_pure ⟨rfl, rfl, takes⟩
  · rintro ⟨name, a⟩ ⟨name', a'⟩ ⟨rfl, same, takes⟩
    obtain rfl : name' = constant.name := same
    exact Build.mirrors_pure (Renaming.takes_const (labelled.names constant declared) takes)

mutual

/-- Inferring the term of a formula again gives the renamed term. -/
theorem Expr.mirrors_infer (labelled : v.Labelled) :
    ∀ {e : Expr}, e.From v ⟨fun name => isPlain name = true, offers⟩ →
      Typing.Mirrors ρ ρ.Takes e.infer e.infer
  | .var x, made => by
    rw [Expr.infer]
    exact NameExpr.mirrors_resolve labelled.toRegular made
  | .const constant, declared => by
    rw [Expr.infer]
    exact Typing.mirrors_lift (Symbol.mirrors_occurrence labelled declared)
  | .apply _ _ _, ⟨fromFunction, fromArguments⟩ => by
    rw [Expr.infer]
    refine (Expr.mirrors_infer labelled fromFunction).bind fun f f' function => ?_
    refine (Expr.mirrors_inferAll labelled fromArguments).bind fun xs xs' arguments => ?_
    exact Typing.mirrors_build (function.mkApps arguments)
  | .unary _ _ _, ⟨declared, fromOperand⟩ => by
    rw [Expr.infer]
    refine (Expr.mirrors_infer labelled fromOperand).bind fun x x' operand => ?_
    refine (Typing.mirrors_lift (Symbol.mirrors_occurrence labelled declared)).bind
      fun op op' operator => ?_
    exact Typing.mirrors_build (operator.mkApp operand)
  | .binary _ _ _ _, ⟨declared, fromLeft, fromRight⟩ => by
    rw [Expr.infer]
    refine (Expr.mirrors_infer labelled fromLeft).bind fun a a' left => ?_
    refine (Expr.mirrors_infer labelled fromRight).bind fun b b' right => ?_
    refine (Typing.mirrors_lift (Symbol.mirrors_occurrence labelled declared)).bind
      fun op op' operator => ?_
    exact Typing.mirrors_build (operator.mkApps (.cons left (.cons right .nil)))
  | .bind _ _ _ _, ⟨declared, fromBound, fromBody⟩ => by
    rw [Expr.infer]
    refine (NameExpr.mirrors_resolve labelled.toRegular fromBound).bind fun x x' bound => ?_
    refine (Expr.mirrors_infer labelled fromBody).bind fun b b' body => ?_
    refine (Typing.mirrors_lift (Symbol.mirrors_occurrence labelled declared)).bind
      fun op op' binder => ?_
    exact Typing.mirrors_build (binder.mkBinder bound body)
  | .lambda _ _ _, ⟨fromBound, fromBody⟩ => by
    rw [Expr.infer]
    refine (NameExpr.mirrors_resolve labelled.toRegular fromBound).bind fun x x' bound => ?_
    refine (Expr.mirrors_infer labelled fromBody).bind fun b b' body => ?_
    exact Typing.mirrors_build (Build.mirrors_lift (bound.mkLam body))
  | .setOf _ _ _ _ _, ⟨declared, fromBound, fromSet, fromBody⟩ => by
    rw [Expr.infer]
    refine (NameExpr.mirrors_resolve labelled.toRegular fromBound).bind fun x x' bound => ?_
    refine (Expr.mirrors_infer labelled fromSet).bind fun a a' set => ?_
    refine (Expr.mirrors_infer labelled fromBody).bind fun b b' body => ?_
    refine (Typing.mirrors_build (Build.mirrors_lift (bound.mkLam body))).bind
      fun l l' abstraction => ?_
    refine (Typing.mirrors_lift (Symbol.mirrors_occurrence labelled declared)).bind
      fun op op' builder => ?_
    exact Typing.mirrors_build (builder.mkApps (.cons set (.cons abstraction .nil)))

/-- Inferring the terms of several formulas again gives the renamed terms. -/
theorem Expr.mirrors_inferAll (labelled : v.Labelled) :
    ∀ {es : List Expr}, Expr.AllFrom v ⟨fun name => isPlain name = true, offers⟩ es →
      Typing.Mirrors ρ (List.Forall₂ ρ.Takes) (Expr.inferAll es) (Expr.inferAll es)
  | [], _ => by
    rw [Expr.inferAll]
    exact Typing.mirrors_pure .nil
  | _ :: _, ⟨fromFirst, fromRest⟩ => by
    rw [Expr.inferAll]
    refine (Expr.mirrors_infer labelled fromFirst).bind fun t t' first => ?_
    refine (Expr.mirrors_inferAll labelled fromRest).bind fun ts ts' rest => ?_
    exact Typing.mirrors_pure (.cons first rest)

end

/-- What has been read is typed in the same way again; after a fault there is no result. -/
theorem Vocabulary.mirrors_settle {α β γ : Type} {reading : Except Formula.Stop α}
    {infer : α → Typing β} {infer' : α → Typing γ} {R : β → γ → Prop}
    (mirrors : ∀ tree, reading = .ok tree → Typing.Mirrors ρ R (infer tree) (infer' tree)) :
    Build.Mirrors ρ R (Vocabulary.settle reading infer) (Vocabulary.settle reading infer') := by
  cases reading with
  | ok tree => exact Typing.mirrors_within (mirrors tree rfl)
  | error stop =>
    exact mirrors_of_fails
      ((Typing.grows_within (Expr.grows_inferAll _)).bind fun _ _ _ _ => grows_throw _)
      ((gives_any _).bind fun _ _ => gives_throw _) _

/-- Reading a text again gives the renamed term. -/
theorem Vocabulary.Labelled.parse (labelled : v.Labelled) (text : String) :
    Build.Mirrors ρ ρ.Takes (v.parse text) (v.parse text) := by
  have tokens : Follows (fun tokens tokens' => tokens' = tokens ∧
      Formula.Spelled ⟨fun name => isPlain name = true, '?' ∈ text.toList⟩ tokens)
      (Formula.tokens text) (Formula.tokens text) := fun tokens read =>
    ⟨tokens, read, rfl, Formula.tokens_spelled read⟩
  refine (Build.mirrors_lift tokens).bind ?_
  rintro tokens _ ⟨rfl, spelled⟩
  exact Vocabulary.mirrors_settle fun e read =>
    Expr.mirrors_infer labelled (Formula.wholeTerm_from spelled read)

end

/-! ## Sequents -/

/-- A sequent of sound terms, and the renamed sequent. -/
structure Renaming.TakesGoal (ρ : Renaming) (goal goal' : Sequent) : Prop where
  /-- The left sides. -/
  left : List.Forall₂ ρ.Takes goal.left goal'.left
  /-- The right sides. -/
  right : List.Forall₂ ρ.Takes goal.right goal'.right

/-- Sequents are made of renamed formulas as of the formulas. -/
theorem Sequent.follows_make {l l' r r' : List Term} (left : List.Forall₂ ρ.Takes l l')
    (right : List.Forall₂ ρ.Takes r r') :
    Follows ρ.TakesGoal (Sequent.make l r) (Sequent.make l' r') := by
  rw [Sequent.make, Sequent.make, left.length_eq, right.length_eq]
  split
  · exact follows_ok ⟨left, right⟩
  · refine (Renaming.follows_jointTypes (List.rel_append left right)).bind ?_
    exact fun u u' unifiers => follows_ok ⟨Renaming.takesAll_applyTypes left unifiers,
      Renaming.takesAll_applyTypes right unifiers⟩

/-- Reading a sequent again gives the renamed sequent. -/
theorem Vocabulary.Labelled.parseSequent {v : Vocabulary} (labelled : v.Labelled) (text : String) :
    Build.Mirrors ρ ρ.TakesGoal (v.parseSequent text) (v.parseSequent text) := by
  have tokens : Follows (fun tokens tokens' => tokens' = tokens ∧
      Formula.Spelled ⟨fun name => isPlain name = true, '?' ∈ text.toList⟩ tokens)
      (Formula.tokens text) (Formula.tokens text) := fun tokens read =>
    ⟨tokens, read, rfl, Formula.tokens_spelled read⟩
  refine (Build.mirrors_lift tokens).bind ?_
  rintro tokens _ ⟨rfl, spelled⟩
  refine Vocabulary.mirrors_settle ?_
  rintro ⟨left, right⟩ read
  obtain ⟨fromLeft, fromRight⟩ := Formula.wholeSequent_from spelled read
  refine (Expr.mirrors_inferAll labelled fromLeft).bind fun l l' lefts => ?_
  refine (Expr.mirrors_inferAll labelled fromRight).bind fun r r' rights => ?_
  exact Typing.mirrors_lift (Build.mirrors_lift (Sequent.follows_make lefts rights))

end Turnstile
