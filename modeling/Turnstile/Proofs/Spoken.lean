import Turnstile.Proofs.Lexing
import Turnstile.Proofs.PrincipalTypes
import Turnstile.Proofs.EnvironmentMirroring

/-!
# Terms in the words of a vocabulary

A term that was read is made of the vocabulary's constants and of variables whose names are
identifiers that are not reserved, and its type variables were all handed out while it was read.
The first holds because inference changes nothing but types; the second because a renaming of what
was handed out before leaves a text as it is, and therefore leaves the term as it is.
-/

namespace Turnstile

open Build

/-! ## Words -/

/-- A name that can be written for a variable. -/
structure Vocabulary.Free (v : Vocabulary) (name : String) : Prop where
  /-- It is one identifier. -/
  identifier : Formula.Identifier name
  /-- It is not reserved. -/
  unreserved : v.lookup name = none

/-- Constants are instances of declared ones, and variables have free names. -/
def Term.Spoken (v : Vocabulary) : Term → Prop
  | .const c => ∃ declared τ, v.Declares declared ∧ c = declared.under τ
  | .var s => v.Free s.name
  | .app f x => f.Spoken v ∧ x.Spoken v
  | .lam s body => v.Free s.name ∧ body.Spoken v

namespace Term

variable {v : Vocabulary} {t t' f : Term} {xs : List Term}

/-- Nothing that inference does to types matters. -/
theorem Spoken.refines (spoken : t.Spoken v) (refines : t.Refines t') : t'.Spoken v := by
  induction t generalizing t' with
  | const c =>
    cases t' with
    | const c' =>
      obtain ⟨declared, τ, declares, rfl⟩ := spoken
      obtain ⟨θ, rfl⟩ := refines
      exact ⟨declared, _, declares, Symbol.under_under τ θ declared⟩
    | var _ => cases refines
    | app _ _ => cases refines
    | lam _ _ => cases refines
  | var s =>
    cases t' with
    | var s' =>
      obtain ⟨θ, rfl⟩ := refines
      exact spoken
    | const _ => cases refines
    | app _ _ => cases refines
    | lam _ _ => cases refines
  | app f x ihF ihX =>
    cases t' with
    | app f' x' => exact ⟨ihF spoken.1 refines.1, ihX spoken.2 refines.2⟩
    | const _ => cases refines
    | var _ => cases refines
    | lam _ _ => cases refines
  | lam s body ih =>
    cases t' with
    | lam s' body' =>
      obtain ⟨⟨θ, rfl⟩, refines⟩ := refines
      exact ⟨spoken.1, ih spoken.2 refines⟩
    | const _ => cases refines
    | var _ => cases refines
    | app _ _ => cases refines

/-- A spoken term stays so whatever is put for type variables. -/
theorem Spoken.under (spoken : t.Spoken v) (θ : Int → Ty) : (t.under θ).Spoken v :=
  spoken.refines (t.refines_under θ)

/-- An application of spoken terms is spoken. -/
theorem Spoken.apps (spoken : f.Spoken v) (all : ∀ x ∈ xs, x.Spoken v) : (f.apps xs).Spoken v := by
  induction xs generalizing f with
  | nil => exact spoken
  | cons x xs ih =>
    exact ih (f := .app f x) ⟨spoken, all x (by simp)⟩ fun y inside => all y (by simp [inside])

/-- What is known of a term that was read. -/
structure Read (v : Vocabulary) (t : Term) : Prop where
  /-- It is well typed. -/
  proper : t.Proper
  /-- It is made of words. -/
  spoken : t.Spoken v

/-- A term that can be read stays so when plain types are put for type variables. -/
theorem Read.under (read : t.Read v) {θ : Int → Ty} (values : ∀ id, (θ id).Plain) :
    (t.under θ).Read v :=
  ⟨read.proper.under values, read.spoken.under θ⟩

end Term

/-! ## What is read is spoken -/

section Spoken

variable {v : Vocabulary} {raw : Term} {offers : Prop}

/-- A term that inference builds of words is made of words. -/
theorem gives_read {part : Build Term} (built : ∀ s, Built raw s (part.runFrom s))
    (spoken : raw.Spoken v) : part.Gives (Term.Read v) := by
  intro s s' t run
  have outcome := built s
  rw [run] at outcome
  cases outcome with
  | done proper generalizes => exact ⟨proper, spoken.refines generalizes.refines⟩

/-- A result of reading is a variable. -/
def NameExpr.Variable (v : Vocabulary) (t : Term) : Prop :=
  ∃ s : Symbol, t = .var s ∧ s.type.Plain ∧ v.Free s.name

/-- A name that is not reserved is resolved to a variable. -/
theorem NameExpr.resolve_variable (plain : v.Plain) {x : NameExpr}
    (made : x.From v ⟨fun name => isPlain name = true, offers⟩)
    (named : x.From v ⟨Formula.Identifier, True⟩) :
    Typing.Gives (NameExpr.Variable v) x.resolve := by
  have free : v.Free x.name := ⟨named.spelled, named.unreserved⟩
  rw [NameExpr.resolve]
  split
  next t declared =>
    refine (TypeExpr.resolve_gives plain (made.declared t declared)).bind fun a plainA => ?_
    exact Typing.gives_pure ⟨_, rfl, plainA, free⟩
  next =>
    refine (Typing.gives_lift freshType_gives).bind fun a plainA => ?_
    exact Typing.gives_pure ⟨_, rfl, plainA, free⟩

/-- An occurrence of a declared constant can be read. -/
theorem Symbol.occurrence_read (plain : v.Plain) {constant : Symbol}
    (declared : v.Declares constant) : constant.occurrence.Gives (Term.Read v) := by
  intro s s' t run
  obtain ⟨t', s'', run', proper, ⟨τ, is⟩, -⟩ :=
    Symbol.occurrence_principal (plain.constants _ declared) s
  rw [run] at run'
  cases run'
  subst is
  exact ⟨proper, constant, τ, declared, rfl⟩

open Term in
mutual

/-- The term of a formula is made of words. -/
theorem Expr.infer_read (plain : v.Plain) :
    ∀ {e : Expr}, e.From v ⟨fun name => isPlain name = true, offers⟩ →
      e.From v ⟨Formula.Identifier, True⟩ → Typing.Gives (Read v) e.infer
  | .var x, made, named => by
    rw [Expr.infer]
    intro known plainKnown
    refine (NameExpr.resolve_variable plain made named known plainKnown).mono ?_
    rintro ⟨_, _⟩ ⟨⟨s, rfl, plainS, free⟩, still⟩
    exact ⟨⟨proper_var plainS, free⟩, still⟩
  | .const constant, declared, _ => by
    rw [Expr.infer]
    exact Typing.gives_lift (Symbol.occurrence_read plain declared)
  | .apply _ _ _, ⟨fromFunction, fromArguments⟩, ⟨namedFunction, namedArguments⟩ => by
    rw [Expr.infer]
    refine (Expr.infer_read plain fromFunction namedFunction).bind fun f function => ?_
    refine (Expr.inferAll_read plain fromArguments namedArguments).bind fun xs arguments => ?_
    exact Typing.gives_build (gives_read
      (function.proper.mkApps_built fun x inside => (arguments x inside).proper)
      (function.spoken.apps fun x inside => (arguments x inside).spoken))
  | .unary _ _ _, ⟨declared, fromOperand⟩, ⟨_, namedOperand⟩ => by
    rw [Expr.infer]
    refine (Expr.infer_read plain fromOperand namedOperand).bind fun x operand => ?_
    refine (Typing.gives_lift (Symbol.occurrence_read plain declared)).bind fun op operator => ?_
    exact Typing.gives_build (gives_read (operator.proper.mkApp_built operand.proper)
      ⟨operator.spoken, operand.spoken⟩)
  | .binary _ _ _ _, ⟨declared, fromLeft, fromRight⟩, ⟨_, namedLeft, namedRight⟩ => by
    rw [Expr.infer]
    refine (Expr.infer_read plain fromLeft namedLeft).bind fun a left => ?_
    refine (Expr.infer_read plain fromRight namedRight).bind fun b right => ?_
    refine (Typing.gives_lift (Symbol.occurrence_read plain declared)).bind fun op operator => ?_
    exact Typing.gives_build (gives_read
      (operator.proper.mkApps_built (by simp [left.proper, right.proper]))
      (operator.spoken.apps (by simp [left.spoken, right.spoken])))
  | .bind _ _ _ _, ⟨declared, fromBound, fromBody⟩, ⟨_, namedBound, namedBody⟩ => by
    rw [Expr.infer]
    refine (NameExpr.resolve_variable plain fromBound namedBound).bind ?_
    rintro _ ⟨s, rfl, plainS, free⟩
    refine (Expr.infer_read plain fromBody namedBody).bind fun b body => ?_
    refine (Typing.gives_lift (Symbol.occurrence_read plain declared)).bind fun op binder => ?_
    exact Typing.gives_build (gives_read (binder.proper.mkBinder_built plainS body.proper)
      ⟨binder.spoken, free, body.spoken⟩)
  | .lambda _ _ _, ⟨fromBound, fromBody⟩, ⟨namedBound, namedBody⟩ => by
    rw [Expr.infer]
    refine (NameExpr.resolve_variable plain fromBound namedBound).bind ?_
    rintro _ ⟨s, rfl, plainS, free⟩
    refine (Expr.infer_read plain fromBody namedBody).bind fun b body => ?_
    exact Typing.gives_build (gives_read (Proper.mkLam_built plainS body.proper)
      ⟨free, body.spoken⟩)
  | .setOf _ _ _ _ _, ⟨declared, fromBound, fromSet, fromBody⟩,
      ⟨_, namedBound, namedSet, namedBody⟩ => by
    rw [Expr.infer]
    refine (NameExpr.resolve_variable plain fromBound namedBound).bind ?_
    rintro _ ⟨s, rfl, plainS, free⟩
    refine (Expr.infer_read plain fromSet namedSet).bind fun a set => ?_
    refine (Expr.infer_read plain fromBody namedBody).bind fun b body => ?_
    refine (Typing.gives_build (gives_read (Proper.mkLam_built plainS body.proper)
      ⟨free, body.spoken⟩)).bind fun abstraction lambda => ?_
    refine (Typing.gives_lift (Symbol.occurrence_read plain declared)).bind fun op builder => ?_
    exact Typing.gives_build (gives_read
      (builder.proper.mkApps_built (by simp [set.proper, lambda.proper]))
      (builder.spoken.apps (by simp [set.spoken, lambda.spoken])))

/-- The terms of several formulas are made of words. -/
theorem Expr.inferAll_read (plain : v.Plain) :
    ∀ {es : List Expr}, Expr.AllFrom v ⟨fun name => isPlain name = true, offers⟩ es →
      Expr.AllFrom v ⟨Formula.Identifier, True⟩ es →
        Typing.Gives (fun ts => ∀ t ∈ ts, t.Read v) (Expr.inferAll es)
  | [], _, _ => by
    rw [Expr.inferAll]
    exact Typing.gives_pure (by simp)
  | _ :: _, ⟨fromFirst, fromRest⟩, ⟨namedFirst, namedRest⟩ => by
    rw [Expr.inferAll]
    refine (Expr.infer_read plain fromFirst namedFirst).bind fun t first => ?_
    refine (Expr.inferAll_read plain fromRest namedRest).bind fun ts rest => ?_
    exact Typing.gives_pure (by simpa using ⟨first, rest⟩)

end

/-- A text is cut into tokens whose identifiers are plain, and identifiers. -/
theorem Formula.tokens_gives (text : String) :
    Build.Gives (fun tokens => Spelled ⟨fun name => isPlain name = true, '?' ∈ text.toList⟩ tokens ∧
      Spelled ⟨Identifier, True⟩ tokens) (liftM (Formula.tokens text)) :=
  gives_lift fun _ read => ⟨tokens_spelled read, tokensFrom_identifiers read⟩

/-- What is parsed can be read. -/
theorem Vocabulary.parse_read (plain : v.Plain) (text : String) :
    (v.parse text).Gives (Term.Read v) := by
  refine (Formula.tokens_gives text).bind fun tokens spelled => ?_
  refine Vocabulary.settle_gives fun e read => ?_
  exact Expr.infer_read plain (Formula.wholeTerm_from spelled.1 read)
    (Formula.wholeTerm_from spelled.2 read)

/-- What is known of the formulas of a sequent that was read. -/
structure Sequent.Read (v : Vocabulary) (goal : Sequent) : Prop where
  /-- They are made of words. -/
  terms : ∀ t ∈ goal.left ++ goal.right, t.Read v
  /-- Free variables of one name have one type. -/
  uniform : Uniform (freeIn (goal.left ++ goal.right))

/-- A sequent that is made of terms that can be read can be read. -/
theorem Sequent.make_read {l r : List Term} {goal : Sequent} (lefts : ∀ t ∈ l, t.Read v)
    (rights : ∀ t ∈ r, t.Read v) (made : Sequent.make l r = .ok goal) : goal.Read v := by
  have all : ∀ t ∈ l ++ r, t.Read v := fun t inside =>
    (List.mem_append.mp inside).elim (lefts t) (rights t)
  rw [Sequent.make] at made
  split at made
  next few =>
    cases made
    refine ⟨all, ?_⟩
    rw [← List.length_append] at few
    cases whole : l ++ r with
    | nil => simp [freeIn, Uniform]
    | cons t rest =>
      rw [whole] at all few
      obtain rfl : rest = [] := by simpa using few
      simpa [freeIn] using (all t (by simp)).proper.uniform
  next =>
    obtain ⟨u, joined, made⟩ := Formula.bind_ok made
    cases made
    have solution := jointTypes_solution fun t inside => (all t inside).proper.plain
    rw [joined] at solution
    cases solution with
    | @found _ θ apply most =>
      have unified : unifyTypes (l ++ r) = .ok ((l ++ r).map (Term.applyTypes u)) := by
        rw [unifyTypes, joined]
        rfl
      have uniform := (Term.unifyTypes_proper (fun t inside => (all t inside).proper) unified).2
      rw [List.map_append] at uniform
      refine ⟨fun t inside => ?_, uniform⟩
      rw [← List.map_append] at inside
      obtain ⟨r, listed, rfl⟩ := List.mem_map.mp inside
      rw [Term.applyTypes_eq apply]
      exact (all r listed).under most.plain

/-- A sequent that is parsed can be read. -/
theorem Vocabulary.parseSequent_read (plain : v.Plain) (text : String) :
    (v.parseSequent text).Gives (Sequent.Read v) := by
  refine (Formula.tokens_gives text).bind fun tokens spelled => ?_
  refine Vocabulary.settle_gives ?_
  rintro ⟨left, right⟩ read
  have plainly := Formula.wholeSequent_from spelled.1 read
  have named := Formula.wholeSequent_from spelled.2 read
  refine (Expr.inferAll_read plain plainly.1 named.1).bind fun l lefts => ?_
  refine (Expr.inferAll_read plain plainly.2 named.2).bind fun r rights => ?_
  exact Typing.gives_lift (gives_lift fun goal made => Sequent.make_read lefts rights made)

end Spoken

/-! ## What was handed out meanwhile -/

/-- The type variables that may occur in what was built between two supplies from given ones. -/
def Own (given : List Int) (s s' : Supply) (id : Int) : Prop :=
  id ∈ given ∨ s.lastType < id ∧ id ≤ s'.lastType

instance (given : List Int) (s s' : Supply) : DecidablePred (Own given s s') :=
  fun _ => inferInstanceAs (Decidable (_ ∨ _ ∧ _))

namespace Renaming

variable {ρ : Renaming} {given : List Int} {s s' : Supply} {id : Int} {t : Term}

/-- A number above the absolute values of some others. -/
def extent (ids : List Int) : Nat := ids.foldr (fun id total => id.natAbs + total) 0

/-- No number goes beyond the extent of its list. -/
theorem natAbs_le_extent {ids : List Int} (inside : id ∈ ids) : id.natAbs ≤ extent ids := by
  induction ids with
  | nil => cases inside
  | cons first rest ih =>
    rw [extent, List.foldr_cons]
    rcases List.mem_cons.mp inside with rfl | later
    · omega
    · have small := ih later
      rw [extent] at small
      omega

/-- Keep some type variables where they are and get all others out of the way. -/
def keep (given : List Int) (s s' : Supply) (id : Int) : Int :=
  if Own given s s' id then id
  else if id ≤ s.lastType then id - (extent given + s.lastType + s'.lastType + 1 : Nat)
  else id + (extent given + s.lastType + s'.lastType + 1 : Nat)

/-- What is kept as it is are the given numbers and those of the run itself. -/
theorem keep_eq_self : keep given s s' id = id ↔ Own given s s' id := by
  rw [keep]
  split
  next own => simp [own]
  next foreign => split <;> simp [foreign] <;> omega

/-- Different numbers are kept different. -/
theorem keep_injective (given : List Int) (s s' : Supply) :
    Function.Injective (keep given s s') := by
  have near : ∀ id, Own given s s' id →
      id.natAbs ≤ extent given ∨ (s.lastType : Int) < id ∧ id ≤ s'.lastType := fun id own =>
    own.imp_left natAbs_le_extent
  intro a b same
  by_cases ownA : Own given s s' a <;> by_cases ownB : Own given s s' b
  · rwa [keep, keep, if_pos ownA, if_pos ownB] at same
  · have close := near a ownA
    rw [keep, keep, if_pos ownA, if_neg ownB] at same
    split at same <;> omega
  · have close := near b ownB
    rw [keep, keep, if_neg ownA, if_pos ownB] at same
    split at same <;> omega
  · rw [keep, keep, if_neg ownA, if_neg ownB] at same
    split at same <;> split at same <;> omega

/-- The renaming that keeps what may occur in what is built between two supplies. -/
def keeping (given : List Int) (s s' : Supply) : Renaming where
  type := keep given s s'
  assumption := fun id => id
  choosing := False
  type_injective := keep_injective given s s'
  assumption_injective := fun _ _ same => same

/-- The renaming that keeps what is a run's own carries the run to itself. -/
theorem keeping_carries (given : List Int) (s s' : Supply) :
    (keeping given s s').Carries s s' s where
  types := by
    intro n after before
    have kept : (keeping given s s').type n = n := keep_eq_self.mpr (.inr ⟨by omega, by omega⟩)
    rw [kept]
    omega
  assumptions := by
    intro n after _
    have kept : (keeping given s s').assumption n = n := rfl
    rw [kept]
    omega
  choices := fun choosing => choosing.elim
  depth := rfl

/-- The variables of a type that is not renamed are not renamed. -/
theorem varsIn_of_renamed {a : Ty} (same : a.mapVars ρ.types = a) :
    Unifier.VarsIn (fun id => ρ.type id = id) a := by
  induction a with
  | const _ => exact fun _ inside => nomatch inside
  | var id =>
    intro other inside
    rw [List.mem_singleton.mp inside]
    exact Ty.var.inj same
  | arrow d c ihD ihC =>
    intro id inside
    obtain ⟨sameD, sameC⟩ := Ty.arrow.inj same
    rcases List.mem_append.mp inside with left | right
    · exact ihD sameD id left
    · exact ihC sameC id right

end Renaming

/-- The variables of a term that is not renamed are not renamed. -/
theorem Term.varsIn_of_renamed {ρ : Renaming} {t : Term} (same : t.under ρ.types = t) :
    t.VarsIn fun id => ρ.type id = id := by
  induction t with
  | const c => exact Renaming.varsIn_of_renamed (congrArg Symbol.type (Term.const.inj same))
  | var s => exact Renaming.varsIn_of_renamed (congrArg Symbol.type (Term.var.inj same))
  | app f x ihF ihX => exact ⟨ihF (Term.app.inj same).1, ihX (Term.app.inj same).2⟩
  | lam s body ih =>
    exact ⟨Renaming.varsIn_of_renamed (congrArg Symbol.type (Term.lam.inj same).1),
      ih (Term.lam.inj same).2⟩

/-- What a build returns is related to itself by a renaming that keeps what it drew. -/
theorem Build.Mirrors.own {α : Type} {ρ : Renaming} {R : α → α → Prop} {build : Build α}
    (mirrors : Mirrors ρ R build build) {s s' : Supply} {a : α}
    (run : build.runFrom s = (.ok a, s')) (carries : ρ.Carries s s' s) : R a a := by
  obtain ⟨b, related, run'⟩ := mirrors.follows s a s' run s carries
  rw [run] at run'
  obtain rfl : a = b := Except.ok.inj (Prod.mk.inj run').1
  exact related

/-- A term that is taken to itself mentions only what is the run's own. -/
theorem Renaming.Takes.own {given : List Int} {s s' : Supply} {t : Term}
    (takes : (Renaming.keeping given s s').Takes t t) : t.VarsIn (Own given s s') :=
  (Term.varsIn_of_renamed takes.renamed.symm).mono fun _ => Renaming.keep_eq_self.mp

section Own

variable {v : Vocabulary} {s s' : Supply} {text : String}

/-- A term that is parsed mentions only variables that were drawn for it. -/
theorem Vocabulary.Labelled.parse_own (labelled : v.Labelled) {t : Term}
    (run : (v.parse text).runFrom s = (.ok t, s')) : t.VarsIn (Own [] s s') :=
  ((labelled.parse text).own run (Renaming.keeping_carries [] s s')).own

/-- A sequent that is parsed mentions only variables that were drawn for it. -/
theorem Vocabulary.Labelled.parseSequent_own (labelled : v.Labelled) {goal : Sequent}
    (run : (v.parseSequent text).runFrom s = (.ok goal, s')) :
    ∀ t ∈ goal.left ++ goal.right, t.VarsIn (Own [] s s') := by
  have takes := (labelled.parseSequent text).own run (Renaming.keeping_carries [] s s')
  have each : ∀ {terms : List Term}, List.Forall₂ (Renaming.keeping [] s s').Takes terms terms →
      ∀ t ∈ terms, t.VarsIn (Own [] s s') := fun related t inside =>
    (List.forall₂_same.mp related t inside).own
  intro t inside
  rcases List.mem_append.mp inside with left | right
  · exact each takes.left t left
  · exact each takes.right t right

end Own

end Turnstile
