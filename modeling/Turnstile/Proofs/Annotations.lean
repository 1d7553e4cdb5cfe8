import Mathlib.Data.List.Forall2
import Turnstile.Proofs.Spoken

/-!
# Types that are written

Within one text a schematic type variable stands for one type variable. But every application is
solved on its own, and what is found out in one of them about a schematic type variable is not known
in the next. So what holds of a term that was read is this: its variables are those of the text, in
the same order, and each of them has a type that its own annotation allows, for some types of the
schematic variables in that annotation.
-/

namespace Turnstile

open Build

/-! ## Annotations -/

/-- The type that is written, for some types of the schematic variables. -/
def TypeExpr.given (types : String → Ty) : TypeExpr → Ty
  | known t => t
  | schematic name => types name
  | arrow domain codomain => .arrow (domain.given types) (codomain.given types)

/-- The variable has the name that is read, and a type that its annotation allows. -/
structure NameExpr.Allows (x : NameExpr) (s : Symbol) : Prop where
  /-- The name. -/
  name : s.name = x.name
  /-- The type. -/
  type : ∀ t ∈ x.declared, ∃ types, s.type = t.given types

/-- The occurrences of variables in a term, binders included, from left to right. -/
def Term.occurrences : Term → List Symbol
  | const _ => []
  | var s => [s]
  | app f x => f.occurrences ++ x.occurrences
  | lam s body => s :: body.occurrences

mutual

/-- The occurrences of names of variables in a formula, in the order in which its term has them. -/
def Expr.occurrences : Expr → List NameExpr
  | .var x => [x]
  | .const _ => []
  | .apply _ function arguments => function.occurrences ++ Expr.allOccurrences arguments
  | .unary _ _ operand => operand.occurrences
  | .binary _ _ left right => left.occurrences ++ right.occurrences
  | .bind _ _ bound body => bound :: body.occurrences
  | .lambda _ bound body => bound :: body.occurrences
  | .setOf _ _ bound set body => set.occurrences ++ bound :: body.occurrences

/-- The occurrences of names of variables in several formulas. -/
def Expr.allOccurrences : List Expr → List NameExpr
  | [] => []
  | e :: rest => e.occurrences ++ Expr.allOccurrences rest

end

/-- Whatever types its type variables stand for, the variable is as the text has it. -/
def NameExpr.Fixes (x : NameExpr) (s : Symbol) : Prop := ∀ θ, x.Allows (s.under θ)

/-- The variables of a proper term are as a text has them. -/
def Term.Written (names : List NameExpr) (t : Term) : Prop :=
  t.Proper ∧ List.Forall₂ NameExpr.Fixes names t.occurrences

namespace Term

variable {t t' f : Term} {xs : List Term} {names more : List NameExpr}

/-- A refined term has the same occurrences of names, each under a substitution of its own. -/
theorem Refines.occurrences : ∀ {t t' : Term}, t.Refines t' →
    List.Forall₂ (fun s s' => ∃ θ, s' = s.under θ) t.occurrences t'.occurrences := by
  intro t
  induction t with
  | const c =>
    intro t' refines
    obtain ⟨θ, rfl⟩ := refines.of_const
    exact .nil
  | var s =>
    intro t' refines
    cases t' with
    | var s' => exact .cons refines .nil
    | const _ => cases refines
    | app _ _ => cases refines
    | lam _ _ => cases refines
  | app f x ihF ihX =>
    intro t' refines
    obtain ⟨f', x', rfl, refinesF, refinesX⟩ := refines.of_app
    exact List.rel_append (ihF refinesF) (ihX refinesX)
  | lam s body ih =>
    intro t' refines
    obtain ⟨s', body', rfl, instance', refinesBody⟩ := refines.of_lam
    exact .cons instance' (ih refinesBody)

/-- What names were annotated to have, instances of their types have too. -/
theorem fixes_instances {before after : List Symbol}
    (all : List.Forall₂ NameExpr.Fixes names before)
    (instances : List.Forall₂ (fun s s' => ∃ θ, s' = s.under θ) before after) :
    List.Forall₂ NameExpr.Fixes names after := by
  induction all generalizing after with
  | nil =>
    cases instances
    exact .nil
  | cons here _ ih =>
    obtain ⟨_, _, ⟨θ, rfl⟩, rest, rfl⟩ := List.forall₂_cons_left_iff.mp instances
    refine .cons (fun θ' => ?_) (ih rest)
    rw [Symbol.under_under]
    exact here _

/-- The occurrences of an application to several arguments are those of the function and then those
of the arguments. -/
theorem occurrences_apps (f : Term) (xs : List Term) :
    (f.apps xs).occurrences = f.occurrences ++ xs.flatMap occurrences := by
  induction xs generalizing f with
  | nil => simp [apps]
  | cons x rest ih =>
    rw [apps_cons, ih, occurrences, List.flatMap_cons, List.append_assoc]

/-- A term that inference builds follows what it is built of. -/
theorem written_built {raw : Term} {part : Build Term} (built : ∀ s, Built raw s (part.runFrom s))
    (all : List.Forall₂ NameExpr.Fixes names raw.occurrences) : part.Gives (Written names) := by
  intro s s' t run
  have outcome := built s
  rw [run] at outcome
  cases outcome with
  | done proper generalizes => exact ⟨proper, fixes_instances all generalizes.refines.occurrences⟩

end Term

/-! ## Reading annotations -/

section

variable {v : Vocabulary} {offers : Prop}

/-- Types that are written have no type variables of their own. -/
theorem TypeExpr.given_under (regular : v.Regular) {t : TypeExpr}
    (made : t.From v ⟨fun name => isPlain name = true, offers⟩) (types : String → Ty)
    (θ : Int → Ty) : (t.given types).mapVars θ = t.given fun name => (types name).mapVars θ := by
  induction t with
  | known t =>
    obtain ⟨name, spelled, found⟩ := made
    exact Ty.mapVars_of_vars_nil (regular.ground name t spelled found) θ
  | schematic name => rfl
  | arrow domain codomain ihDomain ihCodomain =>
    rw [given, Ty.mapVars, ihDomain made.1, ihCodomain made.2]
    rfl

/-- What is known of the schematic names of a text stays known. -/
def Schematics.Later (earlier later : Schematics) : Prop :=
  ∀ name a, earlier.lookup name = some a → later.lookup name = some a

/-- A type is resolved to what is written for the types that the schematic names have then. -/
theorem TypeExpr.resolve_given : ∀ {t : TypeExpr} {earlier later : Schematics} {s s' : Supply}
    {a : Ty}, (t.resolve.run earlier).runFrom s = (.ok (a, later), s') → earlier.Later later ∧
      ∀ types, (∀ name a, later.lookup name = some a → types name = a) → a = t.given types
  | .known t, _, _, _, _, _, run => by
    cases run
    exact ⟨fun _ _ found => found, fun _ _ => rfl⟩
  | .schematic name, earlier, later, s, s', a, run => by
    rw [resolve, Typing.run_schematic] at run
    cases known : earlier.lookup name with
    | some t =>
      rw [known] at run
      cases run
      exact ⟨fun _ _ found => found, fun types agree => (agree name _ known).symm⟩
    | none =>
      rw [known] at run
      obtain ⟨fresh, s₁, -, run⟩ := bind_ok run
      cases run
      refine ⟨fun other b found => ?_, fun types agree => (agree name _ ?_).symm⟩
      · have apart : (other == name) = false := by
          rw [beq_eq_false_iff_ne]
          rintro rfl
          rw [known] at found
          cases found
        rw [List.lookup_cons, apart]
        exact found
      · simp
  | .arrow domain codomain, earlier, later, s, s', _, run => by
    rw [resolve, StateT.run_bind] at run
    obtain ⟨⟨a, between⟩, s₁, first, run⟩ := bind_ok run
    rw [StateT.run_bind] at run
    obtain ⟨⟨b, after⟩, s₂, second, run⟩ := bind_ok run
    cases run
    obtain ⟨later₁, isDomain⟩ := resolve_given first
    obtain ⟨later₂, isCodomain⟩ := resolve_given second
    refine ⟨fun name a found => later₂ name a (later₁ name a found), fun types agree => ?_⟩
    rw [given, ← isDomain types fun name a found => agree name a (later₂ name a found),
      ← isCodomain types agree]

/-- A name is resolved to a variable that is as the text has it. -/
theorem NameExpr.resolve_fixes (regular : v.Regular) {x : NameExpr}
    (made : x.From v ⟨fun name => isPlain name = true, offers⟩) :
    Typing.Gives (fun t => ∃ s : Symbol, t = .var s ∧ s.type.Plain ∧ x.Fixes s) x.resolve := by
  rw [NameExpr.resolve]
  cases written : x.declared with
  | none =>
    refine (Typing.gives_lift freshType_gives).bind fun a plainA => ?_
    exact Typing.gives_pure ⟨_, rfl, plainA, fun θ => ⟨rfl, by simp [written]⟩⟩
  | some t =>
    have fromT := made.declared t written
    have plain := TypeExpr.resolve_gives regular.toPlain fromT
    refine Typing.Gives.bind (P := fun a => a.Plain ∧ ∃ types, a = t.given types) ?_ ?_
    · intro known plainKnown s s' result run
      obtain ⟨plainA, stays⟩ := plain known plainKnown s s' result run
      obtain ⟨-, given⟩ := TypeExpr.resolve_given run
      refine ⟨⟨plainA, fun name => (result.2.lookup name).getD default, given _ ?_⟩, stays⟩
      intro name a found
      rw [found]
      rfl
    · rintro a ⟨plainA, types, is⟩
      refine Typing.gives_pure ⟨_, rfl, plainA, fun θ => ⟨rfl, ?_⟩⟩
      intro t' written'
      obtain rfl : t = t' := Option.some.inj (written.symm.trans written')
      exact ⟨_, by rw [Symbol.under_type, is, TypeExpr.given_under regular fromT]⟩

/-- The copy of a declared constant that stands in a term is written without annotations. -/
theorem Symbol.occurrence_written {constant : Symbol} (plain : constant.type.Plain) :
    constant.occurrence.Gives (Term.Written []) := by
  refine Build.Gives.bind (P := fun c : Symbol => c.type.Plain) ?_ fun c plainC =>
    gives_pure ⟨Term.proper_const plainC, .nil⟩
  exact (Ty.instantiate_gives plain).bind fun t plainT => gives_pure plainT

open Term in
mutual

/-- The variables of a term are those of its formula. -/
theorem Expr.infer_written (regular : v.Regular) :
    ∀ {e : Expr}, e.From v ⟨fun name => isPlain name = true, offers⟩ →
      Typing.Gives (Written e.occurrences) e.infer
  | .var x, made => by
    rw [Expr.infer]
    intro known plainKnown
    refine (NameExpr.resolve_fixes regular made known plainKnown).mono ?_
    rintro ⟨_, _⟩ ⟨⟨s, rfl, plainS, fixes⟩, still⟩
    exact ⟨⟨proper_var plainS, .cons fixes .nil⟩, still⟩
  | .const constant, declared => by
    rw [Expr.infer]
    exact Typing.gives_lift (Symbol.occurrence_written (regular.constants _ declared))
  | .apply _ _ _, ⟨fromFunction, fromArguments⟩ => by
    rw [Expr.infer]
    refine (Expr.infer_written regular fromFunction).bind fun f ⟨proper, function⟩ => ?_
    refine (Expr.inferAll_written regular fromArguments).bind fun xs ⟨propers, arguments⟩ => ?_
    refine Typing.gives_build (written_built (proper.mkApps_built propers) ?_)
    rw [occurrences_apps]
    exact List.rel_append function arguments
  | .unary _ _ _, ⟨declared, fromOperand⟩ => by
    rw [Expr.infer]
    refine (Expr.infer_written regular fromOperand).bind fun x ⟨proper, operand⟩ => ?_
    refine (Typing.gives_lift (Symbol.occurrence_written (regular.constants _ declared))).bind
      fun op ⟨properOp, operator⟩ => ?_
    exact Typing.gives_build (written_built (properOp.mkApp_built proper)
      (List.rel_append operator operand))
  | .binary _ _ _ _, ⟨declared, fromLeft, fromRight⟩ => by
    rw [Expr.infer]
    refine (Expr.infer_written regular fromLeft).bind fun a ⟨properA, left⟩ => ?_
    refine (Expr.infer_written regular fromRight).bind fun b ⟨properB, right⟩ => ?_
    refine (Typing.gives_lift (Symbol.occurrence_written (regular.constants _ declared))).bind
      fun op ⟨properOp, operator⟩ => ?_
    exact Typing.gives_build (written_built
      (properOp.mkApps_built (by simp [properA, properB]))
      (List.rel_append (List.rel_append operator left) right))
  | .bind _ _ _ _, ⟨declared, fromBound, fromBody⟩ => by
    rw [Expr.infer]
    refine (NameExpr.resolve_fixes regular fromBound).bind ?_
    rintro _ ⟨s, rfl, plainS, fixes⟩
    refine (Expr.infer_written regular fromBody).bind fun b ⟨proper, body⟩ => ?_
    refine (Typing.gives_lift (Symbol.occurrence_written (regular.constants _ declared))).bind
      fun op ⟨properOp, operator⟩ => ?_
    exact Typing.gives_build (written_built (properOp.mkBinder_built plainS proper)
      (List.rel_append operator (.cons fixes body)))
  | .lambda _ _ _, ⟨fromBound, fromBody⟩ => by
    rw [Expr.infer]
    refine (NameExpr.resolve_fixes regular fromBound).bind ?_
    rintro _ ⟨s, rfl, plainS, fixes⟩
    refine (Expr.infer_written regular fromBody).bind fun b ⟨proper, body⟩ => ?_
    exact Typing.gives_build (written_built (Proper.mkLam_built plainS proper)
      (.cons fixes body))
  | .setOf _ _ _ _ _, ⟨declared, fromBound, fromSet, fromBody⟩ => by
    rw [Expr.infer]
    refine (NameExpr.resolve_fixes regular fromBound).bind ?_
    rintro _ ⟨s, rfl, plainS, fixes⟩
    refine (Expr.infer_written regular fromSet).bind fun a ⟨properA, set⟩ => ?_
    refine (Expr.infer_written regular fromBody).bind fun b ⟨proper, body⟩ => ?_
    refine (Typing.gives_build (written_built (Proper.mkLam_built plainS proper)
      (.cons fixes body))).bind fun abstraction ⟨properL, inner⟩ => ?_
    refine (Typing.gives_lift (Symbol.occurrence_written (regular.constants _ declared))).bind
      fun op ⟨properOp, builder⟩ => ?_
    exact Typing.gives_build (written_built
      (properOp.mkApps_built (by simp [properA, properL]))
      (List.rel_append (List.rel_append builder set) inner))

/-- The variables of several terms are those of their formulas. -/
theorem Expr.inferAll_written (regular : v.Regular) :
    ∀ {es : List Expr}, Expr.AllFrom v ⟨fun name => isPlain name = true, offers⟩ es →
      Typing.Gives (fun ts => (∀ t ∈ ts, t.Proper) ∧
        List.Forall₂ NameExpr.Fixes (Expr.allOccurrences es) (ts.flatMap Term.occurrences))
        (Expr.inferAll es)
  | [], _ => by
    rw [Expr.inferAll]
    exact Typing.gives_pure ⟨by simp, .nil⟩
  | _ :: _, ⟨fromFirst, fromRest⟩ => by
    rw [Expr.inferAll]
    refine (Expr.infer_written regular fromFirst).bind fun t ⟨proper, first⟩ => ?_
    refine (Expr.inferAll_written regular fromRest).bind fun ts ⟨propers, rest⟩ => ?_
    exact Typing.gives_pure ⟨by simpa using ⟨proper, propers⟩, List.rel_append first rest⟩

end

/-- A text that a term is read from spells a formula, whose variables are those of the term, each
with the name that is written and with a type that is allowed by the type that is written. -/
theorem Vocabulary.parse_allows (regular : v.Regular) (text : String) :
    (v.parse text).Gives fun t => ∃ tokens e, Formula.tokens text = .ok tokens ∧
      Formula.wholeTerm v tokens = .ok e ∧
        List.Forall₂ NameExpr.Allows e.occurrences t.occurrences := by
  refine (gives_lift fun tokens cut => And.intro cut (Formula.tokens_spelled cut)).bind
    fun tokens ⟨cut, spelled⟩ => ?_
  refine Vocabulary.settle_gives fun e read => ?_
  intro known plainKnown
  refine (Expr.infer_written regular (Formula.wholeTerm_from spelled read) known plainKnown).mono ?_
  rintro ⟨t, _⟩ ⟨⟨-, all⟩, still⟩
  refine ⟨⟨tokens, e, cut, read, all.imp fun x s fixes => ?_⟩, still⟩
  simpa using fixes .var

/-- Two applications can give one schematic variable different types. -/
example : ((standardTypes.parse "h(f:(?a->?a)(x:obj), g:(?a->obj)(y:bool))").runFrom
    Supply.initial).1.toOption.map (fun t => t.occurrences.filter fun s => s.name ∈ ["f", "g"]) =
      some [⟨"f", .arrow .obj .obj⟩, ⟨"g", .arrow .bool .obj⟩] := by
  decide +kernel

end

end Turnstile
