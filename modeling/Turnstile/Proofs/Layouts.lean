import Mathlib.Data.List.Find
import Turnstile.Proofs.Spoken

/-!
# Which form a term has

A form recognises a term by matching. Its pattern was built by inference from an operator, binder
or set builder and variables of unknown types, and inference keeps every good instance; a term of
the form's shape is such an instance, hence it is recognised whatever its types are. So the layout
of a term that was read is a matter of the names in it alone.
-/

namespace Turnstile

open Build

/-! ## Matching by shape -/

namespace Ty

/-- Types that a substitution makes equal have a common instance. -/
theorem canUnify_of_equal {a b : Ty} (plainA : a.Plain) (plainB : b.Plain) {σ : Int → Ty}
    (equal : a.mapVars σ = b.mapVars σ) : canUnify a b = true := by
  have plain : ∀ t ∈ (Unifier.Request.many [a, b]).types, t.Plain := by
    simp [Unifier.Request.types, plainA, plainB]
  have settles := Unifier.consistent_empty.answer plain
  rw [canUnify, Option.isNone_iff_eq_none]
  by_contra clash
  refine settles.failure clash σ (Unifier.solves_empty σ) ?_
  simpa [Unifier.Satisfies, Unifier.Request.equations] using equal

/-- A type can be unified with an instance of it with which it shares no type variables. -/
theorem canUnify_instance {a b : Ty} {σ : Int → Ty} {B B' : Int → Prop} [DecidablePred B]
    (apart : ∀ id, B id → ¬ B' id) (same : a.mapVars σ = b) (inA : Unifier.VarsIn B' a)
    (inB : Unifier.VarsIn B b) (plainA : a.Plain) (plainB : b.Plain) : canUnify a b = true := by
  -- The substitution that solves the equation leaves the instance's variables as they are.
  let θ : Int → Ty := fun id => if B id then .var id else σ id
  have left : a.mapVars θ = a.mapVars σ :=
    mapVars_congr fun id inside => if_neg fun both => apart id both (inA id inside)
  have right : b.mapVars θ = b.mapVars .var :=
    mapVars_congr fun id inside => if_pos (inB id inside)
  refine canUnify_of_equal plainA plainB (σ := θ) ?_
  rw [left, right, same]
  exact (mapVars_var b).symm

end Ty

namespace Term

/-- The pattern's variables stand for subterms whose types meet theirs; everything else agrees. -/
def Meets : Term → Term → Prop
  | var p, t => Ty.canUnify p.type t.type = true
  | const p, const c => p.name = c.name ∧ Ty.canUnify p.type c.type = true
  | app p q, app f x => p.Meets f ∧ q.Meets x
  | lam p q, lam s body => Ty.canUnify p.type s.type = true ∧ q.Meets body
  | _, _ => False

/-- The names of the variables of a pattern. -/
def slots : Term → List String
  | const _ => []
  | var s => [s.name]
  | app f x => f.slots ++ x.slots
  | lam s body => s.name :: body.slots

variable {pattern t : Term} {bindings found : Bindings} {s : Symbol}

/-- A name that is not bound yet is bound if the types can be unified. -/
theorem bindPattern_new (unbound : s.name ∉ bindings.map Prod.fst) :
    bindPattern bindings s t = .ok found ↔
      Ty.canUnify s.type t.type = true ∧ found = bindings ++ [(s.name, t)] := by
  have absent : bindings.lookup s.name = none := by
    rw [List.lookup_eq_none_iff]
    rintro ⟨name, value⟩ inside
    simp only [bne_iff_ne, ne_eq]
    rintro rfl
    exact unbound (List.mem_map_of_mem inside)
  rw [bindPattern, absent]
  split
  next meets => simp [meets, eq_comm]
  next apart => simp [apart]

/-- Matching succeeds exactly for terms that the pattern meets, and binds all of its variables. -/
def Matches (bindings : Bindings) (pattern t : Term) : Prop :=
  (∀ found, matchFrom bindings pattern t = .ok found → pattern.Meets t ∧
    found.map Prod.fst = bindings.map Prod.fst ++ pattern.slots) ∧
  (pattern.Meets t → ∃ found, matchFrom bindings pattern t = .ok found)

/-- If a pattern is refused, then it is so because it does not meet the term. -/
theorem matches_of_apart {failure : Failure} (fails : matchFrom bindings pattern t = .error failure)
    (apart : ¬ pattern.Meets t) : Matches bindings pattern t :=
  ⟨fun _ matched => (by rw [fails] at matched; cases matched), fun meets => (apart meets).elim⟩

/-- A variable matches if its name is not bound yet. -/
theorem matches_var (unbound : s.name ∉ bindings.map Prod.fst) : Matches bindings (var s) t := by
  rw [Matches, matchFrom]
  constructor
  · intro found bound
    obtain ⟨meets, rfl⟩ := (bindPattern_new unbound).mp bound
    exact ⟨meets, by simp [slots]⟩
  · exact fun meets => ⟨_, (bindPattern_new unbound).mpr ⟨meets, rfl⟩⟩

/-- A constant of a pattern matches a constant. -/
theorem matches_const {c : Symbol} : Matches bindings (const s) (const c) := by
  rw [Matches, matchFrom, Meets]
  constructor
  · intro found matched
    split at matched
    next both =>
      cases matched
      exact ⟨by simpa using both, by simp [slots]⟩
    next => cases matched
  · exact fun meets => ⟨bindings, if_pos (by simpa using meets)⟩

/-- The argument is matched with what matching the function has bound. -/
theorem Matches.app {p q f x : Term} (first : Matches bindings p f)
    (second : ∀ between, between.map Prod.fst = bindings.map Prod.fst ++ p.slots →
      Matches between q x) : Matches bindings (app p q) (app f x) := by
  rw [Matches, matchFrom]
  constructor
  · intro found matched
    obtain ⟨between, here, matched⟩ := Formula.bind_ok matched
    obtain ⟨meets, names⟩ := first.1 between here
    obtain ⟨meets', names'⟩ := (second between names).1 found matched
    exact ⟨⟨meets, meets'⟩, by rw [names', names, slots, List.append_assoc]⟩
  · rintro ⟨meets, meets'⟩
    obtain ⟨between, here⟩ := first.2 meets
    obtain ⟨found, there⟩ := (second between (first.1 between here).2).2 meets'
    exact ⟨found, by rw [here]; exact there⟩

/-- The body is matched with what the bound variable stands for. -/
theorem Matches.lam {p s : Symbol} {q body : Term} (unbound : p.name ∉ bindings.map Prod.fst)
    (inner : Matches (bindings ++ [(p.name, var s)]) q body) :
    Matches bindings (lam p q) (lam s body) := by
  rw [Matches, matchFrom]
  constructor
  · intro found matched
    obtain ⟨between, here, matched⟩ := Formula.bind_ok matched
    obtain ⟨meets, rfl⟩ := (bindPattern_new unbound).mp here
    obtain ⟨meets', names⟩ := inner.1 found matched
    exact ⟨⟨meets, meets'⟩, by simpa [slots] using names⟩
  · rintro ⟨meets, meets'⟩
    obtain ⟨found, there⟩ := inner.2 meets'
    have bound : bindPattern bindings p (var s) = .ok (bindings ++ [(p.name, var s)]) :=
      (bindPattern_new unbound).mpr ⟨meets, rfl⟩
    exact ⟨found, by rw [bound]; exact there⟩

/-- Every variable of the pattern occurs in it once, so that the terms that they stand for are
found one after the other. -/
theorem matches_of_nodup : ∀ {t : Term} {bindings : Bindings},
    (bindings.map Prod.fst ++ pattern.slots).Nodup → Matches bindings pattern t := by
  induction pattern with
  | var p =>
    intro t bindings distinct
    exact matches_var fun inside =>
      List.disjoint_of_nodup_append distinct inside (by simp [slots])
  | const p =>
    intro t bindings _
    cases t with
    | const c => exact matches_const
    | var _ => exact matches_of_apart rfl fun meets => meets
    | app _ _ => exact matches_of_apart rfl fun meets => meets
    | lam _ _ => exact matches_of_apart rfl fun meets => meets
  | app p q ihP ihQ =>
    intro t bindings distinct
    cases t with
    | app f x =>
      rw [slots, ← List.append_assoc] at distinct
      refine (ihP distinct.of_append_left).app fun between names => ihQ ?_
      rwa [names]
    | const _ => exact matches_of_apart rfl fun meets => meets
    | var _ => exact matches_of_apart rfl fun meets => meets
    | lam _ _ => exact matches_of_apart rfl fun meets => meets
  | lam p q ih =>
    intro t bindings distinct
    cases t with
    | lam s body =>
      have unbound : p.name ∉ bindings.map Prod.fst := fun inside =>
        List.disjoint_of_nodup_append distinct inside (by simp [slots])
      exact .lam unbound (ih (by simpa [slots] using distinct))
    | const _ => exact matches_of_apart rfl fun meets => meets
    | var _ => exact matches_of_apart rfl fun meets => meets
    | app _ _ => exact matches_of_apart rfl fun meets => meets

/-- If the slots of a pattern have different names, then it matches exactly the terms that it meets.
-/
theorem matchWith_isOk (distinct : pattern.slots.Nodup) :
    (pattern.matchWith t).isOk = true ↔ pattern.Meets t := by
  have matched : Matches [] pattern t := matches_of_nodup distinct
  rw [matchWith]
  constructor
  · intro isOk
    cases found : matchFrom [] pattern t with
    | ok bindings => exact (matched.1 bindings found).1
    | error failure =>
      rw [found] at isOk
      cases isOk
  · intro meets
    obtain ⟨bindings, found⟩ := matched.2 meets
    rw [found]
    rfl

/-! ## Instances of a pattern -/

/-- The pattern's variables have the types of the subterms that they stand for, and everything
else is the same. -/
def Covers : Term → Term → Prop
  | var p, t => p.type = t.type
  | const p, const c => p = c
  | app p q, app f x => p.Covers f ∧ q.Covers x
  | lam p q, lam s body => p.type = s.type ∧ q.Covers body
  | _, _ => False

/-- A pattern of which an instance covers a term meets the term if they share no type
variables. -/
theorem Covers.meets {σ : Int → Ty} {B B' : Int → Prop} [DecidablePred B]
    (apart : ∀ id, B id → ¬ B' id) :
    ∀ {t : Term}, (pattern.under σ).Covers t → pattern.VarsIn B' → t.VarsIn B → pattern.Plain →
      t.Plain → pattern.Meets t := by
  induction pattern with
  | var p =>
    intro t covers inP inT plainP plainT
    exact Ty.canUnify_instance apart covers inP inT.type_in plainP plainT.type_plain
  | const p =>
    intro t covers inP inT plainP plainT
    cases t with
    | const c =>
      obtain rfl : p.under σ = c := covers
      exact ⟨rfl, Ty.canUnify_instance apart rfl inP inT plainP plainT⟩
    | var _ => cases covers
    | app _ _ => cases covers
    | lam _ _ => cases covers
  | app p q ihP ihQ =>
    intro t covers inP inT plainP plainT
    cases t with
    | app f x =>
      exact ⟨ihP covers.1 inP.1 inT.1 plainP.1 plainT.1, ihQ covers.2 inP.2 inT.2 plainP.2 plainT.2⟩
    | const _ => cases covers
    | var _ => cases covers
    | lam _ _ => cases covers
  | lam p q ih =>
    intro t covers inP inT plainP plainT
    cases t with
    | lam s body =>
      exact ⟨Ty.canUnify_instance apart covers.1 inP.1 inT.1 plainP.1 plainT.1,
        ih covers.2 inP.2 inT.2 plainP.2 plainT.2⟩
    | const _ => cases covers
    | var _ => cases covers
    | app _ _ => cases covers

/-- Only the names of constants matter. -/
def Fits : Term → Term → Prop
  | var _, _ => True
  | const p, const c => p.name = c.name
  | app p q, app f x => p.Fits f ∧ q.Fits x
  | lam _ q, lam _ body => q.Fits body
  | _, _ => False

/-- A refined pattern meets only what the raw one fits. -/
theorem Meets.fits {raw : Term} : ∀ {pattern t : Term}, raw.Refines pattern → pattern.Meets t →
    raw.Fits t := by
  induction raw with
  | var _ => exact fun _ _ => trivial
  | const c =>
    rintro pattern t refines meets
    obtain ⟨τ, rfl⟩ := refines.of_const
    cases t with
    | const d => exact meets.1
    | var _ => cases meets
    | app _ _ => cases meets
    | lam _ _ => cases meets
  | app p q ihP ihQ =>
    rintro pattern t refines meets
    obtain ⟨p', q', rfl, refinesP, refinesQ⟩ := refines.of_app
    cases t with
    | app f x => exact ⟨ihP refinesP meets.1, ihQ refinesQ meets.2⟩
    | const _ => cases meets
    | var _ => cases meets
    | lam _ _ => cases meets
  | lam s q ih =>
    rintro pattern t refines meets
    obtain ⟨s', q', rfl, -, refinesQ⟩ := refines.of_lam
    cases t with
    | lam s body => exact ih refinesQ meets.2
    | const _ => cases meets
    | var _ => cases meets
    | app _ _ => cases meets

/-- Refining a pattern leaves its slots. -/
theorem Refines.slots_eq {raw : Term} : ∀ {pattern : Term}, raw.Refines pattern →
    pattern.slots = raw.slots := by
  induction raw with
  | var s =>
    intro pattern refines
    cases pattern with
    | var s' =>
      obtain ⟨θ, rfl⟩ := refines
      rfl
    | const _ => cases refines
    | app _ _ => cases refines
    | lam _ _ => cases refines
  | const c =>
    intro pattern refines
    obtain ⟨τ, rfl⟩ := refines.of_const
    rfl
  | app p q ihP ihQ =>
    intro pattern refines
    obtain ⟨p', q', rfl, refinesP, refinesQ⟩ := refines.of_app
    rw [slots, slots, ihP refinesP, ihQ refinesQ]
  | lam s q ih =>
    intro pattern refines
    obtain ⟨s', q', rfl, ⟨θ, rfl⟩, refinesQ⟩ := refines.of_lam
    rw [slots, slots, ih refinesQ, Symbol.under_name]

/-- A raw pattern fits a term whatever is put for type variables. -/
@[simp] theorem fits_under {raw : Term} {σ : Int → Ty} : ∀ {t : Term},
    raw.Fits (t.under σ) ↔ raw.Fits t := by
  induction raw with
  | var _ => exact Iff.rfl
  | const c => rintro (_ | _ | _ | _) <;> exact Iff.rfl
  | app p q ihP ihQ =>
    rintro (_ | _ | _ | _)
    case app => exact and_congr ihP ihQ
    all_goals exact Iff.rfl
  | lam s q ih =>
    rintro (_ | _ | _ | _)
    case lam => exact ih
    all_goals exact Iff.rfl

end Term

/-! ## Forms -/

/-- A form with a sound pattern, and the form with the renamed pattern. -/
structure Renaming.TakesForm (ρ : Renaming) (form form' : Form) : Prop where
  /-- The patterns. -/
  pattern : ρ.Takes form.pattern form'.pattern
  /-- The layout is the same. -/
  layout : form'.layout = form.layout

section Renamed

variable {ρ : Renaming}

/-- Every renaming takes the drawing of a plain pattern variable to itself. -/
theorem mirrors_patternVar {name : String} (named : isPlain name = true) :
    Mirrors ρ ρ.Takes (patternVar name) (patternVar name) :=
  mirrors_freshType.bind fun _ _ takes => mirrors_pure (Renaming.takes_var named takes)

/-- A renaming that takes an operator to itself takes the building of its form to itself. -/
theorem Operator.mirrors_form {op : Operator}
    (takes : ρ.Takes (.const op.constant) (.const op.constant)) :
    Mirrors ρ ρ.TakesForm op.form op.form := by
  refine Mirrors.within ?_ _ _
  split
  · refine (mirrors_patternVar (by decide)).bind fun a a' first => ?_
    exact (takes.mkApp first).bind fun _ _ pattern => mirrors_pure ⟨pattern, rfl⟩
  · split
    · refine (mirrors_patternVar (by decide)).bind fun a a' first => ?_
      refine (mirrors_patternVar (by decide)).bind fun b b' second => ?_
      exact (takes.mkApps (.cons first (.cons second .nil))).bind fun _ _ pattern =>
        mirrors_pure ⟨pattern, rfl⟩
    · exact mirrors_throw _ _

/-- A renaming that takes a binder to itself takes the building of its form to itself. -/
theorem Symbol.mirrors_binderForm {binder : Symbol}
    (takes : ρ.Takes (.const binder) (.const binder)) :
    Mirrors ρ ρ.TakesForm binder.binderForm binder.binderForm := by
  refine Mirrors.within ?_ _ _
  refine (mirrors_patternVar (by decide)).bind fun a a' first => ?_
  refine (mirrors_patternVar (by decide)).bind fun b b' second => ?_
  exact (takes.mkBinder first second).bind fun _ _ pattern => mirrors_pure ⟨pattern, rfl⟩

/-- A renaming that takes a set builder to itself takes the building of its form to itself. -/
theorem SetBuilder.mirrors_form {builder : SetBuilder}
    (takes : ρ.Takes (.const builder.constant) (.const builder.constant)) :
    Mirrors ρ ρ.TakesForm builder.form builder.form := by
  refine Mirrors.within ?_ _ _
  refine (mirrors_patternVar (by decide)).bind fun x x' bound => ?_
  refine (mirrors_patternVar (by decide)).bind fun phi phi' body => ?_
  refine (mirrors_lift (bound.mkLam body)).bind fun _ _ abstraction => ?_
  refine (mirrors_patternVar (by decide)).bind fun set set' whole => ?_
  exact (takes.mkApps (.cons whole (.cons abstraction .nil))).bind fun _ _ pattern =>
    mirrors_pure ⟨pattern, rfl⟩

end Renamed

/-- The type variables of a declared constant stay where they are if they are given. -/
theorem Renaming.keeping_takes {c : Symbol} (named : isPlain c.name = true) (plain : c.type.Plain)
    (s s' : Supply) :
    (keeping c.type.vars s s').Takes (.const c) (.const c) := by
  have kept : c.type.mapVars (keeping c.type.vars s s').types = c.type.mapVars .var :=
    Ty.mapVars_congr fun id inside => congrArg Ty.var (keep_eq_self.mpr (.inl inside))
  have same : c.under (keeping c.type.vars s s').types = c := by
    rw [Symbol.ext_iff', Symbol.under_type, kept, Ty.mapVars_var]
    exact ⟨rfl, rfl⟩
  exact ⟨Term.sound_const named plain, by rw [Term.under_const, same]⟩

/-- What a form is built from: a term without types to speak of, of which the form's pattern is
the most general good instance. -/
structure Form.Stems (form : Form) (raw : Term) (given : List Int) (s s' : Supply) : Prop where
  /-- Every variable occurs once. -/
  distinct : raw.slots.Nodup
  /-- The variables have plain names. -/
  named : raw.Named
  /-- The pattern is an instance that loses no good one. -/
  general : ∃ s₁, raw.Drawn s₁ ∧ Generalizes raw s₁ form.pattern s'
  /-- The pattern is proper. -/
  proper : form.pattern.Proper
  /-- Its type variables are the declared ones and those drawn meanwhile. -/
  own : form.pattern.VarsIn (Own given s s')

/-- A term has a form if it has the form's shape, whatever its types are. -/
theorem Form.Stems.matchWith_isOk {form : Form} {raw t : Term} {given : List Int} {s s' : Supply}
    (stems : form.Stems raw given s s') {B : Int → Prop} [DecidablePred B]
    (apart : ∀ id, B id → ¬ Own given s s' id) (plain : t.Plain) (inside : t.VarsIn B)
    (covers : raw.Fits t → ∃ σ, (raw.under σ).Good ∧ (raw.under σ).Covers t) :
    (form.pattern.matchWith t).isOk = true ↔ raw.Fits t := by
  obtain ⟨s₁, drawn, generalizes⟩ := stems.general
  rw [Term.matchWith_isOk (by rw [generalizes.refines.slots_eq]; exact stems.distinct)]
  constructor
  · exact Term.Meets.fits generalizes.refines
  · intro fits
    obtain ⟨σ, good, covers⟩ := covers fits
    obtain ⟨σ', -, same⟩ := generalizes.general drawn stems.named σ good
    rw [same] at covers
    exact covers.meets apart stems.own inside stems.proper.plain plain

/-- The builds of the forms. -/
inductive Word.Forms : Word → Build Form → Prop
  | operator (op : Operator) : Forms (.operator op) op.form
  | binder (binder : Symbol) : Forms (.binder binder) binder.binderForm
  | setBuilder (builder : SetBuilder) : Forms (.setBuilder builder) builder.form

/-- The supply after some type variables were handed out. -/
def Supply.beyond (s : Supply) (k : Nat) : Supply := { s with lastType := s.lastType + k }

/-- A variable of a pattern. -/
def slot (s : Supply) (name : String) (place : Nat) : Symbol :=
  ⟨name, .var (s.lastType + place : Nat)⟩

/-- What the form of a word is built from, when this begins at a supply, with its layout. -/
inductive Word.Raw (s : Supply) : Word → Term → Layout → Prop
  | unary {op : Operator} (arity : op.arity = 1) :
    Raw s (.operator op) (.app (.const op.constant) (.var (slot s "a" 1))) (.unary op.constant.name)
  | binary {op : Operator} (arity : op.arity = 2) :
    Raw s (.operator op)
      (.app (.app (.const op.constant) (.var (slot s "a" 1))) (.var (slot s "b" 2)))
      (.binary op.constant.name)
  | binder {binder : Symbol} :
    Raw s (.binder binder)
      (.app (.const binder) (.lam (slot s "a" 1) (.var (slot s "b" 2)))) (.binder binder.name)
  | setOf {builder : SetBuilder} :
    Raw s (.setBuilder builder)
      (.app (.app (.const builder.constant) (.var (slot s "X" 3)))
        (.lam (slot s "x" 1) (.var (slot s "phi" 2))))
      (.setOf builder.member)

section Stems

variable {s s' s'' : Supply} {w : Word} {c : Symbol} {build : Build Form} {form : Form}
  {part : Build Term} {raw pattern : Term}

/-- A pattern variable is a slot of the next place. -/
theorem patternVar_run {name : String} {k : Nat} {t : Term}
    (run : (patternVar name).runFrom (s.beyond k) = (.ok t, s')) :
    t = .var (slot s name (k + 1)) ∧ s' = s.beyond (k + 1) := by
  cases run
  exact ⟨rfl, rfl⟩

/-- What was built is a proper pattern that the raw one generalizes. -/
theorem Built.ok (built : Built raw s (part.runFrom s)) (run : part.runFrom s = (.ok pattern, s')) :
    pattern.Proper ∧ Generalizes raw s pattern s' := by
  rw [run] at built
  cases built with
  | done proper generalizes => exact ⟨proper, generalizes⟩

/-- A slot has a plain type. -/
theorem slot_plain (name : String) (place : Nat) : (slot s name place).type.Plain := trivial

/-- A slot has the plain name that it was given. -/
theorem slot_named {name : String} (plain : isPlain name = true) (place : Nat) :
    isPlain (slot s name place).name = true := plain

/-- A slot is a proper variable. -/
theorem slot_proper (name : String) (place : Nat) : (Term.var (slot s name place)).Proper :=
  Term.proper_var (slot_plain name place)

/-- The type of a slot was drawn by then. -/
theorem slot_drawn {name : String} {place k : Nat} (drawn : place ≤ k) :
    Unifier.VarsIn (· ≤ (s.beyond k).lastType) (slot s name place).type := by
  intro id inside
  rw [List.mem_singleton.mp inside]
  exact Int.ofNat_le.mpr (Nat.add_le_add_left drawn _)

/-- What building a form needs to know of the word's constant. -/
structure Symbol.Settled (c : Symbol) (s : Supply) : Prop where
  /-- Its name is plain. -/
  named : isPlain c.name = true
  /-- Its type is plain. -/
  plain : c.type.Plain
  /-- Its type variables have been handed out. -/
  drawn : Unifier.VarsIn (· ≤ s.lastType) c.type

/-- A settled constant mentions only variables that were drawn by then. -/
theorem Symbol.Settled.beyond (settled : c.Settled s) (k : Nat) :
    (Term.const c).Drawn (s.beyond k) :=
  settled.drawn.mono fun _ early => Int.le_trans early (Int.ofNat_le.mpr (Nat.le_add_right _ k))

/-- The type variables of a form are those of its constant or were drawn for it. -/
theorem Symbol.Settled.own (settled : c.Settled s)
    (mirrors : ∀ ρ : Renaming, ρ.Takes (.const c) (.const c) → Mirrors ρ ρ.TakesForm build build)
    (run : build.runFrom s = (.ok form, s')) : form.pattern.VarsIn (Own c.type.vars s s') :=
  ((mirrors _ (Renaming.keeping_takes settled.named settled.plain s s')).own run
    (Renaming.keeping_carries _ s s')).pattern.own

/-- The form of an operator stems from the raw pattern of its word. -/
theorem Operator.form_stems {op : Operator} (settled : op.constant.Settled s)
    (run : op.form.runFrom s = (.ok form, s')) :
    ∃ raw, (Word.operator op).Raw s raw form.layout ∧
      form.Stems raw op.constant.type.vars s s' := by
  have own := settled.own (fun ρ takes => Operator.mirrors_form takes) run
  have constant := Term.proper_const settled.plain
  have a := slot_proper (s := s) "a" 1
  have b := slot_proper (s := s) "b" 2
  rw [Operator.form, Build.within, runFrom_reported] at run
  split at run
  next unary =>
    obtain ⟨_, _, first, run⟩ := Build.bind_ok run
    obtain ⟨rfl, rfl⟩ := patternVar_run (k := 0) first
    obtain ⟨pattern, _, applied, run⟩ := Build.bind_ok run
    cases run
    obtain ⟨proper, generalizes⟩ := (constant.mkApp_built a _).ok applied
    exact ⟨_, .unary unary, by simp [Term.slots], ⟨trivial, slot_named (by decide) _⟩,
      ⟨_, ⟨settled.beyond _, slot_drawn (by decide)⟩, generalizes⟩, proper, own⟩
  next =>
    split at run
    next binary =>
      obtain ⟨_, _, first, run⟩ := Build.bind_ok run
      obtain ⟨rfl, rfl⟩ := patternVar_run (k := 0) first
      obtain ⟨_, _, second, run⟩ := Build.bind_ok run
      obtain ⟨rfl, rfl⟩ := patternVar_run second
      obtain ⟨pattern, _, applied, run⟩ := Build.bind_ok run
      cases run
      obtain ⟨proper, generalizes⟩ := (constant.mkApps_built (by simp [a, b]) _).ok applied
      exact ⟨_, .binary binary, by simp [Term.slots, slot],
        ⟨⟨trivial, slot_named (by decide) _⟩, slot_named (by decide) _⟩,
        ⟨_, ⟨⟨settled.beyond _, slot_drawn (by decide)⟩, slot_drawn (by decide)⟩, generalizes⟩,
        proper, own⟩
    next => cases run

/-- The form of a binder stems from the raw pattern of its word. -/
theorem Symbol.binderForm_stems {binder : Symbol} (settled : binder.Settled s)
    (run : binder.binderForm.runFrom s = (.ok form, s')) :
    ∃ raw, (Word.binder binder).Raw s raw form.layout ∧ form.Stems raw binder.type.vars s s' := by
  have own := settled.own (fun ρ takes => Symbol.mirrors_binderForm takes) run
  have b := slot_proper (s := s) "b" 2
  rw [Symbol.binderForm, Build.within, runFrom_reported] at run
  obtain ⟨_, _, first, run⟩ := Build.bind_ok run
  obtain ⟨rfl, rfl⟩ := patternVar_run (k := 0) first
  obtain ⟨_, _, second, run⟩ := Build.bind_ok run
  obtain ⟨rfl, rfl⟩ := patternVar_run second
  obtain ⟨pattern, _, applied, run⟩ := Build.bind_ok run
  cases run
  obtain ⟨proper, generalizes⟩ := ((Term.proper_const settled.plain).mkBinder_built
    (slot_plain "a" 1) b _).ok applied
  exact ⟨_, .binder, by simp [Term.slots, slot],
    ⟨trivial, slot_named (by decide) _, slot_named (by decide) _⟩,
    ⟨_, ⟨settled.beyond _, slot_drawn (by decide), slot_drawn (by decide)⟩, generalizes⟩,
    proper, own⟩

/-- The form of a set builder stems from the raw pattern of its word. -/
theorem SetBuilder.form_stems {builder : SetBuilder} (settled : builder.constant.Settled s)
    (run : builder.form.runFrom s = (.ok form, s')) :
    ∃ raw, (Word.setBuilder builder).Raw s raw form.layout ∧
      form.Stems raw builder.constant.type.vars s s' := by
  have own := settled.own (fun ρ takes => SetBuilder.mirrors_form takes) run
  have constant := Term.proper_const settled.plain
  have phi := slot_proper (s := s) "phi" 2
  have set := slot_proper (s := s) "X" 3
  rw [SetBuilder.form, Build.within, runFrom_reported] at run
  obtain ⟨_, _, first, run⟩ := Build.bind_ok run
  obtain ⟨rfl, rfl⟩ := patternVar_run (k := 0) first
  obtain ⟨_, _, second, run⟩ := Build.bind_ok run
  obtain ⟨rfl, rfl⟩ := patternVar_run second
  obtain ⟨abstraction, _, lambda, run⟩ := Build.bind_ok run
  obtain ⟨joined, rfl⟩ := Build.lift_ok lambda
  obtain ⟨_, _, third, run⟩ := Build.bind_ok run
  obtain ⟨rfl, rfl⟩ := patternVar_run third
  obtain ⟨pattern, _, applied, run⟩ := Build.bind_ok run
  cases run
  -- The abstraction draws nothing, so it may as well have been built after the last variable.
  have abstracted := Term.Proper.mkLam_built (slot_plain (s := s) "x" 1) phi
    (s.beyond 3)
  rw [show Term.mkLam (.var (slot s "x" 1)) (.var (slot s "phi" 2)) = .ok abstraction from joined]
    at abstracted
  cases abstracted with
  | done properL generalizesL =>
    obtain ⟨proper, generalizes⟩ := (constant.mkApps_built (by simp [set, properL]) _).ok applied
    have whole := ((Generalizes.refl _ (Nat.le_refl _)).app generalizesL).trans generalizes
    exact ⟨_, .setOf, by simp [Term.slots, slot],
      ⟨⟨trivial, slot_named (by decide) _⟩, slot_named (by decide) _, slot_named (by decide) _⟩,
      ⟨_, ⟨⟨settled.beyond _, slot_drawn (by decide)⟩, slot_drawn (by decide),
        slot_drawn (by decide)⟩, whole⟩, proper, own⟩

/-- Building the form of a word never goes back in the supply. -/
theorem Word.Forms.grows (forms : w.Forms build) (is : w.constant? = some c)
    (settled : c.Settled s) : Grows build := by
  have takes := Renaming.keeping_takes settled.named settled.plain s s
  cases forms with
  | operator op =>
    cases is
    exact (Operator.mirrors_form takes).grows
  | binder binder =>
    cases is
    exact (Symbol.mirrors_binderForm takes).grows
  | setBuilder builder =>
    cases is
    exact (SetBuilder.mirrors_form takes).grows

/-- Every form of a word stems from the word. -/
theorem Word.Forms.stems (forms : w.Forms build) (is : w.constant? = some c)
    (settled : c.Settled s) (run : build.runFrom s = (.ok form, s')) :
    ∃ raw, w.Raw s raw form.layout ∧ form.Stems raw c.type.vars s s' := by
  cases forms with
  | operator op =>
    cases is
    exact Operator.form_stems settled run
  | binder binder =>
    cases is
    exact Symbol.binderForm_stems settled run
  | setBuilder builder =>
    cases is
    exact SetBuilder.form_stems settled run

/-! ## Terms of a form's shape -/

/-- A term of the shape that a word lays out. -/
inductive Word.LaysOut : Word → Layout → Term → Prop
  | unary {op : Operator} {c : Symbol} {x : Term} (arity : op.arity = 1)
    (named : op.constant.name = c.name) :
    LaysOut (.operator op) (.unary op.constant.name) (.app (.const c) x)
  | binary {op : Operator} {c : Symbol} {a b : Term} (arity : op.arity = 2)
    (named : op.constant.name = c.name) :
    LaysOut (.operator op) (.binary op.constant.name) (.app (.app (.const c) a) b)
  | binder {binder c r : Symbol} {b : Term} (named : binder.name = c.name) :
    LaysOut (.binder binder) (.binder binder.name) (.app (.const c) (.lam r b))
  | setOf {builder : SetBuilder} {c r : Symbol} {a b : Term}
    (named : builder.constant.name = c.name) :
    LaysOut (.setBuilder builder) (.setOf builder.member) (.app (.app (.const c) a) (.lam r b))

namespace Word.LaysOut

variable {layout layout' : Layout} {t t' : Term}

/-- A word has one layout. -/
theorem layout_eq (lays : w.LaysOut layout t) (lays' : w.LaysOut layout' t') :
    layout = layout' := by
  cases lays <;> cases lays' <;> first | rfl | omega

/-- The word is that of the constant that is applied. -/
theorem name_eq (lays : w.LaysOut layout t) : w.name = t.head.name := by
  cases lays <;> assumption

/-- A word that lays out a term has a form. -/
theorem forms (lays : w.LaysOut layout t) : ∃ build, w.Forms build := by
  cases lays with
  | unary => exact ⟨_, .operator _⟩
  | binary => exact ⟨_, .operator _⟩
  | binder => exact ⟨_, .binder _⟩
  | setOf => exact ⟨_, .setBuilder _⟩

end Word.LaysOut

/-- A form that is built from a word has the layout in which the word lays terms out. -/
theorem Word.Raw.layout_eq {layout layout' : Layout} {t : Term} (made : w.Raw s raw layout)
    (lays : w.LaysOut layout' t) : layout = layout' := by
  cases made <;> cases lays <;> first | rfl | omega

/-- A substitution that is given below a supply and puts some types above it. -/
def Supply.above (s : Supply) (τ : Int → Ty) (types : List Ty) (id : Int) : Ty :=
  if id ≤ s.lastType then τ id else types.getD (id - s.lastType - 1).toNat .obj

/-- Types put above what was drawn leave a constant's variables to the substitution. -/
theorem above_const (τ : Int → Ty) (types : List Ty)
    (drawn : Unifier.VarsIn (· ≤ s.lastType) c.type) :
    c.under (s.above τ types) = c.under τ :=
  Symbol.ext_iff'.mpr ⟨rfl, Ty.mapVars_congr fun id inside => if_pos (drawn id inside)⟩

/-- Types put above what was drawn give each slot its own. -/
theorem above_slot (τ : Int → Ty) (types : List Ty) (name : String) (place : Nat) :
    (slot s name (place + 1)).under (s.above τ types) = ⟨name, types.getD place .obj⟩ := by
  refine Symbol.ext_iff'.mpr ⟨rfl, ?_⟩
  have above : ¬ ((s.lastType + (place + 1) : Nat) : Int) ≤ s.lastType := by omega
  have place' : (((s.lastType + (place + 1) : Nat) : Int) - s.lastType - 1).toNat = place := by
    omega
  simp only [slot, Symbol.under_type, Ty.mapVars, Supply.above, if_neg above, place']

variable {v : Vocabulary} {layout : Layout} {t : Term}

/-- What is built from a word fits exactly the terms that the word lays out. -/
theorem Word.Raw.fits_iff (made : w.Raw s raw layout) : raw.Fits t ↔ w.LaysOut layout t := by
  constructor
  · intro fits
    cases made with
    | unary arity =>
      obtain _ | _ | ⟨_ | _ | _ | _, x⟩ | _ := t
      all_goals first | exact fits.elim | exact fits.1.elim | exact .unary arity fits.1
    | binary arity =>
      obtain _ | _ | ⟨_ | _ | ⟨_ | _ | _ | _, a⟩ | _, b⟩ | _ := t
      all_goals first | exact fits.elim | exact fits.1.elim | exact fits.1.1.elim |
        exact .binary arity fits.1.1
    | binder =>
      obtain _ | _ | ⟨_ | _ | _ | _, _ | _ | _ | _⟩ | _ := t
      all_goals first | exact fits.elim | exact fits.1.elim | exact fits.2.elim |
        exact .binder fits.1
    | setOf =>
      obtain _ | _ | ⟨_ | _ | ⟨_ | _ | _ | _, a⟩ | _, _ | _ | _ | _⟩ | _ := t
      all_goals first | exact fits.elim | exact fits.1.elim | exact fits.1.1.elim |
        exact fits.2.elim | exact .setOf fits.1.1
  · intro lays
    cases made with
    | unary => cases lays with | unary _ named => exact ⟨named, trivial⟩
    | binary => cases lays with | binary _ named => exact ⟨⟨named, trivial⟩, trivial⟩
    | binder => cases lays with | binder named => exact ⟨named, trivial⟩
    | setOf => cases lays with | setOf named => exact ⟨⟨named, trivial⟩, trivial⟩

/-- A good term that a word lays out is covered by a good instance of what is built from the
word. -/
theorem Word.Raw.covers (made : w.Raw s raw layout) (is : w.constant? = some c)
    (drawn : Unifier.VarsIn (· ≤ s.lastType) c.type) (lays : w.LaysOut layout t) (good : t.Good)
    (instances : ∀ d : Symbol, t.head = .const d → c.name = d.name → ∃ τ, d = c.under τ) :
    ∃ σ, (raw.under σ).Good ∧ (raw.under σ).Covers t := by
  cases made with
  | unary =>
    cases is
    cases lays with | @unary _ d x _ named =>
    obtain ⟨τ, rfl⟩ := instances d rfl named
    refine ⟨s.above τ [x.type], ?_⟩
    simp only [Term.under_app, Term.under_const, Term.under_var, above_const τ _ drawn,
      above_slot τ _ _ 0]
    obtain ⟨-, -, codomain, typed⟩ := good.wellTyped
    exact ⟨⟨⟨trivial, trivial, codomain, typed⟩, by simp [Term.free, Uniform]⟩, rfl, rfl⟩
  | binary =>
    cases is
    cases lays with | @binary _ d a b _ named =>
    obtain ⟨τ, rfl⟩ := instances d rfl named
    refine ⟨s.above τ [a.type, b.type], ?_⟩
    simp only [Term.under_app, Term.under_const, Term.under_var, above_const τ _ drawn,
      above_slot τ _ _ 0, above_slot τ _ _ 1]
    obtain ⟨⟨-, -, between, typed⟩, -, codomain, typed'⟩ := good.wellTyped
    exact ⟨⟨⟨⟨trivial, trivial, between, typed⟩, trivial, codomain, typed'⟩,
      by simp [Term.free, Uniform]⟩, ⟨rfl, rfl⟩, rfl⟩
  | binder =>
    cases is
    cases lays with | @binder _ d r b named =>
    obtain ⟨τ, rfl⟩ := instances d rfl named
    refine ⟨s.above τ [r.type, b.type], ?_⟩
    simp only [Term.under_app, Term.under_const, Term.under_var, Term.under_lam,
      above_const τ _ drawn, above_slot τ _ _ 0, above_slot τ _ _ 1]
    obtain ⟨-, -, codomain, typed⟩ := good.wellTyped
    exact ⟨⟨⟨trivial, ⟨trivial, by simp [Term.free]⟩, codomain, typed⟩,
      by simp [Term.free, Uniform]⟩, rfl, rfl, rfl⟩
  | setOf =>
    cases is
    cases lays with | @setOf _ d r a b named =>
    obtain ⟨τ, rfl⟩ := instances d rfl named
    refine ⟨s.above τ [r.type, b.type, a.type], ?_⟩
    simp only [Term.under_app, Term.under_const, Term.under_var, Term.under_lam,
      above_const τ _ drawn, above_slot τ _ _ 0, above_slot τ _ _ 1, above_slot τ _ _ 2]
    obtain ⟨⟨-, -, between, typed⟩, -, codomain, typed'⟩ := good.wellTyped
    exact ⟨⟨⟨⟨trivial, trivial, between, typed⟩, ⟨trivial, by simp [Term.free]⟩, codomain, typed'⟩,
      by simp +decide [Term.free, Uniform]⟩, ⟨rfl, rfl⟩, rfl, rfl⟩

end Stems

/-! ## Printers -/

/-- A vocabulary whose terms can be written: what is needed of its words. -/
structure Vocabulary.Writable (v : Vocabulary) : Prop extends v.Regular where
  /-- Names are identifiers. -/
  identifiers : ∀ w ∈ v.words, Formula.Identifier w.name
  /-- There is one word of each name. -/
  distinct : (v.words.map Word.name).Nodup

/-- The type variables of the declared constants have been handed out. -/
def Vocabulary.Drawn (v : Vocabulary) (s : Supply) : Prop :=
  ∀ c, v.Declares c → Unifier.VarsIn (· ≤ s.lastType) c.type

instance (v : Vocabulary) (s : Supply) : Decidable (v.Drawn s) :=
  decidable_of_iff
    (∀ c ∈ v.words.filterMap Word.constant?, ∀ id ∈ c.type.vars, id ≤ s.lastType) <| by
      simp only [List.mem_filterMap]
      rfl

section Printers

variable {v : Vocabulary} {s s' : Supply} {p : Printer}

/-- A word is named as its constant. -/
theorem Word.name_of_constant {w : Word} {c : Symbol} (is : w.constant? = some c) :
    w.name = c.name := by
  cases w <;> cases is <;> rfl

namespace Vocabulary

/-- What was drawn by a time was drawn by every later one. -/
theorem Drawn.later (drawn : v.Drawn s) (later : s.lastType ≤ s'.lastType) : v.Drawn s' :=
  fun c declared => (drawn c declared).mono fun _ early => by omega

/-- In a writable vocabulary constants have plain names. -/
theorem Writable.plain_name (writable : v.Writable) {c : Symbol} (declared : v.Declares c) :
    isPlain c.name = true := by
  obtain ⟨w, listed, is⟩ := declared
  rw [← Word.name_of_constant is]
  exact (writable.identifiers w listed).plain

/-- In a writable vocabulary types have plain names. -/
theorem Writable.labelled (writable : v.Writable) : v.Labelled :=
  ⟨writable.toRegular, fun _ declared => writable.plain_name declared⟩

/-- In a writable vocabulary constants are settled. -/
theorem Writable.settled (writable : v.Writable) (drawn : v.Drawn s) {c : Symbol}
    (declared : v.Declares c) : c.Settled s :=
  ⟨writable.plain_name declared, writable.constants c declared, drawn c declared⟩

/-- Words of one name are one word. -/
theorem Writable.word_unique (writable : v.Writable) {w w' : Word} (listed : w ∈ v.words)
    (listed' : w' ∈ v.words) (same : w.name = w'.name) : w = w' :=
  List.inj_on_of_nodup_map writable.distinct listed listed' same

/-- A word is found under its name. -/
theorem Writable.lookup (writable : v.Writable) {w : Word} (listed : w ∈ v.words) :
    v.lookup w.name = some w := by
  cases found : v.lookup w.name with
  | none =>
    have absent := List.find?_eq_none.mp found w listed
    simp at absent
  | some w' =>
    have same : w'.name = w.name := by simpa using List.find?_some found
    rw [writable.word_unique (List.mem_of_find?_eq_some found) listed same]

/-- A constant that was read and has the name of a declared one is an instance of it. -/
theorem Writable.instance_of (writable : v.Writable) {w : Word} {c d : Symbol}
    (listed : w ∈ v.words) (is : w.constant? = some c) (spoken : (Term.const d).Spoken v)
    (same : c.name = d.name) : ∃ τ, d = c.under τ := by
  obtain ⟨declared, τ, ⟨w', listed', is'⟩, rfl⟩ := spoken
  have names : w'.name = w.name := by
    rw [Word.name_of_constant is', Word.name_of_constant is, same]
    rfl
  obtain rfl := writable.word_unique listed' listed names
  rw [is] at is'
  cases is'
  exact ⟨τ, rfl⟩

end Vocabulary

/-- The head of a term is spoken if the term is. -/
theorem Term.Spoken.head {t : Term} (spoken : t.Spoken v) : t.head.Spoken v := by
  induction t with
  | app f x ihF _ => exact ihF spoken.1
  | const _ => exact spoken
  | var _ => exact spoken
  | lam _ _ _ => exact spoken

/-- A printer whose forms were built from the words of a vocabulary between two supplies. -/
structure Printer.Made (p : Printer) (v : Vocabulary) (s s' : Supply) : Prop where
  /-- Constants are written as the vocabulary says. -/
  vocabulary : p.vocabulary = v
  /-- Every form stems from a word. -/
  forms : ∀ form ∈ p.forms, ∃ w ∈ v.words, ∃ c raw s₁ s₂, w.constant? = some c ∧
    c.Settled s₁ ∧ w.Raw s₁ raw form.layout ∧ form.Stems raw c.type.vars s₁ s₂ ∧
    s.lastType ≤ s₁.lastType ∧ s₂.lastType ≤ s'.lastType

/-- What is on the left of a relation between lists has its counterpart on the right. -/
theorem exists_right_of_forall₂ {α β : Type} {R : α → β → Prop} {l : List α} {l' : List β}
    (all : List.Forall₂ R l l') {a : α} (inside : a ∈ l) : ∃ b ∈ l', R a b := by
  induction all with
  | nil => cases inside
  | cons here _ ih =>
    rcases List.mem_cons.mp inside with rfl | inside
    · exact ⟨_, List.mem_cons_self, here⟩
    · obtain ⟨b, inside', there⟩ := ih inside
      exact ⟨b, List.mem_cons_of_mem _ inside', there⟩

/-- The results of a sequence of builds were built one after the other. -/
theorem Build.mapM_ok {α β : Type} {f : α → Build β} : ∀ {items : List α} {results : List β}
    {s s' : Supply}, (∀ a ∈ items, Grows (f a)) → (items.mapM f).runFrom s = (.ok results, s') →
      s.Before s' ∧ List.Forall₂ (fun a b => ∃ s₁ s₂, (f a).runFrom s₁ = (.ok b, s₂) ∧
        s.Before s₁ ∧ s₂.Before s') items results := by
  intro items
  induction items with
  | nil =>
    rintro results s s' - run
    cases run
    exact ⟨.refl s, .nil⟩
  | cons a rest ih =>
    rintro results s s' grows run
    rw [List.mapM_cons] at run
    obtain ⟨b, t, first, run⟩ := Build.bind_ok run
    obtain ⟨others, u, later, run⟩ := Build.bind_ok run
    cases run
    obtain ⟨before, each⟩ := ih (fun a inside => grows a (List.mem_cons_of_mem _ inside)) later
    have grown := grows a List.mem_cons_self s
    rw [first] at grown
    refine ⟨grown.trans before, .cons ⟨s, t, first, .refl s, before⟩ (each.imp ?_)⟩
    rintro a' b' ⟨s₁, s₂, run', starts, ends⟩
    exact ⟨s₁, s₂, run', grown.trans starts, ends⟩

/-- The builds of a vocabulary's forms, in order. -/
def Vocabulary.formBuilds (v : Vocabulary) : List (Build Form) :=
  v.operators.map Operator.form ++ v.binders.map Symbol.binderForm ++
    v.setBuilders.map SetBuilder.form

/-- The forms that are built are those of the words. -/
theorem Vocabulary.mem_formBuilds {build : Build Form} :
    build ∈ v.formBuilds ↔ ∃ w ∈ v.words, w.Forms build := by
  simp only [formBuilds, operators, binders, setBuilders, List.mem_append, List.mem_map,
    List.mem_filterMap]
  constructor
  · rintro ((⟨op, ⟨w, listed, is⟩, rfl⟩ | ⟨binder, ⟨w, listed, is⟩, rfl⟩) |
      ⟨builder, ⟨w, listed, is⟩, rfl⟩) <;> cases w <;> cases is
    · exact ⟨_, listed, .operator op⟩
    · exact ⟨_, listed, .binder binder⟩
    · exact ⟨_, listed, .setBuilder builder⟩
  · rintro ⟨w, listed, forms⟩
    cases forms with
    | operator op => exact .inl (.inl ⟨op, ⟨_, listed, rfl⟩, rfl⟩)
    | binder binder => exact .inl (.inr ⟨binder, ⟨_, listed, rfl⟩, rfl⟩)
    | setBuilder builder => exact .inr ⟨builder, ⟨_, listed, rfl⟩, rfl⟩

/-- A word that has a form has a constant. -/
theorem Word.Forms.constant {w : Word} {build : Build Form} (forms : w.Forms build) :
    ∃ c, w.constant? = some c := by
  cases forms <;> exact ⟨_, rfl⟩

namespace Printer

/-- A printer is a vocabulary with the forms of its words. -/
theorem ofVocabulary_eq (v : Vocabulary) :
    ofVocabulary v = do return ⟨v, ← v.formBuilds.mapM id⟩ := by
  simp [ofVocabulary, Vocabulary.formBuilds, List.mapM_append, List.mapM_map]

/-- A printer has the forms of the words in order, and each stems from its word. -/
theorem forms_of_run (writable : v.Writable) (drawn : v.Drawn s)
    (run : (ofVocabulary v).runFrom s = (.ok p, s')) :
    s.Before s' ∧ p.vocabulary = v ∧ List.Forall₂ (fun build form =>
      ∀ w ∈ v.words, w.Forms build → ∃ c raw s₁ s₂, w.constant? = some c ∧ c.Settled s₁ ∧
        w.Raw s₁ raw form.layout ∧ form.Stems raw c.type.vars s₁ s₂ ∧
        s.lastType ≤ s₁.lastType ∧ s₂.lastType ≤ s'.lastType) v.formBuilds p.forms := by
  rw [ofVocabulary_eq] at run
  obtain ⟨forms, t, built, run⟩ := Build.bind_ok run
  cases run
  have grows : ∀ build ∈ v.formBuilds, Grows build := by
    intro build inside
    obtain ⟨w, listed, forms⟩ := Vocabulary.mem_formBuilds.mp inside
    obtain ⟨c, is⟩ := forms.constant
    exact forms.grows is (writable.settled drawn ⟨w, listed, is⟩)
  obtain ⟨before, each⟩ := Build.mapM_ok grows built
  refine ⟨before, rfl, each.imp fun build form from' w listed forms => ?_⟩
  obtain ⟨s₁, s₂, run, starts, ends⟩ := from'
  obtain ⟨c, is⟩ := forms.constant
  have settled := writable.settled (drawn.later starts.types) ⟨w, listed, is⟩
  obtain ⟨raw, made, stems⟩ := forms.stems is settled run
  exact ⟨c, raw, s₁, s₂, is, settled, made, stems, starts.types, ends.types⟩

/-- The printer of a vocabulary is made from its words. -/
theorem made_of_run (writable : v.Writable) (drawn : v.Drawn s)
    (run : (ofVocabulary v).runFrom s = (.ok p, s')) : s.Before s' ∧ p.Made v s s' := by
  obtain ⟨before, same, each⟩ := forms_of_run writable drawn run
  refine ⟨before, same, fun form inside => ?_⟩
  obtain ⟨build, inside, stems⟩ := exists_right_of_forall₂ each.flip inside
  obtain ⟨w, listed, forms⟩ := Vocabulary.mem_formBuilds.mp inside
  exact ⟨w, listed, stems w listed forms⟩

/-- A term that was read, though not while a printer was made between two supplies, so that it
shares no type variables with the printer's forms. -/
structure Writes (v : Vocabulary) (s s' : Supply) (t : Term) : Prop where
  /-- It was read. -/
  read : t.Read v
  /-- Its type variables were handed out before the printer was made or afterwards. -/
  apart : ∃ u u' : Supply, v.Drawn u ∧ (s'.lastType ≤ u.lastType ∨ u'.lastType ≤ s.lastType) ∧
    t.VarsIn (Own [] u u')

variable {t f x b : Term} {r : Symbol} {layout : Layout}

/-- What writes an application writes its function. -/
theorem Writes.function (writes : Writes v s s' (.app f x)) : Writes v s s' f := by
  obtain ⟨u, u', drawn, order, own⟩ := writes.apart
  exact ⟨⟨writes.read.proper.function, writes.read.spoken.1⟩, u, u', drawn, order, own.1⟩

/-- It writes its argument, too. -/
theorem Writes.argument (writes : Writes v s s' (.app f x)) : Writes v s s' x := by
  obtain ⟨u, u', drawn, order, own⟩ := writes.apart
  exact ⟨⟨writes.read.proper.argument, writes.read.spoken.2⟩, u, u', drawn, order, own.2⟩

/-- What writes an abstraction writes its body. -/
theorem Writes.body (writes : Writes v s s' (.lam r b)) : Writes v s s' b := by
  obtain ⟨u, u', drawn, order, own⟩ := writes.apart
  exact ⟨⟨writes.read.proper.body, writes.read.spoken.2⟩, u, u', drawn, order, own.2⟩

/-- A form that stems from a word recognises what has the word's shape. -/
theorem recognises_of_stems (writable : v.Writable) {form : Form} {w : Word} {c : Symbol}
    {raw : Term} {s₁ s₂ : Supply} (listed : w ∈ v.words) (is : w.constant? = some c)
    (settled : c.Settled s₁) (rawly : w.Raw s₁ raw form.layout)
    (stems : form.Stems raw c.type.vars s₁ s₂) (starts : s.lastType ≤ s₁.lastType)
    (ends : s₂.lastType ≤ s'.lastType) (writes : Writes v s s' t) :
    (form.pattern.matchWith t).isOk = true ↔ raw.Fits t := by
  obtain ⟨u, u', drawn, order, own⟩ := writes.apart
  have apart : ∀ id, Own [] u u' id → ¬ Own c.type.vars s₁ s₂ id := by
    rintro id (none | ⟨after, before⟩) (given | ⟨after', before'⟩)
    · cases none
    · cases none
    · have early := drawn c ⟨w, listed, is⟩ id given
      omega
    · omega
  refine stems.matchWith_isOk apart writes.read.proper.plain own fun fits => ?_
  refine rawly.covers is settled.drawn (rawly.fits_iff.mp fits) writes.read.proper.toGood ?_
  intro d head same
  refine writable.instance_of listed is ?_ same
  rw [← head]
  exact writes.read.spoken.head

/-- Whether a form recognises a term is a matter of the term's shape. -/
theorem Made.recognises (made : p.Made v s s') (writable : v.Writable) {form : Form}
    (inside : form ∈ p.forms) : ∃ w ∈ v.words, ∃ raw s₁, w.Raw s₁ raw form.layout ∧
      ∀ t, Writes v s s' t → ((form.pattern.matchWith t).isOk = true ↔ raw.Fits t) := by
  obtain ⟨w, listed, c, raw, s₁, s₂, is, settled, rawly, stems, starts, ends⟩ :=
    made.forms form inside
  exact ⟨w, listed, raw, s₁, rawly, fun t =>
    recognises_of_stems writable listed is settled rawly stems starts ends⟩

/-- A layout that is found belongs to a word that lays the term out. -/
theorem Made.laysOut (made : p.Made v s s') (writable : v.Writable) (writes : Writes v s s' t)
    (found : p.layout? t = some layout) : ∃ w ∈ v.words, w.LaysOut layout t := by
  obtain ⟨form, first, rfl⟩ := Option.map_eq_some_iff.mp found
  obtain ⟨w, listed, raw, s₁, rawly, recognises⟩ :=
    made.recognises writable (List.mem_of_find?_eq_some first)
  have matched := List.find?_some first
  exact ⟨w, listed, rawly.fits_iff.mp ((recognises t writes).mp matched)⟩

/-- A term that a word lays out is written in the word's layout. -/
theorem layout?_of_word (writable : v.Writable) (drawn : v.Drawn s)
    (run : (ofVocabulary v).runFrom s = (.ok p, s')) {w : Word} (listed : w ∈ v.words)
    (lays : w.LaysOut layout t) (writes : Writes v s s' t) : p.layout? t = some layout := by
  obtain ⟨-, -, each⟩ := forms_of_run writable drawn run
  obtain ⟨build, forms⟩ := lays.forms
  obtain ⟨form, inside, stems⟩ :=
    exists_right_of_forall₂ each (Vocabulary.mem_formBuilds.mpr ⟨w, listed, forms⟩)
  obtain ⟨c, raw, s₁, s₂, is, settled, rawly, stems, starts, ends⟩ := stems w listed forms
  have recognised : (form.pattern.matchWith t).isOk = true := by
    rw [recognises_of_stems writable listed is settled rawly stems starts ends writes,
      rawly.fits_iff, rawly.layout_eq lays]
    exact lays
  cases found : p.layout? t with
  | none =>
    have refused := List.find?_eq_none.mp (Option.map_eq_none_iff.mp found) form inside
    exact absurd recognised refused
  | some layout' =>
    obtain ⟨w', listed', lays'⟩ := (made_of_run writable drawn run).2.laysOut writable writes found
    obtain rfl := writable.word_unique listed' listed (lays'.name_eq.trans lays.name_eq.symm)
    rw [lays'.layout_eq lays]

/-- Terms that differ in their types only have the same layout. -/
theorem Made.layout?_under (made : p.Made v s s') (writable : v.Writable) {σ : Int → Ty}
    (writes : Writes v s s' t) (writes' : Writes v s s' (t.under σ)) :
    p.layout? (t.under σ) = p.layout? t := by
  rw [layout?, layout?]
  refine congrArg (Option.map Form.layout) (List.find?_congr fun form inside => ?_)
  obtain ⟨w, listed, raw, s₁, rawly, recognises⟩ := made.recognises writable inside
  rw [Bool.eq_iff_iff, recognises t writes, recognises _ writes', Term.fits_under]

end Printer

end Printers

end Turnstile
