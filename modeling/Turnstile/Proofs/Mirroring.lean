import Turnstile.Proofs.TermRenaming

/-!
# Runs under a renaming

A build that is run again, from another supply and on renamed data, does the same: it succeeds,
draws as much, and its result is the renamed result. The renaming has to take what the first run
draws to what the second one draws; of everything else it may do as it likes.

`Build.Mirrors` states this for two builds and is proved for a build from its parts. Applied to a
build and itself it says that what was drawn earlier is all that the result depends on.
-/

namespace Turnstile

/-! ## Supplies -/

/-- A supply from which at least as much has been drawn as from another one, of the same depth and
with the same choices. -/
structure Supply.Before (s t : Supply) : Prop where
  /-- No type variable was given back. -/
  types : s.lastType ≤ t.lastType
  /-- No assumption was given back. -/
  assumptions : s.lastAssumption ≤ t.lastAssumption
  /-- No choice was taken back. -/
  made : s.lastChoice ≤ t.lastChoice
  /-- Reductions may nest as deep. -/
  depth : t.depth = s.depth
  /-- The same choices are made at the same times. -/
  choices : t.choices = s.choices

/-- Rules and expansions are functions of the goal: in which order unfolding visits the atoms of a
name is determined by the name and the formula, whatever type variables are called in it. -/
def Supply.Steady (s : Supply) : Prop :=
  ∀ (ρ : Renaming) (n m : Nat) (name : String) (t : Term),
    s.choices n name (t.under ρ.types) = s.choices m name t

/-- The supply of a new run in which the atoms of a name are visited as they are listed. -/
def Supply.orderly : Supply := { Supply.initial with choices := fun _ _ _ => 0 }

/-- As they are listed is an order that is determined by the formula. -/
theorem Supply.orderly_steady : Supply.orderly.Steady := fun _ _ _ _ _ => rfl

/-- The supply that is left when as much is drawn from the first supply as was drawn between the
other two. -/
def Supply.after (s' s t : Supply) : Supply where
  lastType := s'.lastType + (t.lastType - s.lastType)
  lastAssumption := s'.lastAssumption + (t.lastAssumption - s.lastAssumption)
  lastChoice := s'.lastChoice + (t.lastChoice - s.lastChoice)
  depth := s'.depth
  choices := s'.choices

/-- A renaming takes what is drawn between two supplies to what is then drawn from a third. -/
structure Renaming.Carries (ρ : Renaming) (s t s' : Supply) : Prop where
  /-- The type variables. -/
  types : ∀ n : Nat, s.lastType < n → n ≤ t.lastType →
    ρ.type n = (s'.lastType + (n - s.lastType) : Nat)
  /-- The assumptions. -/
  assumptions : ∀ n : Nat, s.lastAssumption < n → n ≤ t.lastAssumption →
    ρ.assumption n = s'.lastAssumption + (n - s.lastAssumption)
  /-- The choices, if they are to be taken along: each is made again in the renamed term. -/
  choices : ρ.choosing → ∀ n : Nat, s.lastChoice < n → n ≤ t.lastChoice → ∀ name t,
    s'.choices (s'.lastChoice + (n - s.lastChoice)) name (t.under ρ.types) = s.choices n name t
  /-- The third supply lets reductions nest as deep. -/
  depth : s'.depth = s.depth

namespace Supply

variable {s t u s' : Supply} {ρ : Renaming}

/-- Every supply comes before itself. -/
theorem Before.refl (s : Supply) : s.Before s :=
  ⟨Nat.le_refl _, Nat.le_refl _, Nat.le_refl _, rfl, rfl⟩

/-- Coming before is transitive. -/
theorem Before.trans (first : s.Before t) (second : t.Before u) : s.Before u :=
  ⟨Nat.le_trans first.types second.types, Nat.le_trans first.assumptions second.assumptions,
    Nat.le_trans first.made second.made, second.depth.trans first.depth,
    second.choices.trans first.choices⟩

/-- What is drawn does not change in which order atoms are visited. -/
theorem Before.steady (before : s.Before t) : t.Steady ↔ s.Steady := by
  rw [Steady, Steady, before.choices]

/-- A supply comes before what it is after drawing as much. -/
theorem before_after (s' s t : Supply) : s'.Before (s'.after s t) :=
  ⟨Nat.le_add_right _ _, Nat.le_add_right _ _, Nat.le_add_right _ _, rfl, rfl⟩

/-- Drawing assumptions only is drawing. -/
theorem before_assumptions (s : Supply) (count : Nat) :
    s.Before { s with lastAssumption := s.lastAssumption + count } :=
  ⟨Nat.le_refl _, Nat.le_add_right _ _, Nat.le_refl _, rfl, rfl⟩

/-- Drawing nothing leaves the supply. -/
@[simp] theorem after_self (s' s : Supply) : s'.after s s = s' := by
  simp [after]

/-- As much is drawn in two steps as at once. -/
theorem after_after (first : s.Before t) (second : t.Before u) :
    (s'.after s t).after t u = s'.after s u := by
  have types := first.types
  have types' := second.types
  have assumptions := first.assumptions
  have assumptions' := second.assumptions
  have made := first.made
  have made' := second.made
  simp only [after, Supply.mk.injEq, and_true]
  refine ⟨?_, ?_, ?_⟩ <;> omega

end Supply

namespace Renaming

variable {s t u s' : Supply} {ρ : Renaming}

/-- What is carried as a whole is carried up to any point. -/
theorem Carries.first (carries : ρ.Carries s u s') (second : t.Before u) : ρ.Carries s t s' where
  types := fun n after before => carries.types n after (Nat.le_trans before second.types)
  assumptions := fun n after before =>
    carries.assumptions n after (Nat.le_trans before second.assumptions)
  choices := fun choosing n after before =>
    carries.choices choosing n after (Nat.le_trans before second.made)
  depth := carries.depth

/-- What is carried as a whole is carried from any point. -/
theorem Carries.second (carries : ρ.Carries s u s') (first : s.Before t) :
    ρ.Carries t u (s'.after s t) where
  types := by
    intro n after before
    have types := first.types
    have drawn := carries.types n (by omega) before
    simp only [Supply.after]
    omega
  assumptions := by
    intro n after before
    have assumptions := first.assumptions
    have drawn := carries.assumptions n (by omega) before
    simp only [Supply.after]
    omega
  choices := by
    intro choosing n after before name f
    have made := first.made
    have drawn := carries.choices choosing n (by omega) before name f
    have time : s'.lastChoice + (t.lastChoice - s.lastChoice) + (n - t.lastChoice) =
        s'.lastChoice + (n - s.lastChoice) := by omega
    simp only [Supply.after]
    rw [time, drawn, first.choices]
  depth := carries.depth.trans first.depth.symm

end Renaming

/-! ## Builds -/

namespace Build

variable {α β γ δ : Type} {ρ : Renaming} {R : α → β → Prop} {S : γ → δ → Prop}

/-! ### Supplies only grow -/

/-- Nothing that was drawn is given back, whether the build succeeds or fails. -/
def Grows (build : Build α) : Prop := ∀ s : Supply, s.Before (build.runFrom s).2

/-- Returning a value draws nothing. -/
theorem grows_pure (a : α) : Grows (pure a) := fun s => .refl s

/-- Failing draws nothing. -/
theorem grows_throw (failure : Failure) : Grows (throw failure : Build α) := fun s => .refl s

/-- A computation that does not build draws nothing. -/
theorem grows_lift (result : Except Failure α) : Grows (liftM result) := fun s => .refl s

/-- Drawing a type goes on in the supply. -/
theorem grows_freshType : Grows freshType := fun _ =>
  ⟨Nat.le_succ _, Nat.le_refl _, Nat.le_refl _, rfl, rfl⟩

/-- Drawing an assumption goes on in the supply. -/
theorem grows_freshAssumption : Grows freshAssumption := fun _ =>
  ⟨Nat.le_refl _, Nat.le_succ _, Nat.le_refl _, rfl, rfl⟩

/-- Choosing goes on in the supply. -/
theorem grows_choose (name : String) (t : Term) : Grows (choose name t) := fun _ =>
  ⟨Nat.le_refl _, Nat.le_refl _, Nat.le_succ _, rfl, rfl⟩

/-- If two builds never go back in the supply, then neither do both together. -/
theorem Grows.bind {build : Build α} {next : α → Build γ} (grows : Grows build)
    (continues : ∀ s a t, build.runFrom s = (.ok a, t) → Grows (next a)) :
    Grows (build >>= next) := by
  intro s
  have first := grows s
  rw [runFrom_bind]
  rcases ran : build.runFrom s with ⟨failure | a, t⟩ <;> rw [ran] at first
  · exact first
  · exact first.trans (continues s a t ran t)

/-- Reporting failures in another way does not change what is drawn. -/
theorem Grows.reported {build : Build α} (grows : Grows build) (report : Failure → Failure) :
    Grows (tryCatch build fun failure => throw (report failure)) := by
  intro s
  have first := grows s
  rw [runFrom_tryCatch]
  rcases ran : build.runFrom s with ⟨failure | a, t⟩ <;> rw [ran] at first <;> exact first

/-- What is built for each item never goes back if no item does. -/
theorem grows_mapM {f : α → Build γ} (each : ∀ a, Grows (f a)) :
    ∀ items : List α, Grows (items.mapM f)
  | [] => grows_pure []
  | a :: rest => by
    rw [List.mapM_cons]
    exact (each a).bind fun _ _ _ _ => (grows_mapM each rest).bind fun _ _ _ _ => grows_pure _

/-! ### Builds that mirror each other -/

/-- Whatever the first build returns is related to something, and the second build returns that
from every supply to which the renaming carries what the first one drew. -/
structure Mirrors (ρ : Renaming) (R : α → β → Prop) (first : Build α) (second : Build β) :
    Prop where
  /-- Nothing that was drawn is given back. -/
  grows : Grows first
  /-- Results are related to something. -/
  related : ∀ s a t, first.runFrom s = (.ok a, t) → ∃ b, R a b
  /-- The second build does the same under the renaming. -/
  follows : ∀ s a t, first.runFrom s = (.ok a, t) → ∀ s', ρ.Carries s t s' →
    ∃ b, R a b ∧ second.runFrom s' = (.ok b, s'.after s t)

/-- A run of a mirrored build ends later than it begins. -/
theorem Mirrors.before {first : Build α} {second : Build β} (mirrors : Mirrors ρ R first second)
    {s t : Supply} {a : α} (run : first.runFrom s = (.ok a, t)) : s.Before t := by
  have grown := mirrors.grows s
  rw [run] at grown
  exact grown

/-- Returning related values is mirrored. -/
theorem mirrors_pure {a : α} {b : β} (related : R a b) : Mirrors ρ R (pure a) (pure b) where
  grows := grows_pure a
  related := by
    rintro s _ _ ⟨⟩
    exact ⟨b, related⟩
  follows := by
    rintro s _ _ ⟨⟩ s' _
    refine ⟨b, related, ?_⟩
    rw [Supply.after_self]
    rfl

/-- Computations that follow each other are mirrored as builds. -/
theorem mirrors_lift {first : Except Failure α} {second : Except Failure β}
    (follows : Follows R first second) :
    Mirrors ρ R (liftM first : Build α) (liftM second : Build β) where
  grows := grows_lift first
  related := by
    intro s a t run
    obtain ⟨b, _, related⟩ := follows a (Prod.mk.inj run).1
    exact ⟨b, related⟩
  follows := by
    intro s a t run s' _
    rw [runFrom_lift] at run
    obtain ⟨done, rfl⟩ := Prod.mk.inj run
    obtain ⟨b, done', related⟩ := follows a done
    refine ⟨b, related, ?_⟩
    rw [Supply.after_self, runFrom_lift, done']

/-- A build that never returns anything is mirrored by any build. -/
theorem mirrors_of_fails {first : Build α} (grows : Grows first)
    (fails : first.Gives fun _ => False) (second : Build β) : Mirrors ρ R first second where
  grows := grows
  related := fun s a t run => (fails s t a run).elim
  follows := fun s a t run => (fails s t a run).elim

/-- A failure is mirrored by anything. -/
theorem mirrors_throw (failure : Failure) (second : Build β) :
    Mirrors ρ R (throw failure) second :=
  mirrors_of_fails (grows_throw failure) (gives_throw failure) second

/-- Sequences of two builds mirror each other if both parts do. -/
theorem Mirrors.bind {first : Build α} {second : Build β} {next : α → Build γ}
    {next' : β → Build δ} (mirrors : Mirrors ρ R first second)
    (continues : ∀ a b, R a b → Mirrors ρ S (next a) (next' b)) :
    Mirrors ρ S (first >>= next) (second >>= next') where
  grows := mirrors.grows.bind fun s a t run => by
    obtain ⟨b, related⟩ := mirrors.related s a t run
    exact (continues a b related).grows
  related := by
    intro s c u run
    rw [runFrom_bind] at run
    rcases ran : first.runFrom s with ⟨failure | a, t⟩ <;> rw [ran] at run
    · cases run
    · obtain ⟨b, related⟩ := mirrors.related s a t ran
      exact (continues a b related).related t c u run
  follows := by
    intro s c u run s' carries
    rw [runFrom_bind] at run
    rcases ran : first.runFrom s with ⟨failure | a, t⟩ <;> rw [ran] at run
    · cases run
    · obtain ⟨b, related⟩ := mirrors.related s a t ran
      have before := mirrors.before ran
      have before' := (continues a b related).before run
      obtain ⟨b', related', run'⟩ := mirrors.follows s a t ran s' (carries.first before')
      obtain ⟨d, relatedD, runD⟩ :=
        (continues a b' related').follows t c u run _ (carries.second before)
      refine ⟨d, relatedD, ?_⟩
      rw [runFrom_bind, run', ← Supply.after_after before before']
      exact runD

/-- What is related by a relation is related by each weaker one. -/
theorem Mirrors.mono {R' : α → β → Prop} {first : Build α} {second : Build β}
    (mirrors : Mirrors ρ R first second) (weaker : ∀ a b, R a b → R' a b) :
    Mirrors ρ R' first second where
  grows := mirrors.grows
  related := by
    intro s a t run
    obtain ⟨b, related⟩ := mirrors.related s a t run
    exact ⟨b, weaker a b related⟩
  follows := by
    intro s a t run s' carries
    obtain ⟨b, related, run'⟩ := mirrors.follows s a t run s' carries
    exact ⟨b, weaker a b related, run'⟩

/-- What a build gives is also known of what is mirrored. -/
theorem Mirrors.given {P : α → Prop} {first : Build α} {second : Build β}
    (mirrors : Mirrors ρ R first second) (gives : first.Gives P) :
    Mirrors ρ (fun a b => P a ∧ R a b) first second where
  grows := mirrors.grows
  related := by
    intro s a t run
    obtain ⟨b, related⟩ := mirrors.related s a t run
    exact ⟨b, gives s t a run, related⟩
  follows := by
    intro s a t run s' carries
    obtain ⟨b, related, run'⟩ := mirrors.follows s a t run s' carries
    exact ⟨b, ⟨gives s t a run, related⟩, run'⟩

/-- Reporting failures in another way leaves the successes. -/
theorem runFrom_reported {build : Build α} {report : Failure → Failure} {s t : Supply} {a : α} :
    (tryCatch build fun failure => throw (report failure)).runFrom s = (.ok a, t) ↔
      build.runFrom s = (.ok a, t) := by
  rw [runFrom_tryCatch]
  rcases build.runFrom s with ⟨failure | b, u⟩ <;> simp

/-- Failures may be reported from anywhere. -/
theorem Mirrors.reported {first : Build α} {second : Build β} (mirrors : Mirrors ρ R first second)
    (report report' : Failure → Failure) :
    Mirrors ρ R (tryCatch first fun failure => throw (report failure))
      (tryCatch second fun failure => throw (report' failure)) where
  grows := mirrors.grows.reported report
  related := fun s a t run => mirrors.related s a t (runFrom_reported.mp run)
  follows := by
    intro s a t run s' carries
    obtain ⟨b, related, run'⟩ := mirrors.follows s a t (runFrom_reported.mp run) s' carries
    exact ⟨b, related, runFrom_reported.mpr run'⟩

/-- Reports from inside activities do not change what is mirrored. -/
theorem Mirrors.within {first : Build α} {second : Build β} (mirrors : Mirrors ρ R first second)
    (context context' : Context) :
    Mirrors ρ R (first.within context) (second.within context') :=
  mirrors.reported (.within context) (.within context')

/-- Folds mirror each other if their steps do. -/
theorem mirrors_foldlM {f : γ → α → Build γ} {g : δ → β → Build δ} {items : List α}
    {items' : List β} (related : List.Forall₂ R items items')
    (step : ∀ c d, S c d → ∀ a b, R a b → Mirrors ρ S (f c a) (g d b)) {c : γ} {d : δ}
    (start : S c d) : Mirrors ρ S (items.foldlM f c) (items'.foldlM g d) := by
  induction related generalizing c d with
  | nil => exact mirrors_pure start
  | cons first _ ih =>
    rw [List.foldlM_cons, List.foldlM_cons]
    exact (step c d start _ _ first).bind fun c' d' next => ih next

/-- A new assumption is mirrored by a new assumption. -/
theorem mirrors_freshAssumption :
    Mirrors ρ (fun id id' => id' = ρ.assumption id) freshAssumption freshAssumption where
  grows := grows_freshAssumption
  related := fun s id t run => ⟨_, rfl⟩
  follows := by
    intro s id t run s' carries
    cases run
    refine ⟨_, rfl, ?_⟩
    have drawn := carries.assumptions (s.lastAssumption + 1) (Nat.lt_succ_self _) (Nat.le_refl _)
    rw [drawn]
    simp only [Supply.after, Nat.add_sub_cancel_left, Nat.sub_self, Nat.add_zero]
    rfl

/-- A choice about a name in a term is mirrored by the same choice about it in the renamed term. -/
theorem mirrors_choose (choosing : ρ.choosing) (name : String) (t : Term) :
    Mirrors ρ Eq (choose name t) (choose name (t.under ρ.types)) where
  grows := grows_choose name t
  related := fun s number u run => ⟨number, rfl⟩
  follows := by
    intro s number u run s' carries
    cases run
    have made := carries.choices choosing (s.lastChoice + 1) (Nat.lt_succ_self _) (Nat.le_refl _)
      name t
    rw [Nat.add_sub_cancel_left] at made
    refine ⟨_, made.symm, ?_⟩
    simp only [Supply.after, Nat.add_sub_cancel_left, Nat.sub_self, Nat.add_zero]
    rfl

end Build

/-! ## Types -/

/-- A plain type, and the renamed type. -/
structure Renaming.TakesType (ρ : Renaming) (a a' : Ty) : Prop where
  /-- The type is plain. -/
  plain : a.Plain
  /-- The second type is the renamed first one. -/
  renamed : a' = a.mapVars ρ.types

open Build

variable {ρ : Renaming}

/-- A new type variable is mirrored by a new type variable. -/
theorem Build.mirrors_freshType : Mirrors ρ ρ.TakesType freshType freshType where
  grows := grows_freshType
  related := by
    intro s a t run
    cases run
    exact ⟨_, trivial, rfl⟩
  follows := by
    intro s a t run s' carries
    rw [runFrom_freshType] at run
    cases run
    refine ⟨_, ⟨trivial, rfl⟩, ?_⟩
    have drawn := carries.types (s.lastType + 1) (Nat.lt_succ_self _) (Nat.le_refl _)
    rw [runFrom_freshType, Ty.renamed_var, drawn]
    simp [Supply.after]

/-- Fresh copies of type variables are mirrored by those that are drawn elsewhere. -/
theorem mirrors_copies (ids : List Int) :
    Mirrors ρ (fun fresh fresh' : List (Int × Ty) => ∀ id ∈ ids,
        ρ.TakesType ((fresh.lookup id).getD (.var id)) ((fresh'.lookup id).getD (.var id)))
      (ids.mapM fun id => do return (id, ← freshType))
      (ids.mapM fun id => do return (id, ← freshType)) := by
  induction ids with
  | nil => exact mirrors_pure (by simp)
  | cons first rest ih =>
    have head : Mirrors ρ (fun entry entry' : Int × Ty =>
        entry.1 = first ∧ entry'.1 = first ∧ ρ.TakesType entry.2 entry'.2)
        (do return (first, ← freshType)) (do return (first, ← freshType)) :=
      mirrors_freshType.bind fun a a' takes => mirrors_pure ⟨rfl, rfl, takes⟩
    rw [List.mapM_cons]
    refine head.bind ?_
    rintro ⟨key, a⟩ ⟨key', a'⟩ ⟨same, same', takes⟩
    refine ih.bind fun fresh fresh' later => mirrors_pure fun id member => ?_
    rw [List.lookup_cons, List.lookup_cons, show key = first from same,
      show key' = first from same']
    by_cases here : id = first
    · rw [beq_iff_eq.mpr here]
      exact takes
    · rw [beq_false_of_ne here]
      exact later id ((List.mem_cons.mp member).resolve_left here)

/-- Copies of a declared type are mirrored by copies of it. -/
theorem Ty.mirrors_instantiate {a : Ty} (plain : a.Plain) :
    Mirrors ρ ρ.TakesType a.instantiate a.instantiate := by
  refine (mirrors_copies a.vars.eraseDups).bind fun fresh fresh' copies => mirrors_pure ?_
  have copied : ∀ id ∈ a.vars, ρ.TakesType ((fresh.lookup id).getD (.var id))
      ((fresh'.lookup id).getD (.var id)) := fun id inside =>
    copies id (List.mem_eraseDups.mpr inside)
  refine ⟨plain.mapVars fun id inside => (copied id inside).plain, ?_⟩
  rw [Ty.mapVars_mapVars]
  exact Ty.mapVars_congr fun id inside => (copied id inside).renamed

/-! ## Building terms -/

namespace Renaming

variable {f f' x x' t t' v v' p p' : Term} {terms terms' : List Term}

/-- A renaming that takes a term takes its type. -/
theorem Takes.takesType (takes : ρ.Takes t t') : ρ.TakesType t.type t'.type :=
  ⟨takes.sound.plain.type_plain, takes.type⟩

/-- The renaming takes the default term to itself. -/
theorem takes_default : ρ.Takes default default := ⟨Term.sound_default, rfl⟩

/-- Variables of a plain name are taken if their types are. -/
theorem takes_var {name : String} {a a' : Ty} (named : isPlain name = true)
    (takes : ρ.TakesType a a') : ρ.Takes (.var ⟨name, a⟩) (.var ⟨name, a'⟩) := by
  rw [takes.renamed]
  exact ⟨Term.sound_var ⟨named, takes.plain⟩, rfl⟩

/-- Constants of a plain name are taken if their types are. -/
theorem takes_const {name : String} {a a' : Ty} (named : isPlain name = true)
    (takes : ρ.TakesType a a') : ρ.Takes (.const ⟨name, a⟩) (.const ⟨name, a'⟩) := by
  rw [takes.renamed]
  exact ⟨Term.sound_const named takes.plain, rfl⟩

/-- Narrowing is mirrored. -/
theorem Takes.narrow {a a' : Ty} (takes : ρ.Takes f f') (domain : ρ.TakesType a a') :
    Mirrors ρ ρ.Takes (f.narrow a) (f'.narrow a') := by
  rw [Term.narrow, Term.narrow, takes.type, Ty.renamed_isVar]
  split
  · refine mirrors_freshType.bind fun codomain codomain' fresh => ?_
    have equated : Follows ρ.TakesUnifier (Term.equate f.type (.arrow a codomain))
        (Term.equate (f.type.mapVars ρ.types) (.arrow a' codomain')) := by
      rw [domain.renamed, fresh.renamed]
      exact follows_equate takes.sound.plain.type_plain ⟨domain.plain, fresh.plain⟩
    exact (mirrors_lift equated).bind fun u u' unifiers => mirrors_pure (takes.applyTypes unifiers)
  · exact mirrors_pure takes

/-- A term whose constants and variables have plain names, and the renamed term. What is known of a
result before it is known to be proper. -/
def TakesShape (ρ : Renaming) (t t' : Term) : Prop := t.Labelled ∧ t' = t.under ρ.types

/-- If function and argument are taken, then so is the shape of the application. -/
theorem Takes.app (takes : ρ.Takes f f') (takesX : ρ.Takes x x') :
    ρ.TakesShape (.app f x) (.app f' x') :=
  ⟨⟨takes.sound.labelled, takesX.sound.labelled⟩, by
    rw [takes.renamed, takesX.renamed, Term.under_app]⟩

/-- Where proper terms are built, the shape is all that needs to be taken. -/
theorem mirrors_takes {first second : Build Term} (mirrors : Mirrors ρ ρ.TakesShape first second)
    (gives : first.Gives Term.Proper) : Mirrors ρ ρ.Takes first second :=
  (mirrors.given gives).mono fun _ _ holds => ⟨⟨holds.1, holds.2.1⟩, holds.2.2⟩

/-- Joining a function with its argument follows. -/
theorem Takes.join (takes : ρ.Takes f f') (takesX : ρ.Takes x x') :
    Follows ρ.TakesShape (Term.join f x) (Term.join f' x') := by
  refine (follows_jointTypes (.cons takes (.cons takesX .nil))).bind fun u u' unifiers => ?_
  have function := takes.applyTypes unifiers
  have argument := takesX.applyTypes unifiers
  simp only
  rw [function.type, argument.type]
  cases kind : (f.applyTypes u).type with
  | const name => exact follows_error _ _
  | var id => exact follows_error _ _
  | arrow domain codomain =>
    simp only [Ty.renamed_arrow, Ty.renamed_inj]
    split
    · exact follows_ok (function.app argument)
    · exact follows_error _ _

/-- Renamed terms are applied to each other as the terms are. -/
theorem Takes.mkApp (takes : ρ.Takes f f') (takesX : ρ.Takes x x') :
    Mirrors ρ ρ.Takes (f.mkApp x) (f'.mkApp x') := by
  refine mirrors_takes ?_ (takes.sound.toProper.mkApp takesX.sound.toProper)
  refine (takes.narrow takesX.takesType).bind fun g g' function => ?_
  rw [function.type]
  cases kind : g.type with
  | const name => exact mirrors_freshType.bind fun _ _ _ => mirrors_throw _ _
  | var id => exact mirrors_freshType.bind fun _ _ _ => mirrors_throw _ _
  | arrow domain codomain =>
    have plain : (Ty.arrow domain codomain).Plain := kind ▸ function.sound.plain.type_plain
    simp only [Ty.renamed_arrow]
    rw [takesX.type]
    refine (mirrors_lift (follows_equate plain.1 takesX.sound.plain.type_plain)).bind ?_
    exact fun u u' unifiers =>
      mirrors_lift ((function.applyTypes unifiers).join (takesX.applyTypes unifiers))

/-- Applying to several arguments is mirrored. -/
theorem Takes.mkApps (takes : ρ.Takes f f') (takesAll : List.Forall₂ ρ.Takes terms terms') :
    Mirrors ρ ρ.Takes (f.mkApps terms) (f'.mkApps terms') := by
  induction takesAll generalizing f f' with
  | nil => exact mirrors_pure takes
  | cons first _ ih => exact (takes.mkApp first).bind fun g g' applied => ih applied

/-- Renamed terms are abstracted over renamed variables as the terms are. -/
theorem Takes.mkLam (takes : ρ.Takes v v') (takesBody : ρ.Takes t t') :
    Follows ρ.Takes (Term.mkLam v t) (Term.mkLam v' t') := by
  intro abstraction built
  have proper := takes.sound.toProper.mkLam takesBody.sound.toProper built
  have shape : Follows ρ.TakesShape (Term.mkLam v t) (Term.mkLam v' t') := by
    rw [takes.renamed]
    cases v with
    | var s =>
      have takesS : ρ.Takes (.var s) (.var (s.under ρ.types)) := takes_of_sound ρ takes.sound
      refine (follows_jointTypes (.cons takesS (.cons takesBody .nil))).bind ?_
      intro u u' unifiers
      have binder := takesS.applyTypes unifiers
      have body := takesBody.applyTypes unifiers
      refine follows_ok ⟨⟨binder.sound.labelled, body.sound.labelled⟩, ?_⟩
      rw [body.renamed]
      exact congrArg (Term.lam · _) (Term.var.inj binder.renamed)
    | const s => exact follows_error _ _
    | app g y => exact follows_error _ _
    | lam w b => exact follows_error _ _
  obtain ⟨abstraction', built', labelled, renamed⟩ := shape abstraction built
  exact ⟨abstraction', built', ⟨proper, labelled⟩, renamed⟩

/-- Binding a variable is mirrored. -/
theorem Takes.mkBinder (takes : ρ.Takes f f') (takesV : ρ.Takes v v') (takesBody : ρ.Takes t t') :
    Mirrors ρ ρ.Takes (f.mkBinder v t) (f'.mkBinder v' t') :=
  (mirrors_lift (takesV.mkLam takesBody)).bind fun _ _ abstraction => takes.mkApp abstraction

/-! ## Substitution -/

/-- Terms that are taken are equal exactly when what they are taken to is. -/
theorem Takes.eq_iff (takes : ρ.Takes t t') (takesP : ρ.Takes p p') : t' = p' ↔ t = p := by
  rw [takes.renamed, takesP.renamed, Term.renamed_inj]

/-- Substituting in renamed terms does what substituting in the terms does. -/
theorem Takes.substituteWithin (depth : Nat) : ∀ {t t' value value' pattern pattern' : Term},
    ρ.Takes t t' → ρ.Takes value value' → ρ.Takes pattern pattern' →
      Mirrors ρ ρ.Takes (Term.substituteWithin depth t value pattern)
        (Term.substituteWithin depth t' value' pattern') := by
  induction depth with
  | zero => exact fun _ _ _ => mirrors_throw _ _
  | succ depth ih =>
    intro t t' value value' pattern pattern' takes takesV takesP
    cases t with
    | const s =>
      have here := takes.eq_iff takesP
      obtain rfl := takes.renamed
      rw [Term.under_const] at here takes ⊢
      rw [Term.substituteWithin, Term.substituteWithin]
      simp only [here]
      split
      · exact mirrors_pure takesV
      · exact mirrors_pure takes
    | var s =>
      have here := takes.eq_iff takesP
      obtain rfl := takes.renamed
      rw [Term.under_var] at here takes ⊢
      rw [Term.substituteWithin, Term.substituteWithin]
      simp only [here]
      split
      · exact mirrors_pure takesV
      · exact mirrors_pure takes
    | app f x =>
      obtain rfl := takes.renamed
      rw [Term.under_app, Term.substituteWithin, Term.substituteWithin]
      refine (ih (takes_of_sound ρ takes.sound.function) takesV takesP).bind fun g g' function => ?_
      refine (ih (takes_of_sound ρ takes.sound.argument) takesV takesP).bind fun y y' argument => ?_
      refine (function.mkApp argument).bind fun r r' result => ?_
      -- The application is reduced on both sides or on neither, since it has the same form.
      obtain rfl := result.renamed
      split
      next bound body value =>
        exact ih (takes_of_sound ρ result.sound.function.body)
          (takes_of_sound ρ result.sound.argument) (takes_of_sound ρ result.sound.function.bound)
      next other =>
        split
        next bound body value same =>
          exfalso
          cases r with
          | app g y =>
            cases g with
            | lam b c => exact other _ _ _ rfl
            | const _ => cases same
            | var _ => cases same
            | app _ _ => cases same
          | const _ => cases same
          | var _ => cases same
          | lam _ _ => cases same
        next => exact mirrors_pure result
    | lam bound body =>
      obtain rfl := takes.renamed
      have takesBody := takes_of_sound ρ takes.sound.body
      have takesBound := takes_of_sound ρ takes.sound.bound
      rw [Term.under_lam, Term.substituteWithin, Term.substituteWithin, takesP.renamed,
        takesP.sound.renamed_hasFree takes.sound.plain.1, takesV.renamed,
        takesV.sound.renamed_freeNames, Symbol.under_name]
      rw [← takesP.renamed, ← takesV.renamed]
      split
      · exact mirrors_pure (takes_of_sound ρ takes.sound)
      · split
        · have names : ((body.under ρ.types).atoms.map Term.name) = body.atoms.map Term.name := by
            rw [Term.renamed_atoms, List.map_map]
            exact List.map_congr_left fun _ _ => Term.renamed_name
          have fresh : ρ.Takes (.var (Term.renamedBound bound body value.freeNames))
              (.var (Term.renamedBound (bound.under ρ.types) (body.under ρ.types)
                value.freeNames)) := by
            rw [Term.renamedBound, Term.renamedBound, names]
            exact takes_var (Term.isPlain_freshName takes.sound.labelled.1 _)
              ⟨takes.sound.plain.1, rfl⟩
          refine (ih takesBody fresh takesBound).bind fun c c' renamed => ?_
          refine (ih renamed takesV takesP).bind fun d d' substituted => ?_
          exact mirrors_lift (fresh.mkLam substituted)
        · refine (ih takesBody takesV takesP).bind fun c c' substituted => ?_
          exact mirrors_lift (takesBound.mkLam substituted)

/-- Substituting is mirrored. -/
theorem Takes.substitute {value value' pattern pattern' : Term} (takes : ρ.Takes t t')
    (takesV : ρ.Takes value value') (takesP : ρ.Takes pattern pattern') :
    Mirrors ρ ρ.Takes (t.substitute value pattern) (t'.substitute value' pattern') := by
  have within : ∀ (t value pattern : Term) (s : Supply), (t.substitute value pattern).runFrom s =
      (Term.substituteWithin s.depth t value pattern).runFrom s := fun _ _ _ _ => rfl
  have mirrors := fun depth => takes.substituteWithin depth takesV takesP
  constructor
  · intro s
    rw [within]
    exact (mirrors s.depth).grows s
  · intro s r u run
    rw [within] at run
    exact (mirrors s.depth).related s r u run
  · intro s r u run s' carries
    rw [within] at run
    rw [within, carries.depth]
    exact (mirrors s.depth).follows s r u run s' carries

end Renaming

end Turnstile
