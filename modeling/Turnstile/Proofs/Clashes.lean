import Turnstile.Proofs.ReadingSafety

/-!
# Inference fails only where types clash

Whatever the terms, types and names are, and whether or not these can be told apart by their keys,
putting terms together has a result or ends in a clash of types. The result is what was put
together, with other types. The same goes for the variables and constants that texts spell.
-/

namespace Turnstile

/-! ## Results and clashes -/

/-- A result of some sort, or a clash of types. -/
inductive OrClash {α : Type} (P : α → Prop) : Except Failure α → Prop
  /-- A result. -/
  | result {a : α} (holds : P a) : OrClash P (.ok a)
  /-- A clash. -/
  | clash {failure : Failure} (clash : failure.IsClash) : OrClash P (.error failure)

section

variable {α β : Type} {P : α → Prop} {Q : β → Prop}

/-- If the first computation clashes at worst and so does the second on what the first one returns,
then so do both. -/
theorem OrClash.bind {result : Except Failure α} {next : α → Except Failure β}
    (first : OrClash P result) (second : ∀ a, P a → OrClash Q (next a)) :
    OrClash Q (result >>= next) := by
  cases first with
  | result holds => exact second _ holds
  | clash clash => exact .clash clash

/-- If each step clashes at worst, so do the steps for all items. -/
theorem orClash_foldlM {f : β → α → Except Failure β}
    (step : ∀ b a, OrClash (fun _ => True) (f b a)) (items : List α) (b : β) :
    OrClash (fun _ => True) (items.foldlM f b) := by
  induction items generalizing b with
  | nil => exact .result trivial
  | cons a rest ih =>
    rw [List.foldlM_cons]
    exact (step b a).bind fun b' _ => ih b'

namespace Build

/-- Every run has a result of some sort or ends in a clash of types. -/
def ClashesOr (P : α → Prop) (build : Build α) : Prop := ∀ s, OrClash P (build.runFrom s).1

/-- Returning a value does not fail. -/
theorem clashesOr_pure {a : α} (holds : P a) : ClashesOr P (pure a) := fun _ => .result holds

/-- A computation that clashes at worst does so as a build. -/
theorem clashesOr_lift {result : Except Failure α} (outcome : OrClash P result) :
    ClashesOr P (liftM result) := fun _ => outcome

/-- If the first build clashes at worst and so does the second, then so do both. -/
theorem ClashesOr.bind {build : Build α} {next : α → Build β} (first : ClashesOr P build)
    (second : ∀ a, P a → ClashesOr Q (next a)) : ClashesOr Q (build >>= next) := by
  intro s
  have outcome := first s
  rw [runFrom_bind]
  generalize build.runFrom s = run at outcome ⊢
  obtain ⟨result, s'⟩ := run
  cases outcome with
  | result holds => exact second _ holds s'
  | clash clash => exact .clash clash

/-- A clash that is reported from inside an activity is a clash. -/
theorem ClashesOr.within {build : Build α} (clashes : ClashesOr P build) (context : Context) :
    ClashesOr P (build.within context) := by
  intro s
  have outcome := clashes s
  rw [runFrom_within]
  generalize build.runFrom s = run at outcome ⊢
  obtain ⟨result, s'⟩ := run
  cases outcome with
  | result holds => exact .result holds
  | clash clash => exact .clash clash

/-- Drawing a type does not fail. -/
theorem clashesOr_freshType : ClashesOr (fun _ => True) freshType := fun _ => .result trivial

/-- If the build for each item clashes at worst, so does that for all items. -/
theorem clashesOr_mapM {f : α → Build β} (each : ∀ a, ClashesOr (fun _ => True) (f a))
    (items : List α) : ClashesOr (fun _ => True) (items.mapM f) := by
  induction items with
  | nil =>
    rw [List.mapM_nil]
    exact clashesOr_pure trivial
  | cons a rest ih =>
    rw [List.mapM_cons]
    exact (each a).bind fun _ _ => ih.bind fun _ _ => clashesOr_pure trivial

end Build

end

/-! ## Terms that are put together -/

namespace Term

open Build

/-- Mapping types to themselves changes nothing. -/
theorem mapTypes_id (t : Term) : t.mapTypes id = t := by
  induction t with
  | const s => rfl
  | var s => rfl
  | app f x ihF ihX => rw [mapTypes, ihF, ihX]
  | lam v body ih => rw [mapTypes, ih]; rfl

/-- Types may be mapped at once or one after the other. -/
theorem mapTypes_mapTypes (g h : Ty → Ty) (t : Term) :
    (t.mapTypes g).mapTypes h = t.mapTypes (h ∘ g) := by
  induction t with
  | const s => rfl
  | var s => rfl
  | app f x ihF ihX => rw [mapTypes, mapTypes, mapTypes, ihF, ihX]
  | lam v body ih => rw [mapTypes, mapTypes, mapTypes, ih]; rfl

/-- A term with other types. -/
def Retyped (t t' : Term) : Prop := ∃ g, t' = t.mapTypes g

/-- Every term is itself with other types. -/
theorem retyped_refl (t : Term) : t.Retyped t := ⟨id, t.mapTypes_id.symm⟩

/-- Applying a unifier changes types only. -/
theorem Retyped.applyTypes {t t' : Term} (retyped : t.Retyped t') (u : Unifier) :
    t.Retyped (t'.applyTypes u) := by
  obtain ⟨g, rfl⟩ := retyped
  exact ⟨u.apply ∘ g, mapTypes_mapTypes _ _ _⟩

/-- The application of two terms, with other types. -/
def AppliedTo (f x t : Term) : Prop := ∃ f' x', t = .app f' x' ∧ f.Retyped f' ∧ x.Retyped x'

/-- Joining the types of a name clashes at worst. -/
theorem joinName_clashes (occurrences : List Symbol) (u : Unifier) (name : String) :
    OrClash (fun _ => True) (joinName occurrences u name) := by
  rw [joinName]
  split
  · exact .result trivial
  · split
    · exact .result trivial
    · exact .clash ⟨_, rfl⟩

/-- Joining the types of all names clashes at worst. -/
theorem jointTypes_clashes (terms : List Term) : OrClash (fun _ => True) (jointTypes terms) :=
  orClash_foldlM (joinName_clashes _) _ _

/-- Making types equal clashes at worst. -/
theorem equate_clashes (a b : Ty) : OrClash (fun _ => True) (equate a b) := by
  rw [equate]
  split
  · exact .result trivial
  · exact .clash ⟨_, rfl⟩

/-- Narrowing a function changes types only and clashes at worst. -/
theorem narrow_clashes (f : Term) (domain : Ty) : (f.narrow domain).ClashesOr f.Retyped := by
  rw [narrow]
  split
  · refine clashesOr_freshType.bind fun codomain _ => ?_
    exact (clashesOr_lift (equate_clashes _ _)).bind fun u _ =>
      clashesOr_pure (f.retyped_refl.applyTypes u)
  · exact clashesOr_pure f.retyped_refl

/-- Joining a function with its argument clashes at worst. -/
theorem join_clashes {f x g y : Term} (function : f.Retyped g) (argument : x.Retyped y) :
    OrClash (AppliedTo f x) (join g y) := by
  rw [join]
  refine (jointTypes_clashes _).bind fun u _ => ?_
  dsimp only
  split
  · split
    · exact .result ⟨_, _, rfl, function.applyTypes u, argument.applyTypes u⟩
    · exact .clash ⟨_, rfl⟩
  · exact .clash ⟨_, rfl⟩

/-- Applying one term to another gives their application, with other types, or types clash. -/
theorem mkApp_clashes (f x : Term) : (f.mkApp x).ClashesOr (AppliedTo f x) := by
  rw [mkApp]
  refine (narrow_clashes f _).bind fun g function => ?_
  split
  · exact (clashesOr_lift (equate_clashes _ _)).bind fun u _ =>
      clashesOr_lift (join_clashes (function.applyTypes u) (x.retyped_refl.applyTypes u))
  · exact clashesOr_freshType.bind fun codomain _ => fun _ => .clash ⟨_, rfl⟩

end Term

/-! ## Variables and constants of a text -/

namespace Typing

variable {α β : Type} {P : α → Prop} {Q : β → Prop}

/-- Within a text, every run has a result of some sort or ends in a clash of types. -/
def ClashesOr (P : α → Prop) (typing : Typing α) : Prop :=
  ∀ known, Build.ClashesOr (fun result => P result.1) (typing.run known)

/-- Returning a value does not fail. -/
theorem clashesOr_pure {a : α} (holds : P a) : ClashesOr P (pure a) := fun _ =>
  Build.clashesOr_pure holds

/-- If the first typing clashes at worst and so does the second, then so do both. -/
theorem ClashesOr.bind {typing : Typing α} {next : α → Typing β} (first : ClashesOr P typing)
    (second : ∀ a, P a → ClashesOr Q (next a)) : ClashesOr Q (typing >>= next) := by
  intro known
  rw [StateT.run_bind]
  exact (first known).bind fun result holds => second result.1 holds result.2

/-- A typing that returns values with a property returns values with each weaker one. -/
theorem ClashesOr.mono {typing : Typing α} {P' : α → Prop} (clashes : ClashesOr P typing)
    (weaker : ∀ a, P a → P' a) : ClashesOr P' typing := by
  intro known s
  have outcome := clashes known s
  generalize ((typing.run known).runFrom s).1 = result at outcome ⊢
  cases outcome with
  | result holds => exact .result (weaker _ holds)
  | clash clash => exact .clash clash

/-- A build that clashes at worst does so as a typing. -/
theorem clashesOr_lift {build : Build α} (clashes : build.ClashesOr P) :
    ClashesOr P (liftM build) := fun _ =>
  Build.ClashesOr.bind clashes fun _ holds => Build.clashesOr_pure holds

/-- Building a part at a position clashes at worst if the build does. -/
theorem clashesOr_build {position : Position} {part : Build Term} {P : Term → Prop}
    (clashes : part.ClashesOr P) : ClashesOr P (Typing.build position part) :=
  clashesOr_lift (clashes.within _)

/-- A schematic name is resolved without failure. -/
theorem schematic_clashes (name : String) : ClashesOr (fun _ => True) (schematic name) := by
  refine ClashesOr.bind (P := fun _ => True) (fun known s => .result trivial) fun known _ => ?_
  split
  · exact clashesOr_pure trivial
  · refine (clashesOr_lift Build.clashesOr_freshType).bind fun t _ => ?_
    exact ClashesOr.bind (P := fun _ => True) (fun known s => .result trivial) fun _ _ =>
      clashesOr_pure trivial

/-- A text's term is inferred unless types clash in it. -/
theorem ClashesOr.within {typing : Typing α} (clashes : ClashesOr P typing) :
    typing.within.ClashesOr P := by
  rw [within_eq]
  exact Build.ClashesOr.bind (clashes []) fun _ holds => Build.clashesOr_pure holds

end Typing

/-- Resolving a type clashes at worst. -/
theorem TypeExpr.resolve_clashes : ∀ t : TypeExpr, t.resolve.ClashesOr fun _ => True
  | known _ => Typing.clashesOr_pure trivial
  | schematic name => Typing.schematic_clashes name
  | arrow domain codomain => by
    rw [resolve]
    exact domain.resolve_clashes.bind fun _ _ => codomain.resolve_clashes.bind fun _ _ =>
      Typing.clashesOr_pure trivial

/-- A name that is read becomes a variable of that name. -/
theorem NameExpr.resolve_clashes (x : NameExpr) :
    x.resolve.ClashesOr fun t => ∃ s, t = .var s ∧ s.name = x.name := by
  rw [resolve]
  split
  · exact (TypeExpr.resolve_clashes _).bind fun _ _ => Typing.clashesOr_pure ⟨_, rfl, rfl⟩
  · exact (Typing.clashesOr_lift Build.clashesOr_freshType).bind fun _ _ =>
      Typing.clashesOr_pure ⟨_, rfl, rfl⟩

/-- An occurrence of a constant is a constant of its name. -/
theorem Symbol.occurrence_clashes (constant : Symbol) :
    constant.occurrence.ClashesOr fun t => ∃ c, t = .const c ∧ c.name = constant.name := by
  have types : constant.type.instantiate.ClashesOr fun _ => True := by
    rw [Ty.instantiate]
    refine (Build.clashesOr_mapM (fun id => ?_) _).bind fun _ _ => Build.clashesOr_pure trivial
    exact Build.clashesOr_freshType.bind fun _ _ => Build.clashesOr_pure trivial
  have copies : constant.instantiate.ClashesOr fun c => c.name = constant.name :=
    types.bind fun _ _ => Build.clashesOr_pure rfl
  exact copies.bind fun c name => Build.clashesOr_pure ⟨c, rfl, name⟩

end Turnstile
