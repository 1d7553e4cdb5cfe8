import Turnstile.Environment.Basic

/-!
# Runs of builds

What a build returns when it is run from a supply. A build gives values of some sort when every
run of it that succeeds returns such a value; this is what the safety of terms is stated with.
The equations of `Build.runFrom` say how runs are put together, for statements that also need
the supply. The last of the builds here is that of an environment, which is taken apart into the
builds that it consists of.
-/

namespace Turnstile

/-- A result that can be had as an option is a success. -/
theorem Except.ok_of_toOption {ε α : Type} {result : Except ε α} {a : α}
    (found : result.toOption = some a) : result = .ok a := by
  cases result with
  | ok b => rw [Option.some.inj found]
  | error failure => cases found

namespace Build

variable {α β : Type}

/-! ## Equations of runs -/

/-- A value is returned without drawing. -/
@[simp] theorem runFrom_pure (a : α) (s : Supply) :
    (pure a : Build α).runFrom s = (.ok a, s) := rfl

/-- A failure is reported without drawing. -/
@[simp] theorem runFrom_throw (failure : Failure) (s : Supply) :
    (throw failure : Build α).runFrom s = (.error failure, s) := rfl

/-- A sequence of two builds runs the second from where the first ended. -/
theorem runFrom_bind (build : Build α) (next : α → Build β) (s : Supply) :
    (build >>= next).runFrom s = match build.runFrom s with
      | (.ok a, s') => (next a).runFrom s'
      | (.error failure, s') => (.error failure, s') := by
  rw [runFrom, ExceptT.run_bind, StateT.run_bind]
  rcases run : build.runFrom s with ⟨_ | a, s'⟩ <;> rw [runFrom] at run <;> rw [run] <;> rfl

/-- A computation that does not build draws nothing. -/
@[simp] theorem runFrom_lift (result : Except Failure α) (s : Supply) :
    (liftM result : Build α).runFrom s = (result, s) := rfl

/-- The supply can be looked at. -/
@[simp] theorem runFrom_get (s : Supply) : (get : Build Supply).runFrom s = (.ok s, s) := rfl

/-- A fresh type is the next variable. -/
@[simp] theorem runFrom_freshType (s : Supply) :
    freshType.runFrom s =
      (.ok (.var (s.lastType + 1 : Nat)), { s with lastType := s.lastType + 1 }) := rfl

/-- A handler runs from the supply that the failed build left. -/
theorem runFrom_tryCatch (build : Build α) (handle : Failure → Build α) (s : Supply) :
    (tryCatch build handle).runFrom s = match build.runFrom s with
      | (.ok a, s') => (.ok a, s')
      | (.error failure, s') => (handle failure).runFrom s' := by
  rw [runFrom]
  simp only [MonadExcept.tryCatch, tryCatchThe, MonadExceptOf.tryCatch, ExceptT.tryCatch,
    ExceptT.run_mk, StateT.run_bind]
  rcases run : build.runFrom s with ⟨_ | a, s'⟩ <;> change StateT.run build s = _ at run <;>
    rw [run] <;> rfl

/-- A failure inside an activity is reported from there. -/
theorem runFrom_within (context : Context) (build : Build α) (s : Supply) :
    (build.within context).runFrom s = match build.runFrom s with
      | (.ok a, s') => (.ok a, s')
      | (.error failure, s') => (.error (.within context failure), s') := by
  rw [within, runFrom_tryCatch]
  rfl

/-- An attempt always succeeds, with the outcome as its value. -/
theorem runFrom_attempt (build : Build α) (s : Supply) :
    build.attempt.runFrom s = match build.runFrom s with
      | (result, s') => (.ok result, s') := by
  rw [attempt, runFrom_tryCatch]
  simp only [runFrom_bind]
  rcases build.runFrom s with ⟨_ | a, s'⟩ <;> rfl

/-- What an attempt gives is the result or the failure of the build. -/
theorem attempt_ok {build : Build α} {s s' : Supply} {result : Except Failure α}
    (run : build.attempt.runFrom s = (.ok result, s')) : build.runFrom s = (result, s') := by
  rw [runFrom_attempt] at run
  cases run
  rfl

/-- A sequence that succeeded went through a result of its first build. -/
theorem bind_ok {build : Build α} {next : α → Build β} {s s' : Supply} {b : β}
    (run : (build >>= next).runFrom s = (.ok b, s')) :
    ∃ a s₁, build.runFrom s = (.ok a, s₁) ∧ (next a).runFrom s₁ = (.ok b, s') := by
  rw [runFrom_bind] at run
  rcases ran : build.runFrom s with ⟨failure | a, s₁⟩ <;> rw [ran] at run
  · cases run
  · exact ⟨a, s₁, rfl, run⟩

/-- After a first build that succeeds the second one runs. -/
theorem runFrom_bind_ok {build : Build α} {next : α → Build β} {s s' : Supply} {a : α}
    (run : build.runFrom s = (.ok a, s')) :
    (build >>= next).runFrom s = (next a).runFrom s' := by
  rw [runFrom_bind, run]

/-- A sequence fails where its first build does. -/
theorem runFrom_bind_error {build : Build α} {next : α → Build β} {s : Supply} {failure : Failure}
    (run : (build.runFrom s).1 = .error failure) :
    ((build >>= next).runFrom s).1 = .error failure := by
  rw [runFrom_bind]
  rcases ran : build.runFrom s with ⟨failed | a, s'⟩ <;> rw [ran] at run <;> cases run
  rfl

/-- A computation without supply that succeeded leaves the supply as it was. -/
theorem lift_ok {result : Except Failure α} {s s' : Supply} {a : α}
    (run : (liftM result : Build α).runFrom s = (.ok a, s')) : result = .ok a ∧ s' = s := by
  rw [runFrom_lift] at run
  exact ⟨(Prod.ext_iff.mp run).1, (Prod.ext_iff.mp run).2.symm⟩

/-- A build of which something is known about the result has one. -/
theorem exists_of_map {build : Build α} {s : Supply} {f : α → β} {b : β}
    (found : (build.runFrom s).1.toOption.map f = some b) :
    ∃ a s', build.runFrom s = (.ok a, s') ∧ f a = b := by
  obtain ⟨a, is, same⟩ := Option.map_eq_some_iff.mp found
  exact ⟨a, _, Prod.ext (Except.ok_of_toOption is) rfl, same⟩

/-- A run of which it is known that it succeeds. -/
theorem exists_of_isSome {build : Build α} {s : Supply}
    (found : (build.runFrom s).1.toOption.isSome = true) :
    ∃ a s', build.runFrom s = (.ok a, s') := by
  rcases run : build.runFrom s with ⟨failure | a, s'⟩
  · rw [run] at found
    cases found
  · exact ⟨a, s', rfl⟩

/-! ## What builds give -/

/-- Every run that succeeds returns a value of some sort. -/
def Gives (P : α → Prop) (build : Build α) : Prop :=
  ∀ (s s' : Supply) (a : α), build.runFrom s = (.ok a, s') → P a

variable {P : α → Prop} {Q : β → Prop}

/-- A value that has a property is returned. -/
theorem gives_pure {a : α} (holds : P a) : Gives P (pure a) := by
  rintro s s' b run
  cases run
  exact holds

/-- A build that fails gives nothing, so that what it gives has every property. -/
theorem gives_throw (failure : Failure) : Gives P (throw failure) := by
  rintro s s' b run
  cases run

/-- A computation gives what it returns. -/
theorem gives_lift {result : Except Failure α} (holds : ∀ a, result = .ok a → P a) :
    Gives P (liftM result) := by
  intro s s' a run
  exact holds a (Prod.ext_iff.mp run).1

/-- What a sequence of two builds gives is what the second gives after the first. -/
theorem Gives.bind {build : Build α} {next : α → Build β} (first : Gives P build)
    (second : ∀ a, P a → Gives Q (next a)) : Gives Q (build >>= next) := by
  intro s s' b run
  rw [runFrom_bind] at run
  rcases ran : build.runFrom s with ⟨failure | a, s₁⟩ <;> rw [ran] at run
  · cases run
  · exact second a (first _ _ _ ran) _ _ _ run

/-- A build of which nothing is known. -/
theorem gives_any (build : Build α) : Gives (fun _ => True) build := fun _ _ _ _ => trivial

/-- What a build gives has every weaker property. -/
theorem Gives.mono {build : Build α} {P' : α → Prop} (gives : Gives P build)
    (weaker : ∀ a, P a → P' a) : Gives P' build := fun _ _ _ run => weaker _ (gives _ _ _ run)

/-- A result that was found is one that is given. -/
theorem Gives.of_toOption {build : Build α} {s : Supply} {a : α} (gives : Gives P build)
    (found : (build.runFrom s).1.toOption = some a) : P a := by
  rcases run : build.runFrom s with ⟨failure | b, s'⟩ <;> rw [run] at found
  · cases found
  · cases found
    exact gives s s' a run

/-- If a build and its handler give values with a property, so do both together. -/
theorem Gives.tryCatch {build : Build α} {handle : Failure → Build α} (gives : Gives P build)
    (handled : ∀ failure, Gives P (handle failure)) : Gives P (tryCatch build handle) := by
  intro s s' a run
  rw [runFrom_tryCatch] at run
  rcases ran : build.runFrom s with ⟨failure | b, s₁⟩ <;> rw [ran] at run
  · exact handled failure _ _ _ run
  · cases run
    exact gives _ _ _ ran

/-- Failures may be reported from anywhere without changing what is given. -/
theorem Gives.reported {build : Build α} (gives : Gives P build)
    (report : Failure → Failure) :
    Gives P (MonadExcept.tryCatch build fun failure => throw (report failure)) :=
  gives.tryCatch fun _ => gives_throw _

/-- Reports from inside an activity do not change what is given. -/
theorem Gives.within {build : Build α} (gives : Gives P build) (context : Context) :
    Gives P (build.within context) := gives.reported (.within context)

/-- Builds for the elements of a list give a list. -/
theorem gives_mapM {f : α → Build β} {items : List α} (each : ∀ a ∈ items, Gives Q (f a)) :
    Gives (fun results => ∀ b ∈ results, Q b) (items.mapM f) := by
  induction items with
  | nil =>
    rw [List.mapM_nil]
    exact gives_pure (by simp)
  | cons a rest ih =>
    rw [List.mapM_cons]
    refine (each a (by simp)).bind fun b holds => ?_
    refine (ih fun a' inside => each a' (by simp [inside])).bind fun bs hold => ?_
    exact gives_pure (by simpa using ⟨holds, hold⟩)

/-- A property of the state that every step of a fold keeps holds of its result. -/
theorem gives_foldlM {f : β → α → Build β} {items : List α}
    (step : ∀ b, Q b → ∀ a ∈ items, Gives Q (f b a)) :
    ∀ b, Q b → Gives Q (items.foldlM f b) := by
  induction items with
  | nil =>
    intro b holds
    exact gives_pure holds
  | cons a rest ih =>
    intro b holds
    rw [List.foldlM_cons]
    refine (step b holds a (by simp)).bind fun b' holds' => ?_
    exact ih (fun b holds a' inside => step b holds a' (by simp [inside])) b' holds'

/-! ## Builds that may nest deeper -/

/-- The second build does what the first one does, unless the first one nests too deeply. -/
def Outlasts (build deeper : Build α) : Prop :=
  ∀ s, (build.runFrom s).1 ≠ .error .tooDeep → deeper.runFrom s = build.runFrom s

/-- Every build outlasts itself. -/
theorem Outlasts.refl (build : Build α) : Outlasts build build := fun _ _ => rfl

/-- Builds that are done one after the other are outlasted part by part. -/
theorem Outlasts.bind {build deeper : Build α} {next further : α → Build β}
    (first : Outlasts build deeper) (second : ∀ a, Outlasts (next a) (further a)) :
    Outlasts (build >>= next) (deeper >>= further) := by
  intro s ended
  have done : (build.runFrom s).1 ≠ .error .tooDeep := fun deep => ended (runFrom_bind_error deep)
  rw [runFrom_bind] at ended
  rw [runFrom_bind, runFrom_bind, first s done]
  rcases run : build.runFrom s with ⟨failure | a, s'⟩
  · rfl
  · rw [run] at ended
    exact second a s' ended

end Build

/-! ## Loading -/

namespace Declarations

open Build

variable {d : Declarations} {s s' : Supply} {env : Environment}

/-- Loading that succeeded read the constants, made the words and their printer of them, and read
the definitions, the postulates and the shapes with these words. -/
theorem load_stages (loaded : d.load.runFrom s = (.ok env, s')) :
    ∃ types constants words s₁ s₂ s₃ s₄, Vocabulary.ofWords d.typeWords = .ok types ∧
      (d.constants.mapM (readConstant types)).runFrom s = (.ok constants, s₁) ∧
      d.words constants = .ok words ∧ Vocabulary.ofWords words = .ok env.vocabulary ∧
      (Printer.ofVocabulary env.vocabulary).runFrom s₁ = (.ok env.printer, s₂) ∧
      (d.definitions.mapM (readDefinition env.vocabulary)).runFrom s₂ =
        (.ok env.theory.definitions, s₃) ∧
      (d.postulates.mapM (readPostulate env.vocabulary)).runFrom s₃ =
        (.ok env.theory.postulates, s₄) ∧
      (Theory.shapesOf env.vocabulary).runFrom s₄ = (.ok env.theory.shapes, s') ∧
      env.constants = firstDeclared constants := by
  rw [load] at loaded
  obtain ⟨types, _, madeTypes, loaded⟩ := bind_ok loaded
  obtain ⟨constants, s₁, read, loaded⟩ := bind_ok loaded
  obtain ⟨words, _, madeWords, loaded⟩ := bind_ok loaded
  obtain ⟨v, _, made, loaded⟩ := bind_ok loaded
  obtain ⟨printer, s₂, printed, loaded⟩ := bind_ok loaded
  obtain ⟨definitions, s₃, defined, loaded⟩ := bind_ok loaded
  obtain ⟨postulates, s₄, postulated, loaded⟩ := bind_ok loaded
  obtain ⟨shapes, _, shaped, loaded⟩ := bind_ok loaded
  cases loaded
  obtain ⟨types_eq, rfl⟩ := lift_ok madeTypes
  obtain ⟨words_eq, rfl⟩ := lift_ok madeWords
  obtain ⟨v_eq, rfl⟩ := lift_ok made
  exact ⟨types, constants, words, _, s₂, s₃, s₄, types_eq, read, words_eq, v_eq, printed, defined,
    postulated, shaped, rfl⟩

/-- What is loaded is of the theories that are named and has their rules. -/
theorem load_standard (d : Declarations) :
    d.load.Gives fun env => env.theories = d.theories ∧ env.rules = Rules.standard d.theories := by
  rw [load]
  refine (gives_any _).bind fun _ _ => (gives_any _).bind fun _ _ => ?_
  refine (gives_any _).bind fun _ _ => (gives_any _).bind fun _ _ => ?_
  refine (gives_any _).bind fun _ _ => (gives_any _).bind fun _ _ => ?_
  refine (gives_any _).bind fun _ _ => (gives_any _).bind fun _ _ => gives_pure ⟨rfl, ?_⟩
  dsimp only

end Declarations

end Turnstile
