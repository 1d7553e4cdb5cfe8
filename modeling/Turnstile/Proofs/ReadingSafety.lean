import Turnstile.Proofs.TypeSafety

/-!
# What is read is proper

Terms that a vocabulary's texts spell are proper if the vocabulary's own types have plain names:
types and constants come from the vocabulary, and the terms are put together by inference. The same
goes for sequents.
-/

namespace Turnstile

open Build

/-- The types that texts can name, and those of the constants, are made of plain names. -/
structure Vocabulary.Plain (v : Vocabulary) : Prop where
  /-- The types with plain names. -/
  types : ∀ name t, isPlain name = true → v.type? name = some t → t.Plain
  /-- The types of the constants. -/
  constants : ∀ c, v.Declares c → c.type.Plain

/-- A vocabulary of plain types in which the types that texts can name have no variables. -/
structure Vocabulary.Regular (v : Vocabulary) : Prop extends v.Plain where
  /-- Written types have no variables. -/
  ground : ∀ name t, isPlain name = true → v.type? name = some t → t.vars = []

/-! ## Inference within a text -/

/-- A fresh type is plain. -/
theorem freshType_gives : freshType.Gives Ty.Plain := by
  intro s s' t run
  cases run
  trivial

namespace Typing

variable {α β : Type} {P : α → Prop} {Q : β → Prop}

/-- The types of schematic names are plain. -/
def Known (known : Schematics) : Prop := ∀ entry ∈ known, entry.2.Plain

/-- Every run that succeeds returns a value of some sort, and leaves plain types. -/
def Gives (P : α → Prop) (typing : Typing α) : Prop :=
  ∀ known, Known known → Build.Gives (fun result => P result.1 ∧ Known result.2) (typing.run known)

/-- A value that has a property is returned. -/
theorem gives_pure {a : α} (holds : P a) : Typing.Gives P (pure a) := fun _ plain =>
  Build.gives_pure ⟨holds, plain⟩

/-- If the first part gives what the second one needs, then both give what the second one gives. -/
theorem Gives.bind {typing : Typing α} {next : α → Typing β} (first : Typing.Gives P typing)
    (second : ∀ a, P a → Typing.Gives Q (next a)) : Typing.Gives Q (typing >>= next) := by
  intro known plain
  rw [StateT.run_bind]
  exact (first known plain).bind fun result holds => second result.1 holds.1 result.2 holds.2

/-- What a build gives, it gives within a text. -/
theorem gives_lift {build : Build α} (gives : build.Gives P) :
    Typing.Gives P (liftM build) := fun _ plain =>
  Build.Gives.bind gives fun _ holds => Build.gives_pure ⟨holds, plain⟩

/-- What is built as a part has what the build gives. -/
theorem gives_build {position : Position} {part : Build Term} {P : Term → Prop}
    (gives : part.Gives P) : Typing.Gives P (Typing.build position part) :=
  gives_lift (gives.within _)

/-- The schematic names that are known have plain types. -/
theorem gives_get : Typing.Gives Known get := fun _ plain => Build.gives_pure ⟨plain, plain⟩

/-- A schematic name is given a plain type. -/
theorem schematic_gives (name : String) : Typing.Gives Ty.Plain (Typing.schematic name) := by
  refine gives_get.bind fun known plain => ?_
  split
  next t found =>
    obtain ⟨before, after, rfl, _⟩ := List.lookup_eq_some_iff.mp found
    exact gives_pure (plain (name, t) (by simp))
  next =>
    refine (gives_lift freshType_gives).bind fun t plainT => ?_
    intro known' plain'
    refine Build.gives_pure ⟨plainT, ?_⟩
    intro entry member
    rcases List.mem_cons.mp member with rfl | old
    · exact plainT
    · exact plain' entry old

end Typing

section

variable {v : Vocabulary} {offers : Prop}

/-- The types that a text spells are plain. -/
theorem TypeExpr.resolve_gives (plain : v.Plain) :
    ∀ {t : TypeExpr}, t.From v ⟨fun name => isPlain name = true, offers⟩ →
      Typing.Gives Ty.Plain t.resolve
  | .known t, ⟨name, spelled, found⟩ => Typing.gives_pure (plain.types name t spelled found)
  | .schematic name, _ => Typing.schematic_gives name
  | .arrow _ _, ⟨fromDomain, fromCodomain⟩ => by
    refine (TypeExpr.resolve_gives plain fromDomain).bind fun domain plainDomain => ?_
    refine (TypeExpr.resolve_gives plain fromCodomain).bind fun codomain plainCodomain => ?_
    exact Typing.gives_pure ⟨plainDomain, plainCodomain⟩

/-- Variables have plain types. -/
theorem NameExpr.resolve_gives (plain : v.Plain) {x : NameExpr}
    (made : x.From v ⟨fun name => isPlain name = true, offers⟩) :
    Typing.Gives Term.Proper x.resolve := by
  rw [NameExpr.resolve]
  split
  next t written =>
    refine (TypeExpr.resolve_gives plain (made.declared t written)).bind fun t' plainT => ?_
    exact Typing.gives_pure (Term.proper_var plainT)
  next =>
    refine (Typing.gives_lift freshType_gives).bind fun t plainT => ?_
    exact Typing.gives_pure (Term.proper_var plainT)

/-- Copies of a plain type are plain. -/
theorem Ty.instantiate_gives {t : Ty} (plain : t.Plain) : t.instantiate.Gives Ty.Plain := by
  have each : ∀ id ∈ t.vars.eraseDups,
      Build.Gives (fun entry : Int × Ty => entry.2.Plain)
        (do return (id, ← freshType)) := fun id _ =>
    freshType_gives.bind fun fresh plainF => gives_pure plainF
  refine (gives_mapM each).bind fun fresh plains => gives_pure ?_
  refine plain.mapVars fun id _ => ?_
  cases found : fresh.lookup id with
  | none => trivial
  | some t' =>
    obtain ⟨before, after, rfl, _⟩ := List.lookup_eq_some_iff.mp found
    exact plains (id, t') (by simp)

/-- An occurrence of a constant of a plain type is a proper term. -/
theorem Symbol.occurrence_gives {constant : Symbol} (plain : constant.type.Plain) :
    constant.occurrence.Gives Term.Proper := by
  refine Build.Gives.bind (P := fun c : Symbol => c.type.Plain) ?_ fun c plainC =>
    gives_pure (Term.proper_const plainC)
  exact (Ty.instantiate_gives plain).bind fun t plainT => gives_pure plainT

mutual

/-- The term of a formula is proper. -/
theorem Expr.infer_gives (plain : v.Plain) :
    ∀ {e : Expr}, e.From v ⟨fun name => isPlain name = true, offers⟩ →
      Typing.Gives Term.Proper e.infer
  | .var x, made => by
    rw [Expr.infer]
    exact NameExpr.resolve_gives plain made
  | .const constant, declared => by
    rw [Expr.infer]
    exact Typing.gives_lift (Symbol.occurrence_gives (plain.constants _ declared))
  | .apply _ _ _, ⟨fromFunction, fromArguments⟩ => by
    rw [Expr.infer]
    refine (Expr.infer_gives plain fromFunction).bind fun f proper => ?_
    refine (Expr.inferAll_gives plain fromArguments).bind fun xs propers => ?_
    exact Typing.gives_build (proper.mkApps propers)
  | .unary _ _ _, ⟨declared, fromOperand⟩ => by
    rw [Expr.infer]
    refine (Expr.infer_gives plain fromOperand).bind fun x properX => ?_
    refine (Typing.gives_lift (Symbol.occurrence_gives (plain.constants _ declared))).bind
      fun op proper => ?_
    exact Typing.gives_build (proper.mkApp properX)
  | .binary _ _ _ _, ⟨declared, fromLeft, fromRight⟩ => by
    rw [Expr.infer]
    refine (Expr.infer_gives plain fromLeft).bind fun a properA => ?_
    refine (Expr.infer_gives plain fromRight).bind fun b properB => ?_
    refine (Typing.gives_lift (Symbol.occurrence_gives (plain.constants _ declared))).bind
      fun op proper => ?_
    exact Typing.gives_build (proper.mkApps (by simp [properA, properB]))
  | .bind _ _ _ _, ⟨declared, fromBound, fromBody⟩ => by
    rw [Expr.infer]
    refine (NameExpr.resolve_gives plain fromBound).bind fun x properX => ?_
    refine (Expr.infer_gives plain fromBody).bind fun body properB => ?_
    refine (Typing.gives_lift (Symbol.occurrence_gives (plain.constants _ declared))).bind
      fun op proper => ?_
    exact Typing.gives_build (proper.mkBinder properX properB)
  | .lambda _ _ _, ⟨fromBound, fromBody⟩ => by
    rw [Expr.infer]
    refine (NameExpr.resolve_gives plain fromBound).bind fun x properX => ?_
    refine (Expr.infer_gives plain fromBody).bind fun body properB => ?_
    exact Typing.gives_build (gives_lift fun t built => properX.mkLam properB built)
  | .setOf _ _ _ _ _, ⟨declared, fromBound, fromSet, fromBody⟩ => by
    rw [Expr.infer]
    refine (NameExpr.resolve_gives plain fromBound).bind fun x properX => ?_
    refine (Expr.infer_gives plain fromSet).bind fun set properS => ?_
    refine (Expr.infer_gives plain fromBody).bind fun body properB => ?_
    refine (Typing.gives_build (gives_lift fun t built => properX.mkLam properB built)).bind
      fun abstraction properA => ?_
    refine (Typing.gives_lift (Symbol.occurrence_gives (plain.constants _ declared))).bind
      fun op proper => ?_
    exact Typing.gives_build (proper.mkApps (by simp [properS, properA]))

/-- The terms of several formulas are proper. -/
theorem Expr.inferAll_gives (plain : v.Plain) :
    ∀ {es : List Expr}, Expr.AllFrom v ⟨fun name => isPlain name = true, offers⟩ es →
      Typing.Gives (fun ts => ∀ t ∈ ts, t.Proper) (Expr.inferAll es)
  | [], _ => by
    rw [Expr.inferAll]
    exact Typing.gives_pure (by simp)
  | _ :: _, ⟨fromFirst, fromRest⟩ => by
    rw [Expr.inferAll]
    refine (Expr.infer_gives plain fromFirst).bind fun t proper => ?_
    refine (Expr.inferAll_gives plain fromRest).bind fun ts propers => ?_
    exact Typing.gives_pure (by simpa using ⟨proper, propers⟩)

end

/-- An inference is run with no names known at first, and only its result counts. -/
theorem Typing.within_eq {α : Type} (typing : Typing α) :
    typing.within = typing.run [] >>= fun result => pure result.1 := map_eq_pure_bind _ _

/-- An inference gives as a build what it gives. -/
theorem Typing.within_gives {α : Type} {P : α → Prop} {typing : Typing α}
    (gives : Typing.Gives P typing) : typing.within.Gives P := by
  have known : Typing.Known [] := by simp [Typing.Known]
  rw [Typing.within_eq]
  exact (gives [] known).bind fun _ holds => Build.gives_pure holds.1

/-- What has been read is typed; after a fault there is no result. -/
theorem Vocabulary.settle_gives {α β : Type} {reading : Except Formula.Stop α}
    {infer : α → Typing β} {P : β → Prop}
    (gives : ∀ tree, reading = .ok tree → Typing.Gives P (infer tree)) :
    (Vocabulary.settle reading infer).Gives P := by
  cases reading with
  | ok tree => exact Typing.within_gives (gives tree rfl)
  | error stop => exact (gives_any _).bind fun _ _ => gives_throw _

/-- Whatever text a term is read from, it is proper. -/
theorem Vocabulary.Plain.parse (plain : v.Plain) (text : String) :
    (v.parse text).Gives Term.Proper := by
  refine (gives_lift fun tokens read => Formula.tokens_spelled read).bind fun tokens spelled => ?_
  refine Vocabulary.settle_gives fun e read => ?_
  exact Expr.infer_gives plain (Formula.wholeTerm_from spelled read)

/-- Whatever text a sequent is read from, it is proper. -/
theorem Vocabulary.Plain.parseSequent (plain : v.Plain) (text : String) :
    (v.parseSequent text).Gives Sequent.Proper := by
  refine (gives_lift fun tokens read => Formula.tokens_spelled read).bind fun tokens spelled => ?_
  refine Vocabulary.settle_gives ?_
  rintro ⟨left, right⟩ read
  obtain ⟨fromLeft, fromRight⟩ := Formula.wholeSequent_from spelled read
  refine (Expr.inferAll_gives plain fromLeft).bind fun left propersLeft => ?_
  refine (Expr.inferAll_gives plain fromRight).bind fun right propersRight => ?_
  exact Typing.gives_lift (gives_lift fun goal made =>
    Sequent.make_proper propersLeft propersRight made)

end

end Turnstile
