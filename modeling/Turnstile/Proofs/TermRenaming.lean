import Turnstile.Proofs.Renaming
import Turnstile.Proofs.TypeSafety

/-!
# Renaming type variables in terms

A renamed term has the renamed type, and its free variables are listed in the same order: two of
them that differ have different names, and these decide how their keys compare before a type comes
into it. The solution that gives the variables of one name one type is therefore the renamed
solution.
-/

namespace Turnstile

namespace Term

/-! ## Sound terms -/

/-- The names of constants and variables are plain. -/
def Labelled : Term → Prop
  | const s => isPlain s.name = true
  | var s => isPlain s.name = true
  | app f x => f.Labelled ∧ x.Labelled
  | lam v body => isPlain v.name = true ∧ body.Labelled

/-- A proper term whose constants and variables have plain names. Such a term can be read off its
key. -/
structure Sound (t : Term) : Prop extends t.Proper where
  /-- Its names are plain. -/
  labelled : t.Labelled

variable {t f x b : Term} {v s : Symbol} {ρ : Renaming}

/-- Changing types leaves the names that are labelled. -/
@[simp] theorem labelled_mapTypes (change : Ty → Ty) :
    (t.mapTypes change).Labelled ↔ t.Labelled := by
  induction t with
  | const s => exact Iff.rfl
  | var s => exact Iff.rfl
  | app f x ihF ihX => exact and_congr ihF ihX
  | lam v body ih => exact and_congr Iff.rfl ih

/-- Labelled terms have plain names. -/
theorem Labelled.named (labelled : t.Labelled) : t.Named := by
  induction t with
  | const s => trivial
  | var s => exact labelled
  | app f x ihF ihX => exact ⟨ihF labelled.1, ihX labelled.2⟩
  | lam v body ih => exact ⟨labelled.1, ih labelled.2⟩

/-- The function of a sound application is sound. -/
theorem Sound.function (sound : (app f x).Sound) : f.Sound :=
  ⟨sound.toProper.function, sound.labelled.1⟩

/-- So is its argument. -/
theorem Sound.argument (sound : (app f x).Sound) : x.Sound :=
  ⟨sound.toProper.argument, sound.labelled.2⟩

/-- The body of a sound abstraction is sound. -/
theorem Sound.body (sound : (lam v b).Sound) : b.Sound :=
  ⟨sound.toProper.body, sound.labelled.2⟩

/-- So is its bound variable. -/
theorem Sound.bound (sound : (lam v b).Sound) : (var v).Sound :=
  ⟨sound.toProper.bound, sound.labelled.1⟩

/-- A plain variable is sound. -/
theorem sound_var (plain : v.Plain) : (var v).Sound := ⟨proper_var plain.type, plain.name⟩

/-- A constant of a plain name and a plain type is sound. -/
theorem sound_const (named : isPlain v.name = true) (plain : v.type.Plain) : (const v).Sound :=
  ⟨proper_const plain, named⟩

/-- A sound term stays sound when plain types are put for its type variables. -/
theorem Sound.under {θ : Int → Ty} (sound : t.Sound) (values : ∀ id, (θ id).Plain) :
    (t.under θ).Sound :=
  ⟨sound.toProper.under values, (labelled_mapTypes _).mpr sound.labelled⟩

/-- The default term is sound. -/
theorem sound_default : (default : Term).Sound := ⟨proper_default, show isPlain "" = true by decide⟩

/-! ## Keys -/

end Term

/-- A plain variable or constant can be read off the part of its key after the first mark. -/
theorem Symbol.tail_inj {s s' : Symbol} (named : isPlain s.name = true) (plain : s.type.Plain)
    (named' : isPlain s'.name = true) (plain' : s'.type.Plain) {rest rest' : List Char}
    (marked : Marked typeMarks rest) (marked' : Marked typeMarks rest')
    (same : s.name.toList ++ (":".toList ++ (s.type.key.toList ++ rest)) =
      s'.name.toList ++ (":".toList ++ (s'.type.key.toList ++ rest'))) : s = s' ∧ rest = rest' := by
  have unmarked : ∀ {name : String}, isPlain name = true → ∀ c ∈ name.toList, c ∉ [':'] := by
    intro name plain c inside mark
    obtain rfl : c = ':' := by simpa using mark
    exact not_mem_of_isPlain plain (by decide) inside
  have colon : ∀ text : List Char, Marked [':'] (":".toList ++ text) := by
    intro text
    simp [Marked]
  obtain ⟨names, tails⟩ := append_inj_of_marked (unmarked named) (unmarked named') (colon _)
    (colon _) same
  obtain ⟨types, rests⟩ := Ty.key_append_inj plain plain' marked marked'
    (List.append_cancel_left tails)
  exact ⟨Symbol.ext_iff'.mpr ⟨String.toList_inj.mp names, types⟩, rests⟩

namespace Term

variable {t t' f x b : Term} {v s : Symbol} {ρ : Renaming}

/-- A sound term, and where it ends, can be read off a text that begins with its key. -/
theorem key_append_inj : ∀ {t t' : Term}, t.Plain → t.Labelled → t'.Plain → t'.Labelled →
    ∀ {rest rest' : List Char}, Marked typeMarks rest → Marked typeMarks rest' →
      t.key.toList ++ rest = t'.key.toList ++ rest' → t = t' ∧ rest = rest' := by
  have blank : ∀ text : List Char, Marked typeMarks (" ".toList ++ text) := by
    intro text
    simp [Marked, typeMarks]
  have close : ∀ text : List Char, Marked typeMarks (")".toList ++ text) := by
    intro text
    simp [Marked, typeMarks]
  have dot : ∀ text : List Char, Marked typeMarks (".".toList ++ text) := by
    intro text
    simp [Marked, typeMarks]
  intro t
  induction t with
  | const s =>
    intro t' plain labelled plain' labelled' rest rest' marked marked' same
    cases t' with
    | const s' =>
      simp only [key, Symbol.constKey, String.toList_append, List.append_assoc] at same
      obtain ⟨rfl, rests⟩ := Symbol.tail_inj labelled plain labelled' plain' marked marked'
        (List.append_cancel_left same)
      exact ⟨rfl, rests⟩
    | var s' => simp [key, Symbol.constKey, Symbol.varKey] at same
    | app f' x' => simp [key, Symbol.constKey] at same
    | lam v' b' => simp [key, Symbol.constKey] at same
  | var s =>
    intro t' plain labelled plain' labelled' rest rest' marked marked' same
    cases t' with
    | const s' => simp [key, Symbol.constKey, Symbol.varKey] at same
    | var s' =>
      simp only [key, Symbol.varKey, String.toList_append, List.append_assoc] at same
      obtain ⟨rfl, rests⟩ := Symbol.tail_inj labelled plain labelled' plain' marked marked'
        (List.append_cancel_left same)
      exact ⟨rfl, rests⟩
    | app f' x' => simp [key, Symbol.varKey] at same
    | lam v' b' => simp [key, Symbol.varKey] at same
  | app f x ihF ihX =>
    intro t' plain labelled plain' labelled' rest rest' marked marked' same
    cases t' with
    | const s' => simp [key, Symbol.constKey] at same
    | var s' => simp [key, Symbol.varKey] at same
    | app f' x' =>
      simp only [key, String.toList_append, List.append_assoc] at same
      obtain ⟨rfl, arguments⟩ := ihF plain.1 labelled.1 plain'.1 labelled'.1 (blank _) (blank _)
        (List.append_cancel_left same)
      obtain ⟨rfl, ends⟩ := ihX plain.2 labelled.2 plain'.2 labelled'.2 (close _) (close _)
        (List.append_cancel_left arguments)
      exact ⟨rfl, List.append_cancel_left ends⟩
    | lam v' b' => simp [key] at same
  | lam v b ih =>
    intro t' plain labelled plain' labelled' rest rest' marked marked' same
    cases t' with
    | const s' => simp [key, Symbol.constKey] at same
    | var s' => simp [key, Symbol.varKey] at same
    | app f' x' => simp [key] at same
    | lam v' b' =>
      simp only [key, Symbol.varKey, String.toList_append, List.append_assoc] at same
      obtain ⟨rfl, bodies⟩ := Symbol.tail_inj labelled.1 plain.1 labelled'.1 plain'.1
        (dot _) (dot _) (List.append_cancel_left (List.append_cancel_left same))
      obtain ⟨rfl, rests⟩ := ih plain.2 labelled.2 plain'.2 labelled'.2 marked marked'
        (List.append_cancel_left bodies)
      exact ⟨rfl, rests⟩

/-- Sound terms with one key are equal. -/
theorem Sound.key_inj (sound : t.Sound) (sound' : t'.Sound) : t.key = t'.key ↔ t = t' := by
  refine ⟨fun same => ?_, fun same => congrArg key same⟩
  have marked : Marked typeMarks [] := by simp [Marked]
  have texts : t.key.toList ++ [] = t'.key.toList ++ [] := by rw [same]
  exact (key_append_inj sound.plain sound.labelled sound'.plain sound'.labelled marked marked
    texts).1

end Term

/-! ## Renamed terms -/

variable {ρ : Renaming}

/-- Different symbols are renamed to different ones. -/
theorem Symbol.renamed_inj {s s' : Symbol} : s.under ρ.types = s'.under ρ.types ↔ s = s' := by
  rw [Symbol.ext_iff', Symbol.ext_iff', under_name, under_name, under_type, under_type,
    Ty.renamed_inj]

namespace Term

variable {t t' f x b : Term} {v s : Symbol}

/-- Different terms stay different. -/
theorem renamed_inj : ∀ {t t' : Term}, t.under ρ.types = t'.under ρ.types ↔ t = t' := by
  intro t
  induction t with
  | const s =>
    intro t'
    cases t' <;> simp [Symbol.renamed_inj]
  | var s =>
    intro t'
    cases t' <;> simp [Symbol.renamed_inj]
  | app f x ihF ihX =>
    intro t'
    cases t' <;> simp [ihF, ihX]
  | lam v b ih =>
    intro t'
    cases t' <;> simp [Symbol.renamed_inj, ih]

/-- A renamed sound term is sound. -/
theorem Sound.renamed (sound : t.Sound) (ρ : Renaming) : (t.under ρ.types).Sound :=
  sound.under Renaming.types_plain

/-- Keys tell renamed terms apart just as they tell the terms. -/
theorem Sound.renamed_key (sound : t.Sound) (sound' : t'.Sound) :
    (t.under ρ.types).key = (t'.under ρ.types).key ↔ t.key = t'.key := by
  rw [(sound.renamed ρ).key_inj (sound'.renamed ρ), sound.key_inj sound', renamed_inj]

/-- Renaming leaves the name of a term. -/
@[simp] theorem renamed_name : (t.under ρ.types).name = t.name := by
  cases t <;> rfl

/-- The atoms of a renamed term are the renamed atoms. -/
@[simp] theorem renamed_atoms : (t.under ρ.types).atoms = t.atoms.map (Term.under ρ.types) := by
  induction t with
  | const s => rfl
  | var s => rfl
  | app f x ihF ihX => simp [atoms, ihF, ihX]
  | lam v b ih => simp [atoms, ih]

/-- The head of a renamed term is the renamed head. -/
theorem renamed_head : (t.under ρ.types).head = t.head.under ρ.types := by
  induction t with
  | const s => rfl
  | var s => rfl
  | app f x ihF ihX => exact ihF
  | lam v b ih => rfl

/-- The type of a renamed term is the renamed type. -/
theorem Sound.renamed_type (sound : t.Sound) :
    (t.under ρ.types).type = t.type.mapVars ρ.types := sound.wellTyped.type_under

/-- The free variables of a renamed term are the renamed free variables. -/
theorem Sound.renamed_free (sound : t.Sound) :
    (t.under ρ.types).free = t.free.map (Symbol.under ρ.types) :=
  sound.wellTyped.free_under (sound.plain.discerningUnder Renaming.types_plain)

/-- Renaming types leaves the free names. -/
theorem Sound.renamed_freeNames (sound : t.Sound) :
    (t.under ρ.types).freeNames = t.freeNames := by
  rw [freeNames, freeNames, sound.renamed_free, List.map_map]
  rfl

end Term

/-- Renamed symbols have equal keys exactly if the symbols do. -/
theorem Symbol.renamed_varKey {s s' : Symbol} (plain : s.type.Plain) (plain' : s'.type.Plain) :
    (s.under ρ.types).varKey = (s'.under ρ.types).varKey ↔ s.varKey = s'.varKey := by
  have values := Renaming.types_plain (ρ := ρ)
  constructor
  · intro same
    have kept : ∀ {t : Ty}, t.Plain → (t.mapVars ρ.types).Plain := fun plain =>
      plain.mapVars fun id _ => values id
    exact congrArg varKey (renamed_inj.mp (varKey_inj (kept plain) (kept plain') same))
  · intro same
    rw [varKey_inj plain plain' same]

/-- A renamed variable is free in a renamed term exactly if the variable is free in the term. -/
theorem Term.Sound.renamed_hasFree {t : Term} {s : Symbol} (sound : t.Sound)
    (plain : s.type.Plain) : (t.under ρ.types).hasFree (s.under ρ.types) = t.hasFree s := by
  rw [hasFree, hasFree, sound.renamed_free, Bool.eq_iff_iff]
  simp only [List.any_map, List.any_eq_true, Function.comp_apply, beq_iff_eq]
  refine exists_congr fun v => and_congr_right fun member => ?_
  exact Symbol.renamed_varKey (sound.plain.free_plain v member) plain

/-! ## The order of free variables -/

/-- Texts that differ before a mark are ordered alike whatever follows the mark. -/
theorem lt_of_marked {mark : Char} {xs ys rest rest' other other' : List Char}
    (left : mark ∉ xs) (right : mark ∉ ys) (differ : xs ≠ ys)
    (less : xs ++ mark :: rest < ys ++ mark :: rest') :
    xs ++ mark :: other < ys ++ mark :: other' := by
  induction xs generalizing ys with
  | nil =>
    cases ys with
    | nil => exact absurd rfl differ
    | cons y ys =>
      have apart : mark ≠ y := fun same => right (by simp [same])
      simp only [List.nil_append, List.cons_append, List.cons_lt_cons_iff, apart, false_and,
        or_false] at less ⊢
      exact less
  | cons x xs ih =>
    cases ys with
    | nil =>
      have apart : x ≠ mark := fun same => left (by simp [same])
      simp only [List.nil_append, List.cons_append, List.cons_lt_cons_iff, apart, false_and,
        or_false] at less ⊢
      exact less
    | cons y ys =>
      simp only [List.cons_append, List.cons_lt_cons_iff] at less ⊢
      rcases less with before | ⟨rfl, later⟩
      · exact .inl before
      · refine .inr ⟨rfl, ih (fun inside => left (by simp [inside]))
          (fun inside => right (by simp [inside])) (fun same => differ (by rw [same])) later⟩

/-- Variables of different names are ordered alike whatever their types are. -/
theorem Symbol.lt_of_names {s s' r r' : Symbol} (named : isPlain s.name = true)
    (named' : isPlain s'.name = true) (differ : s.name ≠ s'.name) (same : r.name = s.name)
    (same' : r'.name = s'.name) (less : s.varKey.toList < s'.varKey.toList) :
    r.varKey.toList < r'.varKey.toList := by
  have unmarked : ∀ {name : String}, isPlain name = true → ':' ∉ name.toList := fun plain =>
    not_mem_of_isPlain plain (by decide)
  have parts : ∀ s : Symbol,
      s.varKey.toList = 'v' :: ':' :: (s.name.toList ++ ':' :: s.type.key.toList) := by
    intro s
    simp [varKey]
  rw [parts, parts, List.cons_lt_cons_self, List.cons_lt_cons_self] at less ⊢
  rw [same, same']
  exact lt_of_marked (unmarked named) (unmarked named')
    (fun names => differ (String.toList_inj.mp names)) less

/-- Renaming keeps the order of variables of which those of one name have one type. -/
theorem Symbol.renamed_le {s s' : Symbol} (named : isPlain s.name = true)
    (named' : isPlain s'.name = true) (uniform : s.name = s'.name → s.type = s'.type) :
    (s.under ρ.types).varKey ≤ (s'.under ρ.types).varKey ↔ s.varKey ≤ s'.varKey := by
  by_cases names : s.name = s'.name
  · obtain rfl : s = s' := Symbol.ext_iff'.mpr ⟨names, uniform names⟩
    exact ⟨fun _ => String.le_refl _, fun _ => String.le_refl _⟩
  · have differ : s'.name ≠ s.name := fun same => names same.symm
    have le_iff : ∀ a b : String, a ≤ b ↔ ¬ b.toList < a.toList := fun _ _ => Iff.rfl
    rw [le_iff, le_iff, not_iff_not]
    exact ⟨lt_of_names named' named differ rfl rfl, lt_of_names named' named differ rfl rfl⟩

/-! ## Sorting -/

section

variable {α β : Type} {f : α → β}

/-- Inserting commutes with a map that keeps the order. -/
theorem insertBy_map {le : β → β → Bool} {le' : α → α → Bool} {a : α} {items : List α}
    (agree : ∀ b ∈ items, le (f a) (f b) = le' a b) :
    insertBy le (f a) (items.map f) = (insertBy le' a items).map f := by
  induction items with
  | nil => rfl
  | cons b rest ih =>
    have here := agree b (by simp)
    have later := ih fun c inside => agree c (by simp [inside])
    rw [List.map_cons, insertBy, insertBy, here, later]
    split <;> rfl

/-- A list is sorted as its images are if both orders agree. -/
theorem sortBy_map {le : β → β → Bool} {le' : α → α → Bool} {items : List α}
    (agree : ∀ a ∈ items, ∀ b ∈ items, le (f a) (f b) = le' a b) :
    sortBy le (items.map f) = (sortBy le' items).map f := by
  induction items with
  | nil => rfl
  | cons a rest ih =>
    have later := ih fun b inside c inside' => agree b (by simp [inside]) c (by simp [inside'])
    change insertBy le (f a) (sortBy le (rest.map f)) = (insertBy le' a (sortBy le' rest)).map f
    rw [later]
    exact insertBy_map fun b inside => agree a (by simp) b (by simp [mem_sortBy.mp inside])

/-- The elements of a list with different keys, the last one of each key. -/
def distinctByKey (key : α → String) (items : List α) : List α :=
  items.foldr (fun a kept => if kept.any fun b => key b == key a then kept else a :: kept) []

/-- Items of different keys are among the items. -/
theorem distinctByKey_subset {key : α → String} {items : List α} :
    distinctByKey key items ⊆ items := by
  induction items with
  | nil => exact List.Subset.refl _
  | cons a rest ih =>
    rw [distinctByKey, List.foldr_cons]
    split
    · exact List.subset_cons_of_subset a ih
    · exact List.cons_subset_cons a ih

/-- Picking items of different keys commutes with a map that keeps equality of keys. -/
theorem distinctByKey_map {key : β → String} {key' : α → String} {items : List α}
    (same : ∀ a ∈ items, ∀ b ∈ items, key (f a) = key (f b) ↔ key' a = key' b) :
    distinctByKey key (items.map f) = (distinctByKey key' items).map f := by
  induction items with
  | nil => rfl
  | cons a rest ih =>
    have later : distinctByKey key (rest.map f) = (distinctByKey key' rest).map f :=
      ih fun b inside c inside' => same b (by simp [inside]) c (by simp [inside'])
    have known : ((distinctByKey key' rest).map f).any (fun b => key b == key (f a)) =
        (distinctByKey key' rest).any fun b => key' b == key' a := by
      rw [Bool.eq_iff_iff]
      simp only [List.any_map, List.any_eq_true, Function.comp_apply, beq_iff_eq]
      refine exists_congr fun b => and_congr_right fun inside => ?_
      exact same b (by simp [distinctByKey_subset inside]) a (by simp)
    change (if (distinctByKey key (rest.map f)).any (fun b => key b == key (f a)) then
        distinctByKey key (rest.map f) else f a :: distinctByKey key (rest.map f)) =
      (if (distinctByKey key' rest).any (fun b => key' b == key' a) then
        distinctByKey key' rest else a :: distinctByKey key' rest).map f
    rw [later, known]
    split <;> rfl

/-- Elements are picked and ordered by key as their images are. -/
theorem sortedByKey_map {key : β → String} {key' : α → String} {items : List α}
    (same : ∀ a ∈ items, ∀ b ∈ items, key (f a) = key (f b) ↔ key' a = key' b)
    (order : ∀ a ∈ items, ∀ b ∈ items, key (f a) ≤ key (f b) ↔ key' a ≤ key' b) :
    sortedByKey key (items.map f) = (sortedByKey key' items).map f := by
  change sortBy _ (distinctByKey key (items.map f)) = (sortBy _ (distinctByKey key' items)).map f
  rw [distinctByKey_map same]
  refine sortBy_map fun a inside b inside' => ?_
  exact decide_eq_decide.mpr
    (order a (distinctByKey_subset inside) b (distinctByKey_subset inside'))

end

/-- The free variables of a renamed term are the renamed ones in the same order. -/
theorem Term.Sound.renamed_freeVariables {t : Term} (sound : t.Sound) :
    (t.under ρ.types).freeVariables = t.freeVariables.map (Symbol.under ρ.types) := by
  have plain := sound.plain.free_plain
  have named := sound.labelled.named.free_named
  rw [freeVariables, freeVariables, sound.renamed_free]
  exact sortedByKey_map
    (fun s inside s' inside' => Symbol.renamed_varKey (plain s inside) (plain s' inside'))
    (fun s inside s' inside' => Symbol.renamed_le (named s inside) (named s' inside')
      (sound.uniform s inside s' inside'))

/-! ## Solutions -/

/-- Whenever the first computation succeeds, the second one does, with a related result. -/
def Follows {α β : Type} (R : α → β → Prop) (first : Except Failure α)
    (second : Except Failure β) : Prop :=
  ∀ a, first = .ok a → ∃ b, second = .ok b ∧ R a b

section

variable {α β γ δ : Type} {R : α → β → Prop} {S : γ → δ → Prop}

/-- Related values follow each other. -/
theorem follows_ok {a : α} {b : β} (related : R a b) : Follows R (.ok a) (.ok b) := by
  rintro _ ⟨⟩
  exact ⟨b, rfl, related⟩

/-- Anything follows a failure. -/
theorem follows_error (failure : Failure) (second : Except Failure β) :
    Follows R (.error failure) second := by
  rintro _ ⟨⟩

/-- Computations that follow each other and go on so follow each other as a whole. -/
theorem Follows.bind {first : Except Failure α} {second : Except Failure β}
    {next : α → Except Failure γ} {next' : β → Except Failure δ} (follows : Follows R first second)
    (continues : ∀ a b, R a b → Follows S (next a) (next' b)) :
    Follows S (first >>= next) (second >>= next') := by
  intro c done
  cases first with
  | error failure => cases done
  | ok a =>
    obtain ⟨b, rfl, related⟩ := follows a rfl
    exact continues a b related c done

/-- Computations that follow each other do so after maps that relate their values. -/
theorem Follows.map {first : Except Failure α} {second : Except Failure β} {f : α → γ} {g : β → δ}
    (follows : Follows R first second) (related : ∀ a b, R a b → S (f a) (g b)) :
    Follows S (f <$> first) (g <$> second) := by
  intro c done
  cases first with
  | error failure => cases done
  | ok a =>
    cases done
    obtain ⟨b, rfl, relatedB⟩ := follows a rfl
    exact ⟨g b, rfl, related a b relatedB⟩

end

/-- A unifier that puts plain types, and the renamed unifier. -/
structure Renaming.TakesUnifier (ρ : Renaming) (u u' : Unifier) : Prop where
  /-- The types seen can be read off their keys. -/
  filed : u.Filed
  /-- Plain types are put for type variables. -/
  puts : ∃ θ : Int → Ty, (∀ id, (θ id).Plain) ∧ u.apply = Ty.mapVars θ
  /-- The second unifier is the renamed first one. -/
  renamed : u' = u.renamed ρ

/-- A sound term, and the renamed term. -/
structure Renaming.Takes (ρ : Renaming) (t t' : Term) : Prop where
  /-- The term is sound. -/
  sound : t.Sound
  /-- The second term is the renamed first one. -/
  renamed : t' = t.under ρ.types

namespace Renaming

variable {t t' : Term} {terms terms' : List Term} {u u' : Unifier}

/-- A renaming takes a sound term to the renamed one. -/
theorem takes_of_sound (ρ : Renaming) (sound : t.Sound) : ρ.Takes t (t.under ρ.types) :=
  ⟨sound, rfl⟩

/-- The type of a taken term is the renamed type. -/
theorem Takes.type (takes : ρ.Takes t t') : t'.type = t.type.mapVars ρ.types := by
  rw [takes.renamed, takes.sound.renamed_type]

/-- Terms taken one by one are the renamed terms. -/
theorem takesAll_iff : List.Forall₂ ρ.Takes terms terms' ↔
    (∀ t ∈ terms, t.Sound) ∧ terms' = terms.map (Term.under ρ.types) := by
  constructor
  · intro takes
    induction takes with
    | nil => simp
    | cons first _ ih =>
      exact ⟨List.forall_mem_cons.mpr ⟨first.sound, ih.1⟩, by
        rw [ih.2, first.renamed, List.map_cons]⟩
  · rintro ⟨sounds, rfl⟩
    rw [List.forall₂_map_right_iff, List.forall₂_same]
    exact fun t inside => takes_of_sound ρ (sounds t inside)

/-- Solutions are carried through renamed terms as through the terms. -/
theorem Takes.applyTypes (takes : ρ.Takes t t') (unifiers : ρ.TakesUnifier u u') :
    ρ.Takes (t.applyTypes u) (t'.applyTypes u') := by
  obtain ⟨θ, plain, apply⟩ := unifiers.puts
  refine ⟨?_, ?_⟩
  · rw [Term.applyTypes_eq apply]
    exact takes.sound.under plain
  · rw [takes.renamed, unifiers.renamed]
    have symbols : ∀ s : Symbol, (s.under ρ.types).mapType (u.renamed ρ).apply =
        (s.mapType u.apply).under ρ.types := fun s =>
      Symbol.ext_iff'.mpr ⟨rfl, Unifier.renamed_apply unifiers.filed s.type⟩
    have all : ∀ t : Term, (t.under ρ.types).applyTypes (u.renamed ρ) =
        (t.applyTypes u).under ρ.types := by
      intro t
      induction t with
      | const s => exact congrArg Term.const (symbols s)
      | var s => exact congrArg Term.var (symbols s)
      | app f x ihF ihX => exact congrArg₂ Term.app ihF ihX
      | lam v b ih => exact congrArg₂ Term.lam (symbols v) ih
    exact all t

/-- Applying renamed unifiers takes terms to terms. -/
theorem takesAll_applyTypes (takes : List.Forall₂ ρ.Takes terms terms')
    (unifiers : ρ.TakesUnifier u u') :
    List.Forall₂ ρ.Takes (terms.map (Term.applyTypes u)) (terms'.map (Term.applyTypes u')) := by
  rw [List.forall₂_map_left_iff, List.forall₂_map_right_iff]
  exact takes.imp fun _ _ taken => taken.applyTypes unifiers

/-- One equation is solved as the renamed one is. -/
theorem follows_equate {a b : Ty} (plainA : a.Plain) (plainB : b.Plain) :
    Follows ρ.TakesUnifier (Term.equate a b)
      (Term.equate (a.mapVars ρ.types) (b.mapVars ρ.types)) := by
  intro u done
  have solution := Term.equate_solution plainA plainB
  have unified := Unifier.filed_empty.unify (ρ := ρ) plainA plainB
  rw [Unifier.renamed_empty] at unified
  rw [done] at solution
  rw [Term.equate] at done ⊢
  rcases called : Unifier.empty.unify a b with ⟨_ | clash, v⟩ <;> rw [called] at unified done
  · cases done
    rw [unified.renamed]
    cases solution with
    | found apply most => exact ⟨u.renamed ρ, rfl, unified.filed, ⟨_, most.plain, apply⟩, rfl⟩
  · cases done

/-- The free variables across renamed terms are the renamed free variables. -/
theorem renamed_freeAcross (sounds : ∀ t ∈ terms, t.Sound) :
    freeAcross (terms.map (Term.under ρ.types)) =
      (freeAcross terms).map (Symbol.under ρ.types) := by
  rw [freeAcross, freeAcross, List.flatMap_map, List.map_flatMap]
  exact List.flatMap_congr fun t inside => (sounds t inside).renamed_freeVariables

/-- The types of a name among renamed symbols are the renamed types. -/
theorem renamed_typesOf (occurrences : List Symbol) (name : String) :
    typesOf (occurrences.map (Symbol.under ρ.types)) name =
      (typesOf occurrences name).map (Ty.mapVars ρ.types) := by
  rw [typesOf, typesOf, List.filter_map, List.map_map, List.map_map]
  rfl

/-- Joining the types of a name commutes with renaming. -/
theorem renamed_joinName {occurrences : List Symbol} (plain : ∀ s ∈ occurrences, s.type.Plain)
    (filed : u.Filed) {name : String} {v : Unifier} (done : joinName occurrences u name = .ok v) :
    v.Filed ∧ joinName (occurrences.map (Symbol.under ρ.types)) (u.renamed ρ) name =
      .ok (v.renamed ρ) := by
  have plainTypes : ∀ t ∈ typesOf occurrences name, t.Plain := by
    intro t member
    obtain ⟨s, inside, _, rfl⟩ := mem_typesOf.mp member
    exact plain s inside
  have unified := filed.unifyMany (ρ := ρ) plainTypes
  rw [joinName] at done ⊢
  rw [← typesOf] at done ⊢
  rw [renamed_typesOf, List.length_map]
  split at done
  next few =>
    cases done
    rw [if_pos few]
    exact ⟨filed, rfl⟩
  next many =>
    rw [if_neg many, unified.renamed]
    rcases called : u.unifyMany (typesOf occurrences name) with ⟨_ | clash, w⟩ <;>
      rw [called] at unified done
    · cases done
      exact ⟨unified.filed, rfl⟩
    · cases done

/-- Joining the types of all names commutes with renaming. -/
theorem renamed_joinNames {occurrences : List Symbol} (plain : ∀ s ∈ occurrences, s.type.Plain) :
    ∀ {names : List String} {u v : Unifier}, u.Filed →
      names.foldlM (joinName occurrences) u = .ok v →
      v.Filed ∧ names.foldlM (joinName (occurrences.map (Symbol.under ρ.types))) (u.renamed ρ) =
        .ok (v.renamed ρ)
  | [], u, v, filed, done => by
    cases done
    exact ⟨filed, rfl⟩
  | name :: rest, u, v, filed, done => by
    rw [List.foldlM_cons] at done
    obtain ⟨w, joined, later⟩ := Formula.bind_ok done
    obtain ⟨filedW, joined'⟩ := renamed_joinName (ρ := ρ) plain filed joined
    rw [List.foldlM_cons, joined']
    exact renamed_joinNames plain filedW later

/-- One type for each name is found across renamed terms as across the terms. -/
theorem follows_jointTypes (takes : List.Forall₂ ρ.Takes terms terms') :
    Follows ρ.TakesUnifier (jointTypes terms) (jointTypes terms') := by
  obtain ⟨sounds, rfl⟩ := takesAll_iff.mp takes
  intro u done
  have plain : ∀ t ∈ terms, t.Plain := fun t inside => (sounds t inside).plain
  have plainAcross : ∀ s ∈ freeAcross terms, s.type.Plain := fun s inside =>
    plain_freeIn plain s ((mem_freeAcross (plain_freeIn plain)).mp inside)
  have solution := jointTypes_solution plain
  obtain ⟨filed, joined⟩ := renamed_joinNames (ρ := ρ) plainAcross Unifier.filed_empty done
  rw [done] at solution
  have names : ((freeAcross terms).map (Symbol.under ρ.types)).map Symbol.name =
      (freeAcross terms).map Symbol.name := by
    rw [List.map_map]
    rfl
  rw [jointTypes, renamed_freeAcross sounds, names]
  rw [Unifier.renamed_empty] at joined
  cases solution with
  | found apply most => exact ⟨u.renamed ρ, joined, filed, ⟨_, most.plain, apply⟩, rfl⟩

end Renaming

end Turnstile
