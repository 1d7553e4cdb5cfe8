import Turnstile.Proofs.Matching
import Turnstile.Proofs.MostGeneral
import Turnstile.Proofs.Untouched

/-!
# Sets and arenas under keys

Sets of variables, sets of atoms and the arenas of unification and of matching hold one value for
each key, and never compare the values themselves. As long as all names are plain, a key belongs to
one type or one term. A set then has the elements that it was built of, each of them once, and in
an arena a value is found exactly if it was put there.
-/

namespace Turnstile

variable {α : Type}

/-! ## Sets -/

/-- A list has the elements with a property, each of them once. -/
structure Lists (items : List α) (P : α → Prop) : Prop where
  /-- No element is repeated. -/
  once : items.Nodup
  /-- None is missing, and there are no others. -/
  exact : ∀ a, a ∈ items ↔ P a

/-- What is sorted by key has different keys. -/
theorem nodup_keys_sortedByKey (key : α → String) (items : List α) :
    ((sortedByKey key items).map key).Nodup := by
  rw [sortedByKey, ((perm_sortBy _ _).map key).nodup_iff]
  induction items with
  | nil => exact List.nodup_nil
  | cons a rest ih =>
    rw [List.foldr_cons]
    split
    next => exact ih
    next new =>
      refine List.nodup_cons.mpr ⟨fun inside => new ?_, ih⟩
      obtain ⟨b, kept, same⟩ := List.mem_map.mp inside
      exact List.any_eq_true.mpr ⟨b, kept, beq_iff_eq.mpr same⟩

/-- Where keys tell the elements of a list apart, sorting by key gives the set of them. -/
theorem lists_sortedByKey {key : α → String} {items : List α}
    (injective : ∀ b ∈ items, ∀ c ∈ items, key b = key c → b = c) :
    Lists (sortedByKey key items) (· ∈ items) where
  once := (nodup_keys_sortedByKey key items).of_map
  exact _ := mem_sortedByKey injective

/-- The variables among plain occurrences. -/
theorem lists_sortedVariables {occurrences : List Symbol}
    (plain : ∀ s ∈ occurrences, s.type.Plain) :
    Lists (sortedVariables occurrences) (· ∈ occurrences) :=
  lists_sortedByKey fun b inside c inside' => Symbol.varKey_inj (plain b inside) (plain c inside')

namespace Term

variable {t : Term} {s : Symbol}

/-- The atoms of a term that can be told apart can be told apart. -/
theorem Told.atoms : ∀ {t : Term}, t.Told → ∀ a ∈ t.atoms, a.Told
  | const s, told, a, inside => by
    obtain rfl := List.mem_singleton.mp inside
    exact told
  | var s, told, a, inside => by
    obtain rfl := List.mem_singleton.mp inside
    exact told
  | app f x, told, a, inside => by
    rcases List.mem_append.mp inside with left | right
    · exact told.function.atoms a left
    · exact told.argument.atoms a right
  | lam v b, told, a, inside => by
    rcases List.mem_cons.mp inside with rfl | below
    · exact told.bound
    · exact told.body.atoms a below

/-- Asking for a variable among those that are free is asking for a free occurrence. -/
theorem Plain.hasFree_iff (plain : t.Plain) (plainS : s.type.Plain) :
    t.hasFree s = true ↔ FreeIn (var s) t := by
  rw [plain.freeIn_iff, hasFree, List.any_eq_true]
  constructor
  · rintro ⟨v, free, same⟩
    exact Symbol.varKey_inj (plain.free_plain v free) plainS (beq_iff_eq.mp same) ▸ free
  · exact fun free => ⟨s, free, beq_self_eq_true _⟩

/-- The free variables of a plain term are those that have a free occurrence. -/
theorem Plain.lists_freeVariables (plain : t.Plain) :
    Lists t.freeVariables fun s => FreeIn (var s) t := by
  have listed : Lists t.freeVariables (· ∈ t.free) := lists_sortedVariables plain.free_plain
  exact ⟨listed.once, fun s => (listed.exact s).trans plain.freeIn_iff.symm⟩

end Term

/-! ## Arenas -/

namespace Partition

variable [Keyed α] {p : Partition α} {P : α → Prop}

/-- An arena holds different values, all with a property, and every value with the property is found
under its key exactly if the arena holds it. -/
structure Exact (p : Partition α) (P : α → Prop) : Prop where
  /-- The values have the property. -/
  all : ∀ m ∈ p.members, P m.value
  /-- No value is held twice. -/
  once : (p.members.map Member.value).Nodup
  /-- What is found under the key of a value is that value. -/
  found : ∀ a, P a → ∀ m, p.member? (Keyed.key a) = some m ↔ m ∈ p.members ∧ m.value = a

/-- Where keys tell its values apart, a lawful arena is exact. -/
theorem Lawful.exact (lawful : p.Lawful) (all : ∀ m ∈ p.members, P m.value)
    (injective : ∀ a b, P a → P b → Keyed.key a = Keyed.key b → a = b) : p.Exact P := by
  have keys : p.members.map Member.key = (p.members.map Member.value).map Keyed.key := by
    rw [List.map_map]
    exact List.map_congr_left lawful.keyed
  refine ⟨all, List.Nodup.of_map Keyed.key (keys ▸ lawful.distinct), fun a holds m => ?_⟩
  constructor
  · intro found
    obtain ⟨inside, same⟩ := member?_some found
    rw [lawful.keyed m inside] at same
    exact ⟨inside, injective _ _ (all m inside) holds same⟩
  · rintro ⟨inside, rfl⟩
    rw [← lawful.keyed m inside]
    exact lawful.member?_of_mem inside

end Partition

namespace Cell

/-- The names of pattern variables are arbitrary, subterms are told by their keys. -/
def Told : Cell → Prop
  | slot _ => True
  | part t => t.Told

/-- The keys of an arena of matching tell names from names, subterms from subterms, and names from
subterms. -/
theorem key_inj : ∀ {a b : Cell}, a.Told → b.Told → Keyed.key a = Keyed.key b → a = b
  | slot _, slot _, _, _, same => congrArg slot (slot_key_inj same)
  | slot _, part _, _, _, same => absurd same slot_key_ne
  | part _, slot _, _, _, same => absurd same.symm slot_key_ne
  | part _, part _, told, told', same => congrArg part ((told.key_inj told').mp same)

/-- An arena in agreement with what another matcher found is exact. -/
theorem Mirrors.exact {p : Partition Cell} {bindings : Bindings} (mirrors : Mirrors p bindings) :
    p.Exact Told := by
  refine mirrors.lawful.exact (fun m inside => ?_) fun _ _ => key_inj
  cases kind : m.value with
  | slot name => trivial
  | part u => exact mirrors.told m inside u kind

/-- The arena of a match is exact. -/
theorem exact_matchIn {pattern t : Term} {arena : Forest Cell} (told : t.Told)
    (done : matchIn .empty pattern t = .ok arena) : arena.flat.Exact Told := by
  have agree : Agree (matchIn .empty pattern t) (Term.matchFrom [] pattern t) :=
    agree_matchIn told mirrors_empty
  rw [done] at agree
  cases found : Term.matchFrom [] pattern t with
  | error failure =>
    rw [found] at agree
    cases agree
  | ok bindings =>
    rw [found] at agree
    obtain ⟨after, is, mirrors⟩ := agree
    obtain rfl := Except.ok.inj is
    exact mirrors.exact

end Cell

/-- Where names are plain, types and terms are equal exactly if their keys are. Whatever holds its
elements under keys holds them as they are: the sets of variables that are built of occurrences, the
free variables and the atoms of a term, the arena of a unifier after any calls, and the arena of
every match. -/
theorem keys_tell_apart :
    (∀ a b : Ty, a.Plain → b.Plain → (a.key = b.key ↔ a = b)) ∧
    (∀ s t : Term, s.Told → t.Told → (s.key = t.key ↔ s = t)) ∧
    (∀ occurrences : List Symbol, (∀ s ∈ occurrences, s.Plain) →
      Lists (sortedVariables occurrences) (· ∈ occurrences)) ∧
    (∀ t : Term, t.Told →
      Lists t.freeVariables (fun s => Term.FreeIn (.var s) t) ∧
      (∀ s : Symbol, s.Plain → (t.hasFree s = true ↔ Term.FreeIn (.var s) t)) ∧
      Lists t.atomSet (· ∈ t.atoms)) ∧
    (∀ requests : List Unifier.Request,
      (∀ request ∈ requests, ∀ a ∈ request.types, a.Plain) →
      (Unifier.empty.answerAll requests).2.types.Exact Ty.Plain) ∧
    (∀ (pattern t : Term) (arena : Forest Cell), t.Told →
      Cell.matchIn .empty pattern t = .ok arena → arena.flat.Exact Cell.Told) := by
  refine ⟨fun a b plain plain' => ?_, fun s t told told' => told.key_inj told',
    fun occurrences plain => lists_sortedVariables fun s inside => (plain s inside).type,
    fun t told => ⟨told.plain.lists_freeVariables, fun s plain => ?_, ?_⟩, fun requests plain => ?_,
    fun pattern t arena told done => Cell.exact_matchIn told done⟩
  · exact ⟨Ty.key_inj plain plain', congrArg Ty.key⟩
  · exact told.plain.hasFree_iff plain.type
  · exact lists_sortedByKey fun a inside b inside' =>
      ((told.atoms a inside).key_inj (told.atoms b inside')).mp
  · have consistent := (Unifier.consistent_empty.answerAll plain).consistent
    exact consistent.lawful.exact consistent.plain fun _ _ => Ty.key_inj

/-- A variable of one name and another type than the binder's, beside the equality constant. -/
def shadowing : Term :=
  .lam ⟨"x", .obj⟩ (.app (.app (.const ⟨"=", .arrow .bool (.arrow .obj .bool)⟩)
    (.var ⟨"x", .bool⟩)) (.var ⟨"x", .obj⟩))

/-- A pattern of an abstraction with any body. -/
def shadowingPattern : Term := .lam ⟨"y", .obj⟩ (.var ⟨"z", .var 1⟩)

/-- Calls on two type variables and an atomic type with the name of one of them. -/
def lookalikes : List Unifier.Request := [.two (.var (-1)) (.const "v1"), .two (.var 1) (.var (-1))]

/-- The two variables of one name are kept apart, and so are the two types. -/
theorem keys_tell_apart_shadowing :
    shadowing.Told ∧ (Ty.var 1).key ≠ (Ty.const "v1").key ∧
      (Term.var ⟨"x", .obj⟩).key ≠ (Term.const ⟨"x", .obj⟩).key ∧
      Lists (sortedVariables [⟨"x", .bool⟩, ⟨"x", .obj⟩, ⟨"x", .bool⟩])
        (· ∈ [⟨"x", .bool⟩, ⟨"x", .obj⟩, ⟨"x", .bool⟩]) ∧
      Lists [Symbol.mk "x" .bool] (fun s => Term.FreeIn (.var s) shadowing) ∧
      shadowing.hasFree ⟨"x", .obj⟩ = false ∧
      Lists shadowing.atomSet (· ∈ shadowing.atoms) ∧
      (Unifier.empty.answerAll lookalikes).1 = none ∧
      (Unifier.empty.answerAll lookalikes).2.types.Exact Ty.Plain ∧
      ∃ arena, Cell.matchIn .empty shadowingPattern shadowing = .ok arena ∧
        arena.flat.Exact Cell.Told := by
  have obj : Ty.obj.Plain := show isPlain "obj" = true by decide
  have bool : Ty.bool.Plain := show isPlain "bool" = true by decide
  have x : Symbol.Plain ⟨"x", .obj⟩ := ⟨by decide, obj⟩
  have x' : Symbol.Plain ⟨"x", .bool⟩ := ⟨by decide, bool⟩
  have told : shadowing.Told :=
    ⟨⟨obj, ⟨⟨bool, obj, bool⟩, bool⟩, obj⟩,
      x.name, ⟨show isPlain "=" = true by decide, x'.name⟩, x.name⟩
  have toldVar : (Term.var ⟨"x", .obj⟩).Told := ⟨obj, x.name⟩
  have toldConst : (Term.const ⟨"x", .obj⟩).Told := ⟨obj, x.name⟩
  have v1 : (Ty.const "v1").Plain := show isPlain "v1" = true by decide
  have plain : ∀ request ∈ lookalikes, ∀ a ∈ request.types, a.Plain := by
    simpa [lookalikes, Unifier.Request.types, Ty.Plain] using v1
  obtain ⟨types, terms, sets, parts, arenas, matches'⟩ := keys_tell_apart
  obtain ⟨free, asked, atoms⟩ := parts shadowing told
  have hidden : ¬ Term.FreeIn (.var ⟨"x", .obj⟩) shadowing := fun inside => inside.1 rfl
  have listed : shadowing.freeVariables = [⟨"x", .bool⟩] := by decide
  obtain ⟨arena, matched⟩ :
      ∃ arena, Cell.matchIn .empty shadowingPattern shadowing = .ok arena := ⟨_, rfl⟩
  refine ⟨told, ?_, ?_, sets _ (by simp [x, x']), listed ▸ free, ?_, atoms, by decide,
    arenas lookalikes plain, arena, matched,
    matches' shadowingPattern shadowing arena told matched⟩
  · intro same
    cases (types (.var 1) (.const "v1") trivial v1).mp same
  · intro same
    cases (terms _ _ toldVar toldConst).mp same
  · exact Bool.eq_false_iff.mpr (mt (asked _ x).mp hidden)

end Turnstile
