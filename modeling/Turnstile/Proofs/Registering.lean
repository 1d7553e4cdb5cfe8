import Mathlib.Data.Finset.Card
import Mathlib.Data.List.Nodup
import Mathlib.Logic.Function.Basic
import Turnstile.Rule.Registry

/-!
# Registering in two places

A registry can be kept in two places: a list of the entries in their order, and a table of the entry
that each name stands for. An entry is known by its identity, and what it describes is a function of
it. To replace an entry, the table is asked for the old one and the list is searched for it. The
table is right about the list and no two entries of the list have the same name, whatever was
registered; so the search succeeds, and what it finds is the only entry to replace.

The names stand in the order in which they were first registered, each for the last entry that was
registered under it, and a registry that is kept as one list holds the same.
-/

namespace Turnstile

/-- A registry in two places. -/
structure Directory (α : Type) where
  /-- The entries in order. -/
  order : List α
  /-- The entry that a name stands for. -/
  byName : String → Option α

/-- A name that is named again does not come again. -/
theorem eraseDups_concat (names : List String) (n : String) : (names ++ [n]).eraseDups =
    if n ∈ names then names.eraseDups else names.eraseDups ++ [n] := by
  rw [List.eraseDups_append, List.removeAll, List.filter_singleton]
  by_cases again : n ∈ names
  · simp [again]
  · simp [again, List.eraseDups_cons]

namespace Directory

variable {α : Type} {name : α → String} {entries : List α} {r : Directory α} {a : α}

/-- The directory without entries. -/
def empty : Directory α := ⟨[], fun _ => none⟩

/-- What holds of a directory in which some entries were registered. -/
structure Keeps (name : α → String) (entries : List α) (r : Directory α) : Prop where
  /-- The names stand in the order in which they were first registered. -/
  names : r.order.map name = (entries.map name).eraseDups
  /-- Each of them stands once. -/
  nodup : (r.order.map name).Nodup
  /-- A name stands for the last entry that was registered under it. -/
  latest : ∀ n, r.byName n = entries.reverse.find? fun a => name a == n
  /-- A name stands for the entry that has a place in the order under this name. -/
  placed : ∀ n a, r.byName n = some a ↔ a ∈ r.order ∧ name a = n

/-- The empty directory keeps no entries. -/
theorem keeps_empty (name : α → String) : Keeps name [] empty where
  names := rfl
  nodup := List.nodup_nil
  latest _ := rfl
  placed := by simp [empty]

/-- Where names are different, putting an entry in a place of the same name replaces the entry of
this name. -/
theorem set_eq_map {order : List α} (nodup : (order.map name).Nodup) {place : Nat}
    (inside : place < order.length) (same : name order[place] = name a) :
    order.set place a = order.map fun old => if name old = name a then a else old := by
  refine List.ext_getElem (by simp) fun i _ bound => ?_
  rw [List.length_map] at bound
  rw [List.getElem_set, List.getElem_map]
  by_cases here : place = i
  · subst here
    rw [if_pos rfl, if_pos same]
  · have other : name order[i] ≠ name a := by
      intro again
      have names : (order.map name).get ⟨place, by simpa⟩ =
          (order.map name).get ⟨i, by simpa⟩ := by
        simp only [List.get_eq_getElem, List.getElem_map, same, again]
      exact here (Fin.mk.inj (nodup.injective_get names))
    rw [if_neg here, if_neg other]

/-- The table gives what a search through the order gives. -/
theorem Keeps.find? (keeps : Keeps name entries r) (n : String) :
    r.order.find? (fun a => name a == n) = r.byName n := by
  cases found : r.order.find? fun a => name a == n with
  | some a =>
    exact ((keeps.placed n a).mpr
      ⟨List.mem_of_find?_eq_some found, by simpa using List.find?_some found⟩).symm
  | none =>
    cases stands : r.byName n with
    | none => rfl
    | some a =>
      obtain ⟨inside, named⟩ := (keeps.placed n a).mp stands
      exact absurd (beq_iff_eq.mpr named) (List.find?_eq_none.mp found a inside)

/-- What the table gives after one more entry. -/
theorem Keeps.latest_concat (keeps : Keeps name entries r) (a : α) (n : String) :
    Function.update r.byName (name a) (some a) n =
      (entries ++ [a]).reverse.find? fun b => name b == n := by
  rw [List.reverse_append, List.reverse_singleton, List.singleton_append, List.find?_cons]
  by_cases here : n = name a
  · subst here
    simp
  · have other : (name a == n) = false := by simpa using Ne.symm here
    simp [other, here, keeps.latest]

/-- An entry of a new name comes last. -/
theorem Keeps.concat (keeps : Keeps name entries r) (missing : r.byName (name a) = none) :
    Keeps name (entries ++ [a])
      ⟨r.order ++ [a], Function.update r.byName (name a) (some a)⟩ := by
  have new : ∀ b ∈ r.order, name b ≠ name a := fun b inside same => by
    rw [(keeps.placed (name a) b).mpr ⟨inside, same⟩] at missing
    cases missing
  have fresh : name a ∉ entries.map name := by
    rw [← List.mem_eraseDups, ← keeps.names]
    simpa using new
  constructor
  case names => rw [List.map_append, List.map_append, List.map_singleton, eraseDups_concat,
    if_neg fresh, keeps.names]
  case nodup => simpa [List.nodup_append, keeps.nodup] using new
  case latest => exact keeps.latest_concat a
  case placed =>
    intro n b
    dsimp only
    by_cases here : n = name a
    · subst here
      simp only [Function.update_self, Option.some.injEq, List.mem_append, List.mem_singleton]
      constructor
      · rintro rfl
        exact ⟨.inr rfl, rfl⟩
      · rintro ⟨inside | rfl, same⟩
        · exact absurd same (new b inside)
        · rfl
    · rw [Function.update_of_ne here, keeps.placed, List.mem_append, List.mem_singleton]
      constructor
      · rintro ⟨inside, named⟩
        exact ⟨.inl inside, named⟩
      · rintro ⟨inside | rfl, named⟩
        · exact ⟨inside, named⟩
        · exact absurd named.symm here

/-- An entry of a name that was registered replaces the entry of this name. -/
theorem Keeps.replace (keeps : Keeps name entries r) {old : α}
    (stands : r.byName (name a) = some old) :
    Keeps name (entries ++ [a]) ⟨r.order.map fun b => if name b = name a then a else b,
      Function.update r.byName (name a) (some a)⟩ := by
  obtain ⟨known, named⟩ := (keeps.placed _ _).mp stands
  have again : name a ∈ entries.map name := by
    rw [← List.mem_eraseDups, ← keeps.names, ← named]
    exact List.mem_map_of_mem known
  have names : (r.order.map fun b => if name b = name a then a else b).map name =
      r.order.map name := by
    rw [List.map_map]
    refine List.map_congr_left fun b _ => ?_
    by_cases same : name b = name a <;> simp [same]
  constructor
  case names => rw [names, List.map_append, List.map_singleton, eraseDups_concat, if_pos again,
    keeps.names]
  case nodup => exact names ▸ keeps.nodup
  case latest => exact keeps.latest_concat a
  case placed =>
    intro n b
    dsimp only
    rw [List.mem_map]
    by_cases here : n = name a
    · subst here
      rw [Function.update_self, Option.some.injEq]
      constructor
      · rintro rfl
        exact ⟨⟨old, known, if_pos named⟩, rfl⟩
      · rintro ⟨⟨c, inside, rfl⟩, same⟩
        split at same
        next here => rw [if_pos here]
        next apart => exact absurd same apart
    · rw [Function.update_of_ne here, keeps.placed]
      constructor
      · rintro ⟨inside, rfl⟩
        exact ⟨⟨b, inside, if_neg here⟩, rfl⟩
      · rintro ⟨⟨c, inside, rfl⟩, rfl⟩
        split at here
        next => exact absurd rfl here
        next apart => exact ⟨by rwa [if_neg apart], rfl⟩

/-! ## Registering -/

variable [DecidableEq α]

/-- Register an entry under its name: it takes the place of the entry that the name stands for, or
comes last. There is no result if the entry that is to be replaced has no place. -/
def register (name : α → String) (r : Directory α) (a : α) : Option (Directory α) :=
  let byName := Function.update r.byName (name a) (some a)
  match r.byName (name a) with
  | none => some ⟨r.order ++ [a], byName⟩
  | some old => (r.order.idxOf? old).map fun place => ⟨r.order.set place a, byName⟩

/-- Register some entries one after the other. -/
def registerAll (name : α → String) (entries : List α) : Option (Directory α) :=
  entries.foldlM (register name) empty

/-- What registering an entry comes to: the entry of its name is replaced, or it comes last. -/
theorem Keeps.register_eq (keeps : Keeps name entries r) (a : α) :
    register name r a = some ⟨if (r.byName (name a)).isSome
        then r.order.map fun old => if name old = name a then a else old
        else r.order ++ [a], Function.update r.byName (name a) (some a)⟩ := by
  rw [register]
  cases stands : r.byName (name a) with
  | none => rfl
  | some old =>
    obtain ⟨known, named⟩ := (keeps.placed _ _).mp stands
    obtain ⟨place, found⟩ := Option.isSome_iff_exists.mp (List.isSome_idxOf?.mpr known)
    obtain ⟨inside, is, -⟩ := List.idxOf?_eq_some_iff.mp found
    rw [Option.isSome_some, if_pos rfl, ← set_eq_map keeps.nodup inside (is ▸ named)]
    dsimp only
    rw [found]
    rfl

/-- Registering one more entry has a result, of which the same holds. -/
theorem Keeps.register (keeps : Keeps name entries r) (a : α) :
    ∃ r', register name r a = some r' ∧ Keeps name (entries ++ [a]) r' := by
  refine ⟨_, keeps.register_eq a, ?_⟩
  cases stands : r.byName (name a) with
  | none => exact keeps.concat stands
  | some old => exact keeps.replace stands

end Directory

/-! ## The same registry as one list -/

namespace Registry

variable {normal : String → String} {α : Type} {describe : α → Descriptor} {entries : List α}
  {r r' : Directory α} {one : Registry normal}

/-- The list of descriptors that describes the entries of a directory in their order. -/
def Mirrors (describe : α → Descriptor) (r : Directory α) (one : Registry normal) : Prop :=
  one.rules = r.order.map describe

/-- In a directory that mirrors a registry the same rules are found. -/
theorem Mirrors.lookup (mirrors : Mirrors describe r one)
    (keeps : r.Keeps (fun a => normal (describe a).name) entries) (n : String) :
    one.lookup n = (r.byName (normal n)).map describe := by
  rw [Registry.lookup, mirrors, List.find?_map, ← keeps.find?]
  rfl

variable [DecidableEq α]

/-- Registering in both keeps a directory that mirrors a registry mirroring it. -/
theorem Mirrors.register (mirrors : Mirrors describe r one)
    (keeps : r.Keeps (fun a => normal (describe a).name) entries) {a : α}
    (registered : Directory.register (fun a => normal (describe a).name) r a = some r') :
    Mirrors describe r' (one.register (describe a)) := by
  rw [keeps.register_eq] at registered
  cases registered
  rw [Mirrors, Registry.register, mirrors.lookup keeps, Option.isSome_map]
  split
  next =>
    dsimp only
    rw [mirrors, List.map_map, List.map_map]
    refine List.map_congr_left fun old _ => ?_
    by_cases same : normal (describe old).name = normal (describe a).name <;> simp [same]
  next =>
    dsimp only
    rw [mirrors, List.map_append, List.map_singleton]

/-- Registering some entries has a result, and registering what describes them gives the list of
descriptors that describes it. -/
theorem registerAll_keeps (normal : String → String) (describe : α → Descriptor)
    (entries : List α) :
    ∃ r, Directory.registerAll (fun a => normal (describe a).name) entries = some r ∧
      r.Keeps (fun a => normal (describe a).name) entries ∧
      Mirrors describe r (ofList (entries.map describe) : Registry normal) := by
  induction entries using List.reverseRecOn with
  | nil => exact ⟨.empty, rfl, Directory.keeps_empty _, rfl⟩
  | append_singleton entries a ih =>
    obtain ⟨r, registered, keeps, mirrors⟩ := ih
    obtain ⟨r', last, keeps'⟩ := keeps.register a
    refine ⟨r', ?_, keeps', ?_⟩
    · rw [Directory.registerAll, List.foldlM_append]
      rw [Directory.registerAll] at registered
      simp [registered, last]
    · have more : (ofList ((entries ++ [a]).map describe) : Registry normal) =
          (ofList (entries.map describe) : Registry normal).register (describe a) := by
        simp [ofList]
      rw [more]
      exact mirrors.register keeps last

/-- Whatever is registered and however names are normalised, the entry to replace is found. The
entries stand in the order in which their normalised names were first registered, each being the
last one that was registered under its name; a name is looked up as the last entry that was
registered under a name that normalises alike; and there are as many entries as there are different
normalised names. The registry of the descriptors holds what describes these entries. -/
theorem registerAll_exact (normal : String → String) (describe : α → Descriptor)
    (entries : List α) :
    ∃ r, Directory.registerAll (fun a => normal (describe a).name) entries = some r ∧
      r.order.map some = (entries.map fun a => normal (describe a).name).eraseDups.map (fun n =>
        entries.reverse.find? fun a => normal (describe a).name == n) ∧
      (∀ n, r.byName (normal n) =
        entries.reverse.find? fun a => normal (describe a).name == normal n) ∧
      (∀ n, (r.byName (normal n)).isSome ↔ ∃ a ∈ entries, normal (describe a).name = normal n) ∧
      r.order.length = (entries.map fun a => normal (describe a).name).toFinset.card ∧
      (ofList (entries.map describe) : Registry normal).rules = r.order.map describe ∧
      (ofList (entries.map describe) : Registry normal).size = r.order.length ∧
      ∀ n, (ofList (entries.map describe) : Registry normal).lookup n =
        (r.byName (normal n)).map describe := by
  obtain ⟨r, registered, keeps, mirrors⟩ := registerAll_keeps normal describe entries
  refine ⟨r, registered, ?_, fun n => keeps.latest _, fun n => ?_, ?_, mirrors, ?_,
    mirrors.lookup keeps⟩
  · rw [← keeps.names, List.map_map]
    refine List.map_congr_left fun a inside => ?_
    rw [Function.comp_apply, ← keeps.latest, (keeps.placed _ a).mpr ⟨inside, rfl⟩]
  · rw [keeps.latest, List.find?_isSome]
    simp
  · have same : (entries.map fun a => normal (describe a).name).toFinset =
        (r.order.map fun a => normal (describe a).name).toFinset := by
      ext n
      rw [List.mem_toFinset, List.mem_toFinset, keeps.names, List.mem_eraseDups]
    rw [same, List.toFinset_card_of_nodup keeps.nodup, List.length_map]
  · rw [size, mirrors, List.length_map]

end Registry

end Turnstile
