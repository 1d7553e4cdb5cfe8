import Turnstile.Proofs.Inference

/-!
# Renaming type variables

Which numbers type variables have is of no consequence: a one-to-one renaming commutes with
everything that is computed from types. It commutes with unification exactly, since keys tell
renamed types apart just as they tell the types, and with the order in which free variables are
listed, since that depends on their names alone as long as one name has one type.
-/

namespace Turnstile

/-- A one-to-one renaming of type variables, together with one of assumptions. It may be asked to
take choices along; a run that makes no choices does not need that. -/
structure Renaming where
  /-- The new number of a type variable. -/
  type : Int → Int
  /-- The new number of an assumption. -/
  assumption : Nat → Nat
  /-- Whether choices are taken along. -/
  choosing : Prop
  /-- Different type variables stay different. -/
  type_injective : Function.Injective type
  /-- Different assumptions stay different. -/
  assumption_injective : Function.Injective assumption

namespace Renaming

/-- The renaming that changes nothing. -/
protected def id : Renaming := ⟨fun id => id, fun id => id, True, fun _ _ h => h, fun _ _ h => h⟩

/-- The new type variables as types. -/
def types (ρ : Renaming) (id : Int) : Ty := .var (ρ.type id)

variable {ρ : Renaming}

/-- A renaming puts a type variable for a type variable. -/
@[simp] theorem types_apply (id : Int) : ρ.types id = .var (ρ.type id) := rfl

/-- What a renaming puts for type variables is plain. -/
theorem types_plain (id : Int) : (ρ.types id).Plain := trivial

/-- The renaming that changes nothing puts every variable for itself. -/
@[simp] theorem id_types : Renaming.id.types = .var := rfl

end Renaming

variable {ρ : Renaming}

/-! ## Types -/

namespace Ty

/-- A constant type is not renamed. -/
@[simp] theorem renamed_const (name : String) : (const name).mapVars ρ.types = const name := rfl

/-- A type variable is renamed to another one. -/
@[simp] theorem renamed_var (id : Int) : (var id).mapVars ρ.types = var (ρ.type id) := rfl

/-- Arrow types are renamed part by part. -/
@[simp] theorem renamed_arrow (d c : Ty) :
    (arrow d c).mapVars ρ.types = arrow (d.mapVars ρ.types) (c.mapVars ρ.types) := rfl

/-- Different types are renamed to different ones. -/
@[simp] theorem renamed_inj {a b : Ty} : a.mapVars ρ.types = b.mapVars ρ.types ↔ a = b := by
  constructor
  · intro same
    induction a generalizing b with
    | const name => cases b <;> simp_all
    | var id =>
      cases b with
      | var id' => simpa using ρ.type_injective (by simpa using same)
      | const _ => simp at same
      | arrow _ _ => simp at same
    | arrow d c dIh cIh =>
      cases b with
      | arrow d' c' =>
        obtain ⟨domains, codomains⟩ : _ ∧ _ := by simpa using same
        rw [dIh domains, cIh codomains]
      | const _ => simp at same
      | var _ => simp at same
  · intro same
    rw [same]

/-- Plain types are renamed to plain ones. -/
theorem renamed_plain {a : Ty} (plain : a.Plain) : (a.mapVars ρ.types).Plain :=
  plain.mapVars fun _ _ => trivial

/-- Renamed types have one key exactly when the types do. -/
theorem renamed_key_inj {a b : Ty} (plainA : a.Plain) (plainB : b.Plain) :
    (a.mapVars ρ.types).key = (b.mapVars ρ.types).key ↔ a.key = b.key := by
  constructor
  · intro same
    rw [renamed_inj.mp (key_inj (renamed_plain plainA) (renamed_plain plainB) same)]
  · intro same
    rw [key_inj plainA plainB same]

/-- Exactly type variables are renamed to type variables. -/
@[simp] theorem renamed_isVar (a : Ty) : (a.mapVars ρ.types).isVar = a.isVar := by
  cases a <;> rfl

/-- Renaming leaves the size of a type. -/
@[simp] theorem renamed_size (a : Ty) : (a.mapVars ρ.types).size = a.size := by
  induction a with
  | const _ => rfl
  | var _ => rfl
  | arrow d c dIh cIh => simp [size, dIh, cIh]

/-- The variables of a renamed type are the renamed variables. -/
@[simp] theorem renamed_vars (a : Ty) : (a.mapVars ρ.types).vars = a.vars.map ρ.type := by
  induction a with
  | const _ => rfl
  | var _ => rfl
  | arrow d c dIh cIh => simp [vars, dIh, cIh]

/-- A renamed variable occurs in a renamed type exactly where it occurs in the type. -/
@[simp] theorem renamed_occurs (id : Int) (a : Ty) :
    (a.mapVars ρ.types).occurs (ρ.type id) = a.occurs id := by
  rw [Bool.eq_iff_iff, occurs_iff, occurs_iff, renamed_vars,
    List.mem_map_of_injective ρ.type_injective]

/-- Putting values for renamed variables, when the values are renamed as well. -/
theorem renamed_traverseVars {f g : Int → Option Ty}
    (values : ∀ id, g (ρ.type id) = (f id).map (mapVars ρ.types)) (a : Ty) :
    (a.mapVars ρ.types).traverseVars g = (a.traverseVars f).map (mapVars ρ.types) := by
  induction a with
  | const _ => rfl
  | var id => exact values id
  | arrow d c dIh cIh =>
    simp only [renamed_arrow, traverseVars, dIh, cIh]
    cases d.traverseVars f <;> cases c.traverseVars f <;> rfl

end Ty

/-! ## Unifiers -/

namespace Unifier

/-- A member with the type variables of its value renamed. -/
def renamedMember (ρ : Renaming) (m : Member Ty) : Member Ty :=
  ⟨(m.value.mapVars ρ.types).key, m.value.mapVars ρ.types, m.leader⟩

/-- A unifier with all type variables renamed. -/
def renamed (ρ : Renaming) (u : Unifier) : Unifier := ⟨⟨u.types.members.map (renamedMember ρ)⟩⟩

/-- Members are filed under their keys, and these can be read back. -/
def Filed (u : Unifier) : Prop :=
  ∀ m ∈ u.types.members, m.key = Keyed.key m.value ∧ m.value.Plain

variable {u : Unifier} {a b : Ty}

/-- A consistent unifier is filed. -/
theorem Consistent.filed (consistent : u.Consistent) : u.Filed := fun m inside =>
  ⟨consistent.lawful.keyed m inside, consistent.plain m inside⟩

/-- The empty unifier is not changed by renaming. -/
theorem renamed_empty : Unifier.empty.renamed ρ = Unifier.empty := rfl

/-- A renamed unifier has as many types. -/
@[simp] theorem renamed_types_size : (u.renamed ρ).types.size = u.types.size := by
  simp [Partition.size, renamed]

/-- A renamed type is the member that the type is, renamed. -/
theorem renamed_member? (filed : u.Filed) (plain : a.Plain) :
    (u.renamed ρ).types.member? (Keyed.key (a.mapVars ρ.types)) =
      (u.types.member? (Keyed.key a)).map (renamedMember ρ) := by
  rw [Partition.member?, Partition.member?, renamed, List.find?_map]
  refine congrArg _ ?_
  rw [Filed] at filed
  generalize u.types.members = members at filed
  induction members with
  | nil => rfl
  | cons m rest ih =>
    obtain ⟨⟨key, plainM⟩, others⟩ := List.forall_mem_cons.mp filed
    have sameKeys : ((renamedMember ρ m).key == Keyed.key (a.mapVars ρ.types)) =
        (m.key == Keyed.key a) := by
      rw [Bool.eq_iff_iff, beq_iff_eq, beq_iff_eq, key]
      exact Ty.renamed_key_inj plainM plain
    rw [List.find?_cons, List.find?_cons, Function.comp_apply, sameKeys, ih others]

/-- A renamed type is found where the type is. -/
theorem renamed_find (filed : u.Filed) (plain : a.Plain) :
    (u.renamed ρ).types.find (a.mapVars ρ.types) =
      ((u.types.find a).1, ((u.seen a).renamed ρ).types) := by
  have found := renamed_member? (ρ := ρ) filed plain
  rw [seen, Partition.find, Partition.find, found]
  cases u.types.member? (Keyed.key a) with
  | some m => rfl
  | none =>
    simp only [Option.map_none, renamed_types_size]
    simp [renamed, renamedMember, Keyed.key]

/-- Looking at a renamed type is looking at the type, and then renaming. -/
theorem renamed_seen (filed : u.Filed) (plain : a.Plain) :
    (u.renamed ρ).seen (a.mapVars ρ.types) = (u.seen a).renamed ρ := by
  rw [seen, renamed_find filed plain]

/-- A unifier is filed after looking at a plain type. -/
theorem Filed.seen (filed : u.Filed) (plain : a.Plain) : (u.seen a).Filed := by
  intro m inside
  rcases Partition.mem_of_mem_find inside with old | new
  · exact filed m old
  · rw [new]
    exact ⟨rfl, plain⟩

/-- The values of a renamed unifier are the renamed values. -/
theorem renamed_valueAt (place : Nat) (fallback : Ty) :
    (u.renamed ρ).types.valueAt place (fallback.mapVars ρ.types) =
      (u.types.valueAt place fallback).mapVars ρ.types := by
  simp only [Partition.valueAt, renamed, List.getElem?_map]
  cases u.types.members[place]? <;> rfl

/-- The values of a filed unifier are plain. -/
theorem Filed.valueAt (filed : u.Filed) (place : Nat) (plain : a.Plain) :
    (u.types.valueAt place a).Plain := by
  rw [Partition.valueAt]
  split
  next m found => exact (filed m (List.mem_of_getElem? found)).2
  next => exact plain

/-- Linking in a renamed unifier is linking, and then renaming. -/
theorem renamed_link (keep discard : Nat) :
    (⟨(u.renamed ρ).types.link keep discard⟩ : Unifier) =
      (⟨u.types.link keep discard⟩ : Unifier).renamed ρ := by
  simp only [Partition.link, renamed, List.map_map, Unifier.mk.injEq, Partition.mk.injEq]
  refine List.map_congr_left fun m _ => ?_
  by_cases led : m.leader = discard
  · simp [renamedMember, led]
  · simp [renamedMember, led]

/-- A unifier is filed after linking. -/
theorem Filed.link (filed : u.Filed) (keep discard : Nat) :
    (⟨u.types.link keep discard⟩ : Unifier).Filed := by
  intro m inside
  obtain ⟨old, member, rfl⟩ := List.mem_map.mp inside
  have holds := filed old member
  split <;> exact holds

/-- The leader of a renamed variable is the renamed leader. -/
theorem renamed_leader? (filed : u.Filed) (id : Int) :
    (u.renamed ρ).leader? (ρ.type id) = (u.leader? id).map (Ty.mapVars ρ.types) := by
  have found : (u.renamed ρ).types.member? (Ty.var (ρ.type id)).key =
      (u.types.member? (Ty.var id).key).map (renamedMember ρ) :=
    renamed_member? (a := .var id) filed trivial
  rw [leader?, leader?, found, Option.map_map, Option.map_map]
  congr 1
  funext m
  exact renamed_valueAt m.leader m.value

/-- Applying to any depth commutes with renaming. -/
theorem renamed_applyWithin (filed : u.Filed) (depth : Nat) : ∀ t : Ty,
    (u.renamed ρ).applyWithin depth (t.mapVars ρ.types) =
      (u.applyWithin depth t).map (Ty.mapVars ρ.types) := by
  induction depth with
  | zero =>
    intro t
    refine Ty.renamed_traverseVars (fun id => ?_) t
    rw [renamed_leader? filed]
    cases found : u.leader? id with
    | none => rfl
    | some value => cases value <;> rfl
  | succ depth ih =>
    intro t
    refine Ty.renamed_traverseVars (fun id => ?_) t
    rw [renamed_leader? filed]
    cases found : u.leader? id with
    | none => rfl
    | some value =>
      cases value with
      | var _ => rfl
      | const name => exact ih (.const name)
      | arrow d c => exact ih (.arrow d c)

/-- Values are put for renamed variables as for the variables. -/
theorem renamed_apply (filed : u.Filed) (t : Ty) :
    (u.renamed ρ).apply (t.mapVars ρ.types) = (u.apply t).mapVars ρ.types := by
  rw [apply, apply, renamed_types_size, renamed_applyWithin filed]
  cases u.applyWithin u.types.size t <;> rfl

/-- What a call of the unifier answers, with all type variables renamed. -/
def renamedOutcome (ρ : Renaming) (outcome : Option Clash × Unifier) : Option Clash × Unifier :=
  (outcome.1.map fun clash =>
      ⟨clash.left.mapVars ρ.types, clash.right.mapVars ρ.types, clash.cyclic⟩,
    outcome.2.renamed ρ)

/-- A call of the unifier keeps members filed and commutes with renaming. -/
structure Renamable (ρ : Renaming) (outcome outcome' : Option Clash × Unifier) : Prop where
  /-- Members stay filed. -/
  filed : outcome.2.Filed
  /-- The renamed call answers the same, renamed. -/
  renamed : outcome' = renamedOutcome ρ outcome

/-- Binding a variable commutes with renaming. -/
theorem Filed.bind (filed : u.Filed) (keep discard : Nat) (kept : Ty) (id : Int) :
    Renamable ρ (u.bind keep discard kept id)
      ((u.renamed ρ).bind keep discard (kept.mapVars ρ.types) (ρ.type id)) := by
  rw [Unifier.bind, Unifier.bind, renamed_apply filed, Ty.renamed_occurs, renamed_link]
  split
  · exact ⟨filed, rfl⟩
  · exact ⟨filed.link keep discard, rfl⟩

/-- Merging two types commutes with renaming. -/
theorem Filed.merge (filed : u.Filed) (plainA : a.Plain) (plainB : b.Plain) :
    (u.merge a b).Filed ∧
      (u.renamed ρ).merge (a.mapVars ρ.types) (b.mapVars ρ.types) = (u.merge a b).renamed ρ := by
  have filedA := filed.seen plainA
  have filedB := filedA.seen plainB
  rw [merge_eq, merge_eq, renamed_seen filed plainA, renamed_seen filedA plainB,
    renamed_find filed plainA, renamed_find filedA plainB]
  split
  · exact ⟨filedB, rfl⟩
  · exact ⟨filedB.link _ _, renamed_link _ _⟩

/-- A unification answers, or gives up, and the renamed one gives the renamed answer. -/
structure Parallel (ρ : Renaming) (answer answer' : Option (Option Clash × Unifier)) : Prop where
  /-- The other answer is the renamed one. -/
  renamed : answer' = answer.map (renamedOutcome ρ)
  /-- What the answer leaves is filed. -/
  filed : ∀ outcome, answer = some outcome → outcome.2.Filed

/-- Two questions that do not end are parallel. -/
theorem parallel_none : Parallel ρ none none := ⟨rfl, by simp⟩

/-- An answer and the renamed one are parallel. -/
theorem parallel_some {outcome : Option Clash × Unifier} (filed : outcome.2.Filed) :
    Parallel ρ (some outcome) (some (renamedOutcome ρ outcome)) :=
  ⟨rfl, fun _ same => Option.some.inj same ▸ filed⟩

/-- A recursion of the unifier that commutes with renaming whenever it answers. -/
def Commutes (ρ : Renaming)
    (recur : Unifier → Ty → Ty → Option (Option Clash × Unifier)) : Prop :=
  ∀ {u : Unifier} {a b : Ty}, u.Filed → a.Plain → b.Plain →
    Parallel ρ (recur u a b) (recur (u.renamed ρ) (a.mapVars ρ.types) (b.mapVars ρ.types))

variable {recur : Unifier → Ty → Ty → Option (Option Clash × Unifier)}

/-- Unifying arrows commutes with renaming if unifying does one level deeper. -/
theorem Commutes.arrows (commutes : Commutes ρ recur) (filed : u.Filed) (plainA : a.Plain)
    (plainB : b.Plain) {d c d' c' : Ty} (plain : (Ty.arrow d c).Plain)
    (plain' : (Ty.arrow d' c').Plain) :
    Parallel ρ (unifyArrows recur u a b d c d' c')
      (unifyArrows recur (u.renamed ρ) (a.mapVars ρ.types) (b.mapVars ρ.types)
        (d.mapVars ρ.types) (c.mapVars ρ.types) (d'.mapVars ρ.types) (c'.mapVars ρ.types)) := by
  have domains := commutes filed plain.1 plain'.1
  rw [unifyArrows, unifyArrows, domains.renamed]
  rcases first : recur u d d' with _ | ⟨_ | clash, v⟩
  · exact parallel_none
  · have filedV := domains.filed _ first
    have codomains := commutes filedV plain.2 plain'.2
    simp only [renamedOutcome, Option.map_none, Option.map_some, codomains.renamed]
    rcases second : recur v c c' with _ | ⟨_ | clash, w⟩
    · exact parallel_none
    · obtain ⟨filedM, merged⟩ := (codomains.filed _ second).merge (ρ := ρ) plainA plainB
      simp only [Option.map_some, renamedOutcome, Option.map_none, merged]
      exact parallel_some filedM
    · exact parallel_some (codomains.filed _ second)
  · exact parallel_some (domains.filed _ first)

/-- Unifying leaders commutes with renaming if unifying does one level deeper. -/
theorem Commutes.leaders (commutes : Commutes ρ recur) (filed : u.Filed) (plainA : a.Plain)
    (plainB : b.Plain) (i j : Nat) {va vb : Ty} (plain : va.Plain) (plain' : vb.Plain) :
    Parallel ρ (unifyLeaders recur u a b i j va vb)
      (unifyLeaders recur (u.renamed ρ) (a.mapVars ρ.types) (b.mapVars ρ.types) i j
        (va.mapVars ρ.types) (vb.mapVars ρ.types)) := by
  have answers : ∀ {answer answer' : Option Clash × Unifier}, Renamable ρ answer answer' →
      Parallel ρ (some answer) (some answer') := fun renamable => by
    rw [renamable.renamed]
    exact parallel_some renamable.filed
  cases va with
  | var id => exact answers (filed.bind j i vb id)
  | const name =>
    cases vb with
    | var id => exact answers (filed.bind i j (.const name) id)
    | const name' => exact parallel_some filed
    | arrow d c => exact parallel_some filed
  | arrow d c =>
    cases vb with
    | var id => exact answers (filed.bind i j (.arrow d c) id)
    | const name' => exact parallel_some filed
    | arrow d' c' => exact commutes.arrows filed plainA plainB plain plain'

/-- Unifying to any depth commutes with renaming. -/
theorem unifyWithin_commutes (depth : Nat) : Commutes ρ (unifyWithin depth) := by
  induction depth with
  | zero => exact fun _ _ _ => parallel_none
  | succ depth ih =>
    intro u a b filed plainA plainB
    have filedA := filed.seen plainA
    have filedB := filedA.seen plainB
    rw [unifyWithin_eq, unifyWithin_eq, renamed_seen filed plainA, renamed_seen filedA plainB,
      renamed_find filed plainA, renamed_find filedA plainB, renamed_valueAt, renamed_valueAt]
    by_cases same : (u.types.find a).1 = ((u.seen a).types.find b).1
    · rw [if_pos same, if_pos same]
      exact parallel_some filedB
    · rw [if_neg same, if_neg same]
      exact ih.leaders filedB plainA plainB _ _ (filedB.valueAt _ plainA) (filedB.valueAt _ plainB)

/-- Renaming leaves the reach of a question. -/
theorem renamed_reach : (u.renamed ρ).reach (a.mapVars ρ.types) (b.mapVars ρ.types) =
    u.reach a b := by
  have weights : (u.renamed ρ).weight = u.weight := by
    rw [weight, weight, renamed, List.foldr_map]
    simp [renamedMember]
  simp [reach, weights]

/-- Unification commutes with renaming. -/
theorem Filed.unify (filed : u.Filed) (plainA : a.Plain) (plainB : b.Plain) :
    Renamable ρ (u.unify a b) ((u.renamed ρ).unify (a.mapVars ρ.types) (b.mapVars ρ.types)) := by
  have commutes := unifyWithin_commutes (ρ := ρ) (u.reach a b) filed plainA plainB
  rw [Unifier.unify, Unifier.unify, renamed_reach, commutes.renamed]
  rcases done : unifyWithin (u.reach a b) u a b with _ | outcome
  · exact ⟨filed, rfl⟩
  · exact ⟨commutes.filed _ done, rfl⟩

/-- Unifying some types with a first one commutes with renaming. -/
theorem Filed.unifyAll {first : Ty} (plain : first.Plain) : ∀ {u : Unifier} {types : List Ty},
    u.Filed → (∀ t ∈ types, t.Plain) →
      Renamable ρ (unifyAll first u types)
        (unifyAll (first.mapVars ρ.types) (u.renamed ρ) (types.map (Ty.mapVars ρ.types)))
  | u, [], filed, _ =>
    ⟨filed.seen plain, congrArg (Prod.mk none) (renamed_seen filed plain)⟩
  | u, t :: rest, filed, plains => by
    have step := filed.unify (ρ := ρ) plain (plains t List.mem_cons_self)
    rw [List.map_cons, Unifier.unifyAll, Unifier.unifyAll, step.renamed]
    rcases done : u.unify first t with ⟨_ | clash, v⟩ <;> rw [done] at step
    · exact step.filed.unifyAll plain fun t' inside => plains t' (List.mem_cons_of_mem _ inside)
    · exact ⟨step.filed, rfl⟩

/-- Unifying many types commutes with renaming. -/
theorem Filed.unifyMany (filed : u.Filed) {types : List Ty} (plains : ∀ t ∈ types, t.Plain) :
    Renamable ρ (u.unifyMany types)
      ((u.renamed ρ).unifyMany (types.map (Ty.mapVars ρ.types))) := by
  cases types with
  | nil => exact ⟨filed, rfl⟩
  | cons first rest =>
    exact filed.unifyAll (plains first List.mem_cons_self)
      fun t inside => plains t (List.mem_cons_of_mem _ inside)

/-- The empty unifier is filed. -/
theorem filed_empty : Unifier.empty.Filed := consistent_empty.filed

end Unifier

/-- Renamed types can be unified exactly when the types can. -/
theorem Ty.renamed_canUnify {a b : Ty} (plainA : a.Plain) (plainB : b.Plain) :
    canUnify (a.mapVars ρ.types) (b.mapVars ρ.types) = canUnify a b := by
  have plains : ∀ t ∈ [a, b], t.Plain := by simp [plainA, plainB]
  have unified := Unifier.filed_empty.unifyMany (ρ := ρ) plains
  rw [canUnify, canUnify, ← Unifier.renamed_empty (ρ := ρ)]
  have renamed := unified.renamed
  simp only [List.map_cons, List.map_nil] at renamed
  rw [renamed, Unifier.renamedOutcome, Option.isNone_map, Unifier.renamed_empty]

end Turnstile
