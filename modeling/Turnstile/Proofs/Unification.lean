import Mathlib.Data.List.Nodup
import Turnstile.Proofs.Names
import Turnstile.Proofs.Partition
import Turnstile.Proofs.TypeSubstitution
import Turnstile.Ty.Unifier

/-!
# The unifier solves its equations most generally

A substitution solves a unifier when it makes the types of every class equal. A unifier is
consistent when it is lawful and its classes spell out a solution: a variable stands for its
leader, and a leader that is a function type for the function type of what its variables stand
for. No class can then contain itself, because a part of a type is smaller than the type.

Every call keeps a unifier consistent, whether it succeeds or fails. A call that succeeds adds
exactly its own equation to those that a solution must satisfy, and a call fails only if no
solution satisfies its equation. The bounds on the recursions are never reached: `apply` goes
through one class at a time, and nested calls of `unifyWithin` meet types that differ in size
under every solution.
-/

namespace Turnstile.Unifier

/-- A substitution makes the types of every class equal. -/
def Solves (σ : Int → Ty) (u : Unifier) : Prop := u.types.Respects (Ty.mapVars σ)

/-- A substitution puts for every variable what its class says. -/
def Resolves (θ : Int → Ty) (u : Unifier) : Prop :=
  ∀ id, θ id = match u.leader? id with
    | none => .var id
    | some (.var leader) => .var leader
    | some value => value.mapVars θ

/-- What every unifier satisfies that is reached by unifying plain types. -/
structure Consistent (u : Unifier) : Prop where
  /-- The partition is lawful. -/
  lawful : u.types.Lawful
  /-- The types seen are plain. -/
  plain : ∀ m ∈ u.types.members, m.value.Plain
  /-- The classes spell out a solution. -/
  solved : ∃ θ, Resolves θ u ∧ Solves θ u

variable {u : Unifier} {σ θ : Int → Ty} {a b : Ty}

/-! ## Leaders -/

/-- In a consistent unifier the member with a plain type's key holds that type. -/
theorem Consistent.value_eq (consistent : u.Consistent) {m : Member Ty}
    (inside : m ∈ u.types.members) (plain : a.Plain) (same : m.key = Keyed.key a) :
    m.value = a :=
  Ty.key_inj (consistent.plain m inside) plain ((consistent.lawful.keyed m inside).symm.trans same)

/-- A variable's leader is the value at the place that its member records. -/
theorem Consistent.leader?_eq (consistent : u.Consistent) {m l : Member Ty} {id : Int}
    (inside : m ∈ u.types.members) (holds : m.value = .var id)
    (leads : u.types.Leads m.leader l) : u.leader? id = some l.value := by
  have key : (Ty.var id).key = m.key := by
    rw [consistent.lawful.keyed m inside, holds]
    rfl
  simp only [leader?, key, consistent.lawful.member?_of_mem inside, Option.map_some,
    leads.valueAt]

/-- A variable without a leader has not been seen. -/
theorem leader?_none {id : Int} (missing : u.leader? id = none) :
    ∀ m ∈ u.types.members, m.key ≠ (Ty.var id).key := by
  rw [leader?, Option.map_eq_none_iff] at missing
  exact Partition.member?_none missing

/-- A variable with a leader has been seen, and the leader is that of its class. -/
theorem Consistent.leader?_some (consistent : u.Consistent) {id : Int} {value : Ty}
    (found : u.leader? id = some value) :
    ∃ m ∈ u.types.members, m.value = .var id ∧
      ∃ l, u.types.Leads m.leader l ∧ l.value = value := by
  obtain ⟨m, member, valueEq⟩ := Option.map_eq_some_iff.mp found
  obtain ⟨inside, key⟩ := Partition.member?_some member
  obtain ⟨l, leads⟩ := consistent.lawful.led m inside
  refine ⟨m, inside, consistent.value_eq inside trivial key, l, leads, ?_⟩
  rw [leads.valueAt] at valueEq
  exact valueEq

/-- The unifier without equations is consistent. -/
theorem consistent_empty : Unifier.empty.Consistent where
  lawful := Partition.lawful_empty
  plain := by simp [Unifier.empty, Partition.empty]
  solved := ⟨.var, fun _ => rfl, by simp [Solves, Partition.Respects, Unifier.empty,
    Partition.empty]⟩

/-! ## Values -/

/-- Whether a member is a variable that stands for a type of at most some size. -/
def standsWithin (θ : Int → Ty) (size : Nat) (m : Member Ty) : Bool :=
  m.value.isVar && decide ((m.value.mapVars θ).size ≤ size)

/-- How many seen variables stand for a type of at most some size. -/
def boundWithin (u : Unifier) (θ : Int → Ty) (size : Nat) : Nat :=
  u.types.members.countP (standsWithin θ size)

/-- No more types are bound than there are. -/
theorem boundWithin_le_size (u : Unifier) (θ : Int → Ty) (size : Nat) :
    u.boundWithin θ size ≤ u.types.size := List.countP_le_length

/-- A seen variable is itself among those that stand for a type of its size. -/
theorem boundWithin_lt {m : Member Ty} {id : Int} (inside : m ∈ u.types.members)
    (holds : m.value = .var id) {size : Nat} (smaller : size < (θ id).size) :
    u.boundWithin θ size < u.boundWithin θ (θ id).size := by
  have mono : ∀ members : List (Member Ty), members.countP (standsWithin θ size) ≤
      members.countP (standsWithin θ (θ id).size) := by
    intro members
    apply List.countP_mono_left
    intro n _ counted
    simp only [standsWithin, Bool.and_eq_true, decide_eq_true_eq] at counted ⊢
    exact ⟨counted.1, by omega⟩
  have here : standsWithin θ (θ id).size m = true := by
    simp [standsWithin, holds, Ty.isVar, Ty.mapVars]
  have notHere : standsWithin θ size m = false := by
    simp only [standsWithin, holds, Ty.isVar, Ty.mapVars, Bool.true_and, decide_eq_false_iff_not]
    omega
  obtain ⟨before, after, split⟩ := List.append_of_mem inside
  have first := mono before
  have second := mono after
  simp only [boundWithin, split, List.countP_append, List.countP_cons, here, notHere]
  simp only [if_true, Bool.false_eq_true, if_false]
  omega

/-- Following as many variables as can be bound below a type gives its instance. -/
theorem Consistent.applyWithin_eq (consistent : u.Consistent) (resolves : Resolves θ u)
    (depth : Nat) (t : Ty)
    (enough : ∀ id ∈ t.vars, ∀ value, u.leader? id = some value → value.isVar = false →
      u.boundWithin θ (θ id).size ≤ depth) :
    u.applyWithin depth t = some (t.mapVars θ) := by
  induction depth generalizing t with
  | zero =>
    rw [applyWithin]
    apply Ty.traverseVars_eq_some
    intro id inside
    have here := resolves id
    cases found : u.leader? id with
    | none => rw [found] at here; simp [here]
    | some value =>
      rw [found] at here
      cases value with
      | var leader => simp [here]
      | const name =>
        obtain ⟨m, seen, holds, _⟩ := consistent.leader?_some found
        have few := enough id inside _ found rfl
        have some := boundWithin_lt seen holds (Ty.size_pos (θ id))
        omega
      | arrow d c =>
        obtain ⟨m, seen, holds, _⟩ := consistent.leader?_some found
        have few := enough id inside _ found rfl
        have some := boundWithin_lt seen holds (Ty.size_pos (θ id))
        omega
  | succ depth ih =>
    rw [applyWithin]
    apply Ty.traverseVars_eq_some
    intro id inside
    have here := resolves id
    cases found : u.leader? id with
    | none => rw [found] at here; simp [here]
    | some value =>
      rw [found] at here
      -- A part of the value stands for a smaller type, so fewer variables are bound below it.
      have inner : value.isVar = false → θ id = value.mapVars θ →
          u.applyWithin depth value = some (θ id) := by
        intro other stands
        rw [stands]
        apply ih
        intro w part value' found' other'
        obtain ⟨m, seen, holds, _⟩ := consistent.leader?_some found
        have smaller := Ty.size_lt_of_mem_vars (f := θ) part other
        rw [← stands] at smaller
        have fewer := boundWithin_lt seen holds smaller
        have few := enough id inside _ found other
        omega
      cases value with
      | var leader => simp [here]
      | const name => exact inner rfl here
      | arrow d c => exact inner rfl here

/-- Applying a consistent unifier is substituting its solution, and the bound on the depth is
not reached. -/
theorem Consistent.applyWithin_size (consistent : u.Consistent) (resolves : Resolves θ u)
    (t : Ty) : u.applyWithin u.types.size t = some (t.mapVars θ) :=
  consistent.applyWithin_eq resolves _ t fun _ _ _ _ _ => boundWithin_le_size u θ _

/-- Applying a consistent unifier is putting types for variables. -/
theorem Consistent.apply_eq (consistent : u.Consistent) (resolves : Resolves θ u) (t : Ty) :
    u.apply t = t.mapVars θ := by
  rw [apply, consistent.applyWithin_size resolves, Option.getD_some]

/-- Induction from variables to the variables of their values. It ends because the parts of a
value stand for smaller types than the variable does. -/
theorem Resolves.follow (resolves : Resolves θ u) {motive : Int → Prop}
    (unseen : ∀ id, u.leader? id = none → θ id = .var id → motive id)
    (renamed : ∀ id leader, u.leader? id = some (.var leader) → θ id = .var leader → motive id)
    (bound : ∀ id value, u.leader? id = some value → value.isVar = false →
      θ id = value.mapVars θ → (∀ w ∈ value.vars, motive w) → motive id)
    (id : Int) : motive id := by
  have bounded : ∀ n id, (θ id).size ≤ n → motive id := by
    intro n
    induction n with
    | zero =>
      intro id small
      have := Ty.size_pos (θ id)
      omega
    | succ n ih =>
      intro id small
      have here := resolves id
      have inner : ∀ value, u.leader? id = some value → value.isVar = false →
          θ id = value.mapVars θ → motive id := by
        intro value found other stands
        refine bound id value found other stands fun w part => ih w ?_
        have smaller := Ty.size_lt_of_mem_vars (f := θ) part other
        rw [← stands] at smaller
        omega
      cases found : u.leader? id with
      | none => rw [found] at here; exact unseen id found here
      | some value =>
        rw [found] at here
        cases value with
        | var leader => exact renamed id leader found here
        | const name => exact inner _ found rfl here
        | arrow d c => exact inner _ found rfl here
  exact bounded _ id (Nat.le_refl _)

/-- A variable's leader has the same value as the variable under every solution. -/
theorem Consistent.solves_leader (consistent : u.Consistent) (solves : Solves σ u) {id : Int}
    {value : Ty} (found : u.leader? id = some value) : σ id = value.mapVars σ := by
  obtain ⟨m, seen, holds, l, leads, rfl⟩ := consistent.leader?_some found
  have joint := solves m seen l leads.1
  rw [holds] at joint
  exact joint

/-- Every solution is the recorded one followed by itself. -/
theorem Consistent.factor_var (consistent : u.Consistent) (resolves : Resolves θ u)
    (solves : Solves σ u) (id : Int) : (θ id).mapVars σ = σ id := by
  induction id using resolves.follow with
  | unseen id _ stands =>
    rw [stands]
    rfl
  | renamed id leader found stands => rw [stands, consistent.solves_leader solves found]
  | bound id value found _ stands parts =>
    rw [stands, Ty.mapVars_mapVars, consistent.solves_leader solves found]
    exact Ty.mapVars_congr parts

/-- Every solution factors through what a consistent unifier puts for variables. -/
theorem Consistent.factor (consistent : u.Consistent) (resolves : Resolves θ u)
    (solves : Solves σ u) (t : Ty) : (t.mapVars θ).mapVars σ = t.mapVars σ := by
  rw [Ty.mapVars_mapVars]
  exact Ty.mapVars_congr fun id _ => consistent.factor_var resolves solves id

/-- Variables of consistent unifiers stand for plain types. -/
theorem Consistent.plain_value (consistent : u.Consistent) (resolves : Resolves θ u)
    (id : Int) : (θ id).Plain := by
  induction id using resolves.follow with
  | unseen id _ stands =>
    rw [stands]
    trivial
  | renamed id leader _ stands =>
    rw [stands]
    trivial
  | bound id value found _ stands parts =>
    obtain ⟨m, _, _, l, leads, rfl⟩ := consistent.leader?_some found
    rw [stands]
    exact (consistent.plain l leads.mem).mapVars parts

/-- A leader that is a variable stands for itself. -/
theorem Consistent.leader_var (consistent : u.Consistent) (resolves : Resolves θ u)
    {place : Nat} {l : Member Ty} {id : Int} (leads : u.types.Leads place l)
    (holds : l.value = .var id) : θ id = .var id := by
  have here := resolves id
  rw [consistent.leader?_eq leads.mem holds (by rw [leads.2]; exact leads), holds] at here
  exact here

/-! ## Finding -/

/-- A unifier after a type has been looked up. -/
def seen (u : Unifier) (a : Ty) : Unifier := ⟨(u.types.find a).2⟩

/-- Looking a type up changes no equation. -/
theorem Consistent.solves_seen (consistent : u.Consistent) (a : Ty) :
    Solves σ (u.seen a) ↔ Solves σ u :=
  consistent.lawful.respects_find a (Ty.mapVars σ)

/-- Looking a type up gives a leader to at most one variable, itself. -/
theorem Consistent.leader?_seen (consistent : u.Consistent) (plain : a.Plain) (id : Int) :
    (u.seen a).leader? id = u.leader? id ∨
      u.leader? id = none ∧ (u.seen a).leader? id = some (.var id) := by
  have lawful := consistent.lawful.find a
  cases old : u.types.member? (Ty.var id).key with
  | some m =>
    obtain ⟨inside, key⟩ := Partition.member?_some old
    obtain ⟨l, leads⟩ := consistent.lawful.led m inside
    have new := lawful.member?_of_mem (Partition.mem_find_of_mem inside a)
    rw [key] at new
    left
    simp only [leader?, seen, old, new, Option.map_some, leads.valueAt, (leads.find a).valueAt]
  | none =>
    cases new : (u.types.find a).2.member? (Ty.var id).key with
    | none =>
      left
      simp only [leader?, seen, old, new, Option.map_none]
    | some m =>
      right
      refine ⟨by simp only [leader?, old, Option.map_none], ?_⟩
      obtain ⟨inside, key⟩ := Partition.member?_some new
      rcases Partition.mem_of_mem_find inside with before | rfl
      · exact absurd key (Partition.member?_none old m before)
      · have same : a = .var id := Ty.key_inj plain trivial key
        obtain ⟨l, leads⟩ := lawful.led _ inside
        rcases Partition.find_cases u.types a with ⟨n, before, key', found⟩ | ⟨_, found⟩
        · exact absurd (key'.trans key) (Partition.member?_none old n before)
        · have appended := Partition.leads_appended u.types (Keyed.key a) a
          simp only [leader?, seen, new, Option.map_some]
          rw [found]
          rw [appended.valueAt, same]

/-- Looking a plain type up keeps a unifier consistent, with the same solution. -/
theorem Consistent.resolves_seen (consistent : u.Consistent) (plain : a.Plain)
    (resolves : Resolves θ u) : Resolves θ (u.seen a) := by
  intro id
  have here := resolves id
  rcases consistent.leader?_seen plain id with same | ⟨missing, own⟩
  · rw [same]
    exact here
  · rw [missing] at here
    rw [own]
    exact here

/-- A consistent unifier is consistent after looking at a plain type. -/
theorem Consistent.seen (consistent : u.Consistent) (plain : a.Plain) :
    (u.seen a).Consistent where
  lawful := consistent.lawful.find a
  plain := by
    intro m inside
    rcases Partition.mem_of_mem_find inside with old | rfl
    · exact consistent.plain m old
    · exact plain
  solved := by
    obtain ⟨θ, resolves, solves⟩ := consistent.solved
    exact ⟨θ, consistent.resolves_seen plain resolves, (consistent.solves_seen a).mpr solves⟩

/-- After a type has been looked up, its class has a leader, equal to it under every solution. -/
theorem Consistent.leads_seen (consistent : u.Consistent) (plain : a.Plain) :
    ∃ l, (u.seen a).types.Leads (u.types.find a).1 l ∧
      ∀ σ, Solves σ (u.seen a) → a.mapVars σ = l.value.mapVars σ := by
  obtain ⟨m, inside, key, place⟩ := Partition.find_member u.types a
  have after := consistent.seen plain
  obtain ⟨l, leads⟩ := after.lawful.led m inside
  rw [place] at leads
  refine ⟨l, leads, fun σ solves => ?_⟩
  have joint := solves m inside l (by rw [place]; exact leads.1)
  rw [after.value_eq inside plain key] at joint
  exact joint

/-! ## Binding and merging -/

/-- The types at two places that lead their classes. -/
structure Leaders (u : Unifier) (keep discard : Nat) (k d : Member Ty) : Prop where
  /-- The first place leads. -/
  keeps : u.types.Leads keep k
  /-- The second place leads. -/
  discards : u.types.Leads discard d
  /-- They are two places. -/
  apart : keep ≠ discard

variable {keep discard : Nat} {k d : Member Ty}

/-- Two leading places hold two types. -/
theorem Consistent.leaders_ne (consistent : u.Consistent) (leaders : Leaders u keep discard k d) :
    k.value ≠ d.value := by
  intro same
  have key : k.key = d.key := by
    rw [consistent.lawful.keyed k leaders.keeps.mem, consistent.lawful.keyed d
      leaders.discards.mem, same]
  have members := consistent.lawful.unique leaders.keeps.mem leaders.discards.mem key
  apply leaders.apart
  rw [← leaders.keeps.2, ← leaders.discards.2, members]

/-- The equation that a link adds. -/
theorem Consistent.solves_link (consistent : u.Consistent)
    (leaders : Leaders u keep discard k d) :
    Solves σ ⟨u.types.link keep discard⟩ ↔
      Solves σ u ∧ k.value.mapVars σ = d.value.mapVars σ :=
  consistent.lawful.respects_link leaders.keeps leaders.discards leaders.apart (Ty.mapVars σ)

/-- After a link, variables of the discarded class are led by the kept type. -/
theorem Consistent.leader?_link (consistent : u.Consistent)
    (leaders : Leaders u keep discard k d) (id : Int) :
    (⟨u.types.link keep discard⟩ : Unifier).leader? id =
      (u.leader? id).map fun value => if value = d.value then k.value else value := by
  have lawful := consistent.lawful.link leaders.keeps leaders.apart
  cases found : u.leader? id with
  | none =>
    have missing := leader?_none found
    simp only [leader?, Option.map_none, Option.map_eq_none_iff]
    apply List.find?_eq_none.mpr
    intro m inside
    obtain ⟨n, old, rfl⟩ := List.mem_map.mp inside
    simpa using (Partition.relink_key keep discard n).symm ▸ missing n old
  | some value =>
    obtain ⟨m, inside, holds, l, leads, rfl⟩ := consistent.leader?_some found
    have key : m.key = (Ty.var id).key := by
      rw [consistent.lawful.keyed m inside, holds]
      rfl
    have relinked := lawful.member?_of_mem
      (List.mem_map_of_mem (f := Partition.relink keep discard) inside)
    rw [Partition.relink_key, key] at relinked
    simp only [leader?, relinked, Option.map_some, Option.some.injEq]
    rw [Partition.relink_leader]
    by_cases discarded : m.leader = discard
    · rw [if_pos discarded, (leaders.keeps.link_keep leaders.apart).valueAt]
      rw [discarded] at leads
      obtain rfl : l = d := Option.some.inj (leads.1.symm.trans leaders.discards.1)
      rw [if_pos rfl]
    · rw [if_neg discarded, (leads.link_other discarded).valueAt]
      rw [if_neg]
      exact consistent.leaders_ne ⟨leads, leaders.discards, discarded⟩

/-- A consistent unifier stays so when a link is spelled out by a solution. -/
theorem Consistent.link (consistent : u.Consistent) (leaders : Leaders u keep discard k d)
    (resolves : Resolves θ ⟨u.types.link keep discard⟩)
    (solves : Solves θ u) (joint : k.value.mapVars θ = d.value.mapVars θ) :
    (⟨u.types.link keep discard⟩ : Unifier).Consistent where
  lawful := consistent.lawful.link leaders.keeps leaders.apart
  plain := by
    intro m inside
    obtain ⟨n, old, rfl⟩ := List.mem_map.mp inside
    exact (Partition.relink_value keep discard n).symm ▸ consistent.plain n old
  solved := ⟨θ, resolves, (consistent.solves_link leaders).mpr ⟨solves, joint⟩⟩

/-- What a call for an equation may answer: either a solution now also satisfies the equation, or
no solution does. -/
structure Answers (u : Unifier) (a b : Ty) (outcome : Option Clash × Unifier) : Prop where
  /-- The unifier stays consistent either way. -/
  consistent : outcome.2.Consistent
  /-- Success adds exactly the equation. -/
  success : outcome.1 = none →
    ∀ σ, Solves σ outcome.2 ↔ Solves σ u ∧ a.mapVars σ = b.mapVars σ
  /-- Failure means that the equation has no solution. -/
  failure : outcome.1 ≠ none → ∀ σ, Solves σ u → a.mapVars σ ≠ b.mapVars σ

/-- The substitution of one type for one variable. -/
def single (id : Int) (t : Ty) (w : Int) : Ty := if w = id then t else .var w

/-- A type in which a variable does not occur is unchanged by substituting for it. -/
theorem mapVars_single {id : Int} {t s : Ty} (free : id ∉ s.vars) :
    s.mapVars (single id t) = s := by
  calc s.mapVars (single id t) = s.mapVars .var := by
        apply Ty.mapVars_congr
        intro w inside
        have other : w ≠ id := fun same => free (same ▸ inside)
        simp [single, other]
    _ = s := Ty.mapVars_var s

/-- Under a solution a variable differs from every other leader in which it occurs. -/
theorem Consistent.occurs_ne (consistent : u.Consistent) (leaders : Leaders u keep discard k d)
    {id : Int} (holds : d.value = .var id) (occurs : (u.apply k.value).occurs id = true)
    (solves : Solves σ u) : k.value.mapVars σ ≠ σ id := by
  obtain ⟨θ, resolves, _⟩ := consistent.solved
  rw [consistent.apply_eq resolves, Ty.occurs_iff] at occurs
  have other : (k.value.mapVars θ).isVar = false := by
    cases value : k.value with
    | const name => rfl
    | arrow d c => rfl
    | var j =>
      have stands := consistent.leader_var resolves leaders.keeps value
      rw [value] at occurs
      change id ∈ (θ j).vars at occurs
      rw [stands] at occurs
      obtain rfl : id = j := by simpa [Ty.vars] using occurs
      exact absurd (value.trans holds.symm) (consistent.leaders_ne leaders)
  have smaller := Ty.size_lt_of_mem_vars (f := σ) occurs other
  rw [consistent.factor resolves solves] at smaller
  intro same
  rw [same] at smaller
  exact Nat.lt_irrefl _ smaller

/-- Binding a variable to another leader in which it does not occur is spelled out by the
solution that puts the leader's value for the variable. -/
theorem Consistent.resolves_bind (consistent : u.Consistent)
    (leaders : Leaders u keep discard k d) {id : Int} (holds : d.value = .var id)
    (resolves : Resolves θ u) (free : id ∉ (k.value.mapVars θ).vars) :
    Resolves (fun w => (θ w).mapVars (single id (k.value.mapVars θ)))
      ⟨u.types.link keep discard⟩ := by
  intro w
  rw [consistent.leader?_link leaders]
  have here := resolves w
  cases found : u.leader? w with
  | none =>
    rw [found] at here
    have other : w ≠ id := by
      rintro rfl
      rw [consistent.leader?_eq leaders.discards.mem holds
        (by rw [leaders.discards.2]; exact leaders.discards)] at found
      cases found
    simp [here, Ty.mapVars, single, other]
  | some value =>
    rw [found] at here
    simp only [Option.map_some]
    by_cases bound : value = d.value
    · rw [bound, holds] at here
      have own : (θ w).mapVars (single id (k.value.mapVars θ)) = k.value.mapVars θ := by
        rw [here]
        simp [Ty.mapVars, single]
      rw [if_pos bound]
      simp only [own]
      have unchanged : k.value.mapVars (fun w => (θ w).mapVars (single id (k.value.mapVars θ))) =
          k.value.mapVars θ := by
        rw [← Ty.mapVars_mapVars, mapVars_single free]
      cases kept : k.value with
      | var j => exact consistent.leader_var resolves leaders.keeps kept
      | const name => rfl
      | arrow d c => rw [kept] at unchanged; exact unchanged.symm
    · rw [if_neg bound]
      cases value with
      | var leader =>
        have other : leader ≠ id := by
          rintro rfl
          exact bound holds.symm
        simp [here, Ty.mapVars, single, other]
      | const name => simp [here, Ty.mapVars]
      | arrow d c => simp only [here, Ty.mapVars_mapVars]

/-- Binding a variable to another leader answers the equation between them. -/
theorem Consistent.bind (consistent : u.Consistent) (leaders : Leaders u keep discard k d)
    {id : Int} (holds : d.value = .var id) :
    Answers u k.value (.var id) (u.bind keep discard k.value id) := by
  by_cases occurs : (u.apply k.value).occurs id = true
  · rw [Unifier.bind, if_pos occurs]
    exact ⟨consistent, by simp, fun _ σ solves => consistent.occurs_ne leaders holds occurs solves⟩
  · rw [Unifier.bind, if_neg occurs]
    obtain ⟨θ, resolves, solves⟩ := consistent.solved
    rw [consistent.apply_eq resolves, Ty.occurs_iff] at occurs
    have stands := consistent.leader_var resolves leaders.discards holds
    have resolves' := consistent.resolves_bind leaders holds resolves occurs
    refine ⟨consistent.link leaders resolves' ?_ ?_, ?_, by simp⟩
    · intro m inside l leader
      have old : m.value.mapVars θ = l.value.mapVars θ := solves m inside l leader
      simp only [← Ty.mapVars_mapVars, old]
    · rw [holds]
      simp only [← Ty.mapVars_mapVars, mapVars_single occurs]
      simp [Ty.mapVars, stands, single]
    · intro _ σ
      have added := consistent.solves_link (σ := σ) leaders
      rw [holds] at added
      exact added

/-- After two types have been looked up, each class has a leader, equal to its type under every
solution. -/
theorem Consistent.leads_both (consistent : u.Consistent) (plainA : a.Plain) (plainB : b.Plain) :
    ∃ la lb, ((u.seen a).seen b).types.Leads (u.types.find a).1 la ∧
      ((u.seen a).seen b).types.Leads ((u.seen a).types.find b).1 lb ∧
      ∀ σ, Solves σ ((u.seen a).seen b) →
        a.mapVars σ = la.value.mapVars σ ∧ b.mapVars σ = lb.value.mapVars σ := by
  have first := consistent.seen plainA
  obtain ⟨la, leadsA, equalA⟩ := consistent.leads_seen plainA
  obtain ⟨lb, leadsB, equalB⟩ := first.leads_seen plainB
  exact ⟨la, lb, leadsA.find b, leadsB, fun σ solves =>
    ⟨equalA σ ((first.solves_seen b).mp solves), equalB σ solves⟩⟩

/-- Looking at two types leaves the solutions. -/
theorem Consistent.solves_both (consistent : u.Consistent) (plainA : a.Plain) :
    Solves σ ((u.seen a).seen b) ↔ Solves σ u :=
  ((consistent.seen plainA).solves_seen b).trans (consistent.solves_seen a)

/-- A leader that stands for no variable is none. -/
theorem Consistent.leader_other (consistent : u.Consistent) (resolves : Resolves θ u)
    {place : Nat} {l : Member Ty} (leads : u.types.Leads place l)
    (other : (l.value.mapVars θ).isVar = false) : l.value.isVar = false := by
  cases value : l.value with
  | const name => rfl
  | arrow d c => rfl
  | var id =>
    rw [value] at other
    change (θ id).isVar = false at other
    rw [consistent.leader_var resolves leads value] at other
    cases other

/-- Merging two classes that stand for the same type, and for no variable, leaves the solution
that the classes spell out. -/
theorem Consistent.resolves_merge (consistent : u.Consistent)
    (leaders : Leaders u keep discard k d) (resolves : Resolves θ u)
    (keptOther : k.value.isVar = false) (discardedOther : d.value.isVar = false)
    (joint : k.value.mapVars θ = d.value.mapVars θ) :
    Resolves θ ⟨u.types.link keep discard⟩ := by
  intro w
  rw [consistent.leader?_link leaders]
  have here := resolves w
  cases found : u.leader? w with
  | none => rw [found] at here; exact here
  | some value =>
    rw [found] at here
    simp only [Option.map_some]
    by_cases moved : value = d.value
    · rw [if_pos moved]
      have stands : θ w = k.value.mapVars θ := by
        rw [joint, ← moved]
        rw [← moved] at discardedOther
        cases value with
        | var l => cases discardedOther
        | const name => exact here
        | arrow d c => exact here
      cases kept : k.value with
      | var l => rw [kept] at keptOther; cases keptOther
      | const name => rw [kept] at stands; exact stands
      | arrow d c => rw [kept] at stands; exact stands
    · rw [if_neg moved]
      exact here

/-- Merging, with the places of the two leaders named. -/
theorem merge_eq (u : Unifier) (a b : Ty) : u.merge a b =
    ⟨if (u.types.find a).1 = ((u.seen a).types.find b).1 then ((u.seen a).seen b).types
      else ((u.seen a).seen b).types.link (u.types.find a).1 ((u.seen a).types.find b).1⟩ := rfl

/-- Merging two classes that agree under every solution, and stand for no variable, changes no
equation. -/
theorem Consistent.merge (consistent : u.Consistent) (plainA : a.Plain) (plainB : b.Plain)
    (agree : ∀ σ, Solves σ u → a.mapVars σ = b.mapVars σ)
    (other : ∀ σ, Solves σ u → (a.mapVars σ).isVar = false) :
    (u.merge a b).Consistent ∧ ∀ σ, Solves σ (u.merge a b) ↔ Solves σ u := by
  have both := (consistent.seen plainA).seen plainB
  have same : ∀ σ, Solves σ ((u.seen a).seen b) ↔ Solves σ u :=
    fun σ => consistent.solves_both plainA
  obtain ⟨la, lb, leadsA, leadsB, equal⟩ := consistent.leads_both plainA plainB
  by_cases place : (u.types.find a).1 = ((u.seen a).types.find b).1
  · rw [merge_eq, if_pos place]
    exact ⟨both, same⟩
  · rw [merge_eq, if_neg place]
    have leaders : Leaders ((u.seen a).seen b) _ _ la lb := ⟨leadsA, leadsB, place⟩
    obtain ⟨θ, resolves, solves⟩ := both.solved
    have joint : ∀ σ, Solves σ u → la.value.mapVars σ = lb.value.mapVars σ := by
      intro σ holds
      obtain ⟨left, right⟩ := equal σ ((same σ).mpr holds)
      rw [← left, ← right, agree σ holds]
    have instances := joint θ ((same θ).mp solves)
    have otherA : la.value.isVar = false := both.leader_other resolves leadsA
      ((equal θ solves).1 ▸ other θ ((same θ).mp solves))
    have otherB : lb.value.isVar = false := both.leader_other resolves leadsB
      (instances ▸ (equal θ solves).1 ▸ other θ ((same θ).mp solves))
    refine ⟨both.link leaders (both.resolves_merge leaders resolves otherA otherB instances)
      solves instances, fun σ => ?_⟩
    have added := both.solves_link (σ := σ) leaders
    exact added.trans ⟨fun holds => (same σ).mp holds.1,
      fun holds => ⟨(same σ).mpr holds, joint σ holds⟩⟩

/-! ## Unifying -/

/-- A call, with the places of the two leaders named. -/
theorem unifyWithin_eq (depth : Nat) (u : Unifier) (a b : Ty) :
    unifyWithin (depth + 1) u a b =
      if (u.types.find a).1 = ((u.seen a).types.find b).1 then some (none, (u.seen a).seen b)
      else unifyLeaders (unifyWithin depth) ((u.seen a).seen b) a b (u.types.find a).1
        ((u.seen a).types.find b).1 (((u.seen a).seen b).types.valueAt (u.types.find a).1 a)
        (((u.seen a).seen b).types.valueAt ((u.seen a).types.find b).1 b) := rfl

/-- A call, with the leaders named. -/
theorem unifyWithin_succ (depth : Nat) (u : Unifier) (a b : Ty) {la lb : Member Ty}
    (leadsA : ((u.seen a).seen b).types.Leads (u.types.find a).1 la)
    (leadsB : ((u.seen a).seen b).types.Leads ((u.seen a).types.find b).1 lb) :
    unifyWithin (depth + 1) u a b =
      if (u.types.find a).1 = ((u.seen a).types.find b).1 then some (none, (u.seen a).seen b)
      else unifyLeaders (unifyWithin depth) ((u.seen a).seen b) a b (u.types.find a).1
        ((u.seen a).types.find b).1 la.value lb.value := by
  rw [unifyWithin_eq, leadsA.valueAt a, leadsB.valueAt b]

/-- A way to unify that answers the equations it is given when it finishes. -/
def Answering (recur : Unifier → Ty → Ty → Option (Option Clash × Unifier)) : Prop :=
  ∀ {u : Unifier} {a b : Ty} {outcome : Option Clash × Unifier}, u.Consistent → a.Plain →
    b.Plain → recur u a b = some outcome → Answers u a b outcome

variable {recur : Unifier → Ty → Ty → Option (Option Clash × Unifier)}
  {outcome : Option Clash × Unifier}

/-- An answered equation may be read in the other direction. -/
theorem Answers.symm (answers : Answers u a b outcome) : Answers u b a outcome where
  consistent := answers.consistent
  success := fun fine σ => by rw [answers.success fine σ, eq_comm (a := a.mapVars σ)]
  failure := fun failed σ solves same => answers.failure failed σ solves same.symm

/-- Unifying two function types part by part answers the equation between them, and so between
two types that have them as leaders. -/
theorem Answering.arrows (answering : Answering recur) {d c d' c' : Ty}
    (consistent : u.Consistent) (plainA : a.Plain) (plainB : b.Plain)
    (plainArrow : (Ty.arrow d c).Plain) (plainArrow' : (Ty.arrow d' c').Plain)
    (equal : ∀ σ, Solves σ u →
      a.mapVars σ = (Ty.arrow d c).mapVars σ ∧ b.mapVars σ = (Ty.arrow d' c').mapVars σ)
    (finished : unifyArrows recur u a b d c d' c' = some outcome) :
    Answers u (.arrow d c) (.arrow d' c') outcome := by
  rw [unifyArrows] at finished
  rcases first : recur u d d' with _ | ⟨_ | clash, v⟩
  · simp [first] at finished
  · have domains := answering consistent plainArrow.1 plainArrow'.1 first
    rcases second : recur v c c' with _ | ⟨_ | clash, w⟩
    · simp [first, second] at finished
    · have codomains := answering domains.consistent plainArrow.2 plainArrow'.2 second
      simp only [first, second, Option.some.injEq] at finished
      subst finished
      have parts : ∀ σ, Solves σ w ↔
          Solves σ u ∧ (Ty.arrow d c).mapVars σ = (Ty.arrow d' c').mapVars σ := by
        intro σ
        rw [codomains.success rfl σ, domains.success rfl σ]
        simp [Ty.mapVars, and_assoc]
      obtain ⟨merged, same⟩ := codomains.consistent.merge plainA plainB
        (fun σ solves => by
          obtain ⟨before, joint⟩ := (parts σ).mp solves
          obtain ⟨left, right⟩ := equal σ before
          rw [left, right, joint])
        (fun σ solves => by
          rw [(equal σ ((parts σ).mp solves).1).1]
          rfl)
      exact ⟨merged, fun _ σ => (same σ).trans (parts σ), by simp⟩
    · have codomains := answering domains.consistent plainArrow.2 plainArrow'.2 second
      simp only [first, second, Option.some.injEq] at finished
      subst finished
      refine ⟨codomains.consistent, by simp, fun _ σ solves joint => ?_⟩
      obtain ⟨left, right⟩ := Ty.arrow.inj joint
      exact codomains.failure (by simp) σ ((domains.success rfl σ).mpr ⟨solves, left⟩) right
  · have domains := answering consistent plainArrow.1 plainArrow'.1 first
    simp only [first, Option.some.injEq] at finished
    subst finished
    refine ⟨domains.consistent, by simp, fun _ σ solves joint => ?_⟩
    exact domains.failure (by simp) σ solves (Ty.arrow.inj joint).1

/-- Unifying two leaders answers the equation between them. -/
theorem Answering.leaders (answering : Answering recur) {i j : Nat} {la lb : Member Ty}
    (consistent : u.Consistent) (plainA : a.Plain) (plainB : b.Plain)
    (leaders : Leaders u i j la lb)
    (equal : ∀ σ, Solves σ u →
      a.mapVars σ = la.value.mapVars σ ∧ b.mapVars σ = lb.value.mapVars σ)
    (finished : unifyLeaders recur u a b i j la.value lb.value = some outcome) :
    Answers u la.value lb.value outcome := by
  have plainLa := consistent.plain la leaders.keeps.mem
  have plainLb := consistent.plain lb leaders.discards.mem
  have apart := consistent.leaders_ne leaders
  have flipped : Leaders u j i lb la := ⟨leaders.discards, leaders.keeps, leaders.apart.symm⟩
  cases holdsA : la.value with
  | var id =>
    rw [holdsA, unifyLeaders, Option.some.injEq] at finished
    subst finished
    exact (consistent.bind flipped holdsA).symm
  | const name =>
    rw [holdsA] at finished apart
    cases holdsB : lb.value with
    | var id =>
      rw [holdsB, unifyLeaders, ← holdsA, Option.some.injEq] at finished
      · subst finished
        rw [← holdsA]
        exact consistent.bind leaders holdsB
      · simp
    | const name' =>
      rw [holdsB] at finished apart
      simp only [unifyLeaders, Option.some.injEq] at finished
      subst finished
      exact ⟨consistent, by simp, fun _ σ _ joint => apart joint⟩
    | arrow d' c' =>
      rw [holdsB] at finished
      simp only [unifyLeaders, Option.some.injEq] at finished
      subst finished
      exact ⟨consistent, by simp, fun _ σ _ joint => nomatch joint⟩
  | arrow d c =>
    rw [holdsA] at finished plainLa equal
    cases holdsB : lb.value with
    | var id =>
      rw [holdsB, unifyLeaders, ← holdsA, Option.some.injEq] at finished
      · subst finished
        rw [← holdsA]
        exact consistent.bind leaders holdsB
      · simp
    | const name' =>
      rw [holdsB] at finished
      simp only [unifyLeaders, Option.some.injEq] at finished
      subst finished
      exact ⟨consistent, by simp, fun _ σ _ joint => nomatch joint⟩
    | arrow d' c' =>
      rw [holdsB] at finished plainLb equal
      exact answering.arrows consistent plainA plainB plainLa plainLb equal finished

/-- A call that does not run out of depth answers its equation. -/
theorem answering_unifyWithin (depth : Nat) : Answering (unifyWithin depth) := by
  induction depth with
  | zero => intro u a b outcome _ _ _ finished; simp [unifyWithin] at finished
  | succ depth ih =>
    intro u a b outcome consistent plainA plainB finished
    have both := (consistent.seen plainA).seen plainB
    obtain ⟨la, lb, leadsA, leadsB, equal⟩ := consistent.leads_both plainA plainB
    rw [unifyWithin_succ depth u a b leadsA leadsB] at finished
    have leading : Answers ((u.seen a).seen b) la.value lb.value outcome := by
      by_cases place : (u.types.find a).1 = ((u.seen a).types.find b).1
      · rw [if_pos place, Option.some.injEq] at finished
        subst finished
        rw [place] at leadsA
        obtain rfl : la = lb := Option.some.inj (leadsA.1.symm.trans leadsB.1)
        exact ⟨both, fun _ σ => by simp, by simp⟩
      · rw [if_neg place] at finished
        exact ih.leaders both plainA plainB ⟨leadsA, leadsB, place⟩ equal finished
    -- The equation between the leaders is the equation between the types.
    refine ⟨leading.consistent, fun fine σ => ?_, fun failed σ solves => ?_⟩
    · rw [leading.success fine σ, consistent.solves_both plainA]
      refine and_congr_right fun solves => ?_
      obtain ⟨left, right⟩ := equal σ ((consistent.solves_both plainA).mpr solves)
      rw [left, right]
    · have solves' := (consistent.solves_both (b := b) plainA).mpr solves
      obtain ⟨left, right⟩ := equal σ solves'
      rw [left, right]
      exact leading.failure failed σ solves'

end Turnstile.Unifier
