import Mathlib.Data.List.Nodup
import Turnstile.Partition

/-!
# The classes of a partition

A partition that is built by finding and linking stays lawful: its keys are those of its values,
no key occurs twice, and every member records a place that leads itself. What two members of one
class have in common is stated through functions: a function respects a partition when it takes
one value on each class. Finding a value changes no class, and linking two leaders is respected
by exactly the functions that agree on them.
-/

namespace Turnstile.Partition

variable {α : Type} {p : Partition α}

/-- The member at a place, which leads its own class. -/
def Leads (p : Partition α) (place : Nat) (l : Member α) : Prop :=
  p.members[place]? = some l ∧ l.leader = place

/-- What finding and linking keep. -/
structure Lawful [Keyed α] (p : Partition α) : Prop where
  /-- Members are filed under the keys of their values. -/
  keyed : ∀ m ∈ p.members, m.key = Keyed.key m.value
  /-- No key occurs twice. -/
  distinct : (p.members.map Member.key).Nodup
  /-- Every member records a place that leads its own class. -/
  led : ∀ m ∈ p.members, ∃ l, p.Leads m.leader l

/-- A function takes one value on each class. -/
def Respects {β : Type} (p : Partition α) (f : α → β) : Prop :=
  ∀ m ∈ p.members, ∀ l, p.members[m.leader]? = some l → f m.value = f l.value

/-- The member under a key is a member with that key. -/
theorem member?_some {key : String} {m : Member α} (found : p.member? key = some m) :
    m ∈ p.members ∧ m.key = key := by
  have holds := List.find?_some found
  exact ⟨List.mem_of_find?_eq_some found, by simpa using holds⟩

/-- No member has a key under which nothing is found. -/
theorem member?_none {key : String} (missing : p.member? key = none) :
    ∀ m ∈ p.members, m.key ≠ key := by
  intro m inside same
  have absent := List.find?_eq_none.mp missing m inside
  simp [same] at absent

/-- A leading place holds a member. -/
theorem Leads.mem {place : Nat} {l : Member α} (leads : p.Leads place l) : l ∈ p.members :=
  List.mem_of_getElem? leads.1

/-- The value at a leading place does not depend on the fallback. -/
theorem Leads.valueAt {place : Nat} {l : Member α} (leads : p.Leads place l) (fallback : α) :
    p.valueAt place fallback = l.value := by
  simp [Partition.valueAt, leads.1]

/-- A member is still at its place after another one has been appended. -/
theorem Leads.append {place : Nat} {l : Member α} (leads : p.Leads place l) (m : Member α) :
    (⟨p.members ++ [m]⟩ : Partition α).Leads place l := by
  refine ⟨?_, leads.2⟩
  obtain ⟨inside, _⟩ := List.getElem?_eq_some_iff.mp leads.1
  simpa only [List.getElem?_append_left inside] using leads.1

/-- A new member leads itself. -/
theorem leads_appended (p : Partition α) (key : String) (a : α) :
    (⟨p.members ++ [⟨key, a, p.size⟩]⟩ : Partition α).Leads p.size ⟨key, a, p.size⟩ :=
  ⟨by simp [size], rfl⟩

/-! ## Finding -/

section Finding

variable [Keyed α]

/-- In a lawful partition a key belongs to one member. -/
theorem Lawful.unique (lawful : p.Lawful) {m n : Member α} (mInside : m ∈ p.members)
    (nInside : n ∈ p.members) (same : m.key = n.key) : m = n :=
  List.inj_on_of_nodup_map lawful.distinct mInside nInside same

/-- In a lawful partition a member is found under its key. -/
theorem Lawful.member?_of_mem (lawful : p.Lawful) {m : Member α} (inside : m ∈ p.members) :
    p.member? m.key = some m := by
  cases found : p.member? m.key with
  | none => exact absurd rfl (member?_none found m inside)
  | some n =>
    obtain ⟨nInside, same⟩ := member?_some found
    rw [lawful.unique nInside inside same]

/-- The partition that has seen nothing is lawful. -/
theorem lawful_empty : (Partition.empty : Partition α).Lawful where
  keyed := by simp [Partition.empty]
  distinct := by simp [Partition.empty]
  led := by simp [Partition.empty]

/-- Finding a value either meets its member or appends it as its own leader. -/
theorem find_cases (p : Partition α) (a : α) :
    (∃ m ∈ p.members, m.key = Keyed.key a ∧ p.find a = (m.leader, p)) ∨
      ((∀ m ∈ p.members, m.key ≠ Keyed.key a) ∧
        p.find a = (p.size, ⟨p.members ++ [⟨Keyed.key a, a, p.size⟩]⟩)) := by
  cases found : p.member? (Keyed.key a) with
  | none => exact .inr ⟨member?_none found, by simp [find, found]⟩
  | some m =>
    obtain ⟨inside, same⟩ := member?_some found
    exact .inl ⟨m, inside, same, by simp [find, found]⟩

/-- Finding a value keeps a partition lawful. -/
theorem Lawful.find (lawful : p.Lawful) (a : α) : (p.find a).2.Lawful := by
  rcases find_cases p a with ⟨m, _, _, found⟩ | ⟨missing, found⟩
  · rw [found]
    exact lawful
  · rw [found]
    constructor
    · intro m inside
      rcases List.mem_append.mp inside with old | new
      · exact lawful.keyed m old
      · rw [List.mem_singleton.mp new]
    · simpa [List.nodup_append, lawful.distinct] using fun m old => missing m old
    · intro m inside
      rcases List.mem_append.mp inside with old | new
      · obtain ⟨l, leads⟩ := lawful.led m old
        exact ⟨l, leads.append _⟩
      · rw [List.mem_singleton.mp new]
        exact ⟨_, leads_appended p _ a⟩

/-- What is found for a value: a member with its key, and the leader of its class. -/
theorem find_member (p : Partition α) (a : α) :
    ∃ m ∈ (p.find a).2.members, m.key = Keyed.key a ∧ m.leader = (p.find a).1 := by
  rcases find_cases p a with ⟨m, inside, same, found⟩ | ⟨_, found⟩
  · exact ⟨m, by rw [found]; exact inside, same, by rw [found]⟩
  · exact ⟨⟨Keyed.key a, a, p.size⟩, by rw [found]; simp, rfl, by rw [found]⟩

/-- Finding a value keeps every member. -/
theorem mem_find_of_mem {m : Member α} (inside : m ∈ p.members) (a : α) :
    m ∈ (p.find a).2.members := by
  rcases find_cases p a with ⟨_, _, _, found⟩ | ⟨_, found⟩
  · rw [found]
    exact inside
  · rw [found]
    exact List.mem_append_left _ inside

/-- Finding a value adds at most that value. -/
theorem mem_of_mem_find {m : Member α} {a : α} (inside : m ∈ (p.find a).2.members) :
    m ∈ p.members ∨ m = ⟨Keyed.key a, a, p.size⟩ := by
  rcases find_cases p a with ⟨_, _, _, found⟩ | ⟨_, found⟩
  · rw [found] at inside
    exact .inl inside
  · rw [found] at inside
    simpa using inside

/-- Finding a value keeps every leader in its place. -/
theorem Leads.find {place : Nat} {l : Member α} (leads : p.Leads place l) (a : α) :
    (p.find a).2.Leads place l := by
  rcases find_cases p a with ⟨_, _, _, found⟩ | ⟨_, found⟩
  · rw [found]
    exact leads
  · rw [found]
    exact leads.append _

/-- Finding a value changes no class. -/
theorem Lawful.respects_find {β : Type} (lawful : p.Lawful) (a : α) (f : α → β) :
    (p.find a).2.Respects f ↔ p.Respects f := by
  constructor
  · intro respects m inside l leader
    obtain ⟨l', leads⟩ := lawful.led m inside
    obtain rfl : l' = l := Option.some.inj (leads.1.symm.trans leader)
    exact respects m (mem_find_of_mem inside a) l' (leads.find a).1
  · intro respects m inside l leader
    rcases mem_of_mem_find inside with old | rfl
    · obtain ⟨l', leads⟩ := lawful.led m old
      obtain rfl : l' = l := Option.some.inj ((leads.find a).1.symm.trans leader)
      exact respects m old l' leads.1
    · rcases find_cases p a with ⟨n, old, same, found⟩ | ⟨_, found⟩
      · rw [found] at inside leader
        obtain ⟨l', leads⟩ := lawful.led _ inside
        obtain rfl : l' = l := Option.some.inj (leads.1.symm.trans leader)
        exact respects _ inside l' leader
      · rw [found] at leader
        obtain rfl := Option.some.inj ((leads_appended p _ a).1.symm.trans leader)
        rfl

end Finding

/-! ## Linking -/

/-- A member after linking: its leader is `keep` if it was `discard`. -/
def relink (keep discard : Nat) (m : Member α) : Member α :=
  if m.leader = discard then { m with leader := keep } else m

/-- Relinking leaves the key of a member. -/
@[simp] theorem relink_key (keep discard : Nat) (m : Member α) :
    (relink keep discard m).key = m.key := by
  unfold relink; split <;> rfl

/-- Relinking leaves the value of a member. -/
@[simp] theorem relink_value (keep discard : Nat) (m : Member α) :
    (relink keep discard m).value = m.value := by
  unfold relink; split <;> rfl

/-- Relinking gives the members of the discarded class the leader that is kept. -/
theorem relink_leader (keep discard : Nat) (m : Member α) :
    (relink keep discard m).leader = if m.leader = discard then keep else m.leader := by
  unfold relink; split <;> rfl

/-- Linking relinks all members. -/
theorem link_members (p : Partition α) (keep discard : Nat) :
    (p.link keep discard).members = p.members.map (relink keep discard) := rfl

/-- So is the member at a place relinked. -/
theorem link_getElem? (p : Partition α) (keep discard place : Nat) :
    (p.link keep discard).members[place]? = p.members[place]?.map (relink keep discard) := by
  rw [link_members, List.getElem?_map]

/-- After linking, the kept leader leads. -/
theorem Leads.link_keep {keep discard : Nat} {k : Member α} (leads : p.Leads keep k)
    (apart : keep ≠ discard) : (p.link keep discard).Leads keep k := by
  refine ⟨?_, leads.2⟩
  rw [link_getElem?, leads.1]
  simp [relink, leads.2, apart]

/-- After linking, every leader but the discarded one leads. -/
theorem Leads.link_other {keep discard place : Nat} {l : Member α} (leads : p.Leads place l)
    (apart : place ≠ discard) : (p.link keep discard).Leads place l := by
  refine ⟨?_, leads.2⟩
  rw [link_getElem?, leads.1]
  simp [relink, leads.2, apart]

/-- The leaders after linking are those before, without the one that was discarded. -/
theorem leads_of_link {keep discard place : Nat} {k l : Member α}
    (keeps : p.Leads keep k) (leads : (p.link keep discard).Leads place l) :
    ∃ n, p.Leads place n ∧ l.value = n.value ∧ (keep ≠ discard → place ≠ discard) := by
  obtain ⟨held, leader⟩ := leads
  rw [link_getElem?, Option.map_eq_some_iff] at held
  obtain ⟨n, held, rfl⟩ := held
  rw [relink_leader] at leader
  split at leader
  next discarded =>
    subst leader
    obtain rfl : k = n := Option.some.inj (keeps.1.symm.trans held)
    exact ⟨k, keeps, relink_value _ _ _, id⟩
  next kept =>
    exact ⟨n, ⟨held, leader⟩, relink_value _ _ _, fun _ same => kept (leader.trans same)⟩

section Linking

variable [Keyed α]

/-- Linking two leaders keeps a partition lawful. -/
theorem Lawful.link (lawful : p.Lawful) {keep discard : Nat} {k : Member α}
    (keeps : p.Leads keep k) (apart : keep ≠ discard) : (p.link keep discard).Lawful := by
  constructor
  · intro m inside
    obtain ⟨n, old, rfl⟩ := List.mem_map.mp inside
    exact (relink_key keep discard n).trans ((lawful.keyed n old).trans
      (congrArg Keyed.key (relink_value keep discard n).symm))
  · have same : (Member.key ∘ relink keep discard : Member α → String) = Member.key :=
      funext (relink_key keep discard)
    rw [link_members, List.map_map, same]
    exact lawful.distinct
  · intro m inside
    obtain ⟨n, old, rfl⟩ := List.mem_map.mp inside
    obtain ⟨l, leads⟩ := lawful.led n old
    change ∃ l, (p.link keep discard).Leads (relink keep discard n).leader l
    rw [relink_leader]
    by_cases discarded : n.leader = discard
    · rw [if_pos discarded]
      exact ⟨k, keeps.link_keep apart⟩
    · rw [if_neg discarded]
      exact ⟨l, leads.link_other discarded⟩

/-- Linking two leaders is respected by exactly the functions that agree on them. -/
theorem Lawful.respects_link {β : Type} (lawful : p.Lawful) {keep discard : Nat}
    {k d : Member α} (keeps : p.Leads keep k) (discards : p.Leads discard d)
    (apart : keep ≠ discard) (f : α → β) :
    (p.link keep discard).Respects f ↔ p.Respects f ∧ f k.value = f d.value := by
  have keptLeader := (keeps.link_keep apart).1
  have relinked : ∀ n ∈ p.members, relink keep discard n ∈ (p.link keep discard).members :=
    fun n old => List.mem_map_of_mem old
  constructor
  · intro respects
    -- The discarded leader is itself a member of the joint class.
    have joint : f d.value = f k.value := by
      have step := respects (relink keep discard d) (relinked d discards.mem) k
        (by rw [relink_leader, if_pos discards.2]; exact keptLeader)
      simpa using step
    refine ⟨?_, joint.symm⟩
    intro m inside l leader
    by_cases discarded : m.leader = discard
    · rw [discarded, discards.1] at leader
      obtain rfl := Option.some.inj leader
      have step := respects (relink keep discard m) (relinked m inside) k
        (by rw [relink_leader, if_pos discarded]; exact keptLeader)
      rw [relink_value] at step
      rw [step, joint]
    · have step := respects (relink keep discard m) (relinked m inside) (relink keep discard l)
        (by rw [relink_leader, if_neg discarded, link_getElem?, leader]; rfl)
      simpa using step
  · rintro ⟨respects, joint⟩ m inside l leader
    obtain ⟨n, old, rfl⟩ := List.mem_map.mp inside
    change (p.link keep discard).members[(relink keep discard n).leader]? = some l at leader
    change f (relink keep discard n).value = f l.value
    rw [relink_leader] at leader
    rw [relink_value]
    by_cases discarded : n.leader = discard
    · rw [if_pos discarded, keptLeader] at leader
      obtain rfl := Option.some.inj leader
      rw [joint]
      exact respects n old d (by rw [discarded]; exact discards.1)
    · obtain ⟨l', leads⟩ := lawful.led n old
      rw [if_neg discarded, (leads.link_other discarded).1] at leader
      obtain rfl := Option.some.inj leader
      exact respects n old l' leads.1

end Linking

end Turnstile.Partition
