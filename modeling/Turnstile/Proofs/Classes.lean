import Mathlib.Logic.Relation
import Turnstile.Proofs.Forest

/-!
# The classes of a run

A run asks a partition for one thing after another: the leader or the leading value of a class,
whether a value is known, to unify two values or many, and what the leaders stand for. Two values
that have been asked for are in one class exactly when the pairs that were unified without a
conflict connect them. What a run answers is what the forest answers that keeps the same classes by
parents, and the parents of that forest never form a cycle.
-/

namespace Turnstile

namespace Partition

/-! ## Runs -/

/-- What a partition can be asked. -/
inductive Request (α : Type) where
  /-- The place that leads a value's class. -/
  | find (a : α)
  /-- The value that leads a value's class. -/
  | representative (a : α)
  /-- Whether a value has been seen. -/
  | knows (a : α)
  /-- To put two values into one class. -/
  | unify (a b : α)
  /-- To put all values into the class of the first. -/
  | unifyMany (values : List α)
  /-- What the values that do not lead stand for. -/
  | substitutions

/-- What a partition answers. -/
inductive Answer (α : Type) where
  /-- The place that leads. -/
  | place (leader : Nat)
  /-- The value that leads. -/
  | value (leader : α)
  /-- Whether the value has been seen. -/
  | known (seen : Bool)
  /-- The conflict, if there is one. -/
  | outcome (conflict : Option (Conflict α))
  /-- The leading value for every key that does not lead. -/
  | pairs (substitutions : List (String × α))

variable {α : Type} [Keyed α]

/-- Answer one request. -/
def answer (d : Discipline α) (p : Partition α) : Request α → Answer α × Partition α
  | .find a => (.place (p.find a).1, (p.find a).2)
  | .representative a => (.value (p.representative a).1, (p.representative a).2)
  | .knows a => (.known (p.knows a), p)
  | .unify a b => (.outcome (p.unify d a b).1, (p.unify d a b).2)
  | .unifyMany values => (.outcome (p.unifyMany d values).1, (p.unifyMany d values).2)
  | .substitutions => (.pairs p.substitutions, p)

/-- Answer a list of requests, one after the other. -/
def answerAll (d : Discipline α) : Partition α → List (Request α) → List (Answer α) × Partition α
  | p, [] => ([], p)
  | p, request :: rest =>
    ((p.answer d request).1 :: (answerAll d (p.answer d request).2 rest).1,
      (answerAll d (p.answer d request).2 rest).2)

/-- The pairs unified without a conflict when the values join the class of `first`. -/
def joinedWith (d : Discipline α) (first : α) : Partition α → List α → List (α × α)
  | _, [] => []
  | p, value :: rest =>
    match p.unify d first value with
    | (none, p) => (first, value) :: joinedWith d first p rest
    | (some _, _) => []

/-- The values looked up when the values join the class of `first`. -/
def askedWith (d : Discipline α) (first : α) : Partition α → List α → List α
  | _, [] => [first]
  | p, value :: rest =>
    match p.unify d first value with
    | (none, p) => first :: value :: askedWith d first p rest
    | (some _, _) => [first, value]

/-- The pairs that a request unifies without a conflict. -/
def joined (d : Discipline α) (p : Partition α) : Request α → List (α × α)
  | .unify a b => if (p.unify d a b).1.isNone then [(a, b)] else []
  | .unifyMany (first :: rest) => p.joinedWith d first rest
  | _ => []

/-- The values that a request looks up. -/
def asked (d : Discipline α) (p : Partition α) : Request α → List α
  | .find a => [a]
  | .representative a => [a]
  | .unify a b => [a, b]
  | .unifyMany (first :: rest) => p.askedWith d first rest
  | _ => []

/-- The pairs that a run unifies without a conflict. -/
def joinedAll (d : Discipline α) : Partition α → List (Request α) → List (α × α)
  | _, [] => []
  | p, request :: rest => p.joined d request ++ joinedAll d (p.answer d request).2 rest

/-- The values that a run looks up. -/
def askedAll (d : Discipline α) : Partition α → List (Request α) → List α
  | _, [] => []
  | p, request :: rest => p.asked d request ++ askedAll d (p.answer d request).2 rest

/-- Two keys that one of the pairs carries. -/
def Joins (joined : List (α × α)) (left right : String) : Prop :=
  ∃ pair ∈ joined, Keyed.key pair.1 = left ∧ Keyed.key pair.2 = right

/-- What a run keeps: the values it looked up are the members, and the pairs it unified decide the
classes. -/
structure Classed (d : Discipline α) (asked : List α) (joined : List (α × α)) (p : Partition α) :
    Prop where
  /-- The partition is lawful. -/
  lawful : p.Lawful
  /-- The members are the values looked up. -/
  known : ∀ key, (∃ m ∈ p.members, m.key = key) ↔ ∃ a ∈ asked, Keyed.key a = key
  /-- A function of keys takes one value on each class exactly when it does so on each pair. -/
  respects : ∀ {β : Type} (g : String → β), p.Respects (g ∘ Keyed.key) ↔
    ∀ pair ∈ joined, g (Keyed.key pair.1) = g (Keyed.key pair.2)
  /-- Variables lead variables only. -/
  plain : ∀ m ∈ p.members, ∀ l, p.Leads m.leader l →
    d.isVariable l.value = true → d.isVariable m.value = true
  /-- Without a resolver no class has two values that are not variables. -/
  single : d.resolve = none → ∀ m ∈ p.members, ∀ n ∈ p.members, m.leader = n.leader →
    d.isVariable m.value = false → d.isVariable n.value = false → m = n

variable {d : Discipline α} {p : Partition α} {asked : List α} {joined : List (α × α)}

/-- The partition that has seen nothing is divided by no pairs. -/
theorem classed_empty : Classed d [] [] (Partition.empty : Partition α) where
  lawful := lawful_empty
  known := by simp [Partition.empty]
  respects := by simp [Partition.empty, Respects]
  plain := by simp [Partition.empty]
  single := by simp [Partition.empty]

/-- A member is found where it is led. -/
theorem Lawful.find_of_mem (lawful : p.Lawful) {m : Member α} (inside : m ∈ p.members) {a : α}
    (same : m.key = Keyed.key a) : p.find a = (m.leader, p) := by
  rw [Partition.find, ← same, lawful.member?_of_mem inside]

/-- After a value has been looked up its key is known besides the ones known before. -/
theorem keyed_find (p : Partition α) (a : α) {key : String} :
    (∃ m ∈ (p.find a).2.members, m.key = key) ↔
      (∃ m ∈ p.members, m.key = key) ∨ Keyed.key a = key := by
  constructor
  · rintro ⟨m, inside, rfl⟩
    rcases mem_of_mem_find inside with old | rfl
    · exact .inl ⟨m, old, rfl⟩
    · exact .inr rfl
  · rintro (⟨m, old, same⟩ | rfl)
    · exact ⟨m, mem_find_of_mem old a, same⟩
    · obtain ⟨m, inside, same, -⟩ := p.find_member a
      exact ⟨m, inside, same⟩

/-- The leader of a member is one of the places in use. -/
theorem Lawful.leader_ne_size (lawful : p.Lawful) {m : Member α} (inside : m ∈ p.members) :
    m.leader ≠ p.size := by
  obtain ⟨l, leads⟩ := lawful.led m inside
  exact Nat.ne_of_lt (List.getElem?_eq_some_iff.mp leads.1).1

/-- Looking up a value adds it as a class of its own, unless it is known. -/
theorem Classed.find (classed : Classed d asked joined p) (a : α) :
    Classed d (asked ++ [a]) joined (p.find a).2 where
  lawful := classed.lawful.find a
  known := by
    intro key
    rw [keyed_find, classed.known]
    simp [or_and_right, exists_or]
  respects g := (classed.lawful.respects_find a _).trans (classed.respects g)
  plain := by
    intro m inside l leads variable_
    rcases find_cases p a with ⟨n, _, _, found⟩ | ⟨_, found⟩
    · rw [found] at inside leads
      exact classed.plain m inside l leads variable_
    · rcases mem_of_mem_find inside with old | rfl
      · obtain ⟨l', before⟩ := classed.lawful.led m old
        obtain rfl := Option.some.inj ((before.find a).1.symm.trans leads.1)
        exact classed.plain m old l' before variable_
      · rw [found] at leads
        obtain rfl := Option.some.inj ((leads_appended p _ a).1.symm.trans leads.1)
        exact variable_
  single := by
    intro without m mInside n nInside same
    rcases find_cases p a with ⟨_, _, _, found⟩ | ⟨_, found⟩
    · rw [found] at mInside nInside
      exact classed.single without m mInside n nInside same
    · rcases mem_of_mem_find mInside with mOld | rfl <;>
        rcases mem_of_mem_find nInside with nOld | rfl
      · exact classed.single without m mOld n nOld same
      · exact absurd same (classed.lawful.leader_ne_size mOld)
      · exact absurd same.symm (classed.lawful.leader_ne_size nOld)
      · exact fun _ _ => rfl

/-- Linking two classes whose leaders a pair stands for joins the pair. -/
theorem Classed.link (classed : Classed d asked joined p) {keep discard : Nat} {k s : Member α}
    (keeps : p.Leads keep k) (discards : p.Leads discard s) (apart : keep ≠ discard)
    (allowed : d.isVariable s.value = true ∨ d.isVariable k.value = false ∧ d.resolve ≠ none)
    {pair : α × α} (stands : ∀ {β : Type} (g : String → β), p.Respects (g ∘ Keyed.key) →
      (g (Keyed.key k.value) = g (Keyed.key s.value) ↔
        g (Keyed.key pair.1) = g (Keyed.key pair.2))) :
    Classed d asked (joined ++ [pair]) (p.link keep discard) where
  lawful := classed.lawful.link keeps apart
  known := by
    intro key
    rw [← classed.known, link_members]
    simp
  respects g := by
    rw [classed.lawful.respects_link keeps discards apart, Function.comp, Function.comp,
      and_congr_right (stands g), classed.respects]
    simp [or_imp, forall_and]
  plain := by
    intro m inside l leads variable_
    obtain ⟨n, old, rfl⟩ := List.mem_map.mp inside
    change (p.link keep discard).Leads (relink keep discard n).leader l at leads
    change d.isVariable (relink keep discard n).value = true
    rw [relink_leader] at leads
    rw [relink_value]
    split at leads
    next discarded =>
      obtain rfl := Option.some.inj ((keeps.link_keep apart).1.symm.trans leads.1)
      rcases allowed with bound | ⟨fixed, -⟩
      · exact classed.plain n old s (discarded ▸ discards) bound
      · exact absurd variable_ (by simp [fixed])
    next kept =>
      obtain ⟨l', before⟩ := classed.lawful.led n old
      obtain rfl := Option.some.inj ((before.link_other kept).1.symm.trans leads.1)
      exact classed.plain n old l' before variable_
  single := by
    intro without m mInside n nInside same mPlain nPlain
    obtain ⟨m', mOld, rfl⟩ := List.mem_map.mp mInside
    obtain ⟨n', nOld, rfl⟩ := List.mem_map.mp nInside
    change (relink keep discard m').leader = (relink keep discard n').leader at same
    change d.isVariable (relink keep discard m').value = false at mPlain
    change d.isVariable (relink keep discard n').value = false at nPlain
    have bound : d.isVariable s.value = true := allowed.resolve_right fun both => both.2 without
    -- The class that gives up its leader holds variables only.
    have stays : ∀ m ∈ p.members, d.isVariable (relink keep discard m).value = false →
        m.leader ≠ discard := by
      intro m old fixed is
      rw [relink_value] at fixed
      exact absurd (classed.plain m old s (is ▸ discards) bound) (by simp [fixed])
    rw [relink_leader, relink_leader, if_neg (stays m' mOld mPlain),
      if_neg (stays n' nOld nPlain)] at same
    rw [relink_value] at mPlain nPlain
    rw [classed.single without m' mOld n' nOld same mPlain nPlain]

/-- How unifying two values can end once both have been looked up: with a conflict, with both in
one class already, or with a link, in which the leader that is given up is a variable unless a
resolver has agreed. -/
inductive Unified (d : Discipline α) (p : Partition α) (i j : Nat) (li lj : Member α) :
    Option (Conflict α) × Partition α → Prop
  | conflict (conflict : Conflict α) : Unified d p i j li lj (some conflict, p)
  | same (is : i = j) : Unified d p i j li lj (none, p)
  | first (apart : i ≠ j) (bound : d.isVariable li.value = true) :
    Unified d p i j li lj (none, p.link j i)
  | second (apart : i ≠ j)
    (allowed : d.isVariable lj.value = true ∨ d.isVariable li.value = false ∧ d.resolve ≠ none) :
    Unified d p i j li lj (none, p.link i j)

/-- Unifying looks both values up, which finds their leaders, and then ends in one of these ways. -/
theorem Lawful.unify_cases (lawful : p.Lawful) (d : Discipline α) (a b : α) :
    ∃ li lj, ((p.find a).2.find b).2.Leads (p.find a).1 li ∧
      ((p.find a).2.find b).2.Leads ((p.find a).2.find b).1 lj ∧
      Unified d ((p.find a).2.find b).2 (p.find a).1 ((p.find a).2.find b).1 li lj
        (p.unify d a b) := by
  have leadsA : ∃ li, (p.find a).2.Leads (p.find a).1 li := by
    obtain ⟨m, inside, -, leader⟩ := p.find_member a
    exact leader ▸ (lawful.find a).led m inside
  have leadsB : ∃ lj, ((p.find a).2.find b).2.Leads ((p.find a).2.find b).1 lj := by
    obtain ⟨m, inside, -, leader⟩ := (p.find a).2.find_member b
    exact leader ▸ ((lawful.find a).find b).led m inside
  obtain ⟨li, first⟩ := leadsA
  obtain ⟨lj, second⟩ := leadsB
  have first := first.find b
  refine ⟨li, lj, first, second, ?_⟩
  unfold unify
  dsimp only
  rw [first.valueAt, second.valueAt]
  split
  next same => exact .same same
  next apart =>
    unfold bind
    split
    next bound =>
      split
      next => exact .conflict _
      next => exact .first apart bound
    next fixed =>
      split
      next bound =>
        split
        next => exact .conflict _
        next => exact .second apart (.inl bound)
      next =>
        split
        next => exact .conflict _
        next resolves =>
          split
          next => exact .conflict _
          next => exact .second apart (.inr ⟨Bool.eq_false_iff.mpr fixed, by simp [resolves]⟩)

/-- What a function of keys says of a value, it says of the leader found for the value. -/
theorem Lawful.leader_eq (lawful : p.Lawful) {β : Type} {g : String → β}
    (respects : p.Respects (g ∘ Keyed.key)) {m l : Member α} (inside : m ∈ p.members)
    (leads : p.Leads m.leader l) : g m.key = g (Keyed.key l.value) := by
  rw [lawful.keyed m inside]
  exact respects m inside l leads.1

/-- Unifying without a conflict joins the two values; a conflict changes no class. -/
theorem Classed.unify (classed : Classed d asked joined p) (a b : α) :
    Classed d (asked ++ [a, b])
      (joined ++ if (p.unify d a b).1.isNone then [(a, b)] else []) (p.unify d a b).2 := by
  obtain ⟨li, lj, first, second, outcome⟩ := classed.lawful.unify_cases d a b
  have looked : Classed d (asked ++ [a, b]) joined ((p.find a).2.find b).2 := by
    simpa using (classed.find a).find b
  -- A function that respects the classes takes at the leaders the values it takes at `a` and `b`.
  have atLeaders : ∀ {β : Type} (g : String → β),
      ((p.find a).2.find b).2.Respects (g ∘ Keyed.key) →
        g (Keyed.key li.value) = g (Keyed.key a) ∧ g (Keyed.key lj.value) = g (Keyed.key b) := by
    intro β g respects
    obtain ⟨m, mInside, mKey, mLeader⟩ := p.find_member a
    obtain ⟨n, nInside, nKey, nLeader⟩ := (p.find a).2.find_member b
    rw [← mLeader] at first
    rw [← nLeader] at second
    rw [← mKey, ← nKey]
    exact ⟨(looked.lawful.leader_eq respects (mem_find_of_mem mInside b) first).symm,
      (looked.lawful.leader_eq respects nInside second).symm⟩
  generalize p.unify d a b = result at outcome
  cases outcome with
  | conflict conflict => simpa using looked
  | same same =>
    refine { looked with respects := fun g => ?_ }
    obtain rfl := Option.some.inj (first.1.symm.trans (same ▸ second.1))
    refine ⟨fun respects pair listed => ?_, fun agrees => ?_⟩
    · rcases List.mem_append.mp listed with old | new
      · exact (looked.respects g).mp respects pair old
      · obtain rfl := List.mem_singleton.mp new
        obtain ⟨left, right⟩ := atLeaders g respects
        exact left.symm.trans right
    · exact (looked.respects g).mpr fun pair old => agrees pair (List.mem_append_left _ old)
  | first apart bound =>
    refine looked.link second first (Ne.symm apart) (.inl bound) fun g respects => ?_
    obtain ⟨left, right⟩ := atLeaders g respects
    rw [left, right]
    exact eq_comm
  | second apart allowed =>
    refine looked.link first second apart allowed fun g respects => ?_
    obtain ⟨left, right⟩ := atLeaders g respects
    rw [left, right]

/-- Joining no pairs changes nothing. -/
theorem Classed.unjoined (classed : Classed d asked joined p) :
    Classed d asked (joined ++ []) p := by
  rwa [List.append_nil]

/-- Looking up no values and joining no pairs changes nothing. -/
theorem Classed.unasked (classed : Classed d asked joined p) :
    Classed d (asked ++ []) (joined ++ []) p := by
  rwa [List.append_nil, List.append_nil]

/-- Joining values to the class of the first joins each of them until the first conflict. -/
theorem Classed.unifyAll {first : α} : ∀ {asked joined} {p : Partition α} {values : List α},
    Classed d asked joined p → Classed d (asked ++ p.askedWith d first values)
      (joined ++ p.joinedWith d first values) (p.unifyAll d first values).2
  | _, _, p, [], classed => (classed.find first).unjoined
  | _, _, p, value :: rest, classed => by
    have step := classed.unify first value
    rw [askedWith, joinedWith, Partition.unifyAll]
    rcases is : p.unify d first value with ⟨_ | conflict, q⟩ <;> rw [is] at step
    · simpa using Classed.unifyAll step
    · simpa using step

/-- Answering a request looks up its values and joins its pairs. -/
theorem Classed.answer (classed : Classed d asked joined p) (request : Request α) :
    Classed d (asked ++ p.asked d request) (joined ++ p.joined d request)
      (p.answer d request).2 := by
  cases request with
  | find a => exact (classed.find a).unjoined
  | representative a => exact (classed.find a).unjoined
  | knows a => exact classed.unasked
  | unify a b => exact classed.unify a b
  | unifyMany values =>
    cases values with
    | nil => exact classed.unasked
    | cons first rest => exact classed.unifyAll
  | substitutions => exact classed.unasked

/-- A run looks up the values of its requests and joins their pairs. -/
theorem Classed.answerAll : ∀ {asked joined} {p : Partition α} {requests : List (Request α)},
    Classed d asked joined p → Classed d (asked ++ p.askedAll d requests)
      (joined ++ p.joinedAll d requests) (p.answerAll d requests).2
  | _, _, _, [], classed => classed.unasked
  | _, _, p, request :: rest, classed => by
    have tail : Classed d _ _ ((p.answer d request).2.answerAll d rest).2 :=
      Classed.answerAll (classed.answer request)
    rwa [List.append_assoc, List.append_assoc] at tail

/-! ## What a run has divided -/

/-- How the values are divided after a run that has looked up the values `asked` and has unified the
pairs `joined`. -/
structure Divided (d : Discipline α) (asked : List α) (joined : List (α × α)) (p : Partition α) :
    Prop where
  /-- The values seen are the ones looked up. -/
  known : ∀ a, p.knows a = true ↔ ∃ b ∈ asked, Keyed.key b = Keyed.key a
  /-- Two values have one leader exactly when the pairs connect them. -/
  connected : ∀ a b, p.knows a = true → p.knows b = true →
    ((p.find a).1 = (p.find b).1 ↔
      Relation.EqvGen (Joins joined) (Keyed.key a) (Keyed.key b))
  /-- A conflict leaves every value its leader. -/
  unchanged : ∀ a b conflict x, (p.unify d a b).1 = some conflict → p.knows x = true →
    ((p.unify d a b).2.find x).1 = (p.find x).1
  /-- A class with a value that is no variable is represented by such a value. -/
  plain : ∀ m ∈ p.members, ∀ a, p.knows a = true → (p.find a).1 = (p.find m.value).1 →
    d.isVariable m.value = false → d.isVariable (p.representative a).1 = false
  /-- Without a resolver a class has at most one value that is no variable. -/
  single : d.resolve = none → ∀ m ∈ p.members, ∀ n ∈ p.members,
    (p.find m.value).1 = (p.find n.value).1 →
    d.isVariable m.value = false → d.isVariable n.value = false → m = n
  /-- The substitutions map every value that does not represent its class to the one that does. -/
  substituted : ∀ key value, (key, value) ∈ p.substitutions ↔ ∃ m ∈ p.members, m.key = key ∧
    (p.representative m.value).1 = value ∧ Keyed.key value ≠ key
  /-- No key is substituted twice. -/
  once : (p.substitutions.map Prod.fst).Nodup

/-- A value that has been seen has a member. -/
theorem exists_of_knows {a : α} (seen : p.knows a = true) :
    ∃ m ∈ p.members, m.key = Keyed.key a := by
  obtain ⟨m, found⟩ := Option.isSome_iff_exists.mp seen
  exact ⟨m, member?_some found⟩

/-- A partition knows the value of every member. -/
theorem Lawful.knows_of_mem (lawful : p.Lawful) {m : Member α} (inside : m ∈ p.members) {a : α}
    (same : m.key = Keyed.key a) : p.knows a = true := by
  rw [knows, ← same, lawful.member?_of_mem inside]
  rfl

/-- The representative of a member is the value of its leader. -/
theorem Lawful.representative_of_mem (lawful : p.Lawful) {m l : Member α} (inside : m ∈ p.members)
    (leads : p.Leads m.leader l) {a : α} (same : m.key = Keyed.key a) :
    (p.representative a).1 = l.value := by
  rw [representative, lawful.find_of_mem inside same]
  exact leads.valueAt a

/-- The leader of a key. -/
def leaderOf (p : Partition α) (key : String) : Option Nat := (p.member? key).map Member.leader

/-- The leader that a member has is the leader of its key. -/
theorem Lawful.leaderOf_of_mem (lawful : p.Lawful) {m : Member α} (inside : m ∈ p.members) :
    p.leaderOf m.key = some m.leader := by
  rw [leaderOf, lawful.member?_of_mem inside]
  rfl

/-- The leader is itself a function of keys that respects the classes. -/
theorem Lawful.respects_leaderOf (lawful : p.Lawful) : p.Respects (p.leaderOf ∘ Keyed.key) := by
  intro m inside l leader
  obtain ⟨l', leads⟩ := lawful.led m inside
  obtain rfl := Option.some.inj (leads.1.symm.trans leader)
  rw [Function.comp, Function.comp, ← lawful.keyed m inside, ← lawful.keyed l' leads.mem,
    lawful.leaderOf_of_mem inside, lawful.leaderOf_of_mem leads.mem, leads.2]

/-- Two members have one leader exactly when the pairs connect their keys. -/
theorem Classed.connected (classed : Classed d asked joined p) {m n : Member α}
    (mInside : m ∈ p.members) (nInside : n ∈ p.members) :
    m.leader = n.leader ↔ Relation.EqvGen (Joins joined) m.key n.key := by
  constructor
  · intro same
    have respects := (classed.respects (Quot.mk (Joins joined))).mpr
      fun pair listed => Quot.sound ⟨pair, listed, rfl, rfl⟩
    obtain ⟨l, leads⟩ := classed.lawful.led m mInside
    have first := classed.lawful.leader_eq respects mInside leads
    have second := classed.lawful.leader_eq respects nInside (same ▸ leads)
    exact Quot.eqvGen_exact (first.trans second.symm)
  · intro path
    have along : ∀ {left right}, Relation.EqvGen (Joins joined) left right →
        p.leaderOf left = p.leaderOf right := by
      intro left right path
      induction path with
      | rel left right joins =>
        obtain ⟨pair, listed, rfl, rfl⟩ := joins
        exact (classed.respects p.leaderOf).mp classed.lawful.respects_leaderOf pair listed
      | refl => rfl
      | symm _ _ _ ih => exact ih.symm
      | trans _ _ _ _ _ first second => exact first.trans second
    have same := along path
    rw [classed.lawful.leaderOf_of_mem mInside, classed.lawful.leaderOf_of_mem nInside] at same
    exact Option.some.inj same

/-- What a conflict leaves is what looking up the two values leaves. -/
theorem Lawful.unify_conflict (lawful : p.Lawful) {a b : α} {conflict : Conflict α}
    (fails : (p.unify d a b).1 = some conflict) :
    (p.unify d a b).2 = ((p.find a).2.find b).2 := by
  obtain ⟨_, _, -, -, outcome⟩ := lawful.unify_cases d a b
  generalize p.unify d a b = result at outcome fails
  cases outcome with
  | conflict conflict => rfl
  | same _ => cases fails
  | first _ _ => cases fails
  | second _ _ => cases fails

/-- A member has one place. -/
theorem Lawful.place_unique (lawful : p.Lawful) {i j : Nat} {m : Member α}
    (first : p.members[i]? = some m) (second : p.members[j]? = some m) : i = j := by
  obtain ⟨bound, -⟩ := List.getElem?_eq_some_iff.mp first
  refine (List.getElem?_inj (by simpa using bound) lawful.distinct).mp ?_
  rw [List.getElem?_map, List.getElem?_map, first, second]

/-- The substitutions are the members that do not lead, each with the value of its leader. -/
theorem Lawful.mem_substitutions (lawful : p.Lawful) {key : String} {value : α} :
    (key, value) ∈ p.substitutions ↔ ∃ m ∈ p.members, ∃ l, p.Leads m.leader l ∧
      m.key = key ∧ l.value = value ∧ l.key ≠ key := by
  rw [substitutions, List.mem_filterMap]
  constructor
  · rintro ⟨⟨m, place⟩, listed, given⟩
    have held := List.mem_zipIdx_iff_getElem?.mp listed
    have inside := List.mem_of_getElem? held
    obtain ⟨l, leads⟩ := lawful.led m inside
    dsimp only at given
    split at given
    next => cases given
    next apart =>
      rw [leads.valueAt] at given
      obtain ⟨rfl, rfl⟩ := Prod.ext_iff.mp (Option.some.inj given)
      refine ⟨m, inside, l, leads, rfl, rfl, fun same => apart ?_⟩
      obtain rfl := lawful.unique leads.mem inside same
      exact lawful.place_unique leads.1 held
  · rintro ⟨m, inside, l, leads, rfl, rfl, apart⟩
    obtain ⟨place, held⟩ := List.mem_iff_getElem?.mp inside
    refine ⟨(m, place), List.mem_zipIdx_iff_getElem?.mpr held, ?_⟩
    have moved : m.leader ≠ place := by
      intro is
      rw [is] at leads
      obtain rfl := Option.some.inj (leads.1.symm.trans held)
      exact apart rfl
    dsimp only
    rw [if_neg moved, leads.valueAt]

/-- The substitutions go through the members once. -/
theorem Lawful.substitutions_once (lawful : p.Lawful) :
    (p.substitutions.map Prod.fst).Nodup := by
  have keys : p.substitutions.map Prod.fst =
      (p.members.zipIdx.filter fun entry => entry.1.leader ≠ entry.2).map
        (Member.key ∘ Prod.fst) := by
    rw [substitutions]
    induction p.members.zipIdx with
    | nil => rfl
    | cons entry rest ih =>
      obtain ⟨m, place⟩ := entry
      by_cases same : m.leader = place <;> simp [same, ih]
  have listed : p.members.zipIdx.map (Member.key ∘ Prod.fst) = p.members.map Member.key := by
    rw [← List.map_map, List.zipIdx_map_fst]
  rw [keys]
  exact (List.filter_sublist.map _).nodup (listed ▸ lawful.distinct)

/-- What a run keeps says how its values are divided. -/
theorem Classed.divided (classed : Classed d asked joined p) : Divided d asked joined p where
  known a := by
    rw [← classed.known]
    refine ⟨exists_of_knows, ?_⟩
    rintro ⟨m, inside, same⟩
    exact classed.lawful.knows_of_mem inside same
  connected := by
    intro a b aSeen bSeen
    obtain ⟨m, mInside, mKey⟩ := exists_of_knows aSeen
    obtain ⟨n, nInside, nKey⟩ := exists_of_knows bSeen
    rw [classed.lawful.find_of_mem mInside mKey, classed.lawful.find_of_mem nInside nKey,
      ← mKey, ← nKey]
    exact classed.connected mInside nInside
  unchanged := by
    intro a b conflict x fails seen
    obtain ⟨m, inside, same⟩ := exists_of_knows seen
    have still := mem_find_of_mem (mem_find_of_mem inside a) b
    rw [classed.lawful.unify_conflict fails, classed.lawful.find_of_mem inside same,
      ((classed.lawful.find a).find b).find_of_mem still same]
  plain := by
    intro m inside a seen sameClass fixed
    obtain ⟨n, nInside, same⟩ := exists_of_knows seen
    obtain ⟨l, leads⟩ := classed.lawful.led n nInside
    rw [classed.lawful.find_of_mem nInside same,
      classed.lawful.find_of_mem inside (classed.lawful.keyed m inside)] at sameClass
    rw [classed.lawful.representative_of_mem nInside leads same, Bool.eq_false_iff]
    intro bound
    replace sameClass : n.leader = m.leader := sameClass
    have shared : p.Leads m.leader l := sameClass ▸ leads
    exact absurd (classed.plain m inside l shared bound) (by simp [fixed])
  single := by
    intro without m mInside n nInside sameClass
    rw [classed.lawful.find_of_mem mInside (classed.lawful.keyed m mInside),
      classed.lawful.find_of_mem nInside (classed.lawful.keyed n nInside)] at sameClass
    exact classed.single without m mInside n nInside sameClass
  substituted := by
    intro key value
    rw [classed.lawful.mem_substitutions]
    refine exists_congr fun m => and_congr_right fun inside => ?_
    obtain ⟨l, leads⟩ := classed.lawful.led m inside
    rw [classed.lawful.representative_of_mem inside leads (classed.lawful.keyed m inside)]
    constructor
    · rintro ⟨l', leads', rfl, rfl, apart⟩
      obtain rfl := Option.some.inj (leads.1.symm.trans leads'.1)
      exact ⟨rfl, rfl, classed.lawful.keyed l leads.mem ▸ apart⟩
    · rintro ⟨rfl, rfl, apart⟩
      exact ⟨l, leads, rfl, rfl, (classed.lawful.keyed l leads.mem).symm ▸ apart⟩
  once := classed.lawful.substitutions_once

end Partition

/-! ## Runs of a forest -/

namespace Forest

variable {α : Type} [Keyed α]

/-- Answer one request. -/
def answer (d : Discipline α) (f : Forest α) : Partition.Request α → Partition.Answer α × Forest α
  | .find a => (.place (f.find a).1, (f.find a).2)
  | .representative a => (.value (f.representative a).1, (f.representative a).2)
  | .knows a => (.known (f.knows a), f)
  | .unify a b => (.outcome (f.unify d a b).1, (f.unify d a b).2)
  | .unifyMany values => (.outcome (f.unifyMany d values).1, (f.unifyMany d values).2)
  | .substitutions => (.pairs f.substitutions.1, f.substitutions.2)

/-- Answer a list of requests, one after the other. -/
def answerAll (d : Discipline α) :
    Forest α → List (Partition.Request α) → List (Partition.Answer α) × Forest α
  | f, [] => ([], f)
  | f, request :: rest =>
    ((f.answer d request).1 :: (answerAll d (f.answer d request).2 rest).1,
      (answerAll d (f.answer d request).2 rest).2)

/-- A forest answers what the partition behind it answers. -/
theorem flat_answer (d : Discipline α) (f : Forest α) (request : Partition.Request α) :
    f.flat.answer d request = ((f.answer d request).1, (f.answer d request).2.flat) := by
  cases request with
  | find a => simp only [Partition.answer, answer, flat_find]
  | representative a => simp only [Partition.answer, answer, flat_representative]
  | knows a => simp only [Partition.answer, answer, flat_knows]
  | unify a b => simp only [Partition.answer, answer, flat_unify]
  | unifyMany values => simp only [Partition.answer, answer, flat_unifyMany]
  | substitutions => simp only [Partition.answer, answer, flat_substitutions]

/-- A run of a forest answers what the run of the partition behind it answers. -/
theorem flat_answerAll (d : Discipline α) :
    ∀ (f : Forest α) (requests : List (Partition.Request α)), f.flat.answerAll d requests =
      ((f.answerAll d requests).1, (f.answerAll d requests).2.flat)
  | _, [] => rfl
  | f, request :: rest => by
    simp only [Partition.answerAll, answerAll, flat_answer, flat_answerAll]

/-- Whatever a forest is asked, its parents end at roots and never form a cycle, its index is a
bijection between keys and places, it answers what a partition answers, and the partition behind it
divides exactly the values asked for, by exactly the pairs that were unified without a conflict. -/
theorem answerAll_divided (d : Discipline α) (requests : List (Partition.Request α)) :
    ((Forest.empty : Forest α).answerAll d requests).2.Sound ∧
      ((Forest.empty : Forest α).answerAll d requests).1 =
        ((Partition.empty : Partition α).answerAll d requests).1 ∧
      ((Forest.empty : Forest α).answerAll d requests).2.flat =
        ((Partition.empty : Partition α).answerAll d requests).2 ∧
      ((Partition.empty : Partition α).answerAll d requests).2.Divided d
        (Partition.empty.askedAll d requests) (Partition.empty.joinedAll d requests) := by
  have same := flat_answerAll d (Forest.empty : Forest α) requests
  change Partition.empty.answerAll d requests = _ at same
  refine ⟨sound _, ?_, ?_, ?_⟩
  · rw [same]
  · rw [same]
  · have classed : Partition.Classed d _ _
        ((Partition.empty : Partition α).answerAll d requests).2 :=
      Partition.Classed.answerAll Partition.classed_empty
    exact classed.divided

end Forest

end Turnstile
