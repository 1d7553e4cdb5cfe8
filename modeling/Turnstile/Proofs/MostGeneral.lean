import Turnstile.Proofs.Unification

/-!
# Most general unifiers

The depth that a call is given always suffices. The types that nested calls meet are parts of the
types at hand, and under a solution of the equations recorded so far each is smaller than the one
before; hence fewer and fewer of those parts are below it. With the depth out of the way, a
sequence of calls solves exactly the sequence of its equations.
-/

namespace Turnstile

/-- A type and all types inside it. -/
def Ty.parts : Ty → List Ty
  | .const name => [.const name]
  | .var id => [.var id]
  | .arrow domain codomain => .arrow domain codomain :: (domain.parts ++ codomain.parts)

/-- A type is one of its parts. -/
theorem Ty.mem_parts_self (t : Ty) : t ∈ t.parts := by cases t <;> simp [Ty.parts]

/-- A type has as many parts as constructors. -/
theorem Ty.length_parts (t : Ty) : t.parts.length = t.size := by
  induction t with
  | const name => rfl
  | var id => rfl
  | arrow domain codomain ihDomain ihCodomain => simp [Ty.parts, Ty.size, ihDomain, ihCodomain]

/-- A property that function types pass on to their domains and codomains. -/
def Closed (P : Ty → Prop) : Prop :=
  ∀ {domain codomain : Ty}, P (.arrow domain codomain) → P domain ∧ P codomain

/-- The domain and codomain of a part are parts. -/
theorem Ty.closed_parts (t : Ty) : Closed (· ∈ t.parts) := by
  intro domain codomain inside
  induction t with
  | const name => simp [Ty.parts] at inside
  | var id => simp [Ty.parts] at inside
  | arrow d c ihDomain ihCodomain =>
    simp only [Ty.parts, List.mem_cons, Ty.arrow.injEq, List.mem_append] at inside ⊢
    rcases inside with ⟨rfl, rfl⟩ | left | right
    · exact ⟨.inr (.inl (mem_parts_self _)), .inr (.inr (mem_parts_self _))⟩
    · exact ⟨.inr (.inl (ihDomain left).1), .inr (.inl (ihDomain left).2)⟩
    · exact ⟨.inr (.inr (ihCodomain right).1), .inr (.inr (ihCodomain right).2)⟩

/-- The domain and codomain of a part of some types are parts of them. -/
theorem closed_flatMap_parts (types : List Ty) : Closed (· ∈ types.flatMap Ty.parts) := by
  intro domain codomain inside
  obtain ⟨t, known, part⟩ := List.mem_flatMap.mp inside
  have parts := Ty.closed_parts t part
  exact ⟨List.mem_flatMap.mpr ⟨t, known, parts.1⟩, List.mem_flatMap.mpr ⟨t, known, parts.2⟩⟩

namespace Unifier

variable {u : Unifier} {σ θ : Int → Ty} {a b : Ty} {P : Ty → Prop} {pool : List Ty}
  {recur : Unifier → Ty → Ty → Option (Option Clash × Unifier)}
  {outcome : Option Clash × Unifier}

/-! ## The types that calls meet -/

/-- The types seen have a property. -/
def Within (P : Ty → Prop) (u : Unifier) : Prop := ∀ m ∈ u.types.members, P m.value

/-- The empty unifier stays within every pool. -/
theorem within_empty : Within P Unifier.empty := by
  simp [Within, Unifier.empty, Partition.empty]

/-- Looking up a type adds only that type. -/
theorem Within.seen (within : Within P u) (inside : P a) : Within P (u.seen a) := by
  intro m member
  rcases Partition.mem_of_mem_find member with old | rfl
  · exact within m old
  · exact inside

/-- Linking classes adds no type. -/
theorem Within.link (within : Within P u) (keep discard : Nat) :
    Within P ⟨u.types.link keep discard⟩ := by
  intro m member
  obtain ⟨n, old, rfl⟩ := List.mem_map.mp member
  exact (Partition.relink_value keep discard n).symm ▸ within n old

/-- Binding a variable stays within the pool if the type that is kept does. -/
theorem Within.bind (within : Within P u) (keep discard : Nat) (kept : Ty) (id : Int) :
    Within P (u.bind keep discard kept id).2 := by
  rw [Unifier.bind]
  split
  · exact within
  · exact within.link keep discard

/-- Merging two types of the pool stays within it. -/
theorem Within.merge (within : Within P u) (insideA : P a) (insideB : P b) :
    Within P (u.merge a b) := by
  have both := (within.seen insideA).seen insideB
  rw [merge_eq]
  split
  · exact both
  · exact both.link _ _

/-- The types at the places of a partition have the property too. -/
theorem Within.valueAt (within : Within P u) (inside : P a) (place : Nat) :
    P (u.types.valueAt place a) := by
  rw [Partition.valueAt]
  cases found : u.types.members[place]? with
  | none => exact inside
  | some m => exact within m (List.mem_of_getElem? found)

/-- A way to unify that sees only types with a property. -/
def Confined (P : Ty → Prop) (recur : Unifier → Ty → Ty → Option (Option Clash × Unifier)) :
    Prop :=
  ∀ {u : Unifier} {a b : Ty} {outcome : Option Clash × Unifier}, Within P u → P a →
    P b → recur u a b = some outcome → Within P outcome.2

/-- Unifying arrows stays within a pool that is closed under parts. -/
theorem Confined.arrows (confined : Confined P recur) (closed : Closed P)
    {d c d' c' : Ty} (within : Within P u) (insideA : P a) (insideB : P b)
    (arrow : P (Ty.arrow d c)) (arrow' : P (Ty.arrow d' c'))
    (finished : unifyArrows recur u a b d c d' c' = some outcome) : Within P outcome.2 := by
  rw [unifyArrows] at finished
  rcases first : recur u d d' with _ | ⟨_ | clash, v⟩
  · simp [first] at finished
  · have domains := confined within (closed arrow).1 (closed arrow').1 first
    rcases second : recur v c c' with _ | ⟨_ | clash, w⟩
    · simp [first, second] at finished
    · have codomains := confined domains (closed arrow).2 (closed arrow').2 second
      simp only [first, second, Option.some.injEq] at finished
      subst finished
      exact codomains.merge insideA insideB
    · have codomains := confined domains (closed arrow).2 (closed arrow').2 second
      simp only [first, second, Option.some.injEq] at finished
      subst finished
      exact codomains
  · have domains := confined within (closed arrow).1 (closed arrow').1 first
    simp only [first, Option.some.injEq] at finished
    subst finished
    exact domains

/-- Unifying leaders stays within a pool that is closed under parts. -/
theorem Confined.leaders (confined : Confined P recur) (closed : Closed P) {i j : Nat}
    {va vb : Ty} (within : Within P u) (insideA : P a) (insideB : P b)
    (leaderA : P va) (leaderB : P vb)
    (finished : unifyLeaders recur u a b i j va vb = some outcome) : Within P outcome.2 := by
  revert finished
  fun_cases unifyLeaders recur u a b i j va vb with
  | case1 id vb => rintro ⟨⟩; exact within.bind _ _ _ _
  | case2 va id _ => rintro ⟨⟩; exact within.bind _ _ _ _
  | case3 d c d' c' =>
    intro finished
    exact confined.arrows closed within insideA insideB leaderA leaderB finished
  | case4 va vb _ _ _ => rintro ⟨⟩; exact within

/-- Unifying to any depth stays within a pool that is closed under parts. -/
theorem confined_unifyWithin (closed : Closed P) (depth : Nat) :
    Confined P (unifyWithin depth) := by
  induction depth with
  | zero => intro u a b outcome _ _ _ finished; simp [unifyWithin] at finished
  | succ depth ih =>
    intro u a b outcome within insideA insideB finished
    have both := (within.seen insideA).seen insideB
    rw [unifyWithin_eq] at finished
    split at finished
    · cases finished
      exact both
    · exact ih.leaders closed both insideA insideB (both.valueAt insideA _)
        (both.valueAt insideB _) finished

/-- All variables of a type are of some sort. -/
def VarsIn (B : Int → Prop) (t : Ty) : Prop := ∀ id ∈ t.vars, B id

/-- The types over some variables are closed under parts. -/
theorem closed_varsIn (B : Int → Prop) : Closed (VarsIn B) := by
  intro domain codomain holds
  constructor
  · exact fun id inside => holds id (List.mem_append_left _ inside)
  · exact fun id inside => holds id (List.mem_append_right _ inside)

/-- Where all variables seen are of some sort, the values of such variables are made of such
variables. -/
theorem Consistent.vars_value {B : Int → Prop} (consistent : u.Consistent)
    (resolves : Resolves θ u) (within : Within (VarsIn B) u) (id : Int) :
    B id → VarsIn B (θ id) := by
  have leaders : ∀ {id value}, u.leader? id = some value → VarsIn B value := by
    intro id value found
    obtain ⟨m, _, _, l, leads, rfl⟩ := consistent.leader?_some found
    exact within l leads.mem
  induction id using resolves.follow with
  | unseen id _ stands =>
    intro known w inside
    rw [stands] at inside
    obtain rfl : w = id := by simpa [Ty.vars] using inside
    exact known
  | renamed id leader found stands =>
    intro _
    rw [stands]
    exact leaders found
  | bound id value found _ stands parts =>
    intro _ w inside
    rw [stands] at inside
    obtain ⟨v, part, inValue⟩ := Ty.mem_vars_mapVars.mp inside
    exact parts v part (leaders found v part) w inValue

/-! ## The depth suffices -/

/-- How many types of a collection a substitution makes smaller than some type. -/
def below (pool : List Ty) (σ : Int → Ty) (t : Ty) : Nat :=
  pool.countP fun s => decide ((s.mapVars σ).size < (t.mapVars σ).size)

/-- No type has more parts below it than there are in the pool. -/
theorem below_le (pool : List Ty) (σ : Int → Ty) (t : Ty) : below pool σ t ≤ pool.length :=
  List.countP_le_length

/-- A smaller type of the collection has fewer types below it, because it is not below itself. -/
theorem below_lt {s t : Ty} (inside : s ∈ pool)
    (smaller : (s.mapVars σ).size < (t.mapVars σ).size) : below pool σ s < below pool σ t := by
  have mono : ∀ types : List Ty, below types σ s ≤ below types σ t := by
    intro types
    apply List.countP_mono_left
    intro r _ counted
    simp only [decide_eq_true_eq] at counted ⊢
    omega
  obtain ⟨before, after, rfl⟩ := List.append_of_mem inside
  have first := mono before
  have second := mono after
  simp only [below, List.countP_append, List.countP_cons] at first second ⊢
  simp only [smaller, Nat.lt_irrefl, decide_true, decide_false, if_true, Bool.false_eq_true,
    if_false]
  omega

/-- A way to unify that finishes when a depth exceeds what is below the type at hand. -/
def Finishing (pool : List Ty) (depth : Nat)
    (recur : Unifier → Ty → Ty → Option (Option Clash × Unifier)) : Prop :=
  ∀ {u : Unifier} {a b : Ty}, u.Consistent → a.Plain → b.Plain → Within (· ∈ pool) u → a ∈ pool →
    b ∈ pool → (∀ σ, Solves σ u → below pool σ a < depth) → (recur u a b).isSome

/-- Unifying arrows finishes if unifying does one level deeper. -/
theorem Finishing.arrows {depth : Nat} (finishing : Finishing pool depth recur)
    (answering : Answering recur) (confined : Confined (· ∈ pool) recur)
    (closed : Closed (· ∈ pool))
    {d c d' c' : Ty} (consistent : u.Consistent) (plainArrow : (Ty.arrow d c).Plain)
    (plainArrow' : (Ty.arrow d' c').Plain) (within : Within (· ∈ pool) u)
    (arrow : Ty.arrow d c ∈ pool) (arrow' : Ty.arrow d' c' ∈ pool)
    (few : ∀ σ, Solves σ u → below pool σ (.arrow d c) < depth + 1) :
    (unifyArrows recur u a b d c d' c').isSome := by
  have fewDomain : ∀ σ, Solves σ u → below pool σ d < depth := by
    intro σ solves
    have less := below_lt (σ := σ) (t := .arrow d c) (closed arrow).1
      (by simp only [Ty.mapVars, Ty.size]; omega)
    have bound := few σ solves
    omega
  have fewCodomain : ∀ σ, Solves σ u → below pool σ c < depth := by
    intro σ solves
    have less := below_lt (σ := σ) (t := .arrow d c) (closed arrow).2
      (by simp only [Ty.mapVars, Ty.size]; omega)
    have bound := few σ solves
    omega
  have done := finishing consistent plainArrow.1 plainArrow'.1 within (closed arrow).1
    (closed arrow').1 fewDomain
  rw [unifyArrows]
  rcases first : recur u d d' with _ | ⟨_ | clash, v⟩
  · simp [first] at done
  · have domains := answering consistent plainArrow.1 plainArrow'.1 first
    have done' := finishing domains.consistent plainArrow.2 plainArrow'.2
      (confined within (closed arrow).1 (closed arrow').1 first) (closed arrow).2
      (closed arrow').2 (fun σ solves => fewCodomain σ ((domains.success rfl σ).mp solves).1)
    rcases second : recur v c c' with _ | ⟨_ | clash, w⟩
    · simp [second] at done'
    · simp [second]
    · simp [second]
  · simp

/-- A call finishes when its depth exceeds what is below the type at hand under every solution of
the equations so far. -/
theorem finishing_unifyWithin (closed : Closed (· ∈ pool)) (depth : Nat) :
    Finishing pool depth (unifyWithin depth) := by
  induction depth with
  | zero =>
    intro u a b consistent _ _ _ _ _ few
    obtain ⟨θ, _, solves⟩ := consistent.solved
    exact absurd (few θ solves) (Nat.not_lt_zero _)
  | succ depth ih =>
    intro u a b consistent plainA plainB within insideA insideB few
    have both := (consistent.seen plainA).seen plainB
    have bothWithin := (within.seen insideA).seen insideB
    obtain ⟨la, lb, leadsA, leadsB, equal⟩ := consistent.leads_both plainA plainB
    have plainLa := both.plain la leadsA.mem
    have plainLb := both.plain lb leadsB.mem
    have insideLa := bothWithin la leadsA.mem
    have insideLb := bothWithin lb leadsB.mem
    have fewLa : ∀ σ, Solves σ ((u.seen a).seen b) → below pool σ la.value < depth + 1 := by
      intro σ solves
      have bound := few σ ((consistent.solves_both plainA).mp solves)
      rw [below, (equal σ solves).1] at bound
      exact bound
    rw [unifyWithin_succ depth u a b leadsA leadsB]
    split
    · rfl
    · generalize la.value = va at plainLa insideLa fewLa
      generalize lb.value = vb at plainLb insideLb
      fun_cases unifyLeaders (unifyWithin depth) ((u.seen a).seen b) a b _ _ va vb with
      | case1 id vb => rfl
      | case2 va id _ => rfl
      | case3 d c d' c' =>
        exact ih.arrows (answering_unifyWithin depth) (confined_unifyWithin closed depth) closed
          both plainLa plainLb bothWithin insideLa insideLb fewLa
      | case4 va vb _ _ _ => rfl

/-- The parts of the types that a call can meet. -/
def parts (u : Unifier) (a b : Ty) : List Ty :=
  (a :: b :: u.types.members.map (·.value)).flatMap Ty.parts

/-- The parts of a question are as many as its reach says. -/
theorem length_parts (u : Unifier) (a b : Ty) : (u.parts a b).length + 1 = u.reach a b := by
  have members : ∀ members : List (Member Ty),
      ((members.map (·.value)).flatMap Ty.parts).length =
        members.foldr (fun m total => m.value.size + total) 0 := by
    intro members
    induction members with
    | nil => rfl
    | cons m rest ih =>
      rw [List.map_cons, List.flatMap_cons, List.length_append, ih, Ty.length_parts]
      rfl
  simp only [parts, List.flatMap_cons, List.length_append, members, Ty.length_parts, reach, weight]
  omega

/-- The depth that a call is given suffices, in every consistent unifier. -/
theorem Consistent.unifyWithin_reach (consistent : u.Consistent) (plainA : a.Plain)
    (plainB : b.Plain) : unifyWithin (u.reach a b) u a b = some (u.unify a b) := by
  have closed : Closed (· ∈ u.parts a b) := closed_flatMap_parts _
  have within : Within (· ∈ u.parts a b) u := by
    intro m inside
    refine List.mem_flatMap.mpr ⟨m.value, ?_, Ty.mem_parts_self _⟩
    exact List.mem_cons_of_mem _ (List.mem_cons_of_mem _ (List.mem_map_of_mem inside))
  have insideA : a ∈ u.parts a b := by simp [parts, Ty.mem_parts_self]
  have insideB : b ∈ u.parts a b := by simp [parts, Ty.mem_parts_self]
  have done := finishing_unifyWithin closed (u.reach a b) consistent plainA plainB within insideA
    insideB (fun σ _ => by
      have few := below_le (u.parts a b) σ a
      have long := length_parts u a b
      omega)
  obtain ⟨outcome, finished⟩ := Option.isSome_iff_exists.mp done
  rw [Unifier.unify, finished, Option.getD_some]

/-- A call answers its equation. -/
theorem Consistent.unify (consistent : u.Consistent) (plainA : a.Plain) (plainB : b.Plain) :
    Answers u a b (u.unify a b) :=
  answering_unifyWithin _ consistent plainA plainB (consistent.unifyWithin_reach plainA plainB)

/-- A call sees only its own types, and parts of types seen before. -/
theorem Within.unify (within : Within P u) (closed : Closed P) (insideA : P a) (insideB : P b) :
    Within P (u.unify a b).2 := by
  rw [Unifier.unify]
  cases finished : unifyWithin (u.reach a b) u a b with
  | none => exact within
  | some outcome => exact confined_unifyWithin closed _ within insideA insideB finished

/-- Unifying some types with a first one stays within a closed pool. -/
theorem Within.unifyAll {first : Ty} (closed : Closed P) (inside : P first) :
    ∀ {u : Unifier} {types : List Ty}, Within P u → (∀ t ∈ types, P t) →
      Within P (unifyAll first u types).2 := by
  intro u types
  induction types generalizing u with
  | nil =>
    intro within _
    exact within.seen inside
  | cons t rest ih =>
    intro within insides
    have here := within.unify closed inside (insides t (by simp))
    rw [Unifier.unifyAll]
    rcases called : u.unify first t with ⟨_ | clash, v⟩ <;> rw [called] at here
    · exact ih here fun s member => insides s (by simp [member])
    · exact here

/-- Unifying many types stays within a closed pool. -/
theorem Within.unifyMany {types : List Ty} (within : Within P u) (closed : Closed P)
    (insides : ∀ t ∈ types, P t) : Within P (u.unifyMany types).2 := by
  match types with
  | [] => exact within
  | first :: rest =>
    exact Within.unifyAll closed (insides first (by simp)) within
      fun t member => insides t (by simp [member])

/-! ## Sequences of calls -/

/-- A substitution makes both sides of every equation equal. -/
def Satisfies (σ : Int → Ty) (equations : List (Ty × Ty)) : Prop :=
  ∀ equation ∈ equations, equation.1.mapVars σ = equation.2.mapVars σ

/-- What a call for some equations may answer: either a solution now also satisfies the
equations, or no solution does. -/
structure Settles (u : Unifier) (equations : List (Ty × Ty)) (outcome : Option Clash × Unifier) :
    Prop where
  /-- The unifier stays consistent either way. -/
  consistent : outcome.2.Consistent
  /-- Success adds exactly the equations. -/
  success : outcome.1 = none → ∀ σ, Solves σ outcome.2 ↔ Solves σ u ∧ Satisfies σ equations
  /-- Failure means that the equations have no solution. -/
  failure : outcome.1 ≠ none → ∀ σ, Solves σ u → ¬ Satisfies σ equations

/-- Looking a plain type up settles no equation. -/
theorem Consistent.settles_seen (consistent : u.Consistent) (plain : a.Plain) :
    Settles u [] (none, u.seen a) :=
  ⟨consistent.seen plain, fun _ σ => by simp [consistent.solves_seen a, Satisfies], by simp⟩

/-- An answer settles its question. -/
theorem Answers.settles (answers : Answers u a b outcome) : Settles u [(a, b)] outcome where
  consistent := answers.consistent
  success := fun fine σ => by simpa [Satisfies] using answers.success fine σ
  failure := fun failed σ solves => by simpa [Satisfies] using answers.failure failed σ solves

/-- Two calls one after the other settle the equations of both. -/
theorem Settles.append {equations equations' : List (Ty × Ty)} {v : Unifier}
    (first : Settles u equations (none, v)) (second : Settles v equations' outcome) :
    Settles u (equations ++ equations') outcome where
  consistent := second.consistent
  success := by
    intro fine σ
    rw [second.success fine σ, first.success rfl σ, and_assoc]
    simp only [Satisfies, List.forall_mem_append]
  failure := by
    intro failed σ solves holds
    have both := List.forall_mem_append.mp holds
    exact second.failure failed σ ((first.success rfl σ).mpr ⟨solves, both.1⟩) both.2

/-- A failed call settles any further equations too. -/
theorem Settles.append_failed {equations : List (Ty × Ty)} {clash : Clash} {v : Unifier}
    (first : Settles u equations (some clash, v)) (equations' : List (Ty × Ty)) :
    Settles u (equations ++ equations') (some clash, v) where
  consistent := first.consistent
  success := by simp
  failure := by
    intro failed σ solves holds
    exact first.failure failed σ solves (List.forall_mem_append.mp holds).1

/-- Making types equal to a first one settles the equations between it and each of them. -/
theorem Consistent.unifyAll {first : Ty} (plain : first.Plain) :
    ∀ {u : Unifier} {types : List Ty}, u.Consistent → (∀ t ∈ types, t.Plain) →
      Settles u (types.map fun t => (first, t)) (unifyAll first u types) := by
  intro u types
  induction types generalizing u with
  | nil =>
    intro consistent _
    exact consistent.settles_seen plain
  | cons t rest ih =>
    intro consistent plains
    have here := (consistent.unify plain (plains t (by simp))).settles
    rw [Unifier.unifyAll, List.map_cons, ← List.singleton_append]
    rcases called : u.unify first t with ⟨_ | clash, v⟩ <;> rw [called] at here
    · exact here.append (ih here.consistent fun s inside => plains s (by simp [inside]))
    · exact here.append_failed _

/-- A call for equations between types. -/
inductive Request where
  /-- Two types are to be equal. -/
  | two (a b : Ty)
  /-- Any number of types are to be equal. -/
  | many (types : List Ty)

namespace Request

/-- The types that a call names. -/
def types : Request → List Ty
  | two a b => [a, b]
  | many types => types

/-- The equations that a call stands for. -/
def equations : Request → List (Ty × Ty)
  | two a b => [(a, b)]
  | many [] => []
  | many (first :: rest) => rest.map fun t => (first, t)

end Request

/-- Make a call. -/
def answer (u : Unifier) : Request → Option Clash × Unifier
  | .two a b => u.unify a b
  | .many types => u.unifyMany types

/-- Make calls one after another until one fails. -/
def answerAll : Unifier → List Request → Option Clash × Unifier
  | u, [] => (none, u)
  | u, request :: rest =>
    match u.answer request with
    | (none, v) => answerAll v rest
    | (some clash, v) => (some clash, v)

/-- A call settles its equations. -/
theorem Consistent.answer {request : Request} (consistent : u.Consistent)
    (plain : ∀ t ∈ request.types, t.Plain) :
    Settles u request.equations (u.answer request) := by
  match request with
  | .two a b =>
    exact (consistent.unify (plain a (by simp [Request.types]))
      (plain b (by simp [Request.types]))).settles
  | .many [] => exact ⟨consistent, fun _ σ => by simp [Unifier.answer, unifyMany, Satisfies,
      Request.equations], by simp [Unifier.answer, unifyMany]⟩
  | .many (first :: rest) =>
    exact consistent.unifyAll (plain first (by simp [Request.types]))
      (fun t inside => plain t (by simp [Request.types, inside]))

/-- Calls one after another settle the equations of all of them. -/
theorem Consistent.answerAll : ∀ {u : Unifier} {requests : List Request}, u.Consistent →
    (∀ request ∈ requests, ∀ t ∈ request.types, t.Plain) →
      Settles u (requests.flatMap Request.equations) (u.answerAll requests) := by
  intro u requests
  induction requests generalizing u with
  | nil =>
    intro consistent _
    exact ⟨consistent, fun _ σ => by simp [Unifier.answerAll, Satisfies],
      by simp [Unifier.answerAll]⟩
  | cons request rest ih =>
    intro consistent plains
    have here := consistent.answer (plains request (by simp))
    rw [Unifier.answerAll, List.flatMap_cons]
    rcases called : u.answer request with ⟨_ | clash, v⟩ <;> rw [called] at here
    · exact here.append (ih here.consistent fun r inside => plains r (by simp [inside]))
    · exact here.append_failed _

/-- Every substitution solves the unifier without equations. -/
theorem solves_empty (σ : Int → Ty) : Solves σ Unifier.empty := by
  simp [Solves, Partition.Respects, Unifier.empty, Partition.empty]

/-- A unifier that has settled equations makes their sides equal, changes nothing the second
time, and is a first step towards every solution. -/
structure Unifies (u : Unifier) (equations : List (Ty × Ty)) : Prop where
  /-- The two sides of every equation become equal. -/
  joint : ∀ equation ∈ equations, u.apply equation.1 = u.apply equation.2
  /-- Applying again changes nothing. -/
  idempotent : ∀ t, u.apply (u.apply t) = u.apply t
  /-- Every solution is the unifier followed by some substitution. -/
  general : ∀ σ, Satisfies σ equations → ∃ σ', ∀ t, t.mapVars σ = (u.apply t).mapVars σ'

/-- A unifier on which a sequence of calls succeeded unifies their equations. -/
theorem Settles.unifies {equations : List (Ty × Ty)}
    (settles : Settles Unifier.empty equations (none, u)) : Unifies u equations := by
  obtain ⟨θ, resolves, solves⟩ := settles.consistent.solved
  have apply_eq := settles.consistent.apply_eq resolves
  have everything : ∀ σ, Satisfies σ equations → Solves σ u := fun σ satisfies =>
    (settles.success rfl σ).mpr ⟨solves_empty σ, satisfies⟩
  refine ⟨fun equation inside => ?_, fun t => ?_, fun σ satisfies => ⟨σ, fun t => ?_⟩⟩
  · rw [apply_eq, apply_eq]
    exact ((settles.success rfl θ).mp solves).2 equation inside
  · rw [apply_eq, apply_eq]
    exact settles.consistent.factor resolves solves t
  · rw [apply_eq]
    exact (settles.consistent.factor resolves (everything σ satisfies) t).symm

/-- Neither `apply` nor `unify` exhausts the depth that it is given. -/
structure Terminates (u : Unifier) : Prop where
  /-- Values are put for all variables. -/
  apply : ∀ t, u.applyWithin u.types.size t = some (u.apply t)
  /-- Calls finish. -/
  unify : ∀ a b : Ty, a.Plain → b.Plain → unifyWithin (u.reach a b) u a b = some (u.unify a b)

/-- Questions about a consistent unifier end. -/
theorem Consistent.terminates (consistent : u.Consistent) : u.Terminates where
  apply := by
    obtain ⟨θ, resolves, _⟩ := consistent.solved
    intro t
    rw [consistent.apply_eq resolves, consistent.applyWithin_size resolves]
  unify := fun _ _ plainA plainB => consistent.unifyWithin_reach plainA plainB

/-- Calls one after another compute most general unifiers. After calls that succeeded, the next
one fails exactly when no substitution satisfies all the equations up to it; the unifier equates
the two sides of every equation so far, is idempotent, and every solution factors through it; and
in every state, also one left by a call that failed, `apply` and `unify` terminate. -/
theorem answerAll_mostGeneral (requests : List Request)
    (plain : ∀ request ∈ requests, ∀ t ∈ request.types, t.Plain) :
    (∀ u request, Unifier.empty.answerAll requests = (none, u) →
        (∀ t ∈ request.types, t.Plain) →
        ((u.answer request).1 ≠ none ↔
          ¬ ∃ σ, Satisfies σ ((requests ++ [request]).flatMap Request.equations))) ∧
      (∀ u, Unifier.empty.answerAll requests = (none, u) →
        Unifies u (requests.flatMap Request.equations)) ∧
      (Unifier.empty.answerAll requests).2.Terminates := by
  have settles := consistent_empty.answerAll plain
  refine ⟨fun u request called plainRequest => ?_, fun u called => ?_,
    settles.consistent.terminates⟩
  · rw [called] at settles
    have next := settles.append (settles.consistent.answer plainRequest)
    rw [List.flatMap_append, List.flatMap_singleton]
    constructor
    · rintro failed ⟨σ, satisfies⟩
      exact next.failure failed σ (solves_empty σ) satisfies
    · intro unsolvable succeeded
      obtain ⟨θ, _, solves⟩ := next.consistent.solved
      exact unsolvable ⟨θ, ((next.success succeeded θ).mp solves).2⟩
  · rw [called] at settles
    exact settles.unifies

/-- Two calls that share a variable, the second of which makes three types equal. -/
def sharedRequests : List Request :=
  [.two (.var 1) (.arrow (.var 2) .obj), .many [.var 1, .arrow (.var 5) (.var 3), .var 4]]

/-- The two calls succeed, and a third that would put a variable inside its own value fails. -/
theorem answerAll_mostGeneral_shared :
    (Unifier.empty.answerAll sharedRequests).1 = none ∧
      (Unifier.empty.answerAll sharedRequests).2.apply (.var 4) = .arrow (.var 5) .obj ∧
      Unifies (Unifier.empty.answerAll sharedRequests).2
        (sharedRequests.flatMap Request.equations) ∧
      ¬ (∃ σ, Satisfies σ
        ((sharedRequests ++ [Request.two (.var 2) (.var 1)]).flatMap Request.equations)) ∧
      (Unifier.empty.answerAll sharedRequests).2.Terminates := by
  have plain : ∀ request ∈ sharedRequests, ∀ t ∈ request.types, t.Plain := by
    simp [sharedRequests, Request.types, Ty.Plain, Ty.obj]
    decide
  have succeeds : (Unifier.empty.answerAll sharedRequests).1 = none := by decide
  obtain ⟨next, general, terminates⟩ := answerAll_mostGeneral sharedRequests plain
  have state : Unifier.empty.answerAll sharedRequests =
      (none, (Unifier.empty.answerAll sharedRequests).2) := Prod.ext succeeds rfl
  have fails := next _ (.two (.var 2) (.var 1)) state (by simp [Request.types, Ty.Plain])
  exact ⟨succeeds, by decide, general _ state, fails.mp (by decide +kernel), terminates⟩

end Unifier

end Turnstile
