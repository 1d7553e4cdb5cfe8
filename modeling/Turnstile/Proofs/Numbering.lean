import Turnstile.Proofs.OpenGoalMirroring

/-!
# The numbers of open goals

Reading a plan's text draws a new number for each placeholder, and normalizing a plan draws one for
each leaf that it adds. Numbers are never drawn twice, so the leaves of a plan that was read and
normalized are all different, and different from those of every plan there was before.
-/

namespace Turnstile

open Build Renaming

variable {s t u : Supply} {ids ids' : List Nat}

/-- Different numbers that were drawn between two supplies. -/
structure Supply.Fresh (s t : Supply) (ids : List Nat) : Prop where
  /-- The numbers are different. -/
  nodup : ids.Nodup
  /-- They were drawn after the first supply. -/
  after : ∀ id ∈ ids, s.lastAssumption < id
  /-- They were drawn before the second supply. -/
  upTo : ∀ id ∈ ids, id ≤ t.lastAssumption

namespace Supply

/-- No numbers are fresh numbers. -/
theorem fresh_nil (s t : Supply) : Fresh s t [] := ⟨.nil, by simp, by simp⟩

/-- Fresh numbers of two stretches are fresh together. -/
theorem Fresh.append (first : Fresh s t ids) (second : Fresh t u ids') (before : s.Before t)
    (before' : t.Before u) : Fresh s u (ids ++ ids') where
  nodup := by
    refine List.nodup_append.mpr ⟨first.nodup, second.nodup, ?_⟩
    rintro id member _ member' rfl
    exact Nat.not_lt.mpr (first.upTo id member) (second.after id member')
  after := by
    intro id member
    rcases List.mem_append.mp member with left | right
    · exact first.after id left
    · exact Nat.lt_of_le_of_lt before.assumptions (second.after id right)
  upTo := by
    intro id member
    rcases List.mem_append.mp member with left | right
    · exact Nat.le_trans (first.upTo id left) before'.assumptions
    · exact second.upTo id right

/-- A part of fresh numbers is fresh. -/
theorem Fresh.sublist (fresh : Fresh s t ids) (part : ids'.Sublist ids) : Fresh s t ids' :=
  ⟨fresh.nodup.sublist part, fun id member => fresh.after id (part.subset member),
    fun id member => fresh.upTo id (part.subset member)⟩

/-- Numbers that are fresh in a stretch are fresh in a longer one. -/
theorem Fresh.widen {s' t' : Supply} (fresh : Fresh s t ids) (before : s'.Before s)
    (before' : t.Before t') : Fresh s' t' ids :=
  ⟨fresh.nodup, fun id member => Nat.lt_of_le_of_lt before.assumptions (fresh.after id member),
    fun id member => Nat.le_trans (fresh.upTo id member) before'.assumptions⟩

end Supply

variable {ρ : Renaming} {env : Environment}

/-! ## Reading -/

namespace PlanText

/-- The open leaves of an argument of a call. -/
def Value.assumptions : Value → List Nat
  | arg _ => []
  | plan p => p.assumptions

/-- The leaves of values that are plans are those of the plans. -/
theorem plansOf_assumptions {token : Token} {values : List Value} {plans : List Plan} :
    ∀ {index : Nat}, plansOf token index values = .ok plans →
      plans.flatMap Plan.assumptions = values.flatMap Value.assumptions := by
  induction values generalizing plans with
  | nil =>
    intro index read
    cases read
    rfl
  | cons value values ih =>
    intro index read
    cases value with
    | arg a => cases read
    | plan p =>
      rw [plansOf] at read
      cases rest : plansOf token (index + 1) values with
      | error failure =>
        rw [rest] at read
        cases read
      | ok plans' =>
        rw [rest] at read
        cases read
        rw [List.flatMap_cons, List.flatMap_cons, ih rest]
        rfl

/-- The leaves of a sequence are among those of its plans. -/
theorem sequence_assumptions (first : Plan) (rest : List Plan) :
    (Plan.sequence first rest).assumptions.Sublist
      (first.assumptions ++ rest.flatMap Plan.assumptions) := by
  induction rest generalizing first with
  | nil =>
    rw [Plan.sequence, List.flatMap_nil, List.append_nil]
  | cons next rest ih =>
    rw [Plan.sequence, Plan.assumptions, Plan.assumptionsAll_eq, List.flatMap_singleton]
    exact (ih next).trans (List.sublist_append_right _ _)

/-- What a rule builds has no open leaf but the one that a placeholder draws. -/
theorem instantiate_assumptions (fixed : env.FixedBy ρ) {d : Descriptor}
    (listed : d ∈ env.rules.rules) {args args' : List Arg}
    (takes : List.Forall₂ ρ.TakesArg args args') {p : Plan}
    (run : (d.instantiate env.theory args).runFrom s = (.ok p, t)) :
    s.Fresh t p.assumptions := by
  have build : (d.build env.theory args).runFrom s = (.ok p, t) := by
    rw [Descriptor.instantiate] at run
    split at run
    · cases run
    · split at run
      · cases run
      · exact run
  cases fixed.rules d listed with
  | placeholder drawn =>
    rw [drawn] at build
    cases build
    exact ⟨List.nodup_singleton _, by simp [Plan.assumptions], by simp [Plan.assumptions]⟩
  | plan mirrors =>
    obtain ⟨q, _, built, _, atomic, _⟩ := mirrors ρ env.theory args args' fixed.theory takes
    rw [built] at build
    cases build
    rw [atomic.assumptions]
    exact Supply.fresh_nil _ _

/-- The leaves of a call's plan are among those of its arguments, or newly drawn. -/
theorem assemble_assumptions (fixed : env.FixedBy ρ) {token : Token} {values values' : List Value}
    (renamed : List.Forall₂ (Value.Renamed env ρ) values values') {p : Plan}
    (run : (assemble env token values).runFrom s = (.ok p, t)) :
    p.assumptions.Sublist (values.flatMap Value.assumptions) ∨ s.Fresh t p.assumptions := by
  rw [assemble] at run
  split at run
  · obtain ⟨plans, u, read, run⟩ := bind_ok run
    rw [← plansOf_assumptions (lift_ok read).1]
    left
    cases plans with
    | nil => cases run
    | cons first rest =>
      dsimp only at run
      split at run <;> cases run
      · exact sequence_assumptions first rest
      · rw [Plan.assumptions, Plan.assumptionsAll_eq]
        exact List.sublist_append_right _ _
  · split at run
    · cases run
    next d found =>
      obtain ⟨args, u, read, built⟩ := bind_ok run
      obtain ⟨done, rfl⟩ := lift_ok read
      obtain ⟨args', _, takes⟩ := argsOf_follows renamed args done
      exact .inr (instantiate_assumptions fixed (List.mem_of_find?_eq_some found) takes
        (runFrom_reported.mp built))

/-- What is read within some rounds has newly drawn leaves. -/
structure Numbered (env : Environment) (rounds : Nat) : Prop where
  /-- A call. -/
  call : ∀ {tokens s r t}, (call env rounds tokens).runFrom s = (.ok r, t) →
    s.Fresh t r.1.assumptions
  /-- Arguments. -/
  arguments : ∀ {tokens s r t}, (arguments env rounds tokens).runFrom s = (.ok r, t) →
    s.Fresh t (r.1.flatMap Value.assumptions)
  /-- One argument. -/
  argument : ∀ {tokens s r t}, (argument env rounds tokens).runFrom s = (.ok r, t) →
    s.Fresh t r.1.assumptions

/-- With one more round the leaves of a call are fresh. -/
theorem Numbered.call_succ (fixed : env.FixedBy ρ) {rounds : Nat} (numbered : Numbered env rounds)
    {tokens : List Token} {r : Reading Plan}
    (run : (PlanText.call env (rounds + 1) tokens).runFrom s = (.ok r, t)) :
    s.Fresh t r.1.assumptions := by
  rw [PlanText.call] at run
  dsimp only at run
  split at run
  · cases run
  · obtain ⟨tokens₁, s₁, opened, afterName⟩ := bind_ok run
    obtain ⟨_, rfl⟩ := lift_ok opened
    obtain ⟨⟨values, tokens₂⟩, s₂, read, afterValues⟩ := bind_ok afterName
    obtain ⟨tokens₃, s₃, closed, afterCall⟩ := bind_ok afterValues
    obtain ⟨_, rfl⟩ := lift_ok closed
    obtain ⟨p, s₄, made, done⟩ := bind_ok afterCall
    cases done
    have steadily := (steadily fixed rounds).arguments tokens₁
    obtain ⟨_, renamed, _⟩ := steadily.related _ _ _ read
    have before := steadily.before read
    have before' := (assemble_mirrors fixed renamed).before made
    rcases assemble_assumptions fixed renamed made with among | drawn
    · exact ((numbered.arguments read).widen (.refl s₁) before').sublist among
    · exact drawn.widen before (.refl t)

/-- With one more round the leaves of arguments are fresh. -/
theorem Numbered.arguments_succ (fixed : env.FixedBy ρ) {rounds : Nat}
    (numbered : Numbered env rounds) {tokens : List Token} {r : Reading (List Value)}
    (run : (PlanText.arguments env (rounds + 1) tokens).runFrom s = (.ok r, t)) :
    s.Fresh t (r.1.flatMap Value.assumptions) := by
  rw [PlanText.arguments] at run
  split at run
  · cases run
    exact Supply.fresh_nil _ _
  · obtain ⟨⟨value, tokens₁⟩, s₁, read, run⟩ := bind_ok run
    have first := numbered.argument read
    have before := ((steadily fixed rounds).argument tokens).before read
    dsimp only at run
    split at run
    · obtain ⟨⟨values, tokens₂⟩, s₂, more, run⟩ := bind_ok run
      cases run
      have before' := ((steadily fixed rounds).arguments _).before more
      rw [List.flatMap_cons]
      exact first.append (numbered.arguments more) before before'
    · cases run
      rw [List.flatMap_cons, List.flatMap_nil, List.append_nil]
      exact first

/-- With one more round the leaves of an argument are fresh. -/
theorem Numbered.argument_succ {rounds : Nat} (numbered : Numbered env rounds)
    {tokens : List Token} {r : Reading Value}
    (run : (PlanText.argument env (rounds + 1) tokens).runFrom s = (.ok r, t)) :
    s.Fresh t r.1.assumptions := by
  rw [PlanText.argument] at run
  dsimp only at run
  split at run
  · split at run <;> cases run
    exact Supply.fresh_nil _ _
  · split at run <;> cases run
    exact Supply.fresh_nil _ _
  · obtain ⟨term, s₁, read, run⟩ := bind_ok run
    cases run
    exact Supply.fresh_nil _ _
  · obtain ⟨⟨p, tokens₁⟩, s₁, read, run⟩ := bind_ok run
    cases run
    exact numbered.call read
  · cases run

/-- With any number of rounds the leaves of what is read are fresh. -/
theorem numbered (fixed : env.FixedBy ρ) (rounds : Nat) : Numbered env rounds := by
  induction rounds with
  | zero =>
    constructor
    · intro tokens s r t run
      rw [call] at run
      cases run
    · intro tokens s r t run
      rw [arguments] at run
      cases run
    · intro tokens s r t run
      rw [argument] at run
      cases run
  | succ rounds ih =>
    exact ⟨ih.call_succ fixed, ih.arguments_succ fixed, ih.argument_succ⟩

end PlanText

/-- The leaves of a plan that was read were drawn while it was read. -/
theorem Environment.FixedBy.evaluate_fresh (fixed : env.FixedBy ρ) {text : String} {p : Plan}
    (run : (env.evaluate text).runFrom s = (.ok p, t)) : s.Fresh t p.assumptions := by
  rw [Environment.evaluate] at run
  dsimp only at run
  obtain ⟨⟨q, rest⟩, u, read, run⟩ := bind_ok run
  have drawn := (PlanText.numbered fixed _).call read
  dsimp only at run
  split at run
  · cases run
  · split at run
    · cases run
    · cases run
      exact drawn

/-! ## Normalizing -/

namespace Plan

variable {p N : Plan} {g g' : Sequent} {goals goals' : List Sequent}

/-- The leaves of a normalized plan are different, and each of them is a leaf of the plan or was
drawn for it. -/
structure NumberedFrom (p N : Plan) (s t : Supply) : Prop where
  /-- Nothing that was drawn is given back. -/
  before : s.Before t
  /-- The leaves are different. -/
  nodup : N.assumptions.Nodup
  /-- Each leaf is an old or a new one. -/
  origin : ∀ id ∈ N.assumptions, id ∈ p.assumptions ∨
    s.lastAssumption < id ∧ id ≤ t.lastAssumption

/-- Normalizing an atomic plan adds fresh leaves at most. -/
theorem numberedFrom_of_atomic (atomic : p.Atomic) (mirrors : Plan.Mirrors ρ p p)
    (takes : ρ.TakesGoal g g') (run : (p.normalize g).runFrom s = (.ok N, t)) :
    p.NumberedFrom N s t := by
  rw [atomic.normalize] at run
  obtain ⟨G, u, first, ⟨_, rfl, rfl⟩ | ⟨_, rfl, rfl⟩⟩ := pad_ok.mp run
  · refine ⟨(mirrors.subgoals N takes).before first, ?_, ?_⟩ <;> simp [atomic.assumptions]
  · have before := (mirrors.subgoals p takes).before first
    have drawn := before.assumptions
    refine ⟨before.trans (Supply.before_assumptions _ _), ?_, ?_⟩
    · simpa [assumptions, List.flatMap_map] using List.nodup_range'
    · intro id member
      right
      simp only [assumptions, assumptionsAll_eq, List.flatMap_map, List.flatMap_singleton',
        List.mem_range'_1] at member
      dsimp only
      omega

/-- Normalizing branches one after the other adds fresh leaves if each of them does. -/
theorem numberedFrom_all {branches A : List Plan}
    (each : ∀ b ∈ branches, ∀ {s t : Supply} {N : Plan} {g g' : Sequent}, Plan.Mirrors ρ b b →
      ρ.TakesGoal g g' → (b.normalize g).runFrom s = (.ok N, t) → b.assumptions.Nodup →
      (∀ id ∈ b.assumptions, id ≤ s.lastAssumption) → b.NumberedFrom N s t)
    (mirrors : ∀ b ∈ branches, Plan.Mirrors ρ b b) (takes : List.Forall₂ ρ.TakesGoal goals goals')
    (run : (normalizeTasks (branches.zip goals)).runFrom s = (.ok A, t))
    (nodup : (branches.flatMap assumptions).Nodup)
    (old : ∀ id ∈ branches.flatMap assumptions, id ≤ s.lastAssumption) :
    s.Before t ∧ (A.flatMap assumptions).Nodup ∧ ∀ id ∈ A.flatMap assumptions,
      id ∈ branches.flatMap assumptions ∨ s.lastAssumption < id ∧ id ≤ t.lastAssumption := by
  induction branches generalizing goals goals' s A with
  | nil =>
    cases run
    exact ⟨.refl _, .nil, by simp⟩
  | cons b branches ih =>
    cases takes with
    | nil =>
      cases run
      exact ⟨.refl _, .nil, by simp⟩
    | cons first later =>
      obtain ⟨N, u, B, here, rest, rfl⟩ := normalizeTasks_cons_ok.mp run
      rw [List.flatMap_cons] at nodup old
      obtain ⟨nodupB, nodupR, apart⟩ := List.nodup_append.mp nodup
      have numbered := each b (by simp) (mirrors b (by simp)) first here nodupB
        fun id member => old id (List.mem_append_left _ member)
      have grown := numbered.before.assumptions
      obtain ⟨before, nodupA, origin⟩ := ih (fun b member => each b (by simp [member]))
        (fun b member => mirrors b (by simp [member])) later rest nodupR
        fun id member => Nat.le_trans (old id (List.mem_append_right _ member)) grown
      have grown' := before.assumptions
      refine ⟨numbered.before.trans before, ?_, ?_⟩
      · -- An old leaf is in one place, and a new one was drawn for one place.
        rw [List.flatMap_cons]
        refine List.nodup_append.mpr ⟨numbered.nodup, nodupA, ?_⟩
        rintro id member _ member' rfl
        rcases numbered.origin id member with oldB | newB <;>
          rcases origin id member' with oldR | newR
        · exact apart id oldB id oldR rfl
        · have early := old id (List.mem_append_left _ oldB)
          omega
        · have early := old id (List.mem_append_right _ oldR)
          omega
        · omega
      · rw [List.flatMap_cons, List.flatMap_cons]
        intro id member
        rcases List.mem_append.mp member with left | right
        · rcases numbered.origin id left with oldB | newB
          · exact .inl (List.mem_append_left _ oldB)
          · exact .inr ⟨newB.1, Nat.le_trans newB.2 grown'⟩
        · rcases origin id right with oldR | newR
          · exact .inl (List.mem_append_right _ oldR)
          · exact .inr ⟨Nat.lt_of_le_of_lt grown newR.1, newR.2⟩

/-- Normalizing a plan with different leaves draws new numbers for the leaves that it adds. -/
theorem normalize_numberedFrom (mirrors : Plan.Mirrors ρ p p) (takes : ρ.TakesGoal g g')
    (run : (p.normalize g).runFrom s = (.ok N, t)) (nodup : p.assumptions.Nodup)
    (old : ∀ id ∈ p.assumptions, id ≤ s.lastAssumption) : p.NumberedFrom N s t := by
  induction p using Plan.induct generalizing g g' s t N with
  | assumption id =>
    cases run
    exact ⟨.refl _, nodup, fun id member => .inl member⟩
  | rule call apply => exact numberedFrom_of_atomic ⟨rfl, rfl⟩ mirrors takes run
  | compound call check expansion ih =>
    exact numberedFrom_of_atomic ⟨rfl, rfl⟩ mirrors takes run
  | branch first branches ihFirst ih =>
    obtain ⟨head, rest⟩ := Plan.mirrors_branch.mp mirrors
    obtain ⟨goals, u, A, ran, fits, later, rfl⟩ := normalize_branch_ok.mp run
    have runs := head.subgoals first takes
    have before := runs.before ran
    obtain ⟨goals', taken⟩ := runs.related _ _ _ ran
    rw [assumptions, assumptionsAll_eq] at nodup old
    obtain ⟨before', nodupA, origin⟩ := numberedFrom_all ih (List.forall₂_same.mp rest) taken later
      nodup fun id member => Nat.le_trans (old id member) before.assumptions
    refine ⟨before.trans before', by rwa [assumptions, assumptionsAll_eq], ?_⟩
    intro id member
    rw [assumptions, assumptionsAll_eq] at member ⊢
    rcases origin id member with old | new
    · exact .inl old
    · exact .inr ⟨Nat.lt_of_le_of_lt before.assumptions new.1, new.2⟩

/-- If the leaf of a plan is replaced by a plan whose leaves were drawn later, then the leaves are
still different. -/
theorem replace_fresh {sub : Plan} {id : Nat} (nodup : p.assumptions.Nodup)
    (old : ∀ leaf ∈ p.assumptions, leaf ≤ s.lastAssumption) (before : s.Before t)
    (fresh : s.Fresh t sub.assumptions) (member : id ∈ p.assumptions) :
    (Plan.replace id sub p).assumptions.Nodup ∧
      ∀ leaf ∈ (Plan.replace id sub p).assumptions, leaf ≤ t.lastAssumption := by
  obtain ⟨first, after, same⟩ := List.append_of_mem member
  have new : ∀ leaf ∈ sub.assumptions, leaf ∉ p.assumptions := by
    intro leaf drawn known
    have late := fresh.after leaf drawn
    have early := old leaf known
    omega
  have older : ∀ leaf ∈ p.assumptions, leaf ≤ t.lastAssumption := fun leaf known =>
    Nat.le_trans (old leaf known) before.assumptions
  rw [assumptions_replace_of_nodup sub nodup same]
  rw [same] at nodup
  obtain ⟨nodupF, nodupA, apart⟩ := List.nodup_append.mp nodup
  constructor
  · refine List.nodup_append.mpr ⟨nodupF, List.nodup_append.mpr
      ⟨fresh.nodup, (List.nodup_cons.mp nodupA).2, ?_⟩, ?_⟩
    · rintro leaf drawn _ known rfl
      exact new leaf drawn (by simp [same, known])
    · rintro leaf known _ others rfl
      rcases List.mem_append.mp others with drawn | known'
      · exact new leaf drawn (by simp [same, known])
      · exact apart leaf known leaf (List.mem_cons_of_mem _ known') rfl
  · intro leaf inside
    rcases List.mem_append.mp inside with left | others
    · exact older leaf (by simp [same, left])
    · rcases List.mem_append.mp others with drawn | right
      · exact fresh.upTo leaf drawn
      · exact older leaf (by simp [same, right])

end Plan

end Turnstile
