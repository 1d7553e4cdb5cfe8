import Mathlib.Data.List.Pairwise
import Turnstile.Proofs.EnvironmentMirroring

/-!
# Moving what runs draw

When the same builds are run in another order, each of them draws an interval of fresh numbers
elsewhere. If the intervals do not overlap, before or after, one renaming moves all of them to
their new places and leaves as it is whatever was drawn before.
-/

namespace Turnstile

open Build Renaming

/-! ## Intervals -/

/-- An interval of numbers, those that follow `start`, that is moved to begin after `target`. -/
structure Block where
  /-- The number before the interval. -/
  start : Nat
  /-- How long the interval is. -/
  length : Nat
  /-- The number before its new place. -/
  target : Nat

namespace Block

/-- Whether a number lies in the interval. -/
def holds (b : Block) (x : Int) : Bool := decide ((b.start : Int) < x ∧ x ≤ b.start + b.length)

/-- Two intervals that do not overlap, neither before nor after they are moved. -/
structure Apart (b c : Block) : Prop where
  /-- Before. -/
  sources : b.start + b.length ≤ c.start ∨ c.start + c.length ≤ b.start
  /-- After. -/
  targets : b.target + b.length ≤ c.target ∨ c.target + c.length ≤ b.target

instance : Std.Symm Apart := ⟨fun _ _ apart => ⟨apart.sources.symm, apart.targets.symm⟩⟩

/-- The intervals lie above `base`, before and after, end below `top` when they are moved, and do
not overlap. -/
structure Arranged (base top : Nat) (blocks : List Block) : Prop where
  /-- They begin above the base. -/
  sources : ∀ b ∈ blocks, base ≤ b.start
  /-- They are moved above the base. -/
  targets : ∀ b ∈ blocks, base ≤ b.target
  /-- They are moved below the top. -/
  bounded : ∀ b ∈ blocks, b.target + b.length ≤ top
  /-- They do not overlap. -/
  apart : blocks.Pairwise Apart

/-- Where a number goes: those up to `base` stay, those of the intervals move with them, and all
others get out of the way, above `top`. -/
def move (base top : Nat) (blocks : List Block) (x : Int) : Int :=
  match blocks.find? fun b => b.holds x with
  | some b => x - b.start + b.target
  | none => if x ≤ base then x else x + top

variable {base top : Nat} {blocks : List Block} {b c : Block} {x y : Int}

/-- A block holds the numbers after its start up to its length. -/
theorem holds_iff : b.holds x = true ↔ (b.start : Int) < x ∧ x ≤ b.start + b.length :=
  decide_eq_true_iff

/-- Arranged blocks are the same or lie apart. -/
theorem Arranged.same_or_apart (arranged : Arranged base top blocks) (memB : b ∈ blocks)
    (memC : c ∈ blocks) : b = c ∨ Apart b c := by
  by_cases same : b = c
  · exact .inl same
  · exact .inr (arranged.apart.forall memB memC same)

/-- A number of one of the intervals goes with it, one of none stays or goes above the top. -/
theorem move_cases (base top : Nat) (blocks : List Block) (x : Int) :
    (∃ b ∈ blocks, b.holds x = true ∧ move base top blocks x = x - b.start + b.target) ∨
      (∀ b ∈ blocks, b.holds x = false) ∧
        move base top blocks x = if x ≤ base then x else x + top := by
  rw [move]
  cases found : blocks.find? fun b => b.holds x with
  | some b =>
    have holds : b.holds x = true := by simpa using List.find?_some found
    exact .inl ⟨b, List.mem_of_find?_eq_some found, holds, rfl⟩
  | none => exact .inr ⟨by simpa using found, rfl⟩

/-- What a block holds is moved with it. -/
theorem move_of_holds (arranged : Arranged base top blocks) (member : b ∈ blocks)
    (holds : b.holds x = true) : move base top blocks x = x - b.start + b.target := by
  rcases move_cases base top blocks x with ⟨c, memC, holdsC, moved⟩ | ⟨none, _⟩
  · rcases arranged.same_or_apart member memC with rfl | apart
    · exact moved
    · have sources := apart.sources
      rw [holds_iff] at holds holdsC
      omega
  · rw [none b member] at holds
    cases holds

/-- What was drawn before all blocks is not moved. -/
theorem move_of_le (arranged : Arranged base top blocks) (low : x ≤ base) :
    move base top blocks x = x := by
  rcases move_cases base top blocks x with ⟨b, member, holds, _⟩ | ⟨_, moved⟩
  · have above := arranged.sources b member
    rw [holds_iff] at holds
    omega
  · rw [moved, if_pos low]

/-- Different numbers are moved to different ones. -/
theorem move_injective (arranged : Arranged base top blocks) :
    Function.Injective (move base top blocks) := by
  -- A moved number shows where it came from: it lies below the base, in the new place of one
  -- interval, or above the top.
  intro x y same
  rcases move_cases base top blocks x with ⟨b, memB, holdsB, movedX⟩ | ⟨_, movedX⟩ <;>
    rcases move_cases base top blocks y with ⟨c, memC, holdsC, movedY⟩ | ⟨_, movedY⟩ <;>
    rw [movedX, movedY] at same
  · rw [holds_iff] at holdsB holdsC
    rcases arranged.same_or_apart memB memC with rfl | apart
    · omega
    · have targets := apart.targets
      omega
  · rw [holds_iff] at holdsB
    have low := arranged.targets b memB
    have high := arranged.bounded b memB
    split at same
    · omega
    · omega
  · rw [holds_iff] at holdsC
    have low := arranged.targets c memC
    have high := arranged.bounded c memC
    split at same
    · omega
    · omega
  · split at same <;> split at same
    · exact same
    · omega
    · omega
    · omega

/-- Numbers that are not negative are moved to such numbers. -/
theorem move_nonneg (base top : Nat) (blocks : List Block) (nonneg : 0 ≤ x) :
    0 ≤ move base top blocks x := by
  rcases move_cases base top blocks x with ⟨b, _, holds, moved⟩ | ⟨_, moved⟩
  · rw [holds_iff] at holds
    omega
  · rw [moved]
    split
    · exact nonneg
    · omega

/-- A number above all new places. -/
def summit (blocks : List Block) : Nat :=
  blocks.foldr (fun b top => max top (b.target + b.length)) 0

/-- No block is moved beyond the summit. -/
theorem le_summit : ∀ {blocks : List Block}, ∀ b ∈ blocks, b.target + b.length ≤ summit blocks
  | first :: rest, b, member => by
    rcases List.mem_cons.mp member with rfl | later
    · exact Nat.le_max_right _ _
    · exact Nat.le_trans (le_summit b later) (Nat.le_max_left _ _)

end Block

/-! ## Runs -/

/-- What was drawn between two supplies, and the supply from which it is drawn instead. -/
structure Move where
  /-- The supply before. -/
  start : Supply
  /-- The supply after. -/
  stop : Supply
  /-- The supply from which as much is drawn instead. -/
  target : Supply

namespace Move

/-- The supply that is left in the new place. -/
def landing (m : Move) : Supply := m.target.after m.start m.stop

/-- The type variables as an interval. -/
def types (m : Move) : Block :=
  ⟨m.start.lastType, m.stop.lastType - m.start.lastType, m.target.lastType⟩

/-- The assumptions as an interval. -/
def assumptions (m : Move) : Block :=
  ⟨m.start.lastAssumption, m.stop.lastAssumption - m.start.lastAssumption,
    m.target.lastAssumption⟩

/-- Two moves that have nothing to do with each other. -/
structure Apart (m n : Move) : Prop where
  /-- One thing was drawn before the other. -/
  sources : m.stop.Before n.start ∨ n.stop.Before m.start
  /-- One thing is then drawn before the other. -/
  targets : m.landing.Before n.target ∨ n.landing.Before m.target

/-- Moves, apart from each other, of what is drawn after a supply. The choices that are moved with
it do not depend on the time. -/
structure Arranged (s : Supply) (moves : List Move) : Prop where
  /-- Choices are the same at all times. -/
  steady : s.Steady
  /-- Everything was drawn after the supply. -/
  sources : ∀ m ∈ moves, s.Before m.start
  /-- Something was drawn. -/
  runs : ∀ m ∈ moves, m.start.Before m.stop
  /-- Everything is then drawn after the supply. -/
  targets : ∀ m ∈ moves, s.Before m.target
  /-- The moves have nothing to do with each other. -/
  apart : moves.Pairwise Apart

end Move

/-- A renaming makes moves and leaves as it is what was drawn before a supply. -/
structure Renaming.Makes (ρ : Renaming) (s : Supply) (moves : List Move) : Prop where
  /-- It leaves as it is what was drawn before. -/
  fixes : ρ.Fixes s
  /-- It makes the moves. -/
  carries : ∀ m ∈ moves, ρ.Carries m.start m.stop m.target

namespace Move

variable {s t u v w : Supply} {moves : List Move} {ρ : Renaming}

/-- No moves are arranged. -/
theorem arranged_nil (steady : s.Steady) : Arranged s [] :=
  ⟨steady, by simp, by simp, by simp, .nil⟩

/-- A further move is arranged with moves that lie apart from it. -/
theorem Arranged.cons {m : Move} (arranged : Arranged s moves) (source : s.Before m.start)
    (run : m.start.Before m.stop) (target : s.Before m.target) (apart : ∀ n ∈ moves, m.Apart n) :
    Arranged s (m :: moves) where
  steady := arranged.steady
  sources := List.forall_mem_cons.mpr ⟨source, arranged.sources⟩
  runs := List.forall_mem_cons.mpr ⟨run, arranged.runs⟩
  targets := List.forall_mem_cons.mpr ⟨target, arranged.targets⟩
  apart := List.pairwise_cons.mpr ⟨apart, arranged.apart⟩

/-- The types that arranged moves draw lie in arranged blocks. -/
theorem Arranged.types (arranged : Arranged s moves) :
    Block.Arranged s.lastType (Block.summit (moves.map Move.types)) (moves.map Move.types) where
  sources := by
    rw [List.forall_mem_map]
    exact fun m member => (arranged.sources m member).types
  targets := by
    rw [List.forall_mem_map]
    exact fun m member => (arranged.targets m member).types
  bounded := Block.le_summit
  apart := by
    rw [List.pairwise_map]
    refine arranged.apart.imp_of_mem fun {m n} memM memN apart => ⟨?_, ?_⟩
    · have runM := (arranged.runs m memM).types
      have runN := (arranged.runs n memN).types
      rcases apart.sources with first | second
      · have before := first.types
        simp only [Move.types]
        omega
      · have before := second.types
        simp only [Move.types]
        omega
    · exact apart.targets.imp (fun before => before.types) fun before => before.types

/-- So do the assumptions. -/
theorem Arranged.assumptions (arranged : Arranged s moves) :
    Block.Arranged s.lastAssumption (Block.summit (moves.map Move.assumptions))
      (moves.map Move.assumptions) where
  sources := by
    rw [List.forall_mem_map]
    exact fun m member => (arranged.sources m member).assumptions
  targets := by
    rw [List.forall_mem_map]
    exact fun m member => (arranged.targets m member).assumptions
  bounded := Block.le_summit
  apart := by
    rw [List.pairwise_map]
    refine arranged.apart.imp_of_mem fun {m n} memM memN apart => ⟨?_, ?_⟩
    · have runM := (arranged.runs m memM).assumptions
      have runN := (arranged.runs n memN).assumptions
      rcases apart.sources with first | second
      · have before := first.assumptions
        simp only [Move.assumptions]
        omega
      · have before := second.assumptions
        simp only [Move.assumptions]
        omega
    · exact apart.targets.imp (fun before => before.assumptions) fun before => before.assumptions

/-- The renaming that makes some moves. -/
def relocation (arranged : Arranged s moves) : Renaming where
  type := Block.move s.lastType (Block.summit (moves.map Move.types)) (moves.map Move.types)
  assumption n := (Block.move s.lastAssumption (Block.summit (moves.map Move.assumptions))
    (moves.map Move.assumptions) n).toNat
  choosing := True
  type_injective := Block.move_injective arranged.types
  assumption_injective := by
    intro n m same
    have nonneg := fun n : Nat => Block.move_nonneg s.lastAssumption
      (Block.summit (moves.map Move.assumptions)) (moves.map Move.assumptions)
      (Int.natCast_nonneg n)
    have same' := congrArg (fun n : Nat => (n : Int)) same
    simp only [Int.toNat_of_nonneg (nonneg _)] at same'
    exact Int.ofNat.inj (Block.move_injective arranged.assumptions same')

/-- Moves that have nothing to do with each other can be made at once. -/
theorem Arranged.exists_makes (arranged : Arranged s moves) : ∃ ρ : Renaming, ρ.Makes s moves := by
  refine ⟨relocation arranged, ⟨?_, ?_, trivial, ?_⟩, fun m member => ⟨?_, ?_, ?_, ?_⟩⟩
  · exact fun id low => Block.move_of_le arranged.types low
  · intro id low
    have stays := Block.move_of_le (x := id) arranged.assumptions (by omega)
    simp only [relocation, stays, Int.toNat_natCast]
  · exact fun n _ name t => arranged.steady _ n n name t
  · intro n above below
    have run := (arranged.runs m member).types
    have holds : m.types.holds n = true := by
      rw [Block.holds_iff]
      simp only [Move.types]
      omega
    have moved := Block.move_of_holds arranged.types (List.mem_map_of_mem member) holds
    simp only [relocation, moved, Move.types]
    omega
  · intro n above below
    have run := (arranged.runs m member).assumptions
    have holds : m.assumptions.holds n = true := by
      rw [Block.holds_iff]
      simp only [Move.assumptions]
      omega
    have moved := Block.move_of_holds arranged.assumptions (List.mem_map_of_mem member) holds
    simp only [relocation, moved, Move.assumptions]
    omega
  · intro _ n _ _ name t
    rw [(arranged.targets m member).choices, (arranged.sources m member).choices]
    exact arranged.steady _ _ n name t
  · exact (arranged.targets m member).depth.trans (arranged.sources m member).depth.symm

/-! ### Moving one run after the other -/

/-- Everything was drawn before one supply, and is then drawn before another one. -/
structure Placed (s : Supply) (moves : List Move) (t v : Supply) : Prop where
  /-- The moves have nothing to do with each other. -/
  arranged : Arranged s moves
  /-- The first supply is later than what stays. -/
  source : s.Before t
  /-- The second supply is later than what stays. -/
  target : s.Before v
  /-- Everything was drawn before the first supply. -/
  sources : ∀ m ∈ moves, m.stop.Before t
  /-- Everything is then drawn before the second supply. -/
  targets : ∀ m ∈ moves, m.landing.Before v

/-- No moves are placed before all that comes later. -/
theorem placed_nil (steady : s.Steady) (source : s.Before t) (target : s.Before v) :
    Placed s [] t v :=
  ⟨arranged_nil steady, source, target, by simp, by simp⟩

/-- What is placed before supplies is placed before later ones. -/
theorem Placed.later (placed : Placed s moves t v) {t' v' : Supply} (source : t.Before t')
    (target : v.Before v') : Placed s moves t' v' where
  arranged := placed.arranged
  source := placed.source.trans source
  target := placed.target.trans target
  sources m member := (placed.sources m member).trans source
  targets m member := (placed.targets m member).trans target

/-- Two moves that have nothing to do with each other. -/
theorem placed_two {m n : Move} {t v : Supply} (steady : s.Steady) (startM : s.Before m.start)
    (runM : m.start.Before m.stop) (targetM : s.Before m.target) (startN : s.Before n.start)
    (runN : n.start.Before n.stop) (targetN : s.Before n.target) (apart : m.Apart n)
    (sources : m.stop.Before t ∧ n.stop.Before t)
    (targets : m.landing.Before v ∧ n.landing.Before v) :
    Placed s [m, n] t v where
  arranged := ((arranged_nil steady).cons startN runN targetN (by simp)).cons startM runM targetM
    (by simpa using apart)
  source := startM.trans (runM.trans sources.1)
  target := targetM.trans ((Supply.before_after _ _ _).trans targets.1)
  sources := by simpa using sources
  targets := by simpa using targets

/-- What is drawn next can be moved as well. -/
theorem Placed.arranged_cons (placed : Placed s moves t v) (run : t.Before u) :
    Arranged s (⟨t, u, v⟩ :: moves) :=
  placed.arranged.cons placed.source run placed.target fun m member =>
    ⟨.inr (placed.sources m member), .inr (placed.targets m member)⟩

/-- A run is one more move, and then the moves are placed before where it ends. -/
theorem Placed.cons (placed : Placed s moves t v) (run : t.Before u) :
    Placed s (⟨t, u, v⟩ :: moves) u (v.after t u) where
  arranged := placed.arranged_cons run
  source := placed.source.trans run
  target := placed.target.trans (Supply.before_after _ _ _)
  sources := List.forall_mem_cons.mpr ⟨.refl u, fun m member => (placed.sources m member).trans run⟩
  targets := List.forall_mem_cons.mpr
    ⟨.refl _, fun m member => (placed.targets m member).trans (Supply.before_after _ _ _)⟩

/-- What was drawn before the other moves can be moved after them. -/
theorem Placed.first {v' : Supply} (placed : Placed s moves t v) (source : s.Before u)
    (run : u.Before w) (stop : w.Before t) (landing : (v.after u w).Before v')
    (before : ∀ m ∈ moves, w.Before m.start) : Placed s (⟨u, w, v⟩ :: moves) t v' where
  arranged := placed.arranged.cons source run placed.target fun m member =>
    ⟨.inl (before m member), .inr (placed.targets m member)⟩
  source := placed.source
  target := placed.target.trans ((Supply.before_after _ _ _).trans landing)
  sources := List.forall_mem_cons.mpr ⟨stop, placed.sources⟩
  targets := List.forall_mem_cons.mpr ⟨landing, fun m member =>
    (placed.targets m member).trans ((Supply.before_after _ _ _).trans landing)⟩

end Move

/-- A renaming that makes some moves makes all but the first. -/
theorem Renaming.Makes.tail {ρ : Renaming} {s : Supply} {m : Move} {moves : List Move}
    (makes : ρ.Makes s (m :: moves)) : ρ.Makes s moves :=
  ⟨makes.fixes, fun n member => makes.carries n (List.mem_cons_of_mem _ member)⟩

/-- A renaming that makes some moves carries the second. -/
theorem Renaming.Makes.second {ρ : Renaming} {s : Supply} {m : Move} {t u v : Supply}
    {moves : List Move} (makes : ρ.Makes s (m :: ⟨t, u, v⟩ :: moves)) : ρ.Carries t u v :=
  makes.carries ⟨t, u, v⟩ (List.mem_cons_of_mem _ List.mem_cons_self)

/-- A renaming that fixes what came before and carries a run makes one move. -/
theorem Renaming.makes_one {ρ : Renaming} {s t u v : Supply} (fixes : ρ.Fixes s)
    (carries : ρ.Carries t u v) : ρ.Makes s [⟨t, u, v⟩] :=
  ⟨fixes, by simpa using carries⟩

/-- A renaming that makes some moves carries the first. -/
theorem Renaming.Makes.head {ρ : Renaming} {s t u v : Supply} {moves : List Move}
    (makes : ρ.Makes s (⟨t, u, v⟩ :: moves)) : ρ.Carries t u v :=
  makes.carries _ List.mem_cons_self

/-- A run can be moved to another place if renamings that make the moves so far let the same build
mirror it. The result is the renamed one for every renaming that makes this move as well. -/
theorem Build.follows_move {α β : Type} {R : Renaming → α → β → Prop} {first : Build α}
    {second : Build β} {s t u v : Supply} {moves : List Move} (placed : Move.Placed s moves t v)
    (mirrors : ∀ ρ : Renaming, ρ.Makes s moves → Mirrors ρ (R ρ) first second) {a : α}
    (run : first.runFrom t = (.ok a, u)) :
    t.Before u ∧ ∃ b, second.runFrom v = (.ok b, v.after t u) ∧
      ∀ ρ : Renaming, ρ.Makes s (⟨t, u, v⟩ :: moves) → R ρ a b := by
  obtain ⟨σ, makes⟩ := placed.arranged.exists_makes
  have before := (mirrors σ makes).before run
  obtain ⟨σ, makes⟩ := (placed.arranged_cons before).exists_makes
  obtain ⟨b, _, run'⟩ := (mirrors σ makes.tail).follows t a u run v makes.head
  refine ⟨before, b, run', fun ρ makes => ?_⟩
  obtain ⟨b', related, run''⟩ := (mirrors ρ makes.tail).follows t a u run v makes.head
  rw [run'] at run''
  cases run''
  exact related

end Turnstile
