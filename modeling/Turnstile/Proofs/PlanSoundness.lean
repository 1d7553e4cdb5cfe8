import Turnstile.Proofs.LogicTheory
import Turnstile.Proofs.PlanRuns

/-!
# What runs of plans prove

A plan of sound rules proves what it says: if the goals that a run leaves are entailed, so is the
goal it was run on. The exception is a run in which a substitution goes wrong by renaming;
`Plan.captures` says whether one does, following the run from its supply.

Nothing on the left of a sequent has to be a formula: a schema may be instantiated with a function
of any type. Such terms are never assumed.
-/

namespace Turnstile

open Build

universe u

/-! ## Sequents -/

/-- A sequent of terms of logic, those on the right being formulas. -/
structure Sequent.OfLogic (goal : Sequent) : Prop where
  /-- The terms on the left. -/
  left : ∀ t ∈ goal.left, t.Meaningful
  /-- The formulas on the right. -/
  right : ∀ t ∈ goal.right, t.Meaningful ∧ t.type = .bool

/-- The formulas on the left are not all true, or one on the right is. -/
def Sequent.TrueAt (goal : Sequent) {M : Model.{u}} (ρ : M.Assignment) : Prop :=
  (∀ t ∈ goal.left, t.type = .bool → M.Holds ρ t) → ∃ t ∈ goal.right, M.Holds ρ t

/-- The sequent is true under every assignment of every standard model. -/
def Sequent.Entailed (goal : Sequent) : Prop :=
  ∀ (M : Model.{u}) (ρ : M.Assignment), goal.TrueAt ρ

/-- A sequent of formulas is valid if it is true everywhere. -/
theorem Sequent.Entailed.valid {goal : Sequent} (entailed : Sequent.Entailed.{u} goal) :
    Sequent.Valid.{u} goal := fun M ρ holds => entailed M ρ fun t member _ => holds t member

/-- The goals that a goal is reduced to, unless something was captured on the way. -/
structure Reduces (goal : Sequent) (goals : List Sequent) (captured : Bool) : Prop where
  /-- They are goals of logic. -/
  ofLogic : ∀ g ∈ goals, g.OfLogic
  /-- If they are entailed, so is the goal. -/
  entailed : captured = false → (∀ g ∈ goals, Sequent.Entailed.{u} g) → Sequent.Entailed.{u} goal

/-! ## Captures -/

namespace Rule

/-- Whether unfolding atoms one after the other goes wrong by renaming. -/
def unfoldingCaptures (value : Term) : List Term → Term → Supply → Bool
  | [], _, _ => false
  | atom :: rest, t, s =>
    t.captures value atom s ||
      (t.substitute value atom).leadsTo s fun t s => unfoldingCaptures value rest t s

/-- Whether unfolding a definition goes wrong by renaming. -/
def unfoldCaptures (th : Theory) (formula : Term) (name : Text.Octets) (s : Supply) : Bool :=
  match th.definition? name with
  | none => false
  | some d =>
    (arrange formula d.name).leadsTo s fun atoms s => unfoldingCaptures d.value atoms formula s

/-- Whether instantiating the bound variable of a formula goes wrong by renaming. -/
def instanceCaptures (th : Theory) (goal : Sequent) (side : Side) (shape : Shape)
    (body bound : String) (witness : Term) (s : Supply) : Bool :=
  (th.parts goal side 0 shape).leadsTo s fun m s =>
    (part m body).captures witness (part m bound) s

/-- Whether putting equals for equals in a formula goes wrong by renaming. -/
def replacementCaptures (th : Theory) (goal : Sequent) (index : Nat) (formula : Term)
    (s : Supply) : Bool :=
  (th.parts goal .left index .equation).leadsTo s fun m s =>
    formula.captures (part m "b") (part m "a") s

/-- Whether a call of a rule goes wrong by renaming. Only some rules substitute. -/
def captures (th : Theory) (call : Call) (goal : Sequent) (s : Supply) : Bool :=
  match call.args with
  | [] =>
    if call.name = "left_substitution" then
      replacementCaptures th goal 1 (goal.left.headD default) s
    else if call.name = "right_substitution" then
      replacementCaptures th goal 0 (goal.right.headD default) s
    else false
  | [.term witness] =>
    if call.name = "left_universal" then
      instanceCaptures th goal .left .universal "phi" "x" witness s
    else if call.name = "right_universal" then
      instanceCaptures th goal .right .universal "phi" "x" witness s
    else if call.name = "left_schema" then
      instanceCaptures th goal .left .schema "psi" "phi" witness s
    else false
  | [.string name] =>
    if call.name = "left_expand" then unfoldCaptures th (goal.left.headD default) name s
    else if call.name = "right_expand" then unfoldCaptures th (goal.right.headD default) name s
    else false
  | _ => false

end Rule

namespace Plan

mutual

/-- Whether a substitution goes wrong by renaming somewhere in a run of a plan. -/
def captures (th : Theory) : Plan → Sequent → Supply → Bool
  | assumption _, _, _ => false
  | rule call _, goal, s => Rule.captures th call goal s
  | compound _ check expansion, goal, s =>
    (check goal).leadsTo s fun _ s => (expansion goal).captures th goal s
  | branch first branches, goal, s =>
    first.captures th goal s ||
      (first.subgoals goal).leadsTo s fun goals s => capturesAll th branches goals s

/-- Whether a substitution goes wrong by renaming in runs of plans on one goal each. -/
def capturesAll (th : Theory) : List Plan → List Sequent → Supply → Bool
  | p :: plans, goal :: goals, s =>
    p.captures th goal s ||
      (p.subgoals goal).leadsTo s fun _ s => capturesAll th plans goals s
  | _, _, _ => false

end

/-! ## Runs -/

mutual

/-- Every rule of the plan reduces goals to goals. -/
def Sound (th : Theory) : Plan → Prop
  | assumption _ => True
  | rule call apply => ∀ goal s goals s', goal.OfLogic →
    (apply goal).runFrom s = (.ok goals, s') →
    Reduces.{u} goal goals (Rule.captures th call goal s)
  | compound _ _ expansion => ∀ goal, (expansion goal).Sound th
  | branch first branches => first.Sound th ∧ SoundAll th branches

/-- Every rule of the plans reduces goals to goals. -/
def SoundAll (th : Theory) : List Plan → Prop
  | [] => True
  | p :: rest => p.Sound th ∧ SoundAll th rest

end

variable {th : Theory} {goal : Sequent} {s s' : Supply}

/-- A sequence of sound plans is sound. -/
theorem sound_sequence {first : Plan} {rest : List Plan} (head : Sound.{u} th first)
    (tail : ∀ p ∈ rest, Sound.{u} th p) : Sound.{u} th (sequence first rest) := by
  induction rest generalizing first with
  | nil => exact head
  | cons next rest ih =>
    refine ⟨head, ?_, trivial⟩
    exact ih (tail next (by simp)) fun p member => tail p (by simp [member])

mutual

/-- A run of a sound plan reduces its goal to the goals it leaves. -/
theorem Sound.reduces : (p : Plan) → Sound.{u} th p → ∀ {goal : Sequent} {goals : List Sequent}
    {s s' : Supply}, goal.OfLogic → (p.subgoals goal).runFrom s = (.ok goals, s') →
    Reduces.{u} goal goals (p.captures th goal s)
  | assumption id, _, goal, goals, s, s', ofLogic, run => by
    rw [Plan.subgoals] at run
    cases run
    refine ⟨by simpa using ofLogic, fun _ all => all goal (by simp)⟩
  | rule call apply, sound, goal, goals, s, s', ofLogic, run => by
    rw [Plan.subgoals] at run
    rw [captures]
    exact sound goal s goals s' ofLogic run
  | compound call check expansion, sound, goal, goals, s, s', ofLogic, run => by
    rw [Plan.subgoals] at run
    obtain ⟨_, s₁, checked, run⟩ := Build.bind_ok run
    rw [captures, Build.leadsTo_of_run checked]
    exact Sound.reduces (expansion goal) (sound goal) ofLogic run
  | branch first branches, sound, goal, goals, s, s', ofLogic, run => by
    rw [Plan.subgoals] at run
    obtain ⟨heads, s₁, ran, run⟩ := Build.bind_ok run
    have head := Sound.reduces first sound.1 ofLogic ran
    rw [captures, Build.leadsTo_of_run ran]
    split at run
    next fits =>
      obtain ⟨ofLogics, entailed⟩ :=
        SoundAll.reduces branches sound.2 fits head.ofLogic run
      refine ⟨ofLogics, fun clear all => ?_⟩
      rw [Bool.or_eq_false_iff] at clear
      exact head.entailed clear.1 (entailed clear.2 all)
    next => cases run

/-- Runs of sound plans reduce their goals to the goals they leave. -/
theorem SoundAll.reduces : (plans : List Plan) → SoundAll.{u} th plans →
    ∀ {goals left : List Sequent} {s s' : Supply}, goals.length = plans.length →
    (∀ g ∈ goals, g.OfLogic) → (Plan.subgoalsOf plans goals).runFrom s = (.ok left, s') →
    (∀ g ∈ left, g.OfLogic) ∧ (capturesAll th plans goals s = false →
      (∀ g ∈ left, Sequent.Entailed.{u} g) → ∀ g ∈ goals, Sequent.Entailed.{u} g)
  | [], _, goals, left, s, s', fits, _, run => by
    obtain rfl : goals = [] := List.length_eq_zero_iff.mp fits
    rw [Plan.subgoalsOf] at run
    · cases run
      simp
    · simp
  | p :: plans, _, [], left, s, s', fits, _, run => by cases fits
  | p :: plans, sound, goal :: goals, left, s, s', fits, ofLogics, run => by
    rw [Plan.subgoalsOf] at run
    obtain ⟨here, s₁, ran, run⟩ := Build.bind_ok run
    obtain ⟨rest, s₂, ranRest, run⟩ := Build.bind_ok run
    cases run
    have head := Sound.reduces p sound.1 (ofLogics goal (by simp)) ran
    obtain ⟨ofLogicRest, entailedRest⟩ := SoundAll.reduces plans sound.2 (Nat.succ.inj fits)
      (fun g member => ofLogics g (by simp [member])) ranRest
    rw [capturesAll, Build.leadsTo_of_run ran]
    constructor
    · intro g member
      rcases List.mem_append.mp member with first | later
      · exact head.ofLogic g first
      · exact ofLogicRest g later
    · intro clear all g member
      rw [Bool.or_eq_false_iff] at clear
      rcases List.mem_cons.mp member with rfl | later
      · exact head.entailed clear.1 fun g inside => all g (List.mem_append_left _ inside)
      · exact entailedRest clear.2 (fun g inside => all g (List.mem_append_right _ inside)) g later

end

end Plan

end Turnstile
