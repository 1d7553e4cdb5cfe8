import Turnstile.Plan.Walk
import Turnstile.Proofs.OpenGoals
import Turnstile.Rule.Logical

/-!
# Limbs and lines

A plan has two views. The outline is a line for every atomic plan, as deep as there are branches
with several plans around it. The compact view is a tree of limbs: a limb has the plans that follow
each other in one line of reasoning, and below it, one deeper, the limbs of the branch that ends it.
A plan whose head is itself a branch is one opaque step of its limb.

Both views show one proof. If the steps are listed limb by limb, each at the depth of its limb, and
the opaque ones are opened where they stand, the outline comes out.
-/

namespace Turnstile

variable {α : Type}

/-! ## Lines -/

/-- A line moved some levels deeper. -/
def Line.deepen (depth : Nat) (line : Line α) : Line α := ⟨depth + line.depth, line.item⟩

/-- Moving lines no deeper leaves them. -/
theorem Line.deepen_zero (lines : List (Line α)) : lines.map (Line.deepen 0) = lines := by
  have same : Line.deepen 0 = (id : Line α → Line α) := by
    funext line
    simp [deepen]
  rw [same, List.map_id]

/-- Moving lines deeper twice moves them by both depths. -/
theorem Line.deepen_deepen (depth depth' : Nat) (lines : List (Line α)) :
    (lines.map (Line.deepen depth')).map (Line.deepen depth) =
      lines.map (Line.deepen (depth + depth')) := by
  rw [List.map_map]
  refine List.map_congr_left fun line _ => ?_
  simp [deepen, Nat.add_assoc]

namespace Plan

variable {p first : Plan} {branches : List Plan} {depth : Nat}

/-- How much deeper than its head the plans of a branch stand: a single one stands beside it. -/
def nesting : List Plan → Nat
  | [_] => 0
  | _ => 1

/-- The lines of a plan are met wherever the walk through it begins, and the walk ends at the depth
at which it began. -/
def Lays (p : Plan) : Prop :=
  ∀ depth events, linesFrom depth (p.walk ++ events) =
    p.flatten.map (Line.deepen depth) ++ linesFrom depth events

/-- A plan that is one step of the walk is laid out as one line. -/
theorem lays_atomic (walks : p.walk = [.visit p]) : p.Lays := by
  intro depth events
  rw [flatten, walks]
  rfl

/-- An atomic plan has one line. -/
theorem flatten_atomic (atomic : p.isBranch = false) : p.flatten = [⟨0, p⟩] := by
  cases p with
  | assumption id => rfl
  | rule call apply => rfl
  | compound call check expansion => rfl
  | branch first branches => cases atomic

/-- Several plans are walked through one after the other: in line, or each one level deeper. -/
theorem linesFrom_walkAll (inLine : Bool) (lays : ∀ b ∈ branches, b.Lays)
    (events : List (Event Plan)) : linesFrom depth (walkAll inLine branches ++ events) =
      branches.flatMap (fun b => b.flatten.map (Line.deepen (depth + if inLine then 0 else 1))) ++
        linesFrom depth events := by
  induction branches with
  | nil => rfl
  | cons b rest ih =>
    have here : b.Lays := lays b (by simp)
    have later := ih fun c inside => lays c (by simp [inside])
    rw [walkAll, List.flatMap_cons, List.append_assoc, List.append_assoc, ← later]
    cases inLine with
    | true => exact here depth _
    | false =>
      -- The walk enters before every plan and leaves behind it, which cancels in the depth.
      have marked : Event.enter :: b.walk ++ [Event.leave] ++ (walkAll false rest ++ events) =
          Event.enter :: (b.walk ++ Event.leave :: (walkAll false rest ++ events)) := by simp
      change linesFrom depth (Event.enter :: b.walk ++ [Event.leave] ++ _) = _
      rw [marked, linesFrom, here, linesFrom, Nat.add_sub_cancel]
      rfl

/-- A branch is walked through head first. -/
theorem linesFrom_branch (depth : Nat) (head : first.Lays) (lays : ∀ b ∈ branches, b.Lays)
    (events : List (Event Plan)) : linesFrom depth ((branch first branches).walk ++ events) =
      first.flatten.map (Line.deepen depth) ++
        (branches.flatMap fun b => b.flatten.map (Line.deepen (depth + nesting branches))) ++
        linesFrom depth events := by
  have nested : (if branches.length == 1 then 0 else 1) = nesting branches := by
    match branches with
    | [] => rfl
    | [_] => rfl
    | _ :: _ :: _ => rfl
  rw [walk, List.append_assoc, head, linesFrom_walkAll _ lays, nested, List.append_assoc]

/-- If head and branches are laid out wherever the walk begins, then the lines of a branch are those
of its head and then those of its branches, deeper where there are several. -/
theorem flatten_of_lays (head : first.Lays) (lays : ∀ b ∈ branches, b.Lays) :
    (branch first branches).flatten = first.flatten ++
      branches.flatMap fun b => b.flatten.map (Line.deepen (nesting branches)) := by
  have lines := linesFrom_branch 0 head lays []
  rw [List.append_nil, Line.deepen_zero, Nat.zero_add] at lines
  rw [flatten, lines]
  exact List.append_nil _

/-- Every plan is laid out wherever the walk begins. -/
theorem lays (p : Plan) : p.Lays := by
  induction p using induct with
  | assumption id => exact lays_atomic rfl
  | rule call apply => exact lays_atomic rfl
  | compound call check expansion _ => exact lays_atomic rfl
  | branch first branches head all =>
    intro depth events
    rw [linesFrom_branch depth head all, flatten_of_lays head all,
      List.map_append, List.map_flatMap]
    simp only [Line.deepen_deepen]

/-- The outline of a branch: that of its head, then those of its plans, deeper if there are
several or none. -/
theorem flatten_branch (first : Plan) (branches : List Plan) : (branch first branches).flatten =
    first.flatten ++ branches.flatMap fun b => b.flatten.map (Line.deepen (nesting branches)) :=
  flatten_of_lays (lays first) fun b _ => lays b

end Plan

/-! ## Limbs -/

mutual

/-- The steps of a limb and of those below it in order, each with the depth of its limb. -/
def Limb.lines (depth : Nat) : Limb → List (Line Plan)
  | .mk steps branches => steps.map (⟨depth, ·⟩) ++ Limb.linesAll (depth + 1) branches

/-- The steps of several limbs at one depth. -/
def Limb.linesAll (depth : Nat) : List Limb → List (Line Plan)
  | [] => []
  | limb :: rest => limb.lines depth ++ Limb.linesAll depth rest

end

/-- A step is shown as it is unless it is a branch, which is opened into its outline where it
stands. -/
def Line.opened (line : Line Plan) : List (Line Plan) :=
  if line.item.isBranch then line.item.flatten.map (Line.deepen line.depth) else [line]

/-- The lines of some limbs are those of each, in order. -/
theorem Limb.linesAll_eq (depth : Nat) (limbs : List Limb) :
    Limb.linesAll depth limbs = limbs.flatMap (Limb.lines depth) := by
  induction limbs with
  | nil => rfl
  | cons limb rest ih => rw [linesAll, ih, List.flatMap_cons]

/-- A plan before a limb stands on a line of its own at the depth of the limb. -/
theorem Limb.lines_cons (depth : Nat) (p : Plan) (limb : Limb) :
    (limb.cons p).lines depth = ⟨depth, p⟩ :: limb.lines depth := by
  cases limb
  rfl

namespace Plan

variable {p first : Plan} {branches : List Plan} {depth : Nat}

/-- Plans are compressed one by one. -/
theorem compressAll_eq (plans : List Plan) : compressAll plans = plans.map compress := by
  induction plans with
  | nil => rfl
  | cons p rest ih => rw [compressAll, ih, List.map_cons]

/-- A branch that has a branch as its head is a limb of one step. -/
theorem compress_headed (heads : first.isBranch = true) (branches : List Plan) :
    (branch first branches).compress = .mk [branch first branches] [] := by
  unfold compress
  exact if_pos heads

/-- A branch after an atomic plan, before its plans are told apart by how many they are. -/
theorem compress_atomic (atomic : first.isBranch = false) (branches : List Plan) :
    (branch first branches).compress = match branches, compressAll branches with
      | [_], [limb] => limb.cons first
      | _, limbs => .mk [first] limbs := by
  have closed : ¬ first.isBranch = true := by simp [atomic]
  unfold compress
  exact if_neg closed

/-- A single plan after an atomic one continues its limb. -/
theorem compress_single (atomic : first.isBranch = false) (b : Plan) :
    (branch first [b]).compress = b.compress.cons first := compress_atomic atomic [b]

/-- Several plans after an atomic one, or none, end its limb. -/
theorem compress_forks (atomic : first.isBranch = false) (forks : nesting branches = 1) :
    (branch first branches).compress = .mk [first] (branches.map compress) := by
  rw [compress_atomic atomic, ← compressAll_eq]
  match branches with
  | [] => rfl
  | [_] => cases forks
  | _ :: _ :: _ => rfl

/-- An atomic plan followed by others is a step of its own, and the steps of the others follow. -/
theorem lines_compress_branch (atomic : first.isBranch = false) (branches : List Plan)
    (depth : Nat) : (branch first branches).compress.lines depth =
      ⟨depth, first⟩ :: branches.flatMap fun b => b.compress.lines (depth + nesting branches) := by
  by_cases forks : nesting branches = 1
  · rw [compress_forks atomic forks, forks, Limb.lines, Limb.linesAll_eq, List.flatMap_map]
    rfl
  · match branches with
    | [] => exact absurd rfl forks
    | [b] => rw [compress_single atomic, Limb.lines_cons, List.flatMap_singleton]; rfl
    | _ :: _ :: _ => exact absurd rfl forks

/-! ## The two views -/

/-- Opening a step that is atomic leaves it as it is, so every step may be opened. -/
theorem opened_eq (line : Line Plan) :
    line.opened = line.item.flatten.map (Line.deepen line.depth) := by
  rw [Line.opened]
  by_cases branches : line.item.isBranch = true
  · rw [if_pos branches]
  · have atomic : line.item.isBranch = false := by simpa using branches
    rw [if_neg branches, flatten_atomic atomic]
    rfl

/-- A limb of one step, opened, is the outline of that step. -/
theorem opened_alone (alone : p.compress = .mk [p] []) (depth : Nat) :
    (p.compress.lines depth).flatMap Line.opened = p.flatten.map (Line.deepen depth) := by
  have lines : p.compress.lines depth = [⟨depth, p⟩] := by rw [alone]; rfl
  rw [lines, List.flatMap_singleton, opened_eq]

/-- At any depth the steps of the compact view, opened, are the outline. -/
theorem opened_lines (p : Plan) : ∀ depth,
    (p.compress.lines depth).flatMap Line.opened = p.flatten.map (Line.deepen depth) := by
  induction p using induct with
  | assumption id => exact opened_alone rfl
  | rule call apply => exact opened_alone rfl
  | compound call check expansion _ => exact opened_alone rfl
  | branch first branches _ all =>
    intro depth
    -- The head is not taken apart by the compact view, so nothing is needed about its own limbs.
    by_cases heads : first.isBranch = true
    · exact opened_alone (compress_headed heads branches) depth
    · have atomic : first.isBranch = false := by simpa using heads
      have here : Line.opened ⟨depth, first⟩ = first.flatten.map (Line.deepen depth) :=
        opened_eq _
      have below : (branches.flatMap fun b =>
            (b.compress.lines (depth + nesting branches)).flatMap Line.opened) =
          branches.flatMap fun b => b.flatten.map (Line.deepen (depth + nesting branches)) :=
        List.flatMap_congr fun b inside => all b inside _
      rw [lines_compress_branch atomic, List.flatMap_cons, here, List.flatMap_assoc, below,
        flatten_branch, List.map_append, List.map_flatMap]
      simp only [Line.deepen_deepen]

/-- Whatever follows an atomic plan is taken apart: a step is a branch only if its head is one. -/
theorem step_headed (p : Plan) : ∀ depth, ∀ line ∈ p.compress.lines depth, ∀ first branches,
    line.item = branch first branches → first.isBranch = true := by
  have atomic : ∀ {p : Plan} {depth : Nat} {line : Line Plan}, p.isBranch = false →
      line ∈ [(⟨depth, p⟩ : Line Plan)] → ∀ first branches, line.item ≠ branch first branches := by
    rintro p depth line atomic inside first branches is
    rw [List.mem_singleton.mp inside] at is
    obtain rfl : p = branch first branches := is
    cases atomic
  induction p using induct with
  | assumption id => exact fun _ _ inside _ _ is => absurd is (atomic rfl inside _ _)
  | rule call apply => exact fun _ _ inside _ _ is => absurd is (atomic rfl inside _ _)
  | compound call check expansion _ =>
    exact fun _ _ inside _ _ is => absurd is (atomic rfl inside _ _)
  | branch head plans _ all =>
    intro depth line inside first branches is
    by_cases heads : head.isBranch = true
    · have whole : line ∈ [(⟨depth, branch head plans⟩ : Line Plan)] := by
        rwa [compress_headed heads plans] at inside
      rw [List.mem_singleton.mp whole] at is
      obtain ⟨rfl, -⟩ := Plan.branch.inj is
      exact heads
    · have closed : head.isBranch = false := by simpa using heads
      rw [lines_compress_branch closed] at inside
      rcases List.mem_cons.mp inside with here | later
      · exact absurd is (atomic closed (List.mem_singleton.mpr here) _ _)
      · obtain ⟨b, among, below⟩ := List.mem_flatMap.mp later
        exact all b among _ line below first branches is

/-- The compact view and the outline show the same proof. The steps of the limbs in order, each at
the depth of its limb and each branch among them opened into its own outline at that depth, are the
outline: the same plans in the same order, equally deep. And a step is a branch only where its head
is a branch. -/
theorem compress_opened (p : Plan) :
    (p.compress.lines 0).flatMap Line.opened = p.flatten ∧
      ∀ line ∈ p.compress.lines 0, ∀ first branches, line.item = branch first branches →
        first.isBranch = true :=
  ⟨(opened_lines p 0).trans (Line.deepen_zero _), step_headed p 0⟩

/-- The first of two plans after a cut has a branching head, the second closes its goal without
going on. -/
def windingPlan : Plan :=
  .branch Rule.noop [.branch (Rule.cut (.var ⟨"a", .bool⟩))
    [.branch (.branch Rule.noop [Rule.leftContraction]) [Rule.close], .branch Rule.close []]]

/-- The opaque step is opened one level deep into three lines. -/
theorem compress_opened_windingPlan :
    windingPlan.flatten = [⟨0, Rule.noop⟩, ⟨0, Rule.cut (.var ⟨"a", .bool⟩)⟩, ⟨1, Rule.noop⟩,
        ⟨1, Rule.leftContraction⟩, ⟨1, Rule.close⟩, ⟨1, Rule.close⟩] ∧
      windingPlan.compress.lines 0 = [⟨0, Rule.noop⟩, ⟨0, Rule.cut (.var ⟨"a", .bool⟩)⟩,
        ⟨1, .branch (.branch Rule.noop [Rule.leftContraction]) [Rule.close]⟩, ⟨1, Rule.close⟩] ∧
      (windingPlan.compress.lines 0).flatMap Line.opened = windingPlan.flatten ∧
      (branch Rule.noop [Rule.leftContraction]).isBranch = true := by
  have steps : windingPlan.compress.lines 0 = [⟨0, Rule.noop⟩,
      ⟨0, Rule.cut (.var ⟨"a", .bool⟩)⟩,
      ⟨1, .branch (.branch Rule.noop [Rule.leftContraction]) [Rule.close]⟩, ⟨1, Rule.close⟩] := rfl
  have head := (compress_opened windingPlan).2
    ⟨1, .branch (.branch Rule.noop [Rule.leftContraction]) [Rule.close]⟩ (by simp [steps]) _ _ rfl
  exact ⟨rfl, steps, (compress_opened windingPlan).1, head⟩

end Plan

end Turnstile
