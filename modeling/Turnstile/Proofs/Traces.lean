import Turnstile.Proofs.PlanRuns
import Turnstile.Rule.Logical

/-!
# Traces

A plan can be run in three ways: its open goals can be collected, its atomic plans can be listed,
and a trace does both at once. All three agree: a trace ends exactly as the plan does, with the same
goals or the same failure, and from the same supply; what it meets, if it does not fail, is what a
walk meets, marks included; and every atomic plan is met with the goal that the plan was given or
with one that an atomic plan met before it leaves open.
-/

namespace Turnstile

namespace Plan

/-! ## Atomic plans in order -/

/-- The atomic plans and marks of a trace, without the goals. -/
def withoutGoals (events : List (Event (Plan × Sequent))) : List (Event Plan) :=
  events.map (Event.map Prod.fst)

/-- Goals are left out of two lists of events one by one. -/
theorem withoutGoals_append (first second : List (Event (Plan × Sequent))) :
    withoutGoals (first ++ second) = withoutGoals first ++ withoutGoals second := List.map_append

/-- Marks around the events are marks around the atomic plans. -/
theorem withoutGoals_marked (inLine : Bool) (events : List (Event (Plan × Sequent))) :
    withoutGoals (if inLine then events else .enter :: events ++ [.leave]) =
      if inLine then withoutGoals events else .enter :: withoutGoals events ++ [.leave] := by
  cases inLine with
  | true => rfl
  | false => simp [withoutGoals, Event.map]

mutual

/-- A trace that does not fail meets what a walk meets. -/
theorem withoutGoals_trace : (p : Plan) → (goal : Sequent) → (s : Supply) → (goals : List Sequent) →
    ((p.trace goal).run s).1.result = .ok goals →
      withoutGoals ((p.trace goal).run s).1.events = p.walk
  | assumption _, _, _, _, _ => by
    rw [trace, walk]
    rfl
  | rule _ _, _, _, _, _ => by
    rw [trace, walk]
    rfl
  | compound _ _ _, _, _, _, _ => by
    rw [trace, walk]
    rfl
  | branch first branches, goal, s, goals, ended => by
    have head := withoutGoals_trace first goal s
    rw [trace_branch] at ended ⊢
    rcases ran : (first.trace goal).run s with ⟨⟨events, failure | left⟩, s'⟩ <;>
      simp only [ran] at ended head ⊢
    · cases ended
    · split at ended
      next fits =>
        have tail := withoutGoals_traceAll _ branches left s' goals fits ended
        rw [if_pos fits, walk, ← head left rfl, ← tail]
        exact withoutGoals_append ..
      next => cases ended

/-- Traces of several plans that do not fail meet what walks meet. -/
theorem withoutGoals_traceAll (inLine : Bool) : (plans : List Plan) → (goals : List Sequent) →
    (s : Supply) → (left : List Sequent) → goals.length = plans.length →
      ((traceAll inLine plans goals).run s).1.result = .ok left →
        withoutGoals ((traceAll inLine plans goals).run s).1.events = walkAll inLine plans
  | [], goals, _, _, _, _ => by
    rw [traceAll, walkAll]
    · rfl
    · simp
  | _ :: _, [], _, _, fits, _ => nomatch fits
  | p :: plans, goal :: goals, s, left, fits, ended => by
    have head := withoutGoals_trace p goal s
    rw [traceAll_cons] at ended ⊢
    rcases ran : (p.trace goal).run s with ⟨⟨events, failure | here⟩, s'⟩ <;>
      simp only [ran] at ended head ⊢
    · cases ended
    · have tail := fun left => withoutGoals_traceAll inLine plans goals s' left (Nat.succ.inj fits)
      rcases ranAll : (traceAll inLine plans goals).run s' with ⟨⟨events', failure | rest⟩, s''⟩ <;>
        simp only [ranAll] at ended tail ⊢
      · cases ended
      · rw [withoutGoals_append, withoutGoals_marked, head here rfl, tail rest rfl, walkAll]

end

/-! ## Where goals come from -/

/-- One of the goals that a plan leaves open on another. -/
def Leaves (p : Plan) (goal left : Sequent) : Prop :=
  ∃ s goals s', (p.subgoals goal).runFrom s = (.ok goals, s') ∧ left ∈ goals

/-- A goal that was known, or that an atomic plan which was met leaves open. -/
def KnownAfter (known : Sequent → Prop) (events : List (Event (Plan × Sequent)))
    (goal : Sequent) : Prop :=
  known goal ∨ ∃ p before, .visit (p, before) ∈ events ∧ p.Leaves before goal

/-- Every atomic plan is met with a goal that is known when it is met. -/
def Justified (known : Sequent → Prop) (events : List (Event (Plan × Sequent))) : Prop :=
  ∀ before p goal after, events = before ++ .visit (p, goal) :: after →
    KnownAfter known before goal

variable {known : Sequent → Prop} {first second : List (Event (Plan × Sequent))}
  {p : Plan} {goal : Sequent}

/-- What more events leave open is known after them. -/
theorem KnownAfter.more (holds : KnownAfter known first goal) (included : first ⊆ second) :
    KnownAfter known second goal :=
  holds.imp_right fun ⟨p, before, met, leaves⟩ => ⟨p, before, included met, leaves⟩

/-- What is known after events that come after others is known after all of them. -/
theorem KnownAfter.append (holds : KnownAfter (KnownAfter known first) second goal) :
    KnownAfter known (first ++ second) goal := by
  rcases holds with early | ⟨p, before, met, leaves⟩
  · exact early.more (List.subset_append_left first second)
  · exact .inr ⟨p, before, List.mem_append_right first met, leaves⟩

/-- No events are justified. -/
theorem justified_nil : Justified known [] := by
  intro before p goal after same
  cases before <;> cases same

/-- Events are justified together if the second ones are after what the first ones make known. -/
theorem Justified.append (head : Justified known first)
    (tail : Justified (KnownAfter known first) second) : Justified known (first ++ second) := by
  intro before p goal after same
  rcases List.append_eq_append_iff.mp same with ⟨middle, split, met⟩ | ⟨middle, split, met⟩
  · rw [split]
    exact (tail middle p goal after met).append
  · cases middle with
    | nil =>
      rw [List.append_nil] at split
      rw [← split]
      exact (tail [] p goal after met.symm).elim id fun ⟨_, _, met, _⟩ => nomatch met
    | cons event middle =>
      obtain ⟨rfl, -⟩ := List.cons.inj met
      exact head before p goal middle split

/-- A visit of a known goal is justified. -/
theorem justified_visit (holds : known goal) : Justified known [.visit (p, goal)] := by
  intro before q other after same
  cases before with
  | nil =>
    cases same
    exact .inl holds
  | cons event before =>
    obtain ⟨-, same⟩ := List.cons.inj same
    cases before <;> cases same

/-- A mark is met with no goal. -/
theorem justified_mark {mark : Event (Plan × Sequent)} (isMark : mark = .enter ∨ mark = .leave) :
    Justified known [mark] := by
  intro before q other after same
  cases before with
  | nil => rcases isMark with rfl | rfl <;> cases same
  | cons event before =>
    obtain ⟨-, same⟩ := List.cons.inj same
    cases before <;> cases same

/-- What is known already is known again after some events. -/
theorem Justified.mono {known' : Sequent → Prop} (justified : Justified known first)
    (weaker : ∀ g, known g → known' g) : Justified known' first := fun before p goal after same =>
  (justified before p goal after same).imp_left (weaker goal)

/-- Marking where events begin and end leaves them justified. -/
theorem Justified.marked (justified : Justified known first) (inLine : Bool) :
    Justified known (if inLine then first else .enter :: first ++ [.leave]) := by
  cases inLine with
  | true => exact justified
  | false =>
    have opened := (justified_mark (.inl rfl)).append (justified.mono fun g holds => .inl holds)
    exact opened.append (justified_mark (.inr rfl))

/-- Marking where events begin and end leaves them there. -/
theorem subset_marked (inLine : Bool) :
    first ⊆ if inLine then first else .enter :: first ++ [.leave] := by
  cases inLine with
  | true => exact List.Subset.refl first
  | false => exact fun event met => List.mem_append_left _ (List.mem_cons_of_mem _ met)

/-- An atomic plan is met with its goal, and its open goals are known afterwards. -/
theorem knownAfter_visit {s s' : Supply} {goals : List Sequent}
    (run : (p.subgoals goal).runFrom s = (.ok goals, s')) :
    ∀ g ∈ goals, KnownAfter known [.visit (p, goal)] g := fun _ left =>
  .inr ⟨p, goal, List.mem_singleton_self _, s, goals, s', run, left⟩

mutual

/-- A trace from a known goal meets known goals only, and what it leaves open is known. -/
theorem justified_trace : (p : Plan) → {known : Sequent → Prop} → {goal : Sequent} →
    known goal → (s : Supply) → Justified known ((p.trace goal).run s).1.events ∧
      ∀ goals, ((p.trace goal).run s).1.result = .ok goals →
        ∀ g ∈ goals, KnownAfter known ((p.trace goal).run s).1.events g
  | assumption id, known, goal, holds, s => by
    have ran := trace_run (assumption id) goal s
    rw [trace] at ran ⊢
    exact ⟨justified_visit holds, fun goals ended =>
      knownAfter_visit (ran.symm.trans (Prod.ext ended rfl))⟩
  | rule call apply, known, goal, holds, s => by
    have ran := trace_run (rule call apply) goal s
    rw [trace] at ran ⊢
    exact ⟨justified_visit holds, fun goals ended =>
      knownAfter_visit (ran.symm.trans (Prod.ext ended rfl))⟩
  | compound call check expansion, known, goal, holds, s => by
    have ran := trace_run (compound call check expansion) goal s
    rw [trace] at ran ⊢
    exact ⟨justified_visit holds, fun goals ended =>
      knownAfter_visit (ran.symm.trans (Prod.ext ended rfl))⟩
  | branch first branches, known, goal, holds, s => by
    obtain ⟨head, left⟩ := justified_trace first holds s
    rw [trace_branch]
    rcases ran : (first.trace goal).run s with ⟨⟨events, failure | goals⟩, s'⟩ <;>
      simp only [ran] at head left ⊢
    · exact ⟨head, fun goals ended => nomatch ended⟩
    · split
      next =>
        obtain ⟨tail, open'⟩ := justified_traceAll _ branches (left goals rfl) s'
        exact ⟨head.append tail, fun goals ended g inside => (open' goals ended g inside).append⟩
      next => exact ⟨head, fun goals ended => nomatch ended⟩

/-- Traces of several plans from known goals meet known goals only, and what they leave open is
known. -/
theorem justified_traceAll (inLine : Bool) : (plans : List Plan) → {known : Sequent → Prop} →
    {goals : List Sequent} → (∀ g ∈ goals, known g) → (s : Supply) →
      Justified known ((traceAll inLine plans goals).run s).1.events ∧
        ∀ left, ((traceAll inLine plans goals).run s).1.result = .ok left →
          ∀ g ∈ left, KnownAfter known ((traceAll inLine plans goals).run s).1.events g
  | [], known, goals, _, s => by
    rw [traceAll]
    · exact ⟨justified_nil, fun left ended g inside => by cases ended; cases inside⟩
    · simp
  | p :: plans, known, [], _, s => by
    rw [traceAll]
    · exact ⟨justified_nil, fun left ended g inside => by cases ended; cases inside⟩
    · simp
  | p :: plans, known, goal :: goals, hold, s => by
    obtain ⟨head, here⟩ := justified_trace p (hold goal List.mem_cons_self) s
    rw [traceAll_cons]
    rcases ran : (p.trace goal).run s with ⟨⟨events, failure | left⟩, s'⟩ <;>
      simp only [ran] at head here ⊢
    · exact ⟨head.marked inLine, fun left ended => nomatch ended⟩
    · have others : ∀ g ∈ goals,
          KnownAfter known (if inLine then events else .enter :: events ++ [.leave]) g :=
        fun g inside => .inl (hold g (List.mem_cons_of_mem _ inside))
      obtain ⟨tail, there⟩ := justified_traceAll inLine plans others s'
      refine ⟨(head.marked inLine).append tail, fun all ended g inside => ?_⟩
      rcases ranAll : (traceAll inLine plans goals).run s' with ⟨⟨events', failure | rest⟩, s''⟩ <;>
        simp only [ranAll] at ended there ⊢ <;> cases ended
      rcases List.mem_append.mp inside with early | late
      · exact ((here left rfl g early).more (subset_marked inLine)).more
          (List.subset_append_left _ _)
      · exact (there rest rfl g late).append

end

/-! ## Three ways to run a plan -/

/-- A trace ends with the open goals or the failure of the plan; without a failure it meets the
plan's atomic plans in the order of a walk; and every goal that it meets is the first one or one
that an atomic plan met earlier leaves open. -/
theorem trace_subgoals_walk (p : Plan) (goal : Sequent) (s : Supply) :
    (((p.trace goal).run s).1.result, ((p.trace goal).run s).2) = (p.subgoals goal).runFrom s ∧
      (∀ goals, ((p.trace goal).run s).1.result = .ok goals →
        withoutGoals ((p.trace goal).run s).1.events = p.walk) ∧
      Justified (goal = ·) ((p.trace goal).run s).1.events :=
  ⟨trace_run p goal s, withoutGoals_trace p goal s, (justified_trace p (Eq.refl goal) s).1⟩

/-- A proposition. -/
def proposition : Term := .var ⟨"a", .bool⟩

/-- A branch whose head is a branch, and which closes one goal without going on from there. -/
def branchingHead : Plan :=
  .branch (.branch Rule.noop [Rule.cut proposition]) [.branch Rule.close [], Rule.leftWeakening]

/-- The head is followed in line, and each of the two plans after it stands between marks. -/
theorem trace_subgoals_walk_branchingHead :
    ((branchingHead.trace ⟨[proposition], []⟩).run Supply.initial).1.result =
        .ok [⟨[proposition], []⟩] ∧
      withoutGoals ((branchingHead.trace ⟨[proposition], []⟩).run Supply.initial).1.events =
        [.visit Rule.noop, .visit (Rule.cut proposition), .enter, .visit Rule.close, .leave,
          .enter, .visit Rule.leftWeakening, .leave] := by
  have ended : ((branchingHead.trace ⟨[proposition], []⟩).run Supply.initial).1.result =
      .ok [⟨[proposition], []⟩] := rfl
  have walked := (trace_subgoals_walk branchingHead ⟨[proposition], []⟩ Supply.initial).2.1 _ ended
  exact ⟨ended, walked.trans rfl⟩

end Plan

end Turnstile
