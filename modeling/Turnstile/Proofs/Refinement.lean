import Turnstile.Proofs.Sessions

/-!
# Refining open goals

What advancing does to a session is described by what its rule does to one goal: it succeeds exactly
when the goal exists, the rule can be read and it can be run on that goal, and then the goals that
it leaves open stand in the place of the goal, all others staying where they are.

This holds where rules and expansions are functions of the goal. The whole plan is run again for
every advance, so where a name is unfolded in another order the next time, a plan that was accepted
may fail.
-/

namespace Turnstile

open Build Renaming

variable {ρ : Renaming} {env : Environment} {s t u v w : Supply} {goal : Sequent} {p q : Plan}
  {text : String} {k : Nat} {G H : List Sequent}

/-- The plan leaves the goals `G` open, the text is then read as a plan, and this leaves the goals
`H` open on the goal at place `k` of `G`. -/
def Environment.Refines (env : Environment) (p : Plan) (goal : Sequent) (k : Nat) (text : String)
    (t : Supply) (G H : List Sequent) : Prop :=
  ∃ t₁ g sub t₂ t₃, (p.subgoals goal).runFrom t = (.ok G, t₁) ∧ G[k]? = some g ∧
    (env.evaluate text).runFrom t₁ = (.ok sub, t₂) ∧ (sub.subgoals g).runFrom t₂ = (.ok H, t₃)

namespace Session.Invariant

/-- Reading a text elsewhere gives the renamed plan. -/
theorem evaluate_moved (inv : Invariant env goal p s) (fromT : s.Before t) (fromV : s.Before v)
    {sub : Plan} (reads : (env.evaluate text).runFrom t = (.ok sub, u)) :
    t.Before u ∧ ∃ sub', (env.evaluate text).runFrom v = (.ok sub', v.after t u) ∧
      ∀ ρ : Renaming, ρ.Fixes s → ρ.Carries t u v → Plan.Renamed env ρ sub sub' := by
  obtain ⟨before, sub', reads', renamed⟩ := follows_move (Move.placed_nil inv.steady fromT fromV)
    (fun ρ makes => (inv.fixed ρ makes.fixes).evaluate text) reads
  exact ⟨before, sub', reads', fun ρ fixes carries => renamed ρ (makes_one fixes carries)⟩

/-- Reaching a leaf elsewhere draws as much, and the renamed goal arrives there. -/
theorem reaches_moved (inv : Invariant env goal p s) (fromT : s.Before t) (fromV : s.Before v)
    {id : Nat} {P P' : List Sequent} {g g' : Sequent} {R R' : List Plan.Task} {x : Supply}
    (reaches : Plan.Reaches id [(p, goal)] t P g R u)
    (reaches' : Plan.Reaches id [(p, goal)] v P' g' R' x) :
    x = v.after t u ∧ ∀ ρ : Renaming, ρ.Fixes s → ρ.Carries t u v →
      List.Forall₂ ρ.TakesGoal P P' ∧ ρ.TakesGoal g g' ∧ List.Forall₂ ρ.TakesTask R R' := by
  have before := (reaches.mirrors (inv.task (id_fixes s))).1
  obtain ⟨σ, makes⟩ := ((Move.placed_nil inv.steady fromT fromV).arranged_cons before).exists_makes
  have moved := fun (ρ : Renaming) (fixes : ρ.Fixes s) (carries : ρ.Carries t u v) =>
    reaches.moved reaches' inv.nodup_leaves (inv.task fixes) carries
  exact ⟨(moved σ makes.fixes makes.head).1, fun ρ fixes carries => (moved ρ fixes carries).2⟩

/-- A plan that was read elsewhere is run on the goal that arrives there as it is here. -/
theorem subgoals_moved (inv : Invariant env goal p s) {m n : Move} {g g' : Sequent}
    {sub sub' : Plan} (placed : Move.Placed s [m, n] t v)
    (renamed : ∀ ρ : Renaming, ρ.Fixes s → ρ.Carries m.start m.stop m.target →
      Plan.Renamed env ρ sub sub')
    (takes : ∀ ρ : Renaming, ρ.Fixes s → ρ.Carries n.start n.stop n.target → ρ.TakesGoal g g')
    (run : (sub.subgoals g).runFrom t = (.ok G, u)) :
    t.Before u ∧ ∃ H, (sub'.subgoals g').runFrom v = (.ok H, v.after t u) ∧
      ∀ ρ : Renaming, ρ.Makes s [⟨t, u, v⟩, m, n] → List.Forall₂ ρ.TakesGoal G H :=
  follows_move placed (fun ρ makes => ((renamed ρ makes.fixes makes.head).mirrors
    (inv.fixed ρ makes.fixes)).subgoals sub (takes ρ makes.fixes makes.second)) run

/-- The goal at a place of those that a run leaves open is the one that arrives at the leaf of that
place. -/
theorem getElem?_reached {P B : List Sequent} {g g' : Sequent} (place : P.length = k)
    (found : (P ++ g :: B)[k]? = some g') : g' = g := by
  rw [← place, List.getElem?_append_right (Nat.le_refl _), Nat.sub_self] at found
  exact (Option.some.inj found).symm

/-- Renamings that leave as it is what was drawn by the time when a leaf was reached leave the goal
that arrives there as it is, and so they do the plan that a text was read as before. -/
theorem arrived_self (inv : Invariant env goal p s) (early : s.Before w) {sub : Plan}
    (reads : (env.evaluate text).runFrom t = (.ok sub, u)) (read : u.Before w) {id : Nat}
    {P : List Sequent} {g : Sequent} {R : List Plan.Task}
    (reaches : Plan.Reaches id [(p, goal)] v P g R w) (fixes : ρ.Fixes w) :
    Plan.Mirrors ρ sub sub ∧ ρ.TakesGoal g g := by
  have fixed := inv.fixed ρ (fixes.of_before early)
  exact ⟨((fixed.evaluate text).self reads (fixes.of_before read)).mirrors fixed,
    (reaches.takes_self inv.nodup_leaves (inv.task (fixes.of_before early)) fixes).1⟩

/-- If a rule can be run on an open goal, then the goal can be advanced with it. -/
theorem advance_of_refines (inv : Invariant env goal p s) (fromT : s.Before t) (fromU : s.Before u)
    (refines : env.Refines p goal k text t G H) :
    ∃ q v, (env.advance p goal k text).runFrom u = (.ok q, v) := by
  obtain ⟨t₁, g, sub, t₂, t₃, run, found, reads, runs⟩ := refines
  obtain ⟨G', t₁', run', count, grown⟩ := inv.runs_later fromT
  rw [run] at run'
  cases run'
  obtain ⟨inside, _⟩ := List.getElem?_eq_some_iff.mp found
  obtain ⟨id, leaf⟩ : ∃ id, p.assumptions[k]? = some id := by
    rw [count] at inside
    exact ⟨_, List.getElem?_eq_getElem inside⟩
  obtain ⟨P, g', R, x, B, y, reaches, rest, run', place, _, toLeaf, fromLeaf⟩ :=
    (inv.later fromT).reaches_at leaf
  rw [run] at run'
  cases run'
  obtain rfl := getElem?_reached place found
  -- The text is read and the leaf reached from the other supply.
  obtain ⟨read, sub', reads', renamed⟩ := inv.evaluate_moved (fromT.trans grown) fromU reads
  have later := fromU.trans (Supply.before_after u t₁ t₂)
  obtain ⟨P', g', R', x', _, _, reaches', _, _, _, _, toLeaf', _⟩ :=
    (inv.later later).reaches_at leaf
  obtain ⟨rfl, moved⟩ := inv.reaches_moved fromT later reaches reaches'
  have placed : Move.Placed s [⟨t₁, t₂, u⟩, ⟨t, x, u.after t₁ t₂⟩] t₂ _ :=
    Move.placed_two inv.steady (fromT.trans grown) read fromU fromT toLeaf later
      ⟨.inr fromLeaf, .inl (.refl _)⟩ ⟨.refl _, fromLeaf.trans read⟩
      ⟨toLeaf', .refl _⟩
  obtain ⟨_, H', runs', _⟩ := inv.subgoals_moved placed renamed
    (fun ρ fixes carries => (moved ρ fixes carries).2.1) runs
  -- What can be run there can be normalized there.
  have early := later.trans toLeaf'
  have self := fun (ρ : Renaming) (fixes : ρ.Fixes _) =>
    inv.arrived_self early reads' toLeaf' reaches' fixes
  obtain ⟨_, N, z, _, normalizes⟩ := Plan.normalizesAsRun sub' _
    (Move.placed_nil (early.steady.mpr inv.steady) (.refl _) (.refl _))
    (fun ρ makes => (self ρ makes.fixes).1) (fun ρ makes => (self ρ makes.fixes).2) runs'
  obtain ⟨v, advanced, _⟩ := inv.advance_of_grafts fromU leaf (.mk reads' reaches' normalizes)
  exact ⟨_, v, advanced⟩

/-- If a goal was advanced, then the rule can be run on it. -/
theorem refines_of_advance (inv : Invariant env goal p s) (fromT : s.Before t)
    (fromU : s.Before u) {index : Int}
    (run : (env.advance p goal index text).runFrom u = (.ok q, v)) :
    ∃ k : Nat, index = k ∧ ∃ G H, env.Refines p goal k text t G H := by
  obtain ⟨k, id, N, _, rfl, leaf, ⟨reads, reaches, normalizes⟩, _, _⟩ :=
    inv.grafts_of_advance fromU run
  obtain ⟨read, toLeaf, _⟩ := inv.graft_before reads reaches normalizes
  obtain ⟨P', g', R', x', B', t₁, reaches', _, run', place, _, toLeaf', fromLeaf'⟩ :=
    (inv.later fromT).reaches_at leaf
  have fromT₁ := fromT.trans (toLeaf'.trans fromLeaf')
  obtain ⟨_, sub', reads', renamed⟩ := inv.evaluate_moved fromU fromT₁ reads
  have later := fromU.trans read
  obtain ⟨rfl, moved⟩ := inv.reaches_moved later fromT reaches reaches'
  have early := later.trans toLeaf
  have self := fun (ρ : Renaming) (fixes : ρ.Fixes _) =>
    inv.arrived_self early reads toLeaf reaches fixes
  obtain ⟨_, H, z, _, runs, _, _⟩ := Plan.runsAsNormalized _ _
    (Move.placed_nil (early.steady.mpr inv.steady) (.refl _) (.refl _))
    (fun ρ makes => (self ρ makes.fixes).1) (fun ρ makes => (self ρ makes.fixes).2) normalizes
  have placed := Move.placed_two (m := ⟨u, _, t₁⟩) (n := ⟨_, _, t⟩) inv.steady fromU read fromT₁
    later toLeaf fromT ⟨.inl (.refl _), .inr fromLeaf'⟩ ⟨toLeaf, .refl _⟩
    ⟨.refl _, fromLeaf'.trans (Supply.before_after _ _ _)⟩
  obtain ⟨_, H', runs', _⟩ := inv.subgoals_moved placed renamed
    (fun ρ fixes carries => (moved ρ fixes carries).2.1) runs
  refine ⟨k, rfl, P' ++ g' :: B', H', t₁, g', sub', _, _, run', ?_, reads', runs'⟩
  rw [← place, List.getElem?_append_right (Nat.le_refl _), Nat.sub_self]
  rfl

/-- Where a goal was advanced, the goals that its rule leaves open stand in its place. -/
theorem subgoals_of_advance (inv : Invariant env goal p s) (fromT : s.Before t)
    (fromU : s.Before u) (refines : env.Refines p goal k text t G H)
    (run : (env.advance p goal k text).runFrom u = (.ok q, v)) (fromV : v.Before w) :
    ∃ G' z, (q.subgoals goal).runFrom w = (.ok G', z) ∧ ∃ ρ : Renaming, ρ.Fixes s ∧
      List.Forall₂ ρ.TakesGoal (G.take k ++ H ++ G.drop (k + 1)) G' := by
  obtain ⟨k', id, N, a, same, leaf, ⟨reads, reaches, normalizes⟩, rfl, before⟩ :=
    inv.grafts_of_advance fromU run
  obtain rfl := Int.ofNat.inj same
  obtain ⟨read, toLeaf, normalized⟩ := inv.graft_before reads reaches normalizes
  obtain ⟨t₁, g, sub', t₂, t₃, runG, found, reads', runs⟩ := refines
  obtain ⟨P', g', R', x', B', y', reaches', rest', run', place, _, toLeaf', fromLeaf'⟩ :=
    (inv.later fromT).reaches_at leaf
  rw [runG] at run'
  cases run'
  obtain rfl := getElem?_reached place found
  -- What was read, what arrives at the leaf and what is left open there are renamed one by one; the
  -- four intervals in which they were drawn do not overlap, before or after.
  have fromT₁ := fromT.trans (toLeaf'.trans fromLeaf')
  obtain ⟨read', sub'', reads'', renamed⟩ := inv.evaluate_moved fromT₁ fromU reads'
  rw [reads] at reads''
  cases reads''
  have fromW := fromU.trans (read.trans (toLeaf.trans (normalized.trans (before.trans fromV))))
  have readW := toLeaf.trans (normalized.trans (before.trans fromV))
  obtain ⟨P, gW, R, xW, HW, y, B, z, reachesW, runsW, restW, runW, _⟩ :=
    inv.run_grafted fromU reads reaches normalizes readW
  obtain ⟨rfl, moved⟩ := inv.reaches_moved fromT fromW reaches' reachesW
  have placed := Move.placed_two (m := ⟨t₁, t₂, u⟩) (n := ⟨t, x', w⟩) inv.steady fromT₁ read' fromU
    fromT toLeaf' fromW ⟨.inr fromLeaf', .inl readW⟩ ⟨.refl _, fromLeaf'.trans read'⟩
    ⟨readW.trans (Supply.before_after _ _ _), .refl _⟩
  obtain ⟨ran, HW', runsW', taken⟩ := inv.subgoals_moved placed renamed
    (fun ρ fixes carries => (moved ρ fixes carries).2.1) runs
  rw [runsW] at runsW'
  cases runsW'
  have reachedW := Supply.before_after w t x'
  have ranW := Supply.before_after (w.after t x') t₂ t₃
  have arranged : Move.Arranged s [⟨x', t₁, (w.after t x').after t₂ t₃⟩,
      ⟨t₂, t₃, w.after t x'⟩, ⟨t₁, t₂, u⟩, ⟨t, x', w⟩] := by
    refine (placed.arranged_cons ran).cons (fromT.trans toLeaf') fromLeaf'
      (fromW.trans (reachedW.trans ranW)) ?_
    simp only [List.forall_mem_cons, List.not_mem_nil, false_imp_iff, implies_true, and_true]
    exact ⟨⟨.inl read', .inr (.refl _)⟩, ⟨.inl (.refl _), .inr (readW.trans (reachedW.trans ranW))⟩,
      ⟨.inr (.refl _), .inr ranW⟩⟩
  obtain ⟨ρ, makes⟩ := arranged.exists_makes
  obtain ⟨takenP, takenG, takenR⟩ := moved ρ makes.fixes makes.tail.tail.second
  obtain ⟨B'', takenB, restW'⟩ := (Plan.runAll_mirrors takenR).follows _ _ _ rest' _ makes.head
  rw [restW] at restW'
  cases restW'
  refine ⟨P ++ (HW ++ B), _, runW, ρ, makes.fixes, ?_⟩
  rw [← place, List.take_left, ← List.drop_drop, List.drop_left, List.append_assoc]
  exact List.rel_append takenP (List.rel_append (taken ρ makes.tail) takenB)

end Session.Invariant

/-- In every session the leaves of the plan are different. If rules and expansions are functions of
the goal, then the leaves stand for the goals that the plan leaves open, in order: a goal can be
advanced exactly when the text can be read and what it says can be run on that goal, and then the
goals that it leaves open stand in its place, up to the type variables that are drawn, with new
leaves for them, and all other leaves stay what they are. -/
theorem Session.open_goals {d : Declarations} (session : Session d env goal p s) :
    p.assumptions.Nodup ∧ (s.Steady →
      (∀ t, s.Before t → ∃ G u, (p.subgoals goal).runFrom t = (.ok G, u) ∧
        G.length = p.assumptions.length) ∧
      ∀ (index : Int) (text : String) (t u : Supply), s.Before t → s.Before u →
        ((∃ q v, (env.advance p goal index text).runFrom u = (.ok q, v)) ↔
          ∃ k : Nat, index = k ∧ ∃ G H, env.Refines p goal k text t G H) ∧
        ∀ (k : Nat) (G H : List Sequent) (q : Plan) (v : Supply), index = k →
          env.Refines p goal k text t G H →
          (env.advance p goal index text).runFrom u = (.ok q, v) →
          (∃ new, u.Fresh v new ∧ q.assumptions =
            p.assumptions.take k ++ (new ++ p.assumptions.drop (k + 1))) ∧
          ∀ w, v.Before w → ∃ G' z, (q.subgoals goal).runFrom w = (.ok G', z) ∧
            ∃ ρ : Renaming, ρ.Fixes s ∧
              List.Forall₂ ρ.TakesGoal (G.take k ++ H ++ G.drop (k + 1)) G') := by
  refine ⟨session.grounded.nodup, fun steady => ?_⟩
  have inv := session.invariant steady
  refine ⟨fun t later => ?_, fun index text t u fromT fromU => ⟨⟨?_, ?_⟩, ?_⟩⟩
  · obtain ⟨G, x, run, count, _⟩ := inv.runs_later later
    exact ⟨G, x, run, count⟩
  · rintro ⟨q, v, run⟩
    exact inv.refines_of_advance fromT fromU run
  · rintro ⟨k, rfl, G, H, refines⟩
    exact inv.advance_of_refines fromT fromU refines
  · rintro k G H q v rfl refines run
    refine ⟨?_, fun w fromV => inv.subgoals_of_advance fromT fromU refines run fromV⟩
    obtain ⟨k', id, N, x, same, leaf, grafts, rfl, before⟩ := inv.grafts_of_advance fromU run
    obtain rfl := Int.ofNat.inj same
    obtain ⟨_, _, _, _, _, _, _, _, _, _, split, _, _⟩ := inv.reaches_at leaf
    exact ⟨N.assumptions, (inv.grafts_fresh grafts).widen (.refl u) before,
      Plan.assumptions_replace_of_nodup N inv.nodup split⟩

/-- The rules of logic without any constants. -/
def bareLogic : Declarations := { theories := ["logic"] }

/-- A goal that asks for a proposition. -/
def bareGoal : Sequent := ⟨[], [.var ⟨"a", .bool⟩]⟩

/-- Load the rules and split the goal by a cut. -/
def cutSession : Build (Environment × Plan) := do
  let env ← bareLogic.load
  let p ← Environment.start
  return (env, ← env.advance p bareGoal 0 "cut(\x60b:bool\x60)")

/-- A cut leaves two goals open, and the session that made it is one of those spoken of. -/
theorem cutSession_session : ∃ env p s,
    cutSession.runFrom .orderly = (.ok (env, p), s) ∧ Session bareLogic env bareGoal p s ∧
      s.Steady ∧ p.assumptions = [2, 3] := by
  have done : ((cutSession.runFrom .orderly).1.toOption.map fun r => r.2.assumptions) =
      some [2, 3] := by
    decide +kernel
  obtain ⟨⟨env, q⟩, s, run, leaves⟩ := exists_of_map done
  obtain ⟨env', s₁, loaded, afterLoad⟩ := bind_ok run
  obtain ⟨p, s₂, started, afterStart⟩ := bind_ok afterLoad
  obtain ⟨q', s₃, advanced, finished⟩ := bind_ok afterStart
  cases finished
  have known : bareGoal.Known s₁ := by
    intro t member
    obtain rfl : t = .var ⟨"a", .bool⟩ := by simpa [bareGoal] using member
    refine ⟨Term.sound_var ⟨by decide, rfl⟩, ?_⟩
    simp [Term.atoms, Term.type, Ty.bool, Ty.vars]
  have session : Session bareLogic env bareGoal p s₂ := .start loaded (.refl s₁) known started
  have first := bareLogic.grows_load .orderly
  have last := session.grounded.advance_grows 0 "cut(\x60b:bool\x60)" s₂
  rw [loaded] at first
  rw [advanced] at last
  obtain ⟨_, rfl⟩ := start_ok started
  have before := first.trans ((Supply.before_assumptions s₁ 1).trans last)
  exact ⟨env, q, s, run, .advance session advanced, before.steady.mpr Supply.orderly_steady, leaves⟩

/-- After a cut the two leaves stand for the two goals that it leaves open. -/
theorem Session.open_goals_cut : ∃ env p s, Session bareLogic env bareGoal p s ∧ s.Steady ∧
    p.assumptions = [2, 3] ∧ p.assumptions.Nodup ∧
    ∃ G u, (p.subgoals bareGoal).runFrom s = (.ok G, u) ∧ G.length = 2 := by
  obtain ⟨env, p, s, _, session, steady, leaves⟩ := cutSession_session
  obtain ⟨nodup, stands⟩ := Session.open_goals session
  obtain ⟨G, u, run, count⟩ := (stands steady).1 s (.refl s)
  exact ⟨env, p, s, session, steady, leaves, nodup, G, u, run, by rw [count, leaves]; rfl⟩

/-! ## Where the order matters -/

/-- The rules of logic, and a name that stands for the identity. -/
def identityLogic : Declarations where
  theories := ["logic"]
  constants := ["=:?a->?a->bool"]
  operators := [⟨"=", 2, "left", 500⟩]
  definitions := ["n = (\\x:bool. x)"]

/-- A formula in which the defined name also names a bound variable, of another type. When the atom
that is defined is visited, the argument `v` is reduced away. If the bound variable is visited
first, then this comes too late, and the binder of the other `v` has been renamed. -/
def twofold : Term :=
  .app (.var ⟨"n", .arrow .bool .bool⟩)
    (.app (.var ⟨"p", .arrow (.arrow .obj (.arrow .obj .obj)) .bool⟩)
      (.app (.lam ⟨"y", .arrow .obj .obj⟩ (.lam ⟨"v", .obj⟩ (.var ⟨"y", .arrow .obj .obj⟩)))
        (.lam ⟨"n", .obj⟩ (.app (.lam ⟨"a", .obj⟩ (.var ⟨"c", .obj⟩)) (.var ⟨"v", .obj⟩)))))

/-- What it is unfolded to if no binder is renamed. -/
def unfolded : Term :=
  .app (.var ⟨"p", .arrow (.arrow .obj (.arrow .obj .obj)) .bool⟩)
    (.lam ⟨"v", .obj⟩ (.lam ⟨"n", .obj⟩ (.var ⟨"c", .obj⟩)))

/-- The one follows from the other. -/
def twofoldGoal : Sequent := ⟨[twofold], [unfolded]⟩

/-- The goal mentions no type variables. -/
theorem twofoldGoal_known (s : Supply) : twofoldGoal.Known s := by
  intro t member
  obtain rfl | rfl : t = twofold ∨ t = unfolded := by simpa [twofoldGoal] using member
  all_goals
    refine ⟨⟨⟨⟨?_, ?_⟩, ?_⟩, ?_⟩, ?_⟩
    · simp +contextual [twofold, unfolded, Term.WellTyped, Term.type, Term.free, Ty.resultType,
        or_imp]
    · simp [twofold, unfolded, Uniform, Term.free, Symbol.varKey]
    · simp [twofold, unfolded, Term.Plain, Ty.Plain, Ty.plain_obj, Ty.plain_bool]
    · simp only [twofold, unfolded, Term.Labelled]
      decide
    · simp [twofold, unfolded, Term.atoms, Term.type, Ty.obj, Ty.bool, Ty.vars]

/-- The name is unfolded, and then the two sides are compared. -/
def unfoldText : String := "sequence(left_expand(\"n\"), axiom())"

/-- A supply that chooses another order after the first time. -/
def Supply.wavering : Supply := { Supply.initial with choices := fun time _ _ => time / 2 }

/-- Load the rules, advance the goal, and run the plan once more. -/
def unfoldTwice : Build (Environment × Plan × Except Failure (List Sequent)) := do
  let env ← identityLogic.load
  let p ← Environment.start
  let q ← env.advance p twofoldGoal 0 unfoldText
  return (env, q, ← (q.subgoals twofoldGoal).attempt)

/-- Where the order changes from one time to the next, the plan of a session may fail when it is run
again. -/
theorem Session.open_goals_wavering : ∃ env p s, Session identityLogic env twofoldGoal p s ∧
    ∃ failure u, (p.subgoals twofoldGoal).runFrom s = (.error failure, u) := by
  have done : ((unfoldTwice.runFrom .wavering).1.toOption.map fun r => r.2.2.isOk) =
      some false := by
    decide +kernel
  obtain ⟨⟨env, q, again⟩, u, run, fails⟩ := exists_of_map done
  obtain ⟨env, s₁, loaded, afterLoad⟩ := bind_ok run
  obtain ⟨p, s₂, started, afterStart⟩ := bind_ok afterLoad
  obtain ⟨q, s, advanced, afterAdvance⟩ := bind_ok afterStart
  obtain ⟨again', u', ran, finished⟩ := bind_ok afterAdvance
  cases finished
  have begun : Session identityLogic env twofoldGoal p s₂ :=
    .start loaded (.refl s₁) (twofoldGoal_known s₁) started
  refine ⟨env, q, s, .advance begun advanced, ?_⟩
  cases again with
  | error failure => exact ⟨failure, u, attempt_ok ran⟩
  | ok G => cases fails

end Turnstile
