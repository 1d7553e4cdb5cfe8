import Turnstile.Proofs.Refinement

/-!
# Advancing two goals

The branches of a plan do not know of each other. Of two open goals either can be advanced first:
both orders succeed or fail together, and the plans that they end with differ in the numbers of new
leaves and in the names of new type variables only. The whole plan is run again each time, so the
same things are drawn in another order; a renaming takes what one order draws to what the other one
draws. Where the plan does something else when it is run again, because names are unfolded in other
orders, one order may fail and the other not.
-/

namespace Turnstile

open Build Renaming

variable {ρ : Renaming} {env : Environment} {s t u v w x y u' y' : Supply} {goal g g' : Sequent}
  {p q first sub sub' N N' : Plan} {text : String} {id id' : Nat} {R R' : List Plan.Task}
  {H : List Sequent}

/-- A text is read and a leaf is reached: the plan that was read, the goal that arrives at the leaf,
and what is still to be run from there. -/
def Comes (env : Environment) (p : Plan) (goal : Sequent) (id : Nat) (text : String) (u : Supply)
    (sub : Plan) (g : Sequent) (R : List Plan.Task) (x : Supply) : Prop :=
  ∃ t P, (env.evaluate text).runFrom u = (.ok sub, t) ∧
    Plan.Reaches id [(p, goal)] t P g R x ∧ u.Before t ∧ t.Before x

/-- From where plans are still to be run, one of their leaves is reached and a plan is normalized
there. -/
def Goes (id : Nat) (sub : Plan) (R : List Plan.Task) (y : Supply) (N : Plan) (v : Supply) : Prop :=
  ∃ P g R' x, Plan.Reaches id R y P g R' x ∧ (sub.normalize g).runFrom x = (.ok N, v) ∧
    y.Before x ∧ x.Before v

/-- A text is read as one plan, and one goal arrives at a leaf. -/
theorem Comes.unique (nodup : p.assumptions.Nodup) {x' : Supply}
    (comes : Comes env p goal id text u sub g R x)
    (comes' : Comes env p goal id text u sub' g' R' x') :
    sub' = sub ∧ g' = g ∧ R' = R ∧ x' = x := by
  obtain ⟨t, P, reads, reaches, _⟩ := comes
  obtain ⟨t', P', reads', reaches', _⟩ := comes'
  rw [reads] at reads'
  cases reads'
  obtain ⟨_, rfl, rfl, rfl⟩ := reaches.unique reaches' (by simpa using nodup)
  exact ⟨rfl, rfl, rfl, rfl⟩

/-- Reading and reaching draw on what the supply had left. -/
theorem Comes.before (comes : Comes env p goal id text u sub g R x) : u.Before x := by
  obtain ⟨_, _, _, _, read, reached⟩ := comes
  exact read.trans reached

/-- One plan is normalized at a leaf. -/
theorem Goes.unique (nodup : (Plan.leaves R).Nodup) {v' : Supply} (goes : Goes id sub R y N v)
    (goes' : Goes id sub R y N' v') : N' = N ∧ v' = v := by
  obtain ⟨P, g, S, x, reaches, normalizes, _⟩ := goes
  obtain ⟨P', g', S', x', reaches', normalizes', _⟩ := goes'
  obtain ⟨rfl, rfl, rfl, rfl⟩ := reaches.unique reaches' nodup
  rw [normalizes] at normalizes'
  cases normalizes'
  exact ⟨rfl, rfl⟩

/-- Reaching and normalizing draw on what the supply had left. -/
theorem Goes.before (goes : Goes id sub R y N v) : y.Before v := by
  obtain ⟨_, _, _, _, _, _, reached, normalized⟩ := goes
  exact reached.trans normalized

/-- Elsewhere, the renamed plan is normalized. -/
theorem Goes.mirrors (goes : Goes id sub R y N v) (fixed : env.FixedBy ρ)
    (renamed : Plan.Renamed env ρ sub sub') (takes : List.Forall₂ ρ.TakesTask R R')
    (carries : ρ.Carries y v y') :
    ∃ N', Goes id sub' R' y' N' (y'.after y v) ∧ Plan.Renamed env ρ N N' := by
  obtain ⟨P, g, S, x, reaches, normalizes, reached, normalized⟩ := goes
  obtain ⟨P', g', S', reaches', _, takesG, _⟩ :=
    (reaches.mirrors takes).2 (carries.first normalized)
  obtain ⟨N', renamedN, normalizes'⟩ :=
    (renamed.normalize fixed takesG).follows _ _ _ normalizes _ (carries.second reached)
  have normalized' := Supply.before_after (y'.after y x) x v
  rw [Supply.after_after reached normalized] at normalizes' normalized'
  exact ⟨N', ⟨P', g', S', _, reaches', normalizes', Supply.before_after _ _ _, normalized'⟩,
    renamedN⟩

namespace Session.Invariant

/-- Elsewhere, the renamed plan is read and the renamed goal arrives. -/
theorem comes (inv : Invariant env goal p s) (comes : Comes env p goal id text u sub g R x)
    (fixes : ρ.Fixes s) (carries : ρ.Carries u x u') :
    ∃ sub' g' R', Comes env p goal id text u' sub' g' R' (u'.after u x) ∧
      Plan.Renamed env ρ sub sub' ∧ ρ.TakesGoal g g' ∧ List.Forall₂ ρ.TakesTask R R' := by
  obtain ⟨t, P, reads, reaches, read, reached⟩ := comes
  obtain ⟨sub', renamed, reads'⟩ :=
    ((inv.fixed ρ fixes).evaluate text).follows _ _ _ reads u' (carries.first reached)
  obtain ⟨P', g', R', reaches', _, takes, taken⟩ :=
    (reaches.mirrors (inv.task fixes)).2 (carries.second read)
  have reached' := Supply.before_after (u'.after u t) t x
  rw [Supply.after_after read reached] at reaches' reached'
  exact ⟨sub', g', R', ⟨_, P', reads', reaches', Supply.before_after _ _ _, reached'⟩, renamed,
    takes, taken⟩

/-- What is put in the place of a later leaf comes through the plan that stands at the earlier
one. -/
theorem grafts_through (inv : Invariant env goal p s)
    (comes : Comes env p goal id text u sub g R x)
    (runs : (first.subgoals g).runFrom x = (.ok H, y))
    (goes : Goes id' sub R y N v) :
    Grafts env (Plan.replace id first p) goal id' text u N v := by
  obtain ⟨t, P, reads, reaches, _⟩ := comes
  obtain ⟨P', g', S, z, reaches', normalizes, _⟩ := goes
  exact .mk reads (reaches.through inv.nodup_leaves runs reaches') normalizes

/-- Where a plan was put in the place of a leaf, it is run on the goal that arrives there. -/
theorem runs_first (inv : Invariant env goal p s) (inv' : Invariant env goal q u)
    (is : q = Plan.replace id first p) (drawn : Plan.Renamed env .id first first)
    (comes : Comes env p goal id text u sub g R x) :
    ∃ H y, (first.subgoals g).runFrom x = (.ok H, y) ∧ x.Before y ∧
      ∃ B z, (Plan.runAll R).runFrom y = (.ok B, z) := by
  obtain ⟨t, P, reads, reaches, read, _⟩ := comes
  have takes := (reaches.takes_self inv.nodup_leaves (inv.task (id_fixes s)) (id_fixes x)).1
  have grows := (drawn.mirrors (inv.fixed .id (id_fixes s))).subgoals first takes
  obtain ⟨G, z, run, _, _⟩ := inv'.runs_later read
  rw [is] at run
  obtain ⟨H, y, B, runs, rest, _⟩ := (reaches.run_ok inv.nodup_leaves).mp (subgoals_ok.mp run)
  exact ⟨H, y, runs, grows.before runs, B, z, rest⟩

/-- What is put in the place of a later leaf, where a plan was put in that of an earlier one. -/
theorem through_of_grafts (inv : Invariant env goal p s) (fromS : s.Before u)
    (inv' : Invariant env goal q u) (is : q = Plan.replace id first p)
    (drawn : Plan.Renamed env .id first first) (member : id ∈ p.assumptions)
    (later : ∀ {t P g R x}, Plan.Reaches id [(p, goal)] t P g R x → id' ∈ Plan.leaves R)
    (grafts : Grafts env q goal id' text u N v) :
    ∃ sub g R x H y, Comes env p goal id text u sub g R x ∧
      (first.subgoals g).runFrom x = (.ok H, y) ∧ x.Before y ∧ Goes id' sub R y N v := by
  obtain ⟨reads, reaches, normalizes⟩ := grafts
  obtain ⟨read, _, normalized⟩ := inv'.graft_before reads reaches normalizes
  obtain ⟨P, g, R, x, _, _, reachesP, _, _, _, _, reached, _⟩ :=
    (inv.later (fromS.trans read)).reaches member
  have comes : Comes env p goal id text u _ g R x := ⟨_, P, reads, reachesP, read, reached⟩
  obtain ⟨H, y, runs, before, B, z, rest⟩ := inv.runs_first inv' is drawn comes
  obtain ⟨P', g', S, b, _, reaches', _, _⟩ := Plan.exists_reaches rest (later reachesP)
  have whole := reachesP.through inv.nodup_leaves runs reaches'
  have takes := (reachesP.takes_self inv.nodup_leaves (inv.task (id_fixes s)) (id_fixes x)).2
  have reached' := (reaches'.mirrors takes).1
  subst is
  obtain ⟨_, rfl, rfl, rfl⟩ := reaches.unique whole inv'.nodup_leaves
  exact ⟨_, g, R, x, H, y, comes, runs, before, P', _, _, _, reaches', normalizes, reached',
    normalized⟩

/-- What is put in the place of an earlier leaf does not depend on what stands at a later one. -/
theorem grafts_before_iff (inv : Invariant env goal p s) (fromS : s.Before u)
    (inv' : Invariant env goal q u) (is : q = Plan.replace id' first p)
    (member : id ∈ p.assumptions) (later : ∀ {t P g R x}, Plan.Reaches id [(p, goal)] t P g R x →
      id' ∈ Plan.leaves R) :
    Grafts env q goal id text u N v ↔ Grafts env p goal id text u N v := by
  constructor
  · rintro ⟨reads, reaches, normalizes⟩
    obtain ⟨read, _, _⟩ := inv'.graft_before reads reaches normalizes
    obtain ⟨P, g, R, x, _, _, reachesP, _⟩ := (inv.later (fromS.trans read)).reaches member
    subst is
    obtain ⟨rfl, rfl, _, rfl⟩ := reaches.unique
      (reachesP.before inv.nodup_leaves (later reachesP)) inv'.nodup_leaves
    exact .mk reads reachesP normalizes
  · rintro ⟨reads, reaches, normalizes⟩
    subst is
    exact .mk reads (reaches.before inv.nodup_leaves (later reaches)) normalizes

/-- A plan that was put in the place of a leaf mentions only what was drawn by then. -/
theorem grafts_self (inv : Invariant env goal p s) (fromS : s.Before u)
    (grafts : Grafts env p goal id text u N v) (fixes : ρ.Fixes v) : Plan.Renamed env ρ N N := by
  obtain ⟨before, moved⟩ := inv.grafts grafts
  obtain ⟨N', grafts', renamed⟩ :=
    moved ρ (fixes.of_before (fromS.trans before)) u (fixes.carries before)
  obtain ⟨rfl, _⟩ := grafts.unique inv.nodup grafts'
  exact renamed

/-- A leaf that has a later place is still to be run when an earlier one is reached. -/
theorem mem_pending (inv : Invariant env goal p s) {i j : Nat} (ordered : i < j)
    (found : p.assumptions[i]? = some id) (found' : p.assumptions[j]? = some id') {P : List Sequent}
    (reaches : Plan.Reaches id [(p, goal)] t P g R x) : id' ∈ Plan.leaves R := by
  obtain ⟨before, same, _⟩ := reaches.leaves
  rw [Plan.leaves_cons, Plan.leaves_nil, List.append_nil] at same
  obtain ⟨inside, is⟩ := List.getElem?_eq_some_iff.mp found
  have place : before.length = i := by
    have inside' : before.length < p.assumptions.length := by simp [same]
    refine (inv.nodup.getElem_inj_iff).mp (?_ : p.assumptions[before.length] = p.assumptions[i])
    rw [is]
    simp [same]
  rw [same, List.getElem?_append_right (by omega)] at found'
  obtain ⟨k, after⟩ : ∃ k, j - before.length = k + 1 := ⟨j - before.length - 1, by omega⟩
  rw [after, List.getElem?_cons_succ] at found'
  exact List.mem_of_getElem? found'

/-- The leaves that are still to be run are different. -/
theorem nodup_pending (inv : Invariant env goal p s) {P : List Sequent}
    (reaches : Plan.Reaches id [(p, goal)] t P g R x) : (Plan.leaves R).Nodup := by
  obtain ⟨before, same, _⟩ := reaches.leaves
  have nodup := inv.nodup_leaves
  rw [same] at nodup
  exact (List.nodup_cons.mp (List.nodup_append.mp nodup).2.1).2

/-- What a run comes by does not depend on where it starts, up to what it draws. -/
theorem comes_moved (inv : Invariant env goal p s) (fromU : s.Before u) (fromU' : s.Before u')
    (comes : Comes env p goal id text u sub g R x) :
    ∃ sub' g' R', Comes env p goal id text u' sub' g' R' (u'.after u x) := by
  obtain ⟨σ, makes⟩ :=
    ((Move.placed_nil inv.steady fromU fromU').arranged_cons comes.before).exists_makes
  obtain ⟨sub', g', R', comes', _⟩ := inv.comes comes makes.fixes makes.head
  exact ⟨sub', g', R', comes'⟩

/-- What is put in the place of a later leaf does not depend on where a run starts, nor on what is
drawn between the earlier leaf and what comes after it, up to what is drawn. -/
theorem goes_moved (inv : Invariant env goal p s) (fromU : s.Before u) (fromU' : s.Before u')
    {x' : Supply} (comes : Comes env p goal id text u sub g R x)
    (comes' : Comes env p goal id text u' sub' g' R' x') (after : x.Before y)
    (after' : x'.Before y') (goes : Goes id' sub R y N v) :
    x' = u'.after u x ∧ ∃ N', Goes id' sub' R' y' N' (y'.after y v) ∧
      ∀ ρ : Renaming, ρ.Fixes s → ρ.Carries u x u' → ρ.Carries y v y' →
        Plan.Renamed env ρ N N' := by
  have moved : ∀ ρ : Renaming, ρ.Fixes s → ρ.Carries u x u' → x' = u'.after u x ∧
      (ρ.Carries y v y' → ∃ N', Goes id' sub' R' y' N' (y'.after y v) ∧
        Plan.Renamed env ρ N N') := by
    intro ρ fixes carries
    obtain ⟨_, _, _, comes'', renamed, _, takes⟩ := inv.comes comes fixes carries
    obtain ⟨rfl, rfl, rfl, rfl⟩ := comes'.unique inv.nodup comes''
    exact ⟨rfl, fun carries' => goes.mirrors (inv.fixed ρ fixes) renamed takes carries'⟩
  have base := (Move.placed_nil inv.steady fromU fromU').cons comes.before
  obtain ⟨σ, makes⟩ := base.arranged.exists_makes
  obtain rfl := (moved σ makes.fixes makes.head).1
  obtain ⟨σ, makes⟩ := ((base.later after after').arranged_cons goes.before).exists_makes
  obtain ⟨_, N', goes', _⟩ := (moved σ makes.fixes makes.second).imp_right (· makes.head)
  refine ⟨rfl, N', goes', fun ρ fixes carries carries' => ?_⟩
  obtain ⟨N'', goes'', renamed⟩ := (moved ρ fixes carries).2 carries'
  obtain ⟨_, _, _, reached, _⟩ := comes'
  obtain ⟨rfl, _⟩ := goes''.unique (inv.nodup_pending reached) goes'
  exact renamed

/-- A plan that is put in the place of a leaf is put there wherever a run starts. -/
theorem grafts_moved (inv : Invariant env goal p s) (fromU : s.Before u) (fromU' : s.Before u')
    (grafts : Grafts env p goal id text u N v) :
    ∃ N', Grafts env p goal id text u' N' (u'.after u v) ∧
      ∀ ρ : Renaming, ρ.Fixes s → ρ.Carries u v u' → Plan.Renamed env ρ N N' := by
  obtain ⟨before, moved⟩ := inv.grafts grafts
  obtain ⟨σ, makes⟩ := ((Move.placed_nil inv.steady fromU fromU').arranged_cons before).exists_makes
  obtain ⟨N', grafts', _⟩ := moved σ makes.fixes u' makes.head
  refine ⟨N', grafts', fun ρ fixes carries => ?_⟩
  obtain ⟨N'', grafts'', renamed⟩ := moved ρ fixes u' carries
  obtain ⟨rfl, _⟩ := grafts''.unique inv.nodup grafts'
  exact renamed

end Session.Invariant

/-! ## Both orders -/

/-- How many goals an open goal left in its place when it was advanced. -/
def Plan.made (p q : Plan) : Int := q.assumptions.length + 1 - p.assumptions.length

namespace Environment

/-- Advance the goal at place `i`, and then the one that was at the later place `j`. -/
def advanceLeftFirst (env : Environment) (p : Plan) (goal : Sequent) (i j : Nat)
    (left right : String) : Build Plan := do
  let q ← env.advance p goal i left
  env.advance q goal (j + p.made q - 1) right

/-- Advance the goal at the later place `j`, and then the one at place `i`. -/
def advanceRightFirst (env : Environment) (p : Plan) (goal : Sequent) (i j : Nat)
    (left right : String) : Build Plan := do
  let q ← env.advance p goal j right
  env.advance q goal i left

end Environment

variable {i j : Nat} {left right : String}

namespace Session.Invariant

/-- Putting leaves in the place of an earlier one shifts the place of a later one. -/
theorem place_of_later (inv : Invariant env goal p s) (ordered : i < j)
    (found : p.assumptions[i]? = some id) (found' : p.assumptions[j]? = some id') :
    ∃ k : Nat, (j : Int) + p.made (Plan.replace id N p) - 1 = k ∧
      (Plan.replace id N p).assumptions[k]? = some id' := by
  obtain ⟨_, _, _, _, _, _, _, _, _, _, same, _, _⟩ := inv.reaches_at found
  obtain ⟨inside, _⟩ := List.getElem?_eq_some_iff.mp found'
  have leaves := Plan.assumptions_replace_of_nodup N inv.nodup same
  refine ⟨j - 1 + N.assumptions.length, ?_, ?_⟩
  · simp only [Plan.made, leaves, List.length_append, List.length_take, List.length_drop]
    omega
  · have before : (p.assumptions.take i).length = i := by
      rw [List.length_take]
      omega
    rw [leaves, List.getElem?_append_right (by omega), List.getElem?_append_right (by omega),
      before, List.getElem?_drop, ← found']
    congr 1
    omega

/-- Putting leaves in the place of a later one leaves the place of an earlier one. -/
theorem place_of_earlier (inv : Invariant env goal p s) (ordered : i < j)
    (found : p.assumptions[i]? = some id) (found' : p.assumptions[j]? = some id') :
    (Plan.replace id' N p).assumptions[i]? = some id := by
  obtain ⟨_, _, _, _, _, _, _, _, _, _, same, _, _⟩ := inv.reaches_at found'
  obtain ⟨inside, _⟩ := List.getElem?_eq_some_iff.mp found'
  have before : i < (p.assumptions.take j).length := by
    rw [List.length_take]
    omega
  rw [Plan.assumptions_replace_of_nodup N inv.nodup same, List.getElem?_append_left before,
    List.getElem?_take_of_lt ordered, found]

/-- What has been done when both goals were advanced, the left one first. -/
theorem leftFirst_parts (inv : Invariant env goal p s) (fromU : s.Before u) (ordered : i < j)
    (found : p.assumptions[i]? = some id) (found' : p.assumptions[j]? = some id')
    (run : (env.advanceLeftFirst p goal i j left right).runFrom u = (.ok q, v)) :
    ∃ N x w sub g R y z N' e, Grafts env p goal id left u N x ∧ x.Before w ∧
      Comes env p goal id right w sub g R y ∧ y.Before z ∧ Goes id' sub R z N' e ∧ e.Before v ∧
      q = Plan.replace id' N' (Plan.replace id N p) ∧ Invariant env goal q v := by
  obtain ⟨q₁, w, first, second⟩ := bind_ok run
  obtain ⟨k, id₁, N, x, same, leaf, grafts, rfl, before⟩ := inv.grafts_of_advance fromU first
  obtain rfl := Int.ofNat.inj same
  rw [found] at leaf
  cases leaf
  have fromW := fromU.trans ((inv.grafts grafts).1.trans before)
  have inv₁ := inv.advance fromU first
  obtain ⟨k', id₂, N', e, same', leaf', grafts', rfl, before'⟩ :=
    inv₁.grafts_of_advance (.refl w) second
  obtain ⟨k'', shift, place⟩ := inv.place_of_later (N := N) ordered found found'
  obtain rfl := Int.ofNat.inj (same'.symm.trans shift)
  rw [place] at leaf'
  cases leaf'
  obtain ⟨sub, g, R, y, H, z, comes, _, ran, goes⟩ := inv.through_of_grafts fromW inv₁ rfl
    (inv.grafts_self fromU grafts (id_fixes x)) (List.mem_of_getElem? found)
    (inv.mem_pending ordered found found') grafts'
  exact ⟨N, x, w, sub, g, R, y, z, N', e, grafts, before, comes, ran, goes, before', rfl,
    inv₁.advance (.refl w) second⟩

/-- What has been done when both goals were advanced, the right one first. -/
theorem rightFirst_parts (inv : Invariant env goal p s) (fromU : s.Before u) (ordered : i < j)
    (found : p.assumptions[i]? = some id) (found' : p.assumptions[j]? = some id')
    (run : (env.advanceRightFirst p goal i j left right).runFrom u = (.ok q, v)) :
    ∃ sub g R y N' e w N x, Comes env p goal id right u sub g R y ∧ Goes id' sub R y N' e ∧
      Grafts env p goal id' right u N' e ∧ e.Before w ∧ Grafts env p goal id left w N x ∧
      x.Before v ∧ q = Plan.replace id N (Plan.replace id' N' p) := by
  obtain ⟨q₁, w, first, second⟩ := bind_ok run
  obtain ⟨k, id₁, N', e, same, leaf, grafts', rfl, before⟩ := inv.grafts_of_advance fromU first
  obtain rfl := Int.ofNat.inj same
  rw [found'] at leaf
  cases leaf
  have fromW := fromU.trans ((inv.grafts grafts').1.trans before)
  have inv₁ := inv.advance fromU first
  obtain ⟨k', id₂, N, x, same', leaf', grafts, rfl, before'⟩ :=
    inv₁.grafts_of_advance (.refl w) second
  obtain rfl := Int.ofNat.inj same'
  rw [inv.place_of_earlier ordered found found'] at leaf'
  cases leaf'
  have stays : p = Plan.replace id (.assumption id) p := Plan.replace_self.symm
  obtain ⟨sub, g, R, y, H, z, comes, ran, _, goes⟩ := inv.through_of_grafts fromU
    (inv.later fromU) stays (.assumption id) (List.mem_of_getElem? found)
    (inv.mem_pending ordered found found') grafts'
  obtain ⟨_, rfl⟩ := Plan.subgoals_assumption_ok.mp ran
  have grafts := (inv.grafts_before_iff fromW inv₁ rfl (List.mem_of_getElem? found)
    (inv.mem_pending ordered found found')).mp grafts
  exact ⟨sub, g, R, z, N', e, w, N, x, comes, goes, grafts', before, grafts, before', rfl⟩

/-- If two goals can be advanced, the left one first, then they can be advanced in the other
order. -/
theorem rightFirst_of_leftFirst (inv : Invariant env goal p s) (fromU : s.Before u)
    (fromU' : s.Before u') (ordered : i < j) (found : p.assumptions[i]? = some id)
    (found' : p.assumptions[j]? = some id')
    (run : (env.advanceLeftFirst p goal i j left right).runFrom u = (.ok q, v)) :
    ∃ q' v', (env.advanceRightFirst p goal i j left right).runFrom u' = (.ok q', v') := by
  obtain ⟨N, x, w, sub, g, R, y, z, N', e, grafts, before, comes, ran, goes, _⟩ :=
    inv.leftFirst_parts fromU ordered found found' run
  have fromW := fromU.trans ((inv.grafts grafts).1.trans before)
  obtain ⟨sub', g', R', comes'⟩ := inv.comes_moved fromW fromU' comes
  obtain ⟨_, M', goes', _⟩ := inv.goes_moved fromW fromU' comes comes' ran (.refl _) goes
  have stays : ((Plan.assumption id).subgoals g').runFrom (u'.after w y) = (.ok [g'], _) :=
    Plan.subgoals_assumption_ok.mpr ⟨rfl, rfl⟩
  have grafts' := inv.grafts_through comes' stays goes'
  rw [Plan.replace_self] at grafts'
  obtain ⟨w', first, before'⟩ := inv.advance_of_grafts fromU' found' grafts'
  have fromW' := fromU'.trans ((inv.grafts grafts').1.trans before')
  have inv₁ := inv.advance fromU' first
  obtain ⟨M, graftsM, _⟩ := inv.grafts_moved fromU fromW' grafts
  have graftsM := (inv.grafts_before_iff fromW' inv₁ rfl (List.mem_of_getElem? found)
    (inv.mem_pending ordered found found')).mpr graftsM
  obtain ⟨v', second, _⟩ := inv₁.advance_of_grafts (.refl w')
    (inv.place_of_earlier ordered found found') graftsM
  exact ⟨_, v', by rw [Environment.advanceRightFirst, runFrom_bind, first]; exact second⟩

/-- If two goals can be advanced, the right one first, then they can be advanced in the other
order. -/
theorem leftFirst_of_rightFirst (inv : Invariant env goal p s) (fromU : s.Before u)
    (fromU' : s.Before u') (ordered : i < j) (found : p.assumptions[i]? = some id)
    (found' : p.assumptions[j]? = some id')
    (run : (env.advanceRightFirst p goal i j left right).runFrom u' = (.ok q, v)) :
    ∃ q' v', (env.advanceLeftFirst p goal i j left right).runFrom u = (.ok q', v') := by
  obtain ⟨sub', g', R', y', N', e', w', N, x', comes', goes', _, before', grafts, _⟩ :=
    inv.rightFirst_parts fromU' ordered found found' run
  have fromW' := fromU'.trans (comes'.before.trans (goes'.before.trans before'))
  obtain ⟨M, graftsM, _⟩ := inv.grafts_moved fromW' fromU grafts
  obtain ⟨w, first, before⟩ := inv.advance_of_grafts fromU found graftsM
  have fromW := fromU.trans ((inv.grafts graftsM).1.trans before)
  have inv₁ := inv.advance fromU first
  obtain ⟨sub, g, R, comes⟩ := inv.comes_moved fromU' fromW comes'
  obtain ⟨H, z, runs, ran, _⟩ := (inv.later fromW).runs_first inv₁ rfl
    (inv.grafts_self fromU graftsM (id_fixes _)) comes
  obtain ⟨_, M', goes, _⟩ := inv.goes_moved fromU' fromW comes' comes (.refl y') ran goes'
  obtain ⟨k, shift, place⟩ := inv.place_of_later (N := M) ordered found found'
  obtain ⟨v', second, _⟩ := inv₁.advance_of_grafts (.refl w) place
    (inv.grafts_through comes runs goes)
  rw [← shift] at second
  exact ⟨_, v', by rw [Environment.advanceLeftFirst, runFrom_bind, first]; exact second⟩

/-- The plans that two orders put in the places of two leaves are put there in both orders. -/
theorem renamed_both (inv : Invariant env goal p s) (fixes : ρ.Fixes s) {M M' : Plan}
    (renamed : Plan.Renamed env ρ N M) (renamed' : Plan.Renamed env ρ N' M') (ordered : i < j)
    (found : p.assumptions[i]? = some id) (found' : p.assumptions[j]? = some id')
    (born : s.Fresh x M.assumptions) (born' : s.Fresh y M'.assumptions) :
    Plan.Renamed env ρ (Plan.replace id' N' (Plan.replace id N p))
      (Plan.replace id M (Plan.replace id' M' p)) := by
  have fixed := inv.fixed ρ fixes
  have old := inv.old id (List.mem_of_getElem? found)
  have old' := inv.old id' (List.mem_of_getElem? found')
  have inner := Plan.Renamed.replace fixed renamed id (inv.drawn ρ fixes)
  have outer := Plan.Renamed.replace fixed renamed' id' inner
  rw [fixes.assumptions id old, fixes.assumptions id' old'] at outer
  have different : id ≠ id' := by
    rintro rfl
    obtain ⟨inside, is⟩ := List.getElem?_eq_some_iff.mp found
    obtain ⟨inside', is'⟩ := List.getElem?_eq_some_iff.mp found'
    have same := inv.nodup.getElem_inj_iff.mp (is.trans is'.symm)
    omega
  have absent : id' ∉ M.assumptions := fun inside =>
    Nat.not_lt_of_le old' (born.after id' inside)
  have absent' : id ∉ M'.assumptions := fun inside => Nat.not_lt_of_le old (born'.after id inside)
  rwa [Plan.replace_comm different absent absent'] at outer

/-- Whatever the order in which two goals were advanced, the plans are the same up to what was drawn
for them, and so are the goals that they leave open. -/
theorem agree_of_orders (inv : Invariant env goal p s) (fromU : s.Before u) (fromU' : s.Before u')
    (ordered : i < j) (found : p.assumptions[i]? = some id)
    (found' : p.assumptions[j]? = some id') {q' : Plan} {v' w' : Supply}
    (run : (env.advanceLeftFirst p goal i j left right).runFrom u = (.ok q, v))
    (run' : (env.advanceRightFirst p goal i j left right).runFrom u' = (.ok q', v'))
    (after : v.Before w) (after' : v'.Before w') :
    ∃ G x G' x', (q.subgoals goal).runFrom w = (.ok G, x) ∧
      (q'.subgoals goal).runFrom w' = (.ok G', x') ∧ ∃ ρ : Renaming, ρ.Fixes s ∧
        Plan.Renamed env ρ q q' ∧ List.Forall₂ ρ.TakesGoal G G' := by
  obtain ⟨N, x, w₁, sub, g, R, y, z, N', e, grafts, before, comes, ran, goes, ended, rfl, invQ⟩ :=
    inv.leftFirst_parts fromU ordered found found' run
  obtain ⟨sub', g', R', y', M', e', w₂, M, x', comes', goes', graftsM', before', graftsM, ended',
    rfl⟩ := inv.rightFirst_parts fromU' ordered found found' run'
  have started := (inv.grafts grafts).1
  have started' := (inv.grafts graftsM).1
  have fromW₁ := fromU.trans (started.trans before)
  have fromW₂ := fromU'.trans (comes'.before.trans (goes'.before.trans before'))
  have bornM := inv.grafts_fresh graftsM
  have bornM' := inv.grafts_fresh graftsM'
  -- What the two orders draw is renamed piece by piece.
  obtain ⟨rfl, _, goes'', renamed'⟩ := inv.goes_moved fromW₁ fromU' comes comes' ran (.refl _) goes
  obtain ⟨_, _, _, reached', _⟩ := comes'
  obtain ⟨rfl, rfl⟩ := goes''.unique (inv.nodup_pending reached') goes'
  obtain ⟨_, graftsM'', renamed⟩ := inv.grafts_moved fromU fromW₂ grafts
  obtain ⟨rfl, rfl⟩ := graftsM''.unique inv.nodup graftsM
  have reached : Move.Placed s [⟨w₁, y, u'⟩] y (u'.after w₁ y) :=
    (Move.placed_nil inv.steady fromW₁ fromU').cons comes.before
  have gone : Move.Placed s [⟨z, e, u'.after w₁ y⟩, ⟨w₁, y, u'⟩] w w₂ :=
    ((reached.later ran (.refl _)).cons goes.before).later (ended.trans after) before'
  have toGoes := before.trans (comes.before.trans ran)
  have placed : Move.Placed s [⟨u, x, w₂⟩, ⟨z, e, u'.after w₁ y⟩, ⟨w₁, y, u'⟩] w w' :=
    gone.first fromU started (toGoes.trans (goes.before.trans (ended.trans after)))
      (ended'.trans after') (by simpa using ⟨toGoes, before⟩)
  -- The renamed pieces stand at the same places.
  have plans : ∀ ρ : Renaming, ρ.Makes s [⟨u, x, w₂⟩, ⟨z, e, u'.after w₁ y⟩, ⟨w₁, y, u'⟩] →
      Plan.Renamed env ρ (Plan.replace id' N' (Plan.replace id N p))
        (Plan.replace id M (Plan.replace id' M' p)) := fun ρ makes =>
    inv.renamed_both makes.fixes (renamed ρ makes.fixes makes.head)
      (renamed' ρ makes.fixes makes.tail.second makes.second) ordered found found'
      (bornM.widen fromW₂ (.refl _)) (bornM'.widen fromU' (.refl _))
  obtain ⟨G, t, run, _, ran⟩ := invQ.runs_later after
  obtain ⟨_, G', run', taken⟩ := follows_move placed (fun ρ makes =>
    ((plans ρ makes).mirrors (inv.fixed ρ makes.fixes)).subgoals _ (inv.known ρ makes.fixes)) run
  obtain ⟨ρ, makes⟩ := (placed.arranged_cons ran).exists_makes
  exact ⟨G, t, G', _, run, run', ρ, makes.fixes, plans ρ makes.tail, taken ρ makes⟩

end Session.Invariant

/-- Of two open goals of a session either can be advanced first, if rules and expansions are
functions of the goal. Both orders succeed or fail together, and then their plans are the same up to
the numbers of new leaves and the type variables that were drawn, and so are the goals that they
leave open. -/
theorem Session.advance_comm {d : Declarations} (session : Session d env goal p s)
    (steady : s.Steady) (ordered : i < j) (inside : j < p.assumptions.length) (fromU : s.Before u)
    (fromU' : s.Before u') (left right : String) :
    ((∃ q v, (env.advanceLeftFirst p goal i j left right).runFrom u = (.ok q, v)) ↔
      ∃ q v, (env.advanceRightFirst p goal i j left right).runFrom u' = (.ok q, v)) ∧
    ∀ (q q' : Plan) (v v' w w' : Supply),
      (env.advanceLeftFirst p goal i j left right).runFrom u = (.ok q, v) →
      (env.advanceRightFirst p goal i j left right).runFrom u' = (.ok q', v') →
      v.Before w → v'.Before w' →
      ∃ G x G' x', (q.subgoals goal).runFrom w = (.ok G, x) ∧
        (q'.subgoals goal).runFrom w' = (.ok G', x') ∧ ∃ ρ : Renaming, ρ.Fixes s ∧
          Plan.Renamed env ρ q q' ∧ List.Forall₂ ρ.TakesGoal G G' := by
  have inv := session.invariant steady
  have found := List.getElem?_eq_getElem (Nat.lt_trans ordered inside)
  have found' := List.getElem?_eq_getElem inside
  refine ⟨⟨?_, ?_⟩, fun q q' v v' w w' run run' after after' => ?_⟩
  · rintro ⟨q, v, run⟩
    exact inv.rightFirst_of_leftFirst fromU fromU' ordered found found' run
  · rintro ⟨q, v, run⟩
    exact inv.leftFirst_of_rightFirst fromU fromU' ordered found found' run
  · exact inv.agree_of_orders fromU fromU' ordered found found' run run' after after'

/-- A cut. -/
def cutText : String := "cut(\x60c:bool\x60)"

/-- Both goals that a cut leaves open can be cut again, in both orders. -/
theorem Session.advance_comm_cut : ∃ env p s q v q' v', Session bareLogic env bareGoal p s ∧
    s.Steady ∧ 0 < 1 ∧ 1 < p.assumptions.length ∧
    (env.advanceLeftFirst p bareGoal 0 1 cutText cutText).runFrom s = (.ok q, v) ∧
    (env.advanceRightFirst p bareGoal 0 1 cutText cutText).runFrom s = (.ok q', v') ∧
    ∃ G x G' x', (q.subgoals bareGoal).runFrom v = (.ok G, x) ∧
      (q'.subgoals bareGoal).runFrom v' = (.ok G', x') ∧ ∃ ρ : Renaming, ρ.Fixes s ∧
        Plan.Renamed env ρ q q' ∧ List.Forall₂ ρ.TakesGoal G G' := by
  obtain ⟨env, p, s, run, session, steady, leaves⟩ := cutSession_session
  have inside : 1 < p.assumptions.length := by rw [leaves]; decide
  have commutes := Session.advance_comm session steady (i := 0) (by decide) inside (.refl s)
    (.refl s) cutText cutText
  have done : ((cutSession >>= fun r => r.1.advanceLeftFirst r.2 bareGoal 0 1 cutText
      cutText).runFrom .orderly).1.toOption.isSome = true := by
    decide +kernel
  obtain ⟨q, v, ran⟩ := exists_of_isSome done
  obtain ⟨_, _, first, left⟩ := bind_ok ran
  cases run.symm.trans first
  obtain ⟨q', v', right⟩ := commutes.1.mp ⟨q, v, left⟩
  exact ⟨env, p, s, q, v, q', v', session, steady, by decide, inside, left, right,
    commutes.2 q q' v v' v v' left right (.refl v) (.refl v')⟩

/-- What was cut in is dropped, and then the name is unfolded. -/
def weakenText : String := "sequence(left_weakening(), left_expand(\"n\"), axiom())"

/-- Load the rules, cut the goal, and advance the two goals in both orders from the same supply. -/
def unfoldBothWays : Build (Environment × Plan × Except Failure Plan × Except Failure Plan) := do
  let env ← identityLogic.load
  let p ← Environment.start
  let q ← env.advance p twofoldGoal 0 "cut(\x60b:bool\x60)"
  let s ← get
  let left ← (env.advanceLeftFirst q twofoldGoal 0 1 "noop()" weakenText).attempt
  set s
  return (env, q, left, ← (env.advanceRightFirst q twofoldGoal 0 1 "noop()" weakenText).attempt)

/-- Where the order changes from one time to the next, two goals may be advanced with the left one
first and not with the right one first, which is unfolded twice then. -/
theorem Session.advance_comm_wavering : ∃ env p s, Session identityLogic env twofoldGoal p s ∧
    1 < p.assumptions.length ∧
    (∃ q v, (env.advanceLeftFirst p twofoldGoal 0 1 "noop()" weakenText).runFrom s = (.ok q, v)) ∧
    ∃ failure v, (env.advanceRightFirst p twofoldGoal 0 1 "noop()" weakenText).runFrom s =
      (.error failure, v) := by
  have done : ((unfoldBothWays.runFrom .wavering).1.toOption.map fun r =>
      (r.2.1.assumptions, r.2.2.1.isOk, r.2.2.2.isOk)) = some ([2, 3], true, false) := by
    decide +kernel
  obtain ⟨⟨env, q, left, right⟩, u, run, outcome⟩ := exists_of_map done
  obtain ⟨leaves, isLeft, isRight⟩ : q.assumptions = [2, 3] ∧ left.isOk = true ∧
      right.isOk = false := by
    simpa using outcome
  obtain ⟨env, s₁, loaded, afterLoad⟩ := bind_ok run
  obtain ⟨p, s₂, started, afterStart⟩ := bind_ok afterLoad
  obtain ⟨q, s, advanced, afterAdvance⟩ := bind_ok afterStart
  obtain ⟨s', _, same, afterGet⟩ := bind_ok afterAdvance
  cases same
  obtain ⟨left, v, first, afterLeft⟩ := bind_ok afterGet
  obtain ⟨_, _, same, afterSet⟩ := bind_ok afterLeft
  cases same
  obtain ⟨right, w, second, finished⟩ := bind_ok afterSet
  cases finished
  refine ⟨env, q, s, .advance (.start loaded (.refl s₁) (twofoldGoal_known s₁) started) advanced,
    by rw [leaves]; decide, ?_, ?_⟩
  · cases left with
    | error failure => cases isLeft
    | ok q' => exact ⟨q', v, attempt_ok first⟩
  · cases right with
    | error failure => exact ⟨failure, u, attempt_ok second⟩
    | ok q' => cases isRight

end Turnstile
