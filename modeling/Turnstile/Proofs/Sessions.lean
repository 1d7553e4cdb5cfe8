import Turnstile.Proofs.Numbering

/-!
# Sessions

A session starts with a goal and advances its plan, one open goal after the other. Whatever is asked
of it, the leaves of its plan stand for the goals that the plan leaves open, in the same order, and
advancing puts what a rule leaves open in the place of the goal that it was applied to.
-/

namespace Turnstile

open Build Renaming

variable {ρ : Renaming} {env : Environment} {s t u v w : Supply}

/-! ## Goals that are known -/

/-- The formulas of a goal are sound and mention only type variables that were handed out. -/
def Sequent.Known (goal : Sequent) (s : Supply) : Prop :=
  ∀ t ∈ goal.left ++ goal.right, t.Sound ∧
    ∀ atom ∈ t.atoms, ∀ id ∈ atom.type.vars, id ≤ s.lastType

/-- A substitution leaves a type exactly where it leaves its variables. -/
theorem Ty.mapVars_eq_self {a : Ty} {θ : Int → Ty} :
    a.mapVars θ = a ↔ ∀ id ∈ a.vars, θ id = .var id := by
  induction a with
  | const name => simp [vars, mapVars]
  | var id => simp [vars, mapVars]
  | arrow d c ihD ihC =>
    simp only [mapVars, vars, List.mem_append, arrow.injEq, ihD, ihC]
    constructor
    · rintro ⟨first, second⟩ id (left | right)
      · exact first id left
      · exact second id right
    · exact fun all => ⟨fun id left => all id (.inl left), fun id right => all id (.inr right)⟩

/-- A substitution leaves a symbol exactly where it leaves the variables of its type. -/
theorem Symbol.under_eq_self {a : Symbol} {θ : Int → Ty} :
    a.under θ = a ↔ ∀ id ∈ a.type.vars, θ id = .var id := by
  obtain ⟨name, type⟩ := a
  rw [← Ty.mapVars_eq_self]
  simp [Symbol.under, Symbol.mapType]

/-- A substitution leaves a term exactly where it leaves the variables of its atoms. -/
theorem Term.under_eq_self {t : Term} {θ : Int → Ty} :
    t.under θ = t ↔ ∀ atom ∈ t.atoms, ∀ id ∈ atom.type.vars, θ id = .var id := by
  induction t with
  | const a => simp [atoms, Symbol.under_eq_self, type]
  | var a => simp [atoms, Symbol.under_eq_self, type]
  | app f x ihF ihX => simp [atoms, ihF, ihX, or_imp, forall_and]
  | lam a b ih => simp [atoms, ih, Symbol.under_eq_self, type]

/-- A renaming that leaves what was drawn as it is leaves a known goal as it is. -/
theorem Sequent.Known.takes {goal : Sequent} (known : goal.Known s) (fixes : ρ.Fixes s) :
    ρ.TakesGoal goal goal := by
  have each : ∀ t ∈ goal.left ++ goal.right, ρ.Takes t t := by
    intro t member
    refine takes_self.mpr ⟨(known t member).1, Term.under_eq_self.mpr ?_⟩
    exact fun atom inside id early =>
      congrArg Ty.var (fixes.types id ((known t member).2 atom inside id early))
  exact ⟨List.forall₂_same.mpr fun t member => each t (List.mem_append_left _ member),
    List.forall₂_same.mpr fun t member => each t (List.mem_append_right _ member)⟩

/-! ## Sessions -/

/-- The plans that come up for a goal in an environment that was loaded before, each with what has
been drawn by then. -/
inductive Session (d : Declarations) (env : Environment) (goal : Sequent) : Plan → Supply → Prop
  /-- Nothing has been done to the goal. -/
  | start {s₀ s₁ s₂ s : Supply} {p : Plan} (loaded : d.load.runFrom s₀ = (.ok env, s₁))
    (later : s₁.Before s₂) (known : goal.Known s₂)
    (run : Environment.start.runFrom s₂ = (.ok p, s)) : Session d env goal p s
  /-- Something else was done. -/
  | pause {p : Plan} {s t : Supply} (session : Session d env goal p s) (later : s.Before t) :
    Session d env goal p t
  /-- An open goal was advanced. -/
  | advance {p q : Plan} {s t : Supply} {index : Int} {text : String}
    (session : Session d env goal p s)
    (run : (env.advance p goal index text).runFrom s = (.ok q, t)) : Session d env goal q t
  /-- An open goal could not be advanced. -/
  | refusal {p : Plan} {s t : Supply} {index : Int} {text : String} {failure : Failure}
    (session : Session d env goal p s)
    (run : (env.advance p goal index text).runFrom s = (.error failure, t)) :
    Session d env goal p t

/-- What holds of the plan of a session in whatever order atoms are visited. -/
structure Session.Grounded (env : Environment) (goal : Sequent) (p : Plan) (s : Supply) :
    Prop where
  /-- The environment mentions only what was drawn. -/
  fixed : ∀ ρ : Renaming, ρ.Fixes s → env.FixedBy ρ
  /-- The goal mentions only what was drawn. -/
  known : ∀ ρ : Renaming, ρ.Fixes s → ρ.TakesGoal goal goal
  /-- The plan mentions only what was drawn. -/
  drawn : ∀ ρ : Renaming, ρ.Fixes s → Plan.Renamed env ρ p p
  /-- The leaves of the plan are different. -/
  nodup : p.assumptions.Nodup
  /-- They were drawn before. -/
  old : ∀ id ∈ p.assumptions, id ≤ s.lastAssumption

/-- What holds of the plan of a session when rules and expansions are functions of the goal. -/
structure Session.Invariant (env : Environment) (goal : Sequent) (p : Plan) (s : Supply) : Prop
    extends Session.Grounded env goal p s where
  /-- Rules and expansions are functions of the goal. -/
  steady : s.Steady
  /-- The plan leaves one goal open for each leaf. -/
  runs : ∃ G t, (p.subgoals goal).runFrom s = (.ok G, t) ∧ G.length = p.assumptions.length

section

variable {goal : Sequent} {p q : Plan} {text : String}

/-- A goal is advanced by reading the text and normalizing the plan with the leaf replaced. -/
theorem advance_ok {index : Int} : (env.advance p goal index text).runFrom u = (.ok q, v) ↔
    ∃ (k id : Nat) (sub : Plan) (t : Supply), index = k ∧ p.assumptions[k]? = some id ∧
      (env.evaluate text).runFrom u = (.ok sub, t) ∧
      ((Plan.replace id sub p).normalize goal).runFrom t = (.ok q, v) := by
  rw [Environment.advance]
  constructor
  · intro run
    split at run
    · cases run
    next id found =>
      obtain ⟨sub, t, reads, normalizes⟩ := bind_ok run
      split at found
      · cases found
      · exact ⟨index.toNat, id, sub, t, by omega, found, reads, normalizes⟩
  · rintro ⟨k, id, sub, t, rfl, found, reads, normalizes⟩
    have inRange : ¬((k : Int) < 0) := by omega
    simp only [if_neg inRange, Int.toNat_natCast, found, runFrom_bind, reads, normalizes]

namespace Session.Grounded

/-- What was drawn before was drawn before any later supply. -/
theorem later (grounded : Grounded env goal p s) (later : s.Before t) : Grounded env goal p t where
  fixed ρ fixes := grounded.fixed ρ (fixes.of_before later)
  known ρ fixes := grounded.known ρ (fixes.of_before later)
  drawn ρ fixes := grounded.drawn ρ (fixes.of_before later)
  nodup := grounded.nodup
  old leaf member := Nat.le_trans (grounded.old leaf member) later.assumptions

/-- Advancing a goal gives back nothing that was drawn, even if it fails. -/
theorem advance_grows (grounded : Grounded env goal p s) (index : Int) (text : String) :
    Grows (env.advance p goal index text) :=
  ((grounded.fixed .id (id_fixes s)).advance (grounded.drawn .id (id_fixes s))
    (grounded.known .id (id_fixes s)) index text).grows

/-- What advancing a goal leads to mentions only what was drawn, and its leaves are different. -/
theorem advance {index : Int} (grounded : Grounded env goal p s)
    (run : (env.advance p goal index text).runFrom s = (.ok q, t)) : Grounded env goal q t := by
  have fixed := grounded.fixed .id (id_fixes s)
  have takes := grounded.known .id (id_fixes s)
  have renamed := grounded.drawn .id (id_fixes s)
  have grown := grounded.advance_grows index text s
  rw [run] at grown
  have kept := grounded.later grown
  obtain ⟨k, id, sub, u, rfl, found, reads, normalizes⟩ := advance_ok.mp run
  have before := (fixed.evaluate text).before reads
  have renamedSub := (fixed.evaluate text).self reads (id_fixes u)
  have replaced := Plan.replace_fresh grounded.nodup grounded.old before
    (fixed.evaluate_fresh reads) (List.mem_of_getElem? found)
  have whole : Plan.Renamed env .id (Plan.replace id sub p) (Plan.replace id sub p) :=
    Plan.Renamed.replace fixed renamedSub id renamed
  have numbered := Plan.normalize_numberedFrom (whole.mirrors fixed) takes normalizes replaced.1
    replaced.2
  refine ⟨kept.fixed, kept.known, fun ρ fixes => ?_, numbered.nodup, fun leaf member => ?_⟩
  · exact ((kept.fixed ρ fixes).advance (kept.drawn ρ fixes) (kept.known ρ fixes) k text).self run
      fixes
  · rcases numbered.origin leaf member with old | new
    · exact Nat.le_trans (replaced.2 leaf old) numbered.before.assumptions
    · exact new.2

end Session.Grounded

end

namespace Session.Invariant

variable {goal g : Sequent} {p q N : Plan} {id : Nat} {G P : List Sequent} {R : List Plan.Task}

/-- Renamings that fix what was drawn take the task of a session to itself. -/
theorem task (inv : Invariant env goal p s) (fixes : ρ.Fixes s) :
    List.Forall₂ ρ.TakesTask [(p, goal)] [(p, goal)] :=
  .cons ⟨rfl, (inv.drawn ρ fixes).mirrors (inv.fixed ρ fixes), inv.known ρ fixes⟩ .nil

/-- They take the run of its plan to itself. -/
theorem mirrors (inv : Invariant env goal p s) (fixes : ρ.Fixes s) :
    Mirrors ρ (List.Forall₂ ρ.TakesGoal) (p.subgoals goal) (p.subgoals goal) :=
  ((inv.drawn ρ fixes).mirrors (inv.fixed ρ fixes)).subgoals p (inv.known ρ fixes)

/-- The plan leaves one goal open for each leaf whenever it is run. -/
theorem runs_later (inv : Invariant env goal p s) (later : s.Before t) :
    ∃ G u, (p.subgoals goal).runFrom t = (.ok G, u) ∧ G.length = p.assumptions.length ∧
      t.Before u := by
  obtain ⟨G, x, run, count⟩ := inv.runs
  have placed := Move.placed_nil inv.steady (.refl s) later
  obtain ⟨before, G', run', taken⟩ :=
    follows_move placed (fun ρ makes => inv.mirrors makes.fixes) run
  obtain ⟨σ, makes⟩ := (placed.arranged_cons before).exists_makes
  exact ⟨G', _, run', (taken σ makes).length_eq.symm.trans count, Supply.before_after _ _ _⟩

/-- The invariant goes on holding when more is drawn. -/
theorem later (inv : Invariant env goal p s) (later : s.Before t) : Invariant env goal p t where
  toGrounded := inv.toGrounded.later later
  steady := later.steady.mpr inv.steady
  runs := by
    obtain ⟨G, u, run, count, _⟩ := inv.runs_later later
    exact ⟨G, u, run, count⟩

/-- The leaves of the task are different. -/
theorem nodup_leaves (inv : Invariant env goal p s) : (Plan.leaves [(p, goal)]).Nodup := by
  simpa using inv.nodup

/-- A run comes by each leaf with the goal that has the leaf's place among those left open. -/
theorem reaches (inv : Invariant env goal p s) (member : id ∈ p.assumptions) :
    ∃ P g R x B y, Plan.Reaches id [(p, goal)] s P g R x ∧
      (Plan.runAll R).runFrom x = (.ok B, y) ∧
      (p.subgoals goal).runFrom s = (.ok (P ++ g :: B), y) ∧ B.length = (Plan.leaves R).length ∧
      (∃ before, p.assumptions = before ++ id :: Plan.leaves R ∧ before.length = P.length) ∧
      s.Before x ∧ x.Before y := by
  obtain ⟨G, t, run, count⟩ := inv.runs
  have runAll : (Plan.runAll [(p, goal)]).runFrom s = (.ok G, t) :=
    Plan.runAll_cons_ok.mpr ⟨G, t, [], run, rfl, (List.append_nil G).symm⟩
  obtain ⟨P, g, R, x, B, reaches, rest, rfl⟩ :=
    Plan.exists_reaches runAll (by simpa using member)
  obtain ⟨settled, before, same, shorter⟩ := reaches.settled rest (by simpa using count)
  have task := inv.task (id_fixes s)
  obtain ⟨_, takes⟩ := reaches.takes_self inv.nodup_leaves task (id_fixes x)
  exact ⟨P, g, R, x, B, t, reaches, rest, run, settled, ⟨before, by simpa using same, shorter⟩,
    (reaches.mirrors task).1, (Plan.runAll_mirrors takes).before rest⟩

/-- The goal that a leaf stands for has the leaf's place among the goals left open. -/
theorem reaches_at (inv : Invariant env goal p s) {k : Nat} (found : p.assumptions[k]? = some id) :
    ∃ P g R x B y, Plan.Reaches id [(p, goal)] s P g R x ∧
      (Plan.runAll R).runFrom x = (.ok B, y) ∧
      (p.subgoals goal).runFrom s = (.ok (P ++ g :: B), y) ∧ P.length = k ∧
      p.assumptions = p.assumptions.take k ++ id :: p.assumptions.drop (k + 1) ∧
      s.Before x ∧ x.Before y := by
  obtain ⟨P, g, R, x, B, y, reaches, rest, run, _, ⟨before, same, count⟩, first, second⟩ :=
    inv.reaches (List.mem_of_getElem? found)
  obtain ⟨inside, is⟩ := List.getElem?_eq_some_iff.mp found
  have place : before.length = k := by
    have inside' : before.length < p.assumptions.length := by simp [same]
    refine inv.nodup.getElem_inj_iff.mp (?_ : p.assumptions[before.length] = p.assumptions[k])
    rw [is]
    simp [same]
  refine ⟨P, g, R, x, B, y, reaches, rest, run, count.symm.trans place, ?_, first, second⟩
  rw [← is, ← List.drop_eq_getElem_cons, List.take_append_drop]

/-- What is still to be run when a leaf is reached can be run whenever something was done there. -/
theorem resume (inv : Invariant env goal p s) (reaches : Plan.Reaches id [(p, goal)] s P g R t)
    (rest : (Plan.runAll R).runFrom t = (.ok G, u)) (later : t.Before v) :
    ∃ G' w, (Plan.runAll R).runFrom v = (.ok G', w) ∧ G'.length = G.length ∧ v.Before w := by
  have before := (reaches.mirrors (inv.task (id_fixes s))).1
  have placed := Move.placed_nil (before.steady.mpr inv.steady) (.refl t) later
  obtain ⟨before', G', run, taken⟩ := follows_move placed (fun ρ makes => by
    have task := inv.task (makes.fixes.of_before before)
    exact Plan.runAll_mirrors (reaches.takes_self inv.nodup_leaves task makes.fixes).2) rest
  obtain ⟨σ, makes⟩ := (placed.arranged_cons before').exists_makes
  exact ⟨G', _, run, (taken σ makes).length_eq.symm, Supply.before_after _ _ _⟩

end Session.Invariant

/-! ## Advancing -/

/-- The plan that a text puts in the place of a leaf: the text's plan, normalized on the goal that
arrives at the leaf. -/
inductive Grafts (env : Environment) (p : Plan) (goal : Sequent) (id : Nat) (text : String) :
    Supply → Plan → Supply → Prop
  /-- The text is read, the leaf is reached, and the plan that was read is normalized. -/
  | mk {u t x v : Supply} {sub N : Plan} {P : List Sequent} {g : Sequent} {R : List Plan.Task}
    (reads : (env.evaluate text).runFrom u = (.ok sub, t))
    (reaches : Plan.Reaches id [(p, goal)] t P g R x)
    (normalizes : (sub.normalize g).runFrom x = (.ok N, v)) :
    Grafts env p goal id text u N v

section

variable {goal : Sequent} {p q N N' : Plan} {id : Nat} {text : String}

/-- One plan is put in the place of a leaf. -/
theorem Grafts.unique (nodup : p.assumptions.Nodup) (grafts : Grafts env p goal id text u N v)
    (grafts' : Grafts env p goal id text u N' w) : N' = N ∧ w = v := by
  obtain ⟨reads, reaches, normalizes⟩ := grafts
  obtain ⟨reads', reaches', normalizes'⟩ := grafts'
  rw [reads] at reads'
  cases reads'
  obtain ⟨rfl, rfl, rfl, rfl⟩ := reaches.unique reaches' (by simpa using nodup)
  rw [normalizes] at normalizes'
  cases normalizes'
  exact ⟨rfl, rfl⟩

/-- Reading a text, reaching a leaf and normalizing there draw one after the other. -/
theorem Session.Invariant.graft_before (inv : Invariant env goal p s) {sub : Plan} {x : Supply}
    {P : List Sequent} {g : Sequent} {R : List Plan.Task}
    (reads : (env.evaluate text).runFrom u = (.ok sub, t))
    (reaches : Plan.Reaches id [(p, goal)] t P g R x)
    (normalizes : (sub.normalize g).runFrom x = (.ok N, v)) :
    u.Before t ∧ t.Before x ∧ x.Before v := by
  have fixed := inv.fixed .id (id_fixes s)
  have task := inv.task (id_fixes s)
  have renamed := (fixed.evaluate text).self reads (id_fixes t)
  have takes := (reaches.takes_self inv.nodup_leaves task (id_fixes x)).1
  exact ⟨(fixed.evaluate text).before reads, (reaches.mirrors task).1,
    (renamed.normalize fixed takes).before normalizes⟩

/-- From another supply, the renamed plan is put in the place of the leaf. -/
theorem Session.Invariant.grafts (inv : Invariant env goal p s)
    (grafts : Grafts env p goal id text u N v) :
    u.Before v ∧ ∀ ρ : Renaming, ρ.Fixes s → ∀ u', ρ.Carries u v u' →
      ∃ N', Grafts env p goal id text u' N' (u'.after u v) ∧ Plan.Renamed env ρ N N' := by
  obtain ⟨reads, reaches, normalizes⟩ := grafts
  obtain ⟨read, reached, normalized⟩ := inv.graft_before reads reaches normalizes
  refine ⟨read.trans (reached.trans normalized), fun ρ fixes u' carries => ?_⟩
  have fixed := inv.fixed ρ fixes
  have task := inv.task fixes
  obtain ⟨sub', renamed, reads'⟩ := (fixed.evaluate text).follows _ _ _ reads u'
    (carries.first (reached.trans normalized))
  have carries' := carries.second read
  obtain ⟨P', g', R', reaches', _, takes, _⟩ :=
    (reaches.mirrors task).2 (carries'.first normalized)
  obtain ⟨N', renamedN, normalizes'⟩ := (renamed.normalize fixed takes).follows _ _ _ normalizes _
    (carries'.second reached)
  refine ⟨N', ?_, renamedN⟩
  have whole : (u'.after u _).after _ v = u'.after u v :=
    Supply.after_after read (reached.trans normalized)
  rw [Supply.after_after reached normalized, whole] at normalizes'
  exact .mk reads' reaches' normalizes'

/-- Normalizing the plan is normalizing the task. -/
theorem normalize_ok : (p.normalize goal).runFrom u = (.ok q, v) ↔
    (Plan.normalizeTasks [(p, goal)]).runFrom u = (.ok [q], v) := by
  rw [Plan.normalizeTasks_cons_ok]
  constructor
  · exact fun run => ⟨q, v, [], run, rfl, rfl⟩
  · rintro ⟨_, _, _, run, rest, same⟩
    cases rest
    cases same
    exact run

/-- Running the plan is running the task. -/
theorem subgoals_ok {G : List Sequent} : (p.subgoals goal).runFrom u = (.ok G, v) ↔
    (Plan.runAll [(p, goal)]).runFrom u = (.ok G, v) := by
  rw [Plan.runAll_cons_ok]
  constructor
  · exact fun run => ⟨G, v, [], run, rfl, (List.append_nil G).symm⟩
  · rintro ⟨_, _, _, run, rest, rfl⟩
    cases rest
    rwa [List.append_nil]

namespace Session.Invariant

/-- A run comes by the leaf after the text was read, and everything but the leaf leaves one goal
open for each leaf. -/
theorem reaches_read (inv : Invariant env goal p s) (later : s.Before u) {sub : Plan}
    (reads : (env.evaluate text).runFrom u = (.ok sub, t)) (member : id ∈ p.assumptions) :
    u.Before t ∧ ∃ P g R x B y, Plan.Reaches id [(p, goal)] t P g R x ∧
      (Plan.runAll R).runFrom x = (.ok B, y) ∧ B.length = (Plan.leaves R).length ∧
      P.length + 1 + (Plan.leaves R).length = (Plan.leaves [(p, goal)]).length := by
  have read := ((inv.fixed .id (id_fixes s)).evaluate text).before reads
  obtain ⟨P, g, R, x, B, y, reaches, rest, _, settled, ⟨before, same, count⟩, _, _⟩ :=
    (inv.later (later.trans read)).reaches member
  refine ⟨read, P, g, R, x, B, y, reaches, rest, settled, ?_⟩
  simp only [Plan.leaves_cons, Plan.leaves_nil, same, List.length_append, List.length_cons,
    List.length_nil, count]
  omega

/-- A plan that can be put in the place of a leaf is put there when its goal is advanced. -/
theorem advance_of_grafts (inv : Invariant env goal p s) (later : s.Before u) {k : Nat}
    (found : p.assumptions[k]? = some id) (grafts : Grafts env p goal id text u N v) :
    ∃ w, (env.advance p goal k text).runFrom u = (.ok (Plan.replace id N p), w) ∧ v.Before w := by
  cases grafts with
  | @mk t x _ sub _ P g R reads reaches normalizes =>
    obtain ⟨read, P', g', R', x', B, y, reaches', rest, settled, counts⟩ :=
      inv.reaches_read later reads (List.mem_of_getElem? found)
    obtain ⟨rfl, rfl, rfl, rfl⟩ := reaches.unique reaches' inv.nodup_leaves
    obtain ⟨_, _, before⟩ := inv.graft_before reads reaches normalizes
    obtain ⟨B', w, rest', count, after⟩ :=
      (inv.later (later.trans read)).resume reaches rest before
    have whole := reaches.normalize_ok inv.nodup_leaves counts normalizes rest'
      (count.trans settled)
    refine ⟨w, advance_ok.mpr ⟨k, id, sub, t, rfl, found, reads, ?_⟩, after⟩
    exact normalize_ok.mpr whole

/-- Advancing a goal puts a normalized plan in the place of its leaf. -/
theorem grafts_of_advance (inv : Invariant env goal p s) (later : s.Before u) {index : Int}
    (run : (env.advance p goal index text).runFrom u = (.ok q, v)) :
    ∃ (k id : Nat) (N : Plan) (x : Supply), index = k ∧ p.assumptions[k]? = some id ∧
      Grafts env p goal id text u N x ∧ q = Plan.replace id N p ∧ x.Before v := by
  obtain ⟨k, id, sub, t, rfl, found, reads, normalizes⟩ := advance_ok.mp run
  obtain ⟨read, P, g, R, x, B, y, reaches, rest, settled, counts⟩ :=
    inv.reaches_read later reads (List.mem_of_getElem? found)
  obtain ⟨N, z, normalized⟩ :=
    reaches.normalizes inv.nodup_leaves counts (normalize_ok.mp normalizes)
  have grafts : Grafts env p goal id text u N z := .mk reads reaches normalized
  obtain ⟨w, run', before⟩ := inv.advance_of_grafts later found grafts
  rw [run] at run'
  cases run'
  exact ⟨k, id, N, z, rfl, found, grafts, rfl, before⟩

/-- The leaves of what is put in the place of a leaf are newly drawn. -/
theorem grafts_fresh (inv : Invariant env goal p s) (grafts : Grafts env p goal id text u N v) :
    u.Fresh v N.assumptions := by
  obtain ⟨reads, reaches, normalizes⟩ := grafts
  have fixed := inv.fixed .id (id_fixes s)
  have task := inv.task (id_fixes s)
  have drawn := fixed.evaluate_fresh reads
  obtain ⟨read, reached, _⟩ := inv.graft_before reads reaches normalizes
  have renamed := (fixed.evaluate text).self reads (id_fixes _)
  have takes := (reaches.takes_self inv.nodup_leaves task (id_fixes _)).1
  have numbered := Plan.normalize_numberedFrom (renamed.mirrors fixed) takes normalizes drawn.nodup
    fun leaf member => Nat.le_trans (drawn.upTo leaf member) reached.assumptions
  have late := numbered.before.assumptions
  have late' := reached.assumptions
  have early := read.assumptions
  refine ⟨numbered.nodup, fun leaf member => ?_, fun leaf member => ?_⟩
  · rcases numbered.origin leaf member with old | new
    · exact drawn.after leaf old
    · omega
  · rcases numbered.origin leaf member with old | new
    · have upTo := drawn.upTo leaf old
      omega
    · exact new.2

/-- Where a plan was put in the place of a leaf, its run leaves open what the plan that was read
leaves open on the goal that arrives there, one goal for each leaf. -/
theorem run_grafted (inv : Invariant env goal p s) {sub : Plan} {x y : Supply} {g : Sequent}
    {P : List Sequent} {R : List Plan.Task} (later : s.Before u)
    (reads : (env.evaluate text).runFrom u = (.ok sub, t))
    (reaches : Plan.Reaches id [(p, goal)] t P g R x)
    (normalizes : (sub.normalize g).runFrom x = (.ok N, y)) (after : t.Before w) :
    ∃ P' g' R' x' H y' B z, Plan.Reaches id [(p, goal)] w P' g' R' x' ∧
      (sub.subgoals g').runFrom x' = (.ok H, y') ∧ (Plan.runAll R').runFrom y' = (.ok B, z) ∧
      ((Plan.replace id N p).subgoals goal).runFrom w = (.ok (P' ++ (H ++ B)), z) ∧
      P'.length + (H.length + B.length) = (Plan.replace id N p).assumptions.length := by
  obtain ⟨read, reached, _⟩ := inv.graft_before reads reaches normalizes
  have early := later.trans read
  have member : id ∈ p.assumptions := by simpa using reaches.mem_leaves
  obtain ⟨P', g', R', x', B, y', reaches', rest, _, settled, ⟨before, same, count⟩, _, _⟩ :=
    (inv.later (early.trans after)).reaches member
  -- The plan that was read mentions what was drawn before the leaf was reached; what is drawn on
  -- the way to the leaf moves along.
  have base := Move.placed_nil (early.steady.mpr inv.steady) (.refl t) after
  have placed := base.cons reached
  obtain ⟨σ, makes⟩ := placed.arranged.exists_makes
  have moved := fun (ρ : Renaming) (makes : ρ.Makes t [⟨t, x, w⟩]) =>
    reaches.moved reaches' inv.nodup_leaves (inv.task (makes.fixes.of_before early)) makes.head
  rw [← (moved σ makes).1] at placed
  obtain ⟨_, H, z, beforeZ, runs, runsN, countN⟩ := Plan.runsAsNormalized sub t placed
    (fun ρ makes => (((inv.fixed ρ (makes.fixes.of_before early)).evaluate text).self reads
      makes.fixes).mirrors (inv.fixed ρ (makes.fixes.of_before early)))
    (fun ρ makes => (moved ρ makes).2.2.1) normalizes
  obtain ⟨B', z', rest', count', _⟩ :=
    (inv.later (early.trans after)).resume reaches' rest beforeZ
  refine ⟨P', g', R', x', H, z, B', z', reaches', runs, rest', ?_, ?_⟩
  · exact subgoals_ok.mpr
      ((reaches'.run_ok inv.nodup_leaves).mpr ⟨H, z, B', runsN, rest', rfl⟩)
  · rw [Plan.assumptions_replace_of_nodup N inv.nodup same, List.length_append, List.length_append,
      count, countN, count', settled]

/-- Advancing a goal keeps the invariant. -/
theorem advance (inv : Invariant env goal p s) (later : s.Before u) {index : Int}
    (run : (env.advance p goal index text).runFrom u = (.ok q, v)) : Invariant env goal q v := by
  have grounded := (inv.toGrounded.later later).advance run
  obtain ⟨k, id, N, x, rfl, found, grafts, rfl, before⟩ := inv.grafts_of_advance later run
  have grown := (inv.grafts grafts).1
  obtain ⟨reads, reaches, normalizes⟩ := grafts
  obtain ⟨_, reached, normalized⟩ := inv.graft_before reads reaches normalizes
  obtain ⟨P', g', R', x', H, y, B, z, _, _, _, runs, count⟩ :=
    inv.run_grafted later reads reaches normalizes (reached.trans (normalized.trans before))
  refine ⟨grounded, (later.trans (grown.trans before)).steady.mpr inv.steady, _, z, runs, ?_⟩
  rw [List.length_append, List.length_append, count]

end Session.Invariant

section

variable {d : Declarations}

/-- A session starts with a leaf that is newly drawn. -/
theorem start_ok (run : Environment.start.runFrom s = (.ok p, t)) :
    p = .assumption (s.lastAssumption + 1) ∧
      t = { s with lastAssumption := s.lastAssumption + 1 } := by
  cases run
  exact ⟨rfl, rfl⟩

/-- Whatever comes up in a session mentions only what was drawn, and its leaves are different. -/
theorem Session.grounded (session : Session d env goal p s) : Session.Grounded env goal p s := by
  induction session with
  | @start _ _ s₂ _ _ loaded later known run =>
    obtain ⟨rfl, rfl⟩ := start_ok run
    have before := Supply.before_assumptions s₂ 1
    refine ⟨fun ρ fixes => ?_, fun ρ fixes => known.takes (fixes.of_before before),
      fun ρ fixes => ?_, List.nodup_singleton _, by simp [Plan.assumptions]⟩
    · exact d.load_settles _ _ _ loaded ρ (fixes.of_before (later.trans before))
    · have stays := fixes.assumptions (s₂.lastAssumption + 1) (Nat.le_refl _)
      have renamed : Plan.Renamed env ρ _ _ := .assumption (s₂.lastAssumption + 1)
      rwa [stays] at renamed
  | pause session later ih => exact ih.later later
  | advance session run ih => exact ih.advance run
  | @refusal p s t index text failure session run ih =>
    have grown := ih.advance_grows index text s
    rw [run] at grown
    exact ih.later grown

/-- The invariant holds of every plan that comes up in a session, if rules and expansions are
functions of the goal. -/
theorem Session.invariant (session : Session d env goal p s) (steady : s.Steady) :
    Session.Invariant env goal p s := by
  induction session with
  | start loaded later known run =>
    have grounded := Session.grounded (.start loaded later known run)
    obtain ⟨rfl, rfl⟩ := start_ok run
    exact ⟨grounded, steady, [goal], _, rfl, rfl⟩
  | pause session later ih => exact (ih (later.steady.mp steady)).later later
  | @advance p q s t index text session run ih =>
    have grown := session.grounded.advance_grows index text s
    rw [run] at grown
    exact (ih (grown.steady.mp steady)).advance (.refl _) run
  | @refusal p s t index text failure session run ih =>
    have grown := session.grounded.advance_grows index text s
    rw [run] at grown
    exact (ih (grown.steady.mp steady)).later grown

end

end

end Turnstile
