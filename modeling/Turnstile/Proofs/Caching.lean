import Turnstile.Cache
import Turnstile.Proofs.Builds

/-!
# Caching

A cache that looks its environments up by a text for a list of names is as good as no cache while
different lists have different texts. They do where no name has a comma and no list is that of one
empty name alone: an environment that is kept under such a list was loaded from exactly this list,
so that what was asked for before, how much is kept and what was dropped cannot be told from the
answers. The texts of other lists collide, and there a cache answers with the wrong theories.

Files do not change here; they are given by a function.
-/

namespace Turnstile

open Build

/-! ## Loading without a cache -/

open String.Pos.Raw in
/-- A path without slashes is its only part. -/
theorem Path.parts_whole {path : String} {n : Nat}
    (passes : ∀ i < n, ¬ atEnd path ⟨i⟩ ∧ get path ⟨i⟩ ≠ '/' ∧ next path ⟨i⟩ = ⟨i + 1⟩)
    (ends : atEnd path ⟨n⟩) (whole : extract path 0 ⟨n⟩ = path) : parts path = [path] := by
  have cut : ∀ k ≤ n, path.splitOnAux "/" 0 ⟨n - k⟩ 0 [] = [path] := by
    intro k
    induction k with
    | zero =>
      intro _
      rw [Nat.sub_zero, String.splitOnAux, if_pos ends]
      simp [whole]
    | succ k ih =>
      intro bound
      obtain ⟨more, other, along⟩ := passes (n - (k + 1)) (by omega)
      have slash : get "/" 0 = '/' := by decide
      rw [String.splitOnAux, if_neg more, slash, if_neg (by simpa using other)]
      rw [show n - (k + 1) + 1 = n - k by omega] at along
      change path.splitOnAux "/" 0 (next path ⟨n - (k + 1)⟩) 0 [] = _
      rw [along]
      exact ih (by omega)
  have all := cut n (Nat.le_refl n)
  rw [Nat.sub_self] at all
  rw [parts, String.splitOn, if_neg (by decide)]
  exact all

namespace Library

/-- What some theories declare, read from the files. -/
def declared (files : Access Id) (library : Library) (theories : List String) :
    Except Failure Declarations := library.declarations files theories

/-- The environment of some theories, loaded from the files. -/
def loading (files : Access Id) (library : Library) (theories : List String) :
    Build Environment := do
  let d ← library.declared files theories
  d.load

/-- An environment that loading gives for some theories. -/
def Loads (files : Access Id) (library : Library) (theories : List String) (env : Environment) :
    Prop :=
  ∃ s s', (library.loading files theories).runFrom s = (.ok env, s')

/-- A script that is read for a theory declares this theory. -/
theorem readScript_theories {name text : String} {d : Declarations}
    (read : readScript name text = .ok d) : d.theories = [name] := by
  rw [readScript, Context.report] at read
  cases script : Declarations.ofScript text with
  | error failure => rw [script] at read; cases read
  | ok declared => rw [script] at read; cases read; rfl

/-- A built-in theory declares itself. -/
theorem builtinTheory_theories {name : String} {d : Declarations}
    (found : builtinTheory name = .ok d) : d.theories = [name] := by
  have named : ∀ entry ∈ builtinTheories, entry.2.theories = [entry.1] := by decide
  rw [builtinTheory] at found
  split at found
  · split at found
    next known =>
      cases found
      obtain ⟨before, after, is, -⟩ := List.lookup_eq_some_iff.mp known
      exact named (name, d) (by simp [is])
    next => cases found
  · cases found

/-- In whatever folder a theory is found, it declares itself. -/
theorem theoryIn_theories (files : Access Id) {name : String} {d : Declarations} :
    ∀ folders, Id.run (theoryIn files name folders) = .ok d → d.theories = [name]
  | [], found => builtinTheory_theories found
  | folder :: rest, found => by
    rw [theoryIn] at found
    split at found
    · cases found
    · rw [Id.run_bind] at found
      split at found
      · exact readScript_theories found
      · exact theoryIn_theories files rest found
      · cases found

/-- What some theories declare is declared under exactly their names. -/
theorem declared_theories (files : Access Id) (library : Library) :
    ∀ {theories : List String} {d : Declarations},
      library.declared files theories = .ok d → d.theories = theories
  | [], _, found => by cases found; rfl
  | name :: rest, d, found => by
    rw [declared, declarations] at found
    change Id.run _ = _ at found
    rw [Id.run_bind] at found
    split at found
    · cases found
    next own first =>
      change (library.declared files rest).map (own ++ ·) = .ok d at found
      cases others : library.declared files rest with
      | error failure => rw [others] at found; cases found
      | ok more =>
        rw [others] at found
        cases found
        have head := theoryIn_theories files _ first
        have tail := declared_theories files library others
        change own.theories ++ more.theories = name :: rest
        rw [head, tail]
        rfl

/-- An environment has the names of the theories that it was loaded from. -/
theorem Loads.theories {files : Access Id} {library : Library} {theories : List String}
    {env : Environment} (loads : library.Loads files theories env) : env.theories = theories := by
  obtain ⟨s, s', run⟩ := loads
  obtain ⟨d, _, found, run⟩ := bind_ok run
  rw [(Declarations.load_standard d _ _ _ run).1]
  exact declared_theories files library (lift_ok found).1

/-- Logic is looked up in the folder of theories itself. -/
theorem inner_logic : Path.isInner (fileName "logic") = true := by
  rw [show fileName "logic" = "logic.star" from rfl, Path.isInner,
    Path.parts_whole (n := 10) (by decide) (by decide) (by decide)]
  decide

end Library

namespace Cache

/-- Access where there are no files. -/
def noFiles : Access Id := ⟨fun _ => .error .missing, fun _ => false, fun _ => .error .missing⟩

/-! ## What identifies a list -/

/-- A list of names that its text identifies: no name has a comma, and the list is not that of one
empty name, whose text is that of no names. -/
def Told (theories : List String) : Prop :=
  (∀ name ∈ theories, ',' ∉ name.toList) ∧ theories ≠ [""]

/-- The key of some theories is their names with commas between them. -/
theorem toList_keyOf (theories : List String) :
    (keyOf theories).toList = [','].intercalate (theories.map String.toList) :=
  String.toList_intercalate

/-- The names of a list that is not empty are got back by cutting its text at the commas. -/
theorem splitOn_keyOf {theories : List String} (plain : ∀ name ∈ theories, ',' ∉ name.toList)
    (some : theories ≠ []) :
    (keyOf theories).toList.splitOn ',' = theories.map String.toList := by
  rw [toList_keyOf]
  exact List.splitOn_intercalate ',' (by simpa using plain) (by simpa using some)

/-- Only the list without names has the empty text. -/
theorem keyOf_eq_empty {theories : List String} (told : Told theories)
    (empty : keyOf theories = keyOf []) : theories = [] := by
  cases theories with
  | nil => rfl
  | cons name rest =>
    have cut := splitOn_keyOf told.1 (List.cons_ne_nil name rest)
    rw [empty] at cut
    obtain ⟨blank, alone⟩ := List.cons.inj cut
    refine (told.2 ?_).elim
    rw [String.toList_eq_nil_iff.mp blank.symm, List.map_eq_nil_iff.mp alone.symm]

/-- Different lists have different texts. -/
theorem keyOf_injective {theories others : List String} (told : Told theories)
    (told' : Told others) (same : keyOf theories = keyOf others) : theories = others := by
  by_cases none : theories = []
  · subst none
    exact (keyOf_eq_empty told' same.symm).symm
  by_cases none' : others = []
  · subst none'
    exact keyOf_eq_empty told same
  have cut := splitOn_keyOf told.1 none
  rw [same, splitOn_keyOf told'.1 none'] at cut
  exact (List.map_inj_right fun _ _ => String.toList_inj.mp).mp cut.symm

/-! ## What is kept -/

/-- Every environment that is kept was loaded from a list that its text identifies. -/
def Sound (files : Access Id) (cache : Cache) : Prop :=
  ∀ entry ∈ cache.entries, ∃ theories, Told theories ∧ keyOf theories = entry.1 ∧
    cache.library.Loads files theories entry.2.environment

variable {files : Access Id} {cache : Cache}

/-- An empty cache keeps nothing wrong. -/
theorem sound_make (files : Access Id) (library : Library) (size : Int) :
    (make library size).Sound files := fun _ inside => nomatch inside

/-- An environment that was loaded from a list may be kept under its text. -/
theorem Sound.use (sound : cache.Sound files) {theories : List String} (told : Told theories)
    {loaded : Loaded} (loads : cache.library.Loads files theories loaded.environment) :
    (cache.use (keyOf theories) loaded).Sound files := by
  intro entry inside
  rcases List.mem_cons.mp (List.mem_of_mem_take inside) with rfl | kept
  · exact ⟨theories, told, rfl, loads⟩
  · exact sound entry (List.mem_filter.mp kept).1

/-- What is kept under the text of a list was loaded from this list. -/
theorem Sound.kept (sound : cache.Sound files) {theories : List String} (told : Told theories)
    {loaded : Loaded} (found : cache.entries.lookup (keyOf theories) = some loaded) :
    cache.library.Loads files theories loaded.environment := by
  obtain ⟨before, after, is, -⟩ := List.lookup_eq_some_iff.mp found
  obtain ⟨others, told', same, loads⟩ := sound (keyOf theories, loaded) (by simp [is])
  rwa [keyOf_injective told told' same.symm]

/-! ## Requests -/

/-- A request for what is kept. -/
theorem get_kept {theories : List String} {loaded : Loaded}
    (found : cache.entries.lookup (keyOf theories) = some loaded) (s : Supply) :
    Build.runFrom (cache.get files theories) s =
      (.ok (loaded, cache.use (keyOf theories) loaded), s) := by
  rw [get, found]
  rfl

/-- A request for what is not kept loads it. -/
theorem get_missing {theories : List String}
    (missing : cache.entries.lookup (keyOf theories) = none) (s : Supply) :
    Build.runFrom (cache.get files theories) s =
      match (cache.library.loading files theories).runFrom s with
      | (.ok env, s') => (.ok (⟨cache.loads, env⟩,
          { cache with loads := cache.loads + 1 }.use (keyOf theories) ⟨cache.loads, env⟩), s')
      | (.error failure, s') => (.error failure, s') := by
  have same : cache.get files theories = (do
      let env ← cache.library.loading files theories
      return (⟨cache.loads, env⟩,
        { cache with loads := cache.loads + 1 }.use (keyOf theories) ⟨cache.loads, env⟩) :
      Build (Loaded × Cache)) := by
    rw [get, missing]
    rfl
  rw [same, runFrom_bind]
  rcases (cache.library.loading files theories).runFrom s with ⟨failure | env, s'⟩ <;> rfl

/-- A request keeps the library and leaves only what it may keep. -/
theorem Sound.get (sound : cache.Sound files) {theories : List String} (told : Told theories)
    {s s' : Supply} {loaded : Loaded} {cache' : Cache}
    (run : Build.runFrom (cache.get files theories) s = (.ok (loaded, cache'), s')) :
    cache.library.Loads files theories loaded.environment ∧ cache'.Sound files ∧
      cache'.library = cache.library := by
  rcases lookup : cache.entries.lookup (keyOf theories) with _ | kept
  · rw [get_missing lookup] at run
    rcases ran : (cache.library.loading files theories).runFrom s with ⟨failure | env, s₁⟩ <;>
      rw [ran] at run <;> cases run
    have loads : cache.library.Loads files theories env := ⟨s, s', ran⟩
    have counted : Sound files { cache with loads := cache.loads + 1 } := sound
    exact ⟨loads, counted.use told loads, rfl⟩
  · rw [get_kept lookup] at run
    cases run
    have loads := sound.kept told lookup
    exact ⟨loads, sound.use told loads, rfl⟩

/-- The cache and the supply after some requests. One that fails leaves the cache as it was. -/
def afterAll (files : Access Id) : Cache → List (List String) → Supply → Cache × Supply
  | cache, [], s => (cache, s)
  | cache, theories :: rest, s =>
    match Build.runFrom (cache.get files theories) s with
    | (.ok (_, cache'), s') => afterAll files cache' rest s'
    | (.error _, s') => afterAll files cache rest s'

/-- A history of requests leaves only what may be kept, and keeps the library. -/
theorem Sound.afterAll (sound : cache.Sound files) {history : List (List String)}
    (told : ∀ theories ∈ history, Told theories) (s : Supply) :
    (cache.afterAll files history s).1.Sound files ∧
      (cache.afterAll files history s).1.library = cache.library := by
  induction history generalizing cache s with
  | nil => exact ⟨sound, rfl⟩
  | cons theories rest ih =>
    have later : ∀ others ∈ rest, Told others := fun others inside => told others (by simp [inside])
    rw [Cache.afterAll]
    rcases run : Build.runFrom (cache.get files theories) s with ⟨failure | ⟨loaded, cache'⟩, s'⟩
    · exact ih sound later s'
    · obtain ⟨-, sound', library⟩ := sound.get (told theories (by simp)) run
      rw [← library]
      exact ih sound' later s'

/-- Whatever was asked for before, a request for theories answers with an environment that loading
them gives, or fails where and as loading them does. -/
theorem get_transparent (files : Access Id) (library : Library) (size : Int)
    {history : List (List String)} (told : ∀ theories ∈ history, Told theories)
    {theories : List String} (asked : Told theories) {s₀ s : Supply} {cache : Cache}
    (after : (make library size).afterAll files history s₀ = (cache, s)) :
    match Build.runFrom (cache.get files theories) s with
    | (.ok (loaded, _), _) => library.Loads files theories loaded.environment ∧
        loaded.environment.theories = theories
    | (.error failure, s') => (library.loading files theories).runFrom s =
        (.error failure, s') := by
  obtain ⟨sound, same⟩ := (sound_make files library size).afterAll told s₀
  rw [after] at sound same
  change cache.library = library at same
  subst same
  rcases run : Build.runFrom (cache.get files theories) s with ⟨failure | ⟨loaded, cache'⟩, s'⟩
  · rcases lookup : cache.entries.lookup (keyOf theories) with _ | kept
    · rw [get_missing lookup] at run
      rcases ran : (cache.library.loading files theories).runFrom s with ⟨failure' | env, s₁⟩ <;>
        rw [ran] at run <;> cases run
      rfl
    · rw [get_kept lookup] at run
      cases run
  · have loads := (sound.get asked run).1
    exact ⟨loads, loads.theories⟩

/-- The text of two names is that of one name with a comma. -/
example : keyOf ["logic", "set"] = keyOf ["logic,set"] := by decide

end Cache

end Turnstile
