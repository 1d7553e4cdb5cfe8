import Turnstile.Library

/-!
# Caches of environments

A cache loads the environment of a list of theories when it is first asked for and keeps the
ones that were used last. A list that cannot be loaded is not kept.
-/

namespace Turnstile

/-- A computation that has access to files, draws on the supply and may fail. -/
abbrev Loading (m : Type → Type) := ExceptT Failure (StateT Supply m)

/-- A build among computations with access to files. -/
def Build.toLoading {m : Type → Type} [Monad m] {α : Type} (build : Build α) : Loading m α :=
  fun supply => return build.runFrom supply

/-- An environment with its place in the order of loading. -/
structure Loaded where
  /-- How many environments were loaded before it. -/
  number : Nat
  /-- The environment. -/
  environment : Environment
  deriving Inhabited

/-- The environments used last. -/
structure Cache where
  /-- Where theories are looked up. -/
  library : Library
  /-- How many environments are kept at most. -/
  capacity : Nat
  /-- How many environments have been loaded. -/
  loads : Nat
  /-- What is kept, by the names of the theories, the last used first. -/
  entries : List (String × Loaded)
  deriving Inhabited

namespace Cache

/-- How many environments are kept where no positive number is given. -/
def defaultCapacity : Nat := 8

/-- An empty cache. -/
def make (library : Library) (size : Int) : Cache :=
  ⟨library, if size ≤ 0 then defaultCapacity else size.toNat, 0, []⟩

/-- How many environments are kept now. -/
def size (cache : Cache) : Nat := cache.entries.length

/-- What identifies a list of theories. -/
def keyOf (theories : List String) : String := ",".intercalate theories

/-- Put an entry first, keeping no more than the capacity allows. -/
def use (cache : Cache) (key : String) (loaded : Loaded) : Cache :=
  { cache with
    entries := ((key, loaded) :: cache.entries.filter fun e => e.1 != key).take cache.capacity }

variable {m : Type → Type} [Monad m]

/-- The environment of some theories, loaded if it is not kept. -/
def get (files : Access m) (cache : Cache) (theories : List String) :
    Loading m (Loaded × Cache) := do
  let key := keyOf theories
  match cache.entries.lookup key with
  | some loaded => return (loaded, cache.use key loaded)
  | none =>
    let found ← (cache.library.declarations files theories : m _)
    let environment ← (do (← found).load : Build Environment).toLoading
    let loaded : Loaded := ⟨cache.loads, environment⟩
    return (loaded, { cache with loads := cache.loads + 1 }.use key loaded)

end Cache

end Turnstile
