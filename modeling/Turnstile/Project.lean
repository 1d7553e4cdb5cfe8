import Turnstile.Cache
import Turnstile.Settings.Reader
import Turnstile.Text.Key

/-!
# Projects

A project is a folder with a project file, which names the theories to load by default, folders
with more theories and the size of the cache. The project of a folder is the nearest one above
it; the search does not go beyond the root of a repository.
-/

namespace Turnstile

/-- What a project file says. -/
structure Project where
  /-- The path of the project file. -/
  path : String
  /-- The theories to load by default; none stands for the usual ones. -/
  theories : List String
  /-- Folders with more theories. -/
  folders : List String
  /-- How many environments are kept; none if it is not positive. -/
  cacheSize : Int
  deriving DecidableEq, Repr, Inhabited

namespace Settings

/-- The settings under a key; capitals do not count. -/
def Progress.valuesOf (p : Progress) (name : String) : List Setting :=
  p.settings.filter fun s => s.key.head?.any (Text.spells · name)

/-- Whether a key is that of a table. -/
def Progress.hasTable (p : Progress) (name : String) : Bool :=
  p.tables.any fun key => key.head?.any (Text.spells · name)

/-- The text of a value. -/
def Value.text? : Value → Option String
  | .text value => some value
  | _ => none

/-- The texts of a list. -/
def Value.texts? : Value → Option (List String)
  | .list items => items.mapM Value.text?
  | _ => none

/-- The number of a value. -/
def Value.int? : Value → Option Int
  | .int value => some value
  | _ => none

/-- What a key is set to, read by `read`; a key that is not set has the given value. Of several
spellings the last one counts, but all of them must be readable. -/
def Progress.get? {α : Type} (p : Progress) (name : String) (read : Value → Option α)
    (fallback : α) : Option α :=
  if p.hasTable name then none
  else
    let found := (p.valuesOf name).mapM fun s => if s.key.length = 1 then read s.value else none
    found.map fun values => values.getLast?.getD fallback

end Settings

namespace Project

/-- The name of project files. -/
def fileName : String := "cheqed.toml"

/-- The name of the folder that marks the root of a repository. -/
def rootMark : String := ".git"

/-- A folder as a project file means it: seen from where the file lies. -/
def resolve (path folder : String) : String :=
  if Path.isAbsolute folder then folder else Path.join (Path.parent path) folder

/-- The project that a file's text describes. -/
def read? (path text : String) : Option Project := do
  let settings ← Settings.read? text
  let theories ← settings.get? "theories" Settings.Value.texts? []
  let folders ← settings.get? "theory_path" Settings.Value.texts? []
  let cacheSize ← settings.get? "cache_size" Settings.Value.int? 0
  return ⟨path, theories, folders.map (resolve path), cacheSize⟩

variable {m : Type → Type} [Monad m]

/-- The project whose file lies in a folder, if there is one there. -/
def load (files : Access m) (path : String) : m (Except Failure Project) := do
  match ← files.read path with
  | .error _ => return .error .settings
  | .ok text =>
    match read? path text with
    | some project => return .ok project
    | none => return .error .settings

/-- What a folder says about the project of the folders below it: a project file settles it, and
so does the mark of a repository. The folder is given by its parts, the last one first. -/
def lookIn (files : Access m) (parts : List String) :
    m (Option (Except Failure (Option Project))) := do
  let folder := "/" ++ "/".intercalate parts.reverse
  let path := Path.join folder fileName
  if ← files.isPresent path then return some ((← load files path).map some)
  else if ← files.isPresent (Path.join folder rootMark) then return some (.ok none)
  else return none

/-- The project of a folder given by its parts, the last one first. -/
def findUp (files : Access m) : (parts : List String) → m (Except Failure (Option Project))
  | [] => do return (← lookIn files []).getD (.ok none)
  | part :: above => do
    match ← lookIn files (part :: above) with
    | some result => return result
    | none => findUp files above

/-- The project of a folder. -/
def find (files : Access m) (folder : String) : m (Except Failure (Option Project)) :=
  findUp files ((Path.parts (Path.clean folder)).filter (· ≠ "")).reverse

/-- The theories that a project loads by default. -/
def theoryNames (project : Option Project) : List String :=
  match project with
  | some p => if p.theories.isEmpty then defaultTheories else p.theories
  | none => defaultTheories

/-- Where a project looks up theories. -/
def library (project : Option Project) : Library :=
  ⟨(project.map Project.folders).getD []⟩

/-- An empty cache of the size that a project asks for. -/
def cache (project : Option Project) : Cache :=
  .make (library project) ((project.map Project.cacheSize).getD 0)

end Project

end Turnstile
