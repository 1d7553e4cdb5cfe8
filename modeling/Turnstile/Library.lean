import Turnstile.Environment.Basic
import Turnstile.Files.Tree
import Turnstile.Script.Run
import Turnstile.Theories.Logic
import Turnstile.Theories.Sets

/-!
# Libraries

A library is where theories are looked up by name: some are built in, others are scripts in
folders. A later folder shadows earlier ones, and every folder shadows what is built in.
-/

namespace Turnstile

/-- Where theories are looked up. -/
structure Library where
  /-- The folders of theory scripts; the last one is looked at first. -/
  folders : List String
  deriving DecidableEq, Repr, Inhabited

/-- The theories that every library has. -/
def builtinTheories : List (String × Declarations) :=
  [("logic", Theories.logic), ("set", Theories.sets)]

/-- The theories that are loaded where none are asked for. -/
def defaultTheories : List String := ["logic", "set"]

namespace Library

/-- The library of the built-in theories. -/
def builtin : Library := ⟨[]⟩

/-- The name of the file that holds a theory's script. -/
def fileName (theory : String) : String := theory ++ ".star"

/-- The built-in theory with a name. -/
def builtinTheory (name : String) : Except Failure Declarations :=
  if Path.isInner (fileName name) then
    match builtinTheories.lookup name with
    | some d => .ok d
    | none => .error (.unknownTheory name)
  else .error (.outside ("read " ++ fileName name ++ ": invalid argument"))

/-- The theory that a script declares under a name. -/
def readScript (name text : String) : Except Failure Declarations :=
  (Context.theory name).report
    ((Declarations.ofScript text).map fun d => { d with theories := [name] })

variable {m : Type → Type} [Monad m]

/-- The theory with a name from the first folder that has its script, or the built-in one. -/
def theoryIn (files : Access m) (name : String) : (folders : List String) →
    m (Except Failure Declarations)
  | [] => return builtinTheory name
  | folder :: rest => do
    if !Path.isInner (fileName name) then
      return .error (.outside ("readfile " ++ fileName name ++ ": invalid argument"))
    else
      match ← files.read (Path.locate folder (fileName name)) with
      | .ok text => return readScript name text
      | .error .missing => theoryIn files name rest
      | .error fault => return .error (.outside (fault.whileReading (fileName name)))

/-- The theory with a name. -/
def theory (files : Access m) (library : Library) (name : String) :
    m (Except Failure Declarations) :=
  theoryIn files name library.folders.reverse

/-- What the theories with some names declare, in order. -/
def declarations (files : Access m) (library : Library) : List String →
    m (Except Failure Declarations)
  | [] => return .ok {}
  | name :: rest => do
    match ← library.theory files name with
    | .error failure => return .error failure
    | .ok d => return (← declarations files library rest).map (d ++ ·)

end Library

end Turnstile
