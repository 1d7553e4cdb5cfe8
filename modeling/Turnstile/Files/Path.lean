/-!
# Paths

A path is a text with its parts between slashes. `Path.clean` gives the shortest path that means
the same without looking at any file: empty parts and single dots fall away, and two dots cancel
the part before them.
-/

namespace Turnstile.Path

/-- Whether a path starts at the root. -/
def isAbsolute (path : String) : Bool := path.startsWith "/"

/-- The parts between the slashes, empty ones included. -/
def parts (path : String) : List String := path.splitOn "/"

/-- Put one more part on top of cleaned parts, the last one first. Above the root there is
nothing; above the start of a relative path two dots stay. -/
def push (absolute : Bool) (stack : List String) (part : String) : List String :=
  if part = "" || part = "." then stack
  else if part = ".." then
    match stack with
    | [] => if absolute then [] else [".."]
    | top :: rest => if top = ".." then ".." :: top :: rest else rest
  else part :: stack

/-- The shortest path that means the same. -/
def clean (path : String) : String :=
  let absolute := isAbsolute path
  let kept := "/".intercalate ((parts path).foldl (push absolute) []).reverse
  if absolute then "/" ++ kept else if kept.isEmpty then "." else kept

/-- A path below a folder. -/
def join (folder path : String) : String := clean (folder ++ "/" ++ path)

/-- A path from the root, a relative one being seen from a folder. Nothing is cleaned. -/
def locate (folder path : String) : String :=
  if isAbsolute path then path else folder ++ "/" ++ path

/-- The folder that a cleaned path lies in; the root lies in itself. -/
def parent (path : String) : String :=
  clean ("/".intercalate (parts path).dropLast ++ "/")

/-- Whether a name stays below the folder it is looked up in and has one spelling only: no part
is empty or made of dots alone. -/
def isInner (name : String) : Bool :=
  (parts name).all fun part => part ≠ "" && part ≠ "." && part ≠ ".."

end Turnstile.Path
