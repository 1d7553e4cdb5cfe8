import Turnstile.Cache
import Turnstile.Document.Number
import Turnstile.Document.Reader
import Turnstile.Proof

/-!
# Proof scripts

A proof script is a document with proofs to be checked against some theories:

    theories: [logic]
    proofs:
      - name: excluded middle
        goal: "|- a or not a"
        plan: excluded_middle()

A script that names no theories is checked against default ones. Keys with other names are
passed over; a key that is there twice or has a value of another form makes the script
unreadable.
-/

namespace Turnstile

/-- Proofs with the theories they are checked against. -/
structure ProofScript where
  /-- The path of the file. -/
  path : String := ""
  /-- The theories; none stands for the default ones. -/
  theories : List String := []
  /-- The proofs in order. -/
  proofs : List Proof := []
  deriving DecidableEq, Repr, Inhabited

namespace Document.Node

/-- The entries of a mapping whose keys are all different; nothing counts as no entries. -/
def entries? : Node → Option (List (String × Node))
  | mapping entries => if (entries.map Prod.fst).Nodup then some entries else none
  | node => if node.isNull then some [] else none

/-- The items of a list without those that are nothing; nothing counts as no items. -/
def items? : Node → Option (List Node)
  | list items => some (items.filter fun item => !item.isNull)
  | node => if node.isNull then some [] else none

/-- A text; nothing counts as the empty text. -/
def text? : Node → Option String
  | text value quoted => some (if (text value quoted).isNull then "" else value)
  | _ => none

/-- A list of texts. -/
def texts? (node : Node) : Option (List String) := node.items?.bind fun items => items.mapM text?

/-- A whole number; nothing counts as zero. -/
def number? : Node → Option Int
  | text value quoted =>
    if (text value quoted).isNull then some 0 else if quoted then none else int? value
  | _ => none

end Document.Node

namespace ProofScript

open Document

/-- What a key is mapped to. -/
def valueOf (entries : List (String × Node)) (key : String) : Node :=
  (entries.lookup key).getD .null

/-- The proof that a part of a document describes. -/
def proof? (node : Node) : Option Proof := do
  let entries ← node.entries?
  return {
    name := ← (valueOf entries "name").text?
    goal := ← (valueOf entries "goal").text?
    plan := ← (valueOf entries "plan").text?
    steps := ← (valueOf entries "steps").texts?
    expected := ← (valueOf entries "open").number? }

/-- The proof script that a document describes. -/
def ofDocument? (path : String) (node : Node) : Option ProofScript := do
  let entries ← node.entries?
  let proofs ← (valueOf entries "proofs").items?
  return {
    path := path
    theories := ← (valueOf entries "theories").texts?
    proofs := ← proofs.mapM proof? }

/-- Read a proof script. -/
def read (path text : String) : Except Failure ProofScript :=
  match (Document.read? text).bind (ofDocument? path) with
  | some script => .ok script
  | none => .error (.within (.file path) .document)

end ProofScript

/-- The outcome of checking a proof of a script. -/
structure ScriptVerdict where
  /-- The path of the script. -/
  script : String
  /-- The environment that the proof was checked in. -/
  environment : Environment
  /-- The outcome. -/
  verdict : Verdict

namespace Cache

variable {m : Type → Type} [Monad m]

/-- The environments of some scripts, in order. -/
def environments (files : Access m) (defaults : List String) :
    Cache → List ProofScript → Loading m (List Environment × Cache)
  | cache, [] => return ([], cache)
  | cache, script :: rest => do
    let theories := if script.theories.isEmpty then defaults else script.theories
    let (loaded, cache) ← tryCatch (cache.get files theories) fun failure =>
      throw (.within (.file script.path) failure)
    let (more, cache) ← environments files defaults cache rest
    return (loaded.environment :: more, cache)

/-- Check the proofs of some scripts. No proof is checked before all theories are loaded. -/
def checkScripts (files : Access m) (cache : Cache) (defaults : List String)
    (scripts : List ProofScript) : Loading m (List ScriptVerdict × Cache) := do
  let (environments, cache) ← cache.environments files defaults scripts
  let verdicts ← (scripts.zip environments).mapM fun (script, env) =>
    script.proofs.mapM fun proof => do
      let verdict ← Build.toLoading (env.check proof)
      return (⟨script.path, env, verdict⟩ : ScriptVerdict)
  return (verdicts.flatten, cache)

end Cache

end Turnstile
