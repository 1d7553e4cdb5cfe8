import Turnstile.Command.Invocation
import Turnstile.Command.Style
import Turnstile.Project
import Turnstile.ProofScript
import Turnstile.Service.Server

/-!
# Running commands

A command is run in a folder, with access to files. It first makes the log file, if one is asked
for, and looks for the project of the folder; what it then prints, and how it failed, is its
outcome.
-/

namespace Turnstile.Command

/-- What every command works with. -/
structure Setting where
  /-- The folder that the command is run in. -/
  folder : String
  /-- The environments used last. -/
  cache : Cache
  /-- The theories to load. -/
  theories : List String
  /-- Whether the output is marked for terminals. -/
  color : Bool

/-- What came of a command. -/
inductive Outcome where
  /-- It has finished: what it printed and how it failed, if it did. -/
  | finished (out : String) (failure : Option Failure)
  /-- It answers requests from now on. -/
  | serving (state : Service.State)

/-! ## Output -/

/-- Free variables, one a line. -/
def freeText (color : Bool) (free : List Symbol) : String :=
  String.join (free.map fun v => "  " ++ paint color .dim v.render ++ "\n")

/-- Rules with what they do, one a line; the descriptions are aligned. -/
def rulesText (color : Bool) (rules : List Descriptor) : String :=
  let width := (rules.map fun d => d.signature.length).foldl Nat.max 0
  String.join (rules.map fun d =>
    paint color .rule d.signature ++ "".pushn ' ' (width - d.signature.length) ++ "  "
      ++ paint color .dim d.doc ++ "\n")

/-- The goals that are left open, or that none are. -/
def remainingText (color : Bool) (env : Environment) (goals : List Sequent) : String :=
  if goals.isEmpty then paint color .success "qed" ++ "\n"
  else
    paint color .remaining (toString goals.length ++ " open:") ++ "\n"
      ++ String.join (goals.zipIdx.map fun (goal, i) =>
        "  " ++ paint color .dim ("[" ++ toString i ++ "]") ++ " " ++ env.showSequent goal ++ "\n")

/-- A line of a trace. -/
def lineText (color : Bool) (env : Environment) (line : Line (Plan × Sequent)) : String :=
  let (p, goal) := line.item
  let indent := indentation line.depth
  indent ++ paint color .goal (env.showSequent goal) ++ "\n" ++ indent ++ "  "
    ++ (if p.isAssumption then paint color .remaining "?"
      else paint color .dim "by " ++ paint color .rule (env.showPlan p)) ++ "\n"

/-- A trace. -/
def traceText (color : Bool) (env : Environment) (trace : Trace) : String :=
  String.join (trace.lines.map (lineText color env)) ++ remainingText color env trace.remaining

/-- The declarations of an environment. -/
def theoryText (color : Bool) (env : Environment) : String :=
  let heading := paint color .heading
  heading "theories" ++ " " ++ ", ".intercalate env.theories ++ "\n"
    ++ heading "constants" ++ "\n"
    ++ String.join (env.constants.map fun c => "  " ++ c.render ++ "\n")
    ++ heading "precedence" ++ "\n"
    ++ String.join (env.vocabulary.levels.map fun level => "  " ++ level.text)
    ++ heading "definitions" ++ "\n"
    ++ String.join (env.theory.definitions.map fun d => "  " ++ env.showTerm d.equation ++ "\n")
    ++ heading "axioms" ++ "\n"
    ++ String.join (env.theory.postulates.map fun p =>
      "  " ++ paint color .rule p.name ++ "  " ++ env.showTerm p.formula ++ "\n")

/-- The outcome of checking a proof. -/
def verdictText (color : Bool) (v : ScriptVerdict) : String :=
  let name := paint color .dim (v.script ++ ":") ++ " " ++ v.verdict.proof ++ "\n"
  match v.verdict.failure with
  | none => paint color .success "ok" ++ "   " ++ name
  | some failure => paint color .failure "FAIL" ++ " " ++ name ++ "     " ++ failure.message ++ "\n"

/-! ## Commands -/

variable {m : Type → Type} [Monad m]

/-- The text of a file that is named on the command line. -/
def readFile (files : Access m) (folder path : String) : Loading m String := do
  let result ← if path.isEmpty then pure (.error .missing)
    else (files.read (Path.locate folder path) : m _)
  match result with
  | .ok text => return text
  | .error fault => throw (.outside (fault.whileReading path))

/-- The environment that a command works in. -/
def environment (files : Access m) (s : Setting) : Loading m Environment := do
  let (loaded, _) ← s.cache.get files s.theories
  return loaded.environment

/-- Read a formula and print it back with its free variables. -/
def runParse (env : Environment) (s : Setting) (parsed : Parsed) (text : String) :
    Build String := do
  if parsed.isOn "sequent" then
    let goal ← env.parseSequent text
    return env.showSequent goal ++ "\n" ++ freeText s.color goal.freeVariables
  else
    let t ← env.parse text
    return env.showTerm t ++ "\n" ++ freeText s.color t.freeVariables

/-- List the rules, or those that apply to a goal. -/
def runRules (env : Environment) (s : Setting) : Option String → Build String
  | none => return rulesText s.color env.rules.rules
  | some text => do
    let goal ← env.parseSequent text
    return rulesText s.color (← env.applicableRules goal)

/-- Run a plan on a goal and show it in the view that is asked for. -/
def runProve (env : Environment) (s : Setting) (parsed : Parsed) (goal plan : String) :
    Build String := do
  let goal ← env.parseSequent goal
  let p ← env.evaluate plan
  if parsed.isOn "compact" then return env.compact p ++ "\n"
  else if parsed.isOn "outline" then return env.outline p
  else if parsed.isOn "expand" then return env.showStep 0 (← p.step goal)
  else return traceText s.color env (← p.record goal)

/-- Replace an open goal of a plan by a rule and show the new plan. -/
def runAdvance (env : Environment) (s : Setting) (parsed : Parsed) (goal plan rule : String) :
    Build String := do
  let goal ← env.parseSequent goal
  let p ← env.evaluate plan
  let p ← env.advance p goal (parsed.int "index") rule
  let goals ← p.subgoals goal
  return paint s.color .rule (env.showPlan p) ++ "\n" ++ remainingText s.color env goals

/-- The proof script in a file that is named on the command line. -/
def readScript (files : Access m) (folder path : String) : Loading m ProofScript := do
  let text ← readFile files folder path
  ProofScript.read path text

/-- Check the proofs of some scripts. -/
def runCheck (files : Access m) (s : Setting) (paths : List String) : Loading m Outcome := do
  let scripts ← paths.mapM (readScript files s.folder)
  let (verdicts, _) ← s.cache.checkScripts files s.theories scripts
  let failed := verdicts.countP fun v => v.verdict.failure.isSome
  return .finished (String.join (verdicts.map (verdictText s.color)))
    (if failed = 0 then none else some (.proofsFailed failed verdicts.length))

/-- Run a command whose output is that of a build in its environment. -/
def printing (files : Access m) (s : Setting) (run : Environment → Build String) :
    Loading m Outcome := do
  let env ← environment files s
  return .finished (← (run env).toLoading) none

/-- Run a command with its arguments. -/
def execute (files : Access m) (s : Setting) (parsed : Parsed) (verb : Verb) :
    Loading m Outcome := do
  match verb, parsed.args with
  | .parse, text :: _ => printing files s fun env => runParse env s parsed text
  | .rules, args => printing files s fun env => runRules env s args.head?
  | .prove, goal :: plan :: _ =>
    match viewConflict? parsed with
    | some problem => throw (.outside problem)
    | none => printing files s fun env => runProve env s parsed goal plan
  | .advance, goal :: plan :: rule :: _ =>
    printing files s fun env => runAdvance env s parsed goal plan rule
  | .check, paths => runCheck files s paths
  | .theory, _ => printing files s fun env => return theoryText s.color env
  | .serve, _ => return .serving { cache := s.cache, theories := s.theories }
  | _, _ => return .finished "" none

/-- Make the log file that is asked for. -/
def makeLog (files : Access m) (folder path : String) : Loading m Unit := do
  if !path.isEmpty then
    match ← (files.make (Path.locate folder path) : m _) with
    | .ok () => return
    | .error fault => throw (.outside ("open log file: " ++ fault.whileMaking path))

/-- The project of a folder. -/
def projectOf (files : Access m) (folder : String) : Loading m (Option Project) := do
  match ← (Project.find files folder : m _) with
  | .ok project => return project
  | .error failure => throw (.within (.configuration Project.fileName) failure)

/-- What a command works with. -/
def prepare (files : Access m) (folder : String) (color : Bool) (parsed : Parsed) :
    Loading m Setting := do
  makeLog files folder (parsed.text "log-file")
  let project ← projectOf files folder
  let named := parsed.list "theory"
  return {
    folder := folder
    cache := Project.cache project
    theories := if named.isEmpty then Project.theoryNames project else named
    color := if parsed.isSet "no-color" then !parsed.isOn "no-color" else color }

/-- How the program is used. -/
def usage : String :=
  "usage: " ++ programName ++ " [flags] command [arguments]\ncommands: "
    ++ ", ".intercalate (Verb.all.map Verb.name) ++ "\n"

/-- Run a command line in a folder; `color` says whether output is marked unless the command
line says otherwise. -/
def run (files : Access m) (folder : String) (color : Bool) (args : List String) :
    StateT Supply m Outcome := do
  let loading : Loading m Outcome := do
    match ← (Invocation.read args : Except Failure Invocation) with
    | .help => return .finished usage none
    | .run verb parsed => execute files (← prepare files folder color parsed) parsed verb
  match ← loading.run with
  | .ok outcome => return outcome
  | .error failure => return .finished "" (some failure)

end Turnstile.Command
