import Turnstile.Cache
import Turnstile.Proof
import Turnstile.Service.Params

/-!
# The methods of the service

The service answers requests about formulas and plans. Plans travel as text, in which
`assumption()` marks an open goal, so nothing is kept between requests but the cache of
environments and the identities that are out of use. What can go wrong is reported under a code.
-/

namespace Turnstile.Service

/-- The report of a request that failed. -/
structure Fault where
  /-- The kind of fault. -/
  code : Int
  /-- What is wrong. -/
  message : String
  /-- More about it. -/
  data : Option Json := none
  deriving Repr, Inhabited

namespace Fault

/-- The code of a request that is none. -/
def unreadable : Int := -32700

/-- The code of a malformed request. -/
def badRequest : Int := -32600

/-- The code of a method that does not exist. -/
def noMethod : Int := -32601

/-- The code of parameters that are of no use. -/
def badParams : Int := -32602

/-- The code of a rule that does not apply. -/
def notApplicable : Int := -32001

/-- The code of a plan whose branches do not fit. -/
def misbranched : Int := -32002

/-- The code of any other failure. -/
def failed : Int := -32098

/-- Whether a failure lies in the text that was sent. -/
def isTextual : Failure → Bool
  | .malformed _ _ => true
  | .plan _ _ _ => true
  | .planPart _ _ _ _ => true
  | .noOpenGoal _ _ => true
  | _ => false

/-- Whether a failure is that of a rule that does not apply. -/
def isRefusal : Failure → Bool
  | .refused _ _ => true
  | _ => false

/-- Whether a failure is that of a plan whose branches do not fit. -/
def isMisbranched : Failure → Bool
  | .branching _ _ _ => true
  | _ => false

/-- The report of a failure. -/
def ofFailure (failure : Failure) : Fault :=
  let code :=
    if failure.involves isTextual then badParams
    else if failure.involves isRefusal then notApplicable
    else if failure.involves isMisbranched then misbranched
    else failed
  ⟨code, failure.message, none⟩

end Fault

/-- What the service keeps. -/
structure State where
  /-- The environments used last. -/
  cache : Cache
  /-- The theories of requests that name none. -/
  theories : List String
  /-- The identities of calls of methods that do not exist, which no later request may have. -/
  spent : List String := []
  deriving Inhabited

/-- An answer in the making. -/
abbrev Answer (m : Type → Type) := ExceptT Fault (StateT State (StateT Supply m))

variable {m : Type → Type} [Monad m]

/-- A computation with access to files within an answer. -/
def liftLoading {α : Type} (loading : Loading m α) (report : Failure → Fault) : Answer m α :=
  fun state supply => do
    match ← loading supply with
    | (.ok value, supply) => return ((.ok value, state), supply)
    | (.error failure, supply) => return ((.error (report failure), state), supply)

/-- A build within an answer. -/
def build {α : Type} (b : Build α) : Answer m α := liftLoading b.toLoading Fault.ofFailure

/-- The environment of a request. -/
def environment (files : Access m) (params : Params) : Answer m Environment := do
  let state ← get
  let names := if params.theories.isEmpty then state.theories else params.theories
  let (loaded, cache) ← liftLoading (state.cache.get files names) fun failure =>
    ⟨Fault.badParams, "loading theories: " ++ failure.message, none⟩
  set { state with cache := cache }
  return loaded.environment

/-! ## Results -/

/-- Free variables with their types. -/
def freeJson (free : List Symbol) : Json := .strings (free.map Symbol.render)

/-- What is known about a rule; what is empty is left out. -/
def ruleJson (d : Descriptor) : Json :=
  let optional (name value : String) : List (String × Json) :=
    if value.isEmpty then [] else [(name, .string value)]
  .object ([("name", .string d.name), ("kind", .string d.kind.text),
    ("signature", .string d.signature)] ++ optional "theory" d.theory ++ optional "doc" d.doc)

/-- An object from pairs, of which the last one of each key counts. -/
def objectOf (pairs : List (String × String)) : Json :=
  .object ((Json.latest pairs).map fun (key, value) => (key, .string value))

/-- A plan with the goals it leaves open. -/
def planState (env : Environment) (p : Plan) (goal : Sequent) : Answer m Json := do
  let goals ← build (p.subgoals goal)
  return .object [("plan", .string (env.showPlan p)),
    ("open", .strings (goals.map env.showSequent))]

/-- A line of a trace. -/
def lineJson (env : Environment) (line : Line (Plan × Sequent)) : Json :=
  .object [("depth", .int line.depth), ("goal", .string (env.showSequent line.item.2)),
    ("rule", .string (env.showPlan line.item.1))]

/-- A trace. -/
def traceJson (env : Environment) (trace : Trace) : Json :=
  .object [("lines", .array (trace.lines.map (lineJson env))),
    ("open", .strings (trace.remaining.map env.showSequent)),
    ("complete", .bool trace.complete), ("text", .string (env.showTrace trace))]

/-- The declarations of an environment. -/
def theoryJson (env : Environment) : Json :=
  .object [("theories", .strings env.theories),
    ("constants", objectOf (env.constants.map fun c => (c.name, c.type.render))),
    ("definitions", objectOf (env.theory.definitions.map fun d =>
      (d.name, env.showTerm d.value))),
    ("axioms", objectOf (env.theory.postulates.map fun p => (p.name, env.showTerm p.formula)))]

/-! ## Requests -/

/-- The result of a method for some parameters. -/
def run (files : Access m) (method : Method) (params : Params) : Answer m Json := do
  let env ← environment files params
  match method with
  | .parse =>
    if params.sequent then
      let goal ← build (env.parseSequent params.text)
      return .object [("text", .string (env.showSequent goal)),
        ("free", freeJson goal.freeVariables)]
    else
      let t ← build (env.parse params.text)
      return .object [("text", .string (env.showTerm t)), ("free", freeJson t.freeVariables)]
  | .printTerm => return .string (env.showTerm (← build (env.parse params.text)))
  | .printProof => return .string (env.showPlan (← build (env.evaluate params.text)))
  | .evaluate =>
    let p ← build (env.evaluate params.plan)
    return .object [("plan", .string (env.showPlan p)), ("outline", .string (env.outline p))]
  | .rules => return .array (env.rules.rules.map ruleJson)
  | .applicableRules =>
    let goal ← build (env.parseSequent params.goal)
    return .array ((← build (env.applicableRules goal)).map ruleJson)
  | .start =>
    let goal ← build (env.parseSequent params.goal)
    planState env (← build Environment.start) goal
  | .advance =>
    let goal ← build (env.parseSequent params.goal)
    let p ← build (env.evaluate params.plan)
    planState env (← build (env.advance p goal params.index params.rule)) goal
  | .trace =>
    let goal ← build (env.parseSequent params.goal)
    let p ← build (env.evaluate params.plan)
    return traceJson env (← build (p.record goal))
  | .theory => return theoryJson env

/-- The parameters of a call. -/
def paramsOf (method : Method) : Option Json → Except Fault Params
  | none =>
    if method.needsNone then .ok {} else .error ⟨Fault.badParams, "missing parameters", none⟩
  | some value =>
    (Params.read method value).mapError fun fault =>
      ⟨Fault.badParams, "invalid parameters", some (.string fault.message)⟩

/-- Call a method by name. -/
def call (files : Access m) (name : String) (params : Option Json) : Answer m Json := do
  if name.isEmpty then throw ⟨Fault.badRequest, "empty method name", none⟩
  else
    match Method.ofName? name with
    | none => throw ⟨Fault.noMethod, "method not found", some (.string name)⟩
    | some method => run files method (← paramsOf method params)

end Turnstile.Service
