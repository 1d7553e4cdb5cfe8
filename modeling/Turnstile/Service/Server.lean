import Turnstile.Service.Methods

/-!
# Requests and replies

A request is a JSON object on a line of its own, or several in an array; the reply has the same
form. A request without an identity gets a reply only if it is malformed. Requests that come
together have different identities, and the identity of a call of a method that does not exist
cannot be used again.
-/

namespace Turnstile.Service

/-- The report of a request with an identity that is in use. -/
def Fault.duplicate (identity : String) : Fault :=
  ⟨badRequest, "duplicate request ID", some (.string identity)⟩

/-- A request as it came in, with what is wrong with its form. -/
structure Request where
  /-- What the reply refers to. -/
  id : Option Json := none
  /-- The version of the protocol. -/
  version : String := ""
  /-- The name of the method. -/
  method : String := ""
  /-- The parameters. -/
  params : Option Json := none
  /-- Whether there are members of a reply. -/
  isReply : Bool := false
  /-- The members that mean nothing. -/
  extra : List String := []
  /-- The first fault found. -/
  fault : Option Fault := none
  deriving Repr, Inhabited

namespace Request

/-- A request with a fault, unless one was found before. -/
def blame (r : Request) (code : Int) (message : String) : Request :=
  { r with fault := r.fault <|> some ⟨code, message, none⟩ }

/-- Whether a number is the code of a failure: a whole number of 32 bits. -/
def isCode (spelling : String) : Bool :=
  (wordOf? spelling).any fun n => decide (-2147483648 ≤ n) && decide (n ≤ 2147483647)

/-- Whether a member may stand in the report of a failure. -/
def isReportMember : String × Json → Bool
  | (_, .null) => true
  | (key, .number spelling) =>
    if Text.spells key "code" then isCode spelling else !Text.spells key "message"
  | (key, .string _) => !Text.spells key "code"
  | (key, _) => !Text.spells key "code" && !Text.spells key "message"

/-- Whether a value reports a failure, as a reply does. -/
def isReport : Json → Bool
  | .object members => members.all isReportMember
  | _ => false

/-- A request with one more member read. -/
def readMember (r : Request) : String × Json → Request
  | ("jsonrpc", .string version) => { r with version := version }
  | ("jsonrpc", .null) => r
  | ("jsonrpc", _) => r.blame Fault.unreadable "invalid version key"
  | ("id", .null) => r
  | ("id", .string value) => { r with id := some (.string value) }
  | ("id", .number value) => { r with id := some (.number value) }
  | ("id", _) => r.blame Fault.badRequest "invalid request ID"
  | ("method", .string name) => { r with method := name }
  | ("method", .null) => r
  | ("method", _) => r.blame Fault.unreadable "invalid method name"
  | ("params", .null) => r
  | ("params", .array items) => { r with params := some (.array items) }
  | ("params", .object members) => { r with params := some (.object members) }
  | ("params", _) => r.blame Fault.badRequest "parameters must be array or object"
  | ("error", .null) => r
  | ("error", value) =>
    if isReport value then { r with isReply := true }
    else r.blame Fault.unreadable "invalid error value"
  | ("result", _) => { r with isReply := true }
  | (key, _) => { r with extra := r.extra ++ [key] }

/-- The faults that concern a request as a whole. -/
def finish (r : Request) : Request :=
  let r := if r.version ≠ "2.0" then r.blame Fault.badRequest "invalid version marker" else r
  let r := if r.method ≠ "" && r.isReply then
      r.blame Fault.badRequest "mixed request and reply fields"
    else r
  if r.extra.isEmpty then r
  else { r with fault :=
    r.fault <|> some ⟨Fault.badRequest, "extra fields in request", some (.strings r.extra)⟩ }

/-- The request that a value spells; null is a request without members. -/
def ofJson : Json → Request
  | .object members => ((Json.latest members).foldl readMember {}).finish
  | .null => finish {}
  | _ => Request.blame {} Fault.unreadable "request is not a JSON object"

/-- The identity of a well-formed request, as it is spelled. -/
def identity? (r : Request) : Option String :=
  if r.fault.isSome then none else r.id.map Json.render

/-- A request with the faults that show in its surroundings: its identity is spent or is that of
another one of the requests that came together, or it calls nothing. -/
def place (spent : List String) (together : List Request) (r : Request) : Request :=
  let r := match r.identity? with
    | none => r
    | some identity =>
      if spent.contains identity || 1 < (together.filterMap identity?).count identity then
        { r with fault := some (.duplicate identity) }
      else r
  if r.method.isEmpty then r.blame Fault.badRequest "empty method name" else r

/-- The identity that a request spends: it calls a method that does not exist. -/
def spends? (r : Request) : Option String :=
  if (Method.ofName? r.method).isNone then r.identity? else none

end Request

/-- A fault as part of a reply. -/
def Fault.toJson (fault : Fault) : Json :=
  .object ([("code", .int fault.code), ("message", .string fault.message)]
    ++ (fault.data.map fun data => ("data", data)).toList)

/-- A reply to a request with an identity. -/
def reply (id : Json) (result : Except Fault Json) : Json :=
  .object [("jsonrpc", .string "2.0"), ("id", id), match result with
    | .ok value => ("result", value)
    | .error fault => ("error", fault.toJson)]

/-- A computation that changes what the service keeps. -/
abbrev Serving (m : Type → Type) := StateT State (StateT Supply m)

variable {m : Type → Type} [Monad m]

/-- The reply to a request, if it gets one. -/
def respond (files : Access m) (request : Request) : Serving m (Option Json) := do
  match request.fault with
  | some fault => return some (reply (request.id.getD .null) (.error fault))
  | none =>
    let result ← (call files request.method request.params).run
    modify fun state => { state with spent := state.spent ++ request.spends?.toList }
    return request.id.map fun id => reply id result

/-- The replies to requests, in order. -/
def respondEach (files : Access m) : List Request → Serving m (List Json)
  | [] => return []
  | request :: rest => do
    let first ← respond files request
    let more ← respondEach files rest
    return first.toList ++ more

/-- The replies to the requests that values spell, which came together. -/
def respondAll (files : Access m) (values : List Json) : Serving m (List Json) := do
  let requests := values.map Request.ofJson
  let spent := (← get).spent
  respondEach files (requests.map (Request.place spent requests))

/-- The reply to a line, if it gets one. -/
def respondTo (files : Access m) (line : String) : Serving m (Option Json) := do
  match Json.parse? line with
  | none => return some (reply .null (.error ⟨Fault.unreadable, "invalid request value", none⟩))
  | some (.array []) =>
    return some (reply .null (.error ⟨Fault.badRequest, "empty request batch", none⟩))
  | some (.array items) => do
    let replies ← respondAll files items
    return if replies.isEmpty then none else some (.array replies)
  | some value => return (← respondAll files [value]).head?

end Turnstile.Service
