import Turnstile.Json
import Turnstile.Text.Key
import Turnstile.Word

/-!
# Parameters of requests

The methods of the service and the parameters that each of them reads. Parameters are given by
name, capitals not counting; a parameter that is absent or null keeps its default, and names
that a method does not read are passed over. A parameter that is given again is read over what
was there.
-/

namespace Turnstile.Service

/-- The methods. -/
inductive Method where
  | parse
  | printTerm
  | printProof
  | evaluate
  | rules
  | applicableRules
  | start
  | advance
  | trace
  | theory
  deriving DecidableEq, Repr, Inhabited

/-- The parameters. -/
inductive Parameter where
  | theories
  | text
  | sequent
  | plan
  | goal
  | index
  | rule
  deriving DecidableEq, Repr, Inhabited

/-- The name of a parameter. -/
def Parameter.name : Parameter → String
  | theories => "theories"
  | text => "text"
  | sequent => "sequent"
  | plan => "plan"
  | goal => "goal"
  | index => "index"
  | rule => "rule"

namespace Method

/-- The method with a name. -/
def ofName? : String → Option Method
  | "parse" => some parse
  | "print_term" => some printTerm
  | "print_proof" => some printProof
  | "evaluate" => some evaluate
  | "rules" => some rules
  | "applicable_rules" => some applicableRules
  | "start" => some start
  | "advance" => some advance
  | "trace" => some trace
  | "theory" => some theory
  | _ => none

/-- The parameters that a method reads. -/
def parameters : Method → List Parameter
  | parse => [.theories, .text, .sequent]
  | printTerm => [.theories, .text]
  | printProof => [.theories, .text]
  | evaluate => [.theories, .plan]
  | rules => [.theories]
  | applicableRules => [.theories, .goal]
  | start => [.theories, .goal]
  | advance => [.theories, .goal, .plan, .index, .rule]
  | trace => [.theories, .goal, .plan]
  | theory => [.theories]

/-- Whether a method can be called without parameters. -/
def needsNone : Method → Bool
  | rules => true
  | theory => true
  | _ => false

end Method

/-- The values of all parameters. -/
structure Params where
  /-- The theories; none stands for those of the service. -/
  theories : List String := []
  /-- What a longer list of theories left behind the one that was read over it. -/
  leftOver : List String := []
  /-- A formula or plan. -/
  text : String := ""
  /-- Whether the text is a sequent. -/
  sequent : Bool := false
  /-- A plan. -/
  plan : String := ""
  /-- A goal. -/
  goal : String := ""
  /-- The number of an open goal. -/
  index : Int := 0
  /-- A rule. -/
  rule : String := ""
  deriving DecidableEq, Repr, Inhabited

/-! ## What does not fit -/

/-- A value that is not of the form that is read. -/
structure Misfit where
  /-- What was found. -/
  found : String
  /-- What is read. -/
  wanted : String
  /-- Its place in a list, if it stands in one. -/
  place : Option Nat := none
  deriving DecidableEq, Repr

/-- What is wrong with the parameters of a call. -/
inductive ParamFault where
  /-- They are not given by name. -/
  | unnamed (method : Method)
  /-- The one that is given under a key has a value of another form. -/
  | misfit (method : Method) (key : String) (value : Misfit)
  deriving DecidableEq, Repr

namespace Method

/-- What the parameters of a method are called together. -/
def groupName : Method → String
  | parse => "ParseParams"
  | printTerm => "TextParams"
  | printProof => "TextParams"
  | evaluate => "EvaluateParams"
  | rules => "Env"
  | applicableRules => "GoalParams"
  | start => "GoalParams"
  | advance => "AdvanceParams"
  | trace => "TraceParams"
  | theory => "Env"

end Method

/-- The wording of what is wrong with parameters. -/
def ParamFault.message : ParamFault → String
  | unnamed method => "json: cannot unmarshal array into Go value of type rpc." ++ method.groupName
  | misfit method key value =>
    let field := method.groupName ++ "." ++ key
    let target := match value.place with
      | none => "Go struct field " ++ field
      | some place => field ++ "." ++ toString place
    "json: cannot unmarshal " ++ value.found ++ " into " ++ target ++ " of type " ++ value.wanted

/-! ## Reading -/

/-- What kind of value a value is. -/
def kindOf : Json → String
  | .null => "null"
  | .bool _ => "bool"
  | .number _ => "number"
  | .string _ => "string"
  | .array _ => "array"
  | .object _ => "object"

/-- A text; null keeps what was there. -/
def readText (old : String) : Json → Except Misfit String
  | .null => .ok old
  | .string value => .ok value
  | other => .error ⟨kindOf other, "string", none⟩

/-- A truth value; null keeps what was there. -/
def readBool (old : Bool) : Json → Except Misfit Bool
  | .null => .ok old
  | .bool value => .ok value
  | other => .error ⟨kindOf other, "bool", none⟩

/-- The whole number that a number spells, if it is one and fits a signed word of 64 bits. -/
def wordOf? (spelling : String) : Option Int :=
  let (negative, digits) := match spelling.toList with
    | '-' :: rest => (true, rest)
    | cs => (false, cs)
  if digits.all Char.isDigit then
    let magnitude : Int := digits.foldl (fun n c => n * 10 + (c.toNat - '0'.toNat)) 0
    let value := if negative then -magnitude else magnitude
    if Word.fits value then some value else none
  else none

/-- A whole number that fits a signed word of 64 bits; null keeps what was there. -/
def readInt (old : Int) : Json → Except Misfit Int
  | .null => .ok old
  | .number spelling =>
    match wordOf? spelling with
    | some value => .ok value
    | none => .error ⟨"number " ++ spelling, "int", none⟩
  | other => .error ⟨kindOf other, "int", none⟩

/-- Texts that are read over old ones, from a place on: null keeps the text in its place, which
is empty where there was none. -/
def readTexts : (place : Nat) → (old : List String) → List Json → Except Misfit (List String)
  | _, _, [] => .ok []
  | place, old, item :: rest =>
    match readText (old.head?.getD "") item with
    | .error misfit => .error { misfit with place := some place }
    | .ok text => (readTexts (place + 1) old.tail rest).map (text :: ·)

namespace Params

/-- Parameters with the theories set. Null and the empty list drop what was there; any other
list is read over it. -/
def setTheories (p : Params) : Json → Except Misfit Params
  | .null => .ok { p with theories := [], leftOver := [] }
  | .array [] => .ok { p with theories := [], leftOver := [] }
  | .array items =>
    let old := p.theories ++ p.leftOver
    (readTexts 0 old items).map fun texts =>
      { p with theories := texts, leftOver := old.drop texts.length }
  | other => .error ⟨kindOf other, "[]string", none⟩

/-- Parameters with one of them set. -/
def set (p : Params) (value : Json) : Parameter → Except Misfit Params
  | .theories => p.setTheories value
  | .text => do return { p with text := ← readText p.text value }
  | .sequent => do return { p with sequent := ← readBool p.sequent value }
  | .plan => do return { p with plan := ← readText p.plan value }
  | .goal => do return { p with goal := ← readText p.goal value }
  | .index => do return { p with index := ← readInt p.index value }
  | .rule => do return { p with rule := ← readText p.rule value }

/-- The parameter of a method with a name. -/
def named? (method : Method) (name : String) : Option Parameter :=
  method.parameters.find? fun parameter => Text.spells name parameter.name

/-- Parameters of a method with the members of an object set in order. -/
def setAll (method : Method) : Params → List (String × Json) → Except ParamFault Params
  | p, [] => .ok p
  | p, (key, value) :: rest =>
    match named? method key with
    | none => setAll method p rest
    | some parameter =>
      match p.set value parameter with
      | .ok p => setAll method p rest
      | .error misfit => .error (.misfit method key misfit)

/-- The parameters of a method that a value gives. -/
def read (method : Method) : Json → Except ParamFault Params
  | .object members => setAll method {} members
  | _ => .error (.unnamed method)

end Params

end Turnstile.Service
