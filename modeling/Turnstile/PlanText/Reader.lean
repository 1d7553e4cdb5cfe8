import Turnstile.Environment.Basic
import Turnstile.PlanText.Token
import Turnstile.Word

/-!
# Reading plans

Plan text is one call: a name with arguments in parentheses, each a number, a string, a term in
backquotes or another call. `branch` and `sequence` take calls and combine them; every other
name is that of a rule, which takes exactly the arguments it declares. A rule is looked up as
soon as its call is closed, so of two faults the one that is closed first is reported.
-/

namespace Turnstile.PlanText

/-- An argument of a call: an argument of a rule, or a plan. -/
inductive Value where
  | arg (arg : Arg)
  | plan (plan : Plan)

/-- A part of a plan's text that was read, with the tokens that remain. -/
abbrev Reading (α : Type) := α × List Token

/-- The next token. -/
def peek : List Token → Token
  | [] => default
  | token :: _ => token

/-- The tokens after the next one. The end of the text is never passed. -/
def advance : List Token → List Token
  | [] => []
  | token :: rest => if token.kind = .endOfInput then token :: rest else rest

/-- A fault at a token. -/
def faultAt (token : Token) (fault : PlanFault) : Failure := .plan token.line token.column fault

/-- A fault at a token, or the first misspelling noticed so far if there is one. -/
def complaint (token : Token) (fault : PlanFault) : Failure :=
  match token.misspelling with
  | some m => .plan m.line m.column (.spelling m.problem)
  | none => faultAt token fault

/-- Pass over a character. -/
def expect (c : Char) (tokens : List Token) : Except Failure (List Token) :=
  let token := peek tokens
  if token.kind = .char c then .ok (advance tokens)
  else .error (complaint token (.expected c
    (if token.kind = .endOfInput then none else some token.text)))

/-- The value of a decimal number that fits a signed word of 64 bits; whether a number that
does not is too large or no decimal number is decided by what shows first. -/
def decimal (value : Nat) : List Char → Except Bool Nat
  | [] => if Word.fits value then .ok value else .error true
  | c :: rest =>
    if c.isDigit then
      let value := value * 10 + (c.toNat - '0'.toNat)
      if value < 18446744073709551616 then decimal value rest else .error true
    else .error false

/-- The text between the backquotes of a term. -/
def unbackquoted (text : String) : String :=
  String.ofList (((text.toList.dropWhile (· = '\x60')).reverse.dropWhile (· = '\x60')).reverse)

/-- The plans among the arguments of a combining call, if all of them are plans. -/
def plansOf (token : Token) : (index : Nat) → List Value → Except Failure (List Plan)
  | _, [] => .ok []
  | index, .plan p :: rest => (p :: ·) <$> plansOf token (index + 1) rest
  | index, .arg a :: _ => .error (faultAt token (.notPlan token.text index a.kindText))

/-- The arguments of a rule call, if none of them is a plan. -/
def argsOf (token : Token) : List Value → Except Failure (List Arg)
  | [] => .ok []
  | .arg a :: rest => (a :: ·) <$> argsOf token rest
  | .plan _ :: _ => .error (faultAt token (.takesNoPlans token.text))

/-- The plan of a call whose name stands at a token. -/
def assemble (env : Environment) (token : Token) (values : List Value) : Build Plan := do
  if token.text = "branch" || token.text = "sequence" then
    match ← plansOf token 1 values with
    | [] => throw (faultAt token (.noPlans token.text))
    | first :: rest =>
      if token.text = "sequence" then return .sequence first rest
      else return .branch first rest
  else match env.rule? token.text with
    | none => throw (faultAt token (.unknownRule token.text))
    | some d =>
      let args ← argsOf token values
      tryCatch (d.instantiate env.theory args) fun failure =>
        throw (.planPart token.line token.column .arguments failure)

mutual

/-- Read a call. Every round passes over at least one token. -/
def call (env : Environment) : (rounds : Nat) → List Token → Build (Reading Plan)
  | 0, tokens => throw (complaint (peek tokens) .expectedName)
  | rounds + 1, tokens => do
    let token := peek tokens
    if token.kind ≠ .name then throw (complaint token .expectedName)
    else
      let tokens ← expect '(' (advance tokens)
      let (values, tokens) ← arguments env rounds tokens
      let tokens ← expect ')' tokens
      return (← assemble env token values, tokens)

/-- Read arguments separated by commas, up to and not including the closing parenthesis. -/
def arguments (env : Environment) : (rounds : Nat) → List Token → Build (Reading (List Value))
  | 0, tokens => throw (complaint (peek tokens) .expectedName)
  | rounds + 1, tokens => do
    if (peek tokens).kind = .char ')' then return ([], tokens)
    else
      let (value, tokens) ← argument env rounds tokens
      if (peek tokens).kind = .char ',' then
        let (values, tokens) ← arguments env rounds (advance tokens)
        return (value :: values, tokens)
      else return ([value], tokens)

/-- Read one argument. -/
def argument (env : Environment) : (rounds : Nat) → List Token → Build (Reading Value)
  | 0, tokens => throw (complaint (peek tokens) .expectedName)
  | rounds + 1, tokens => do
    let token := peek tokens
    match token.kind with
    | .int =>
      match decimal 0 token.text.toList with
      | .ok value => return (.arg (.int value), advance tokens)
      | .error outOfRange => throw (faultAt token (.badInteger token.text outOfRange))
    | .string =>
      match Text.unquote? token.text with
      | some octets => return (.arg (.string octets), advance tokens)
      | none => throw (faultAt token .badString)
    | .backquoted =>
      let t ← tryCatch (env.parse (unbackquoted token.text)) fun failure =>
        throw (.planPart token.line token.column .term failure)
      return (.arg (.term t), advance tokens)
    | .name =>
      let (p, tokens) ← call env rounds tokens
      return (.plan p, tokens)
    | _ => throw (complaint token (.unexpected token.text))

end

end Turnstile.PlanText

namespace Turnstile.Environment

open PlanText

/-- The plan that a text describes. -/
def evaluate (env : Environment) (text : String) : Build Plan := do
  let tokens := PlanText.tokens text
  let (p, rest) ← call env (3 * tokens.length) tokens
  let token := peek rest
  if token.kind ≠ .endOfInput then throw (complaint token (.trailing token.text))
  else match token.misspelling with
    | some m => throw (.plan m.line m.column (.spelling m.problem))
    | none => return p

/-- The plan of a goal that nothing has been done to. -/
def start : Build Plan := do return .assumption (← Build.freshAssumption)

/-- Replace an open goal of a plan by the plan that a text describes, and put an assumption at
every goal left open. -/
def advance (env : Environment) (p : Plan) (goal : Sequent) (index : Int) (text : String) :
    Build Plan := do
  let leaves := p.assumptions
  match if index < 0 then none else leaves[index.toNat]? with
  | none => throw (.noOpenGoal index leaves.length)
  | some target =>
    let sub ← env.evaluate text
    (Plan.replace target sub p).normalize goal

end Turnstile.Environment
