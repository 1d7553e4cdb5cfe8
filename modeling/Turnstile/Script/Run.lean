import Turnstile.Declarations
import Turnstile.Failure
import Turnstile.Script.Expr
import Turnstile.Text.EditDistance
import Turnstile.Text.LowerCase
import Turnstile.Word

/-!
# Running theory scripts

Running a script evaluates its expressions in order; calls of the declaring functions add to the
declarations. The first rejected declaration, or expression without a value, ends the run.
-/

namespace Turnstile.Script

/-- A value of a script. Values of types that no declaration takes are known by their type. -/
inductive Value where
  | none
  | bool (value : Bool)
  | int (value : Int)
  | float
  | string (text : String)
  | bytes
  | list
  | tuple
  | dict
  | function (name : String)
  deriving DecidableEq, Repr, Inhabited

/-- The name of a value's type. -/
def Value.typeName : Value → String
  | none => "NoneType"
  | bool _ => "bool"
  | int _ => "int"
  | float => "float"
  | string _ => "string"
  | bytes => "bytes"
  | list => "list"
  | tuple => "tuple"
  | dict => "dict"
  | function _ => "builtin_function_or_method"

/-! ## Similar names -/

/-- A name without underscores and capitals. -/
def foldName (name : String) : String :=
  Text.lower (String.ofList (name.toList.filter (· ≠ '_')))

/-- The first of the candidates nearest to a name, if fewer than half of its bytes differ. -/
def similarName (name : String) (candidates : List String) : Option String :=
  let folded := foldName name
  (candidates.foldl
    (fun (best : Option String × Nat) candidate =>
      let distance := Text.editDistance folded (foldName candidate)
      if distance < best.2 then (some candidate, distance) else best)
    (Option.none, (folded.utf8ByteSize + 1) / 2)).1

/-! ## Arguments -/

/-- The arguments of a call. -/
structure Arguments where
  /-- Those given by place. -/
  placed : List Value
  /-- Those given by name. -/
  named : List (String × Value)

/-- What parameters can hold. -/
inductive ParameterType where
  | string
  | int
  deriving DecidableEq, Repr

/-- A parameter of a declaration. -/
structure Parameter where
  /-- The name. -/
  name : String
  /-- What it holds. -/
  type : ParameterType
  deriving DecidableEq, Repr

/-- Whether a value fits a parameter, which is addressed as `address`. -/
def fit (address : String) : ParameterType → Value → Except ArgumentProblem Unit
  | .string, .string _ => .ok ()
  | .string, value => .error (.type address value.typeName "string")
  | .int, .int n =>
    if Word.fits n then .ok () else .error (.outOfRange address n)
  | .int, value => .error (.type address value.typeName "int")

/-- The parameters that are proposed for a name that none has: the first half of them. -/
def proposed (parameters : List Parameter) : List String :=
  (parameters.take ((parameters.length + 1) / 2)).map Parameter.name

/-- Give parameters their values by place. -/
def placeAll : List Parameter → List Value → Except ArgumentProblem (List (String × Value))
  | p :: parameters, value :: values => do
    fit p.name p.type value
    return (p.name, value) :: (← placeAll parameters values)
  | _, _ => return []

/-- Give parameters their values by name. -/
def nameAll (parameters : List Parameter) (given : List (String × Value)) :
    List (String × Value) → Except ArgumentProblem (List (String × Value))
  | [] => return given
  | (name, value) :: rest =>
    match parameters.find? fun p => p.name == name with
    | some p => do
      if (given.lookup name).isSome then throw (.repeated name)
      fit (Text.quote name) p.type value
      nameAll parameters (given ++ [(name, value)]) rest
    | Option.none => throw (.unknown name (similarName name (proposed parameters)))

/-- The values of all parameters. -/
def unpack (parameters : List Parameter) (args : Arguments) :
    Except ArgumentProblem (List (String × Value)) := do
  if args.placed.length > parameters.length then
    throw (.tooMany args.placed.length parameters.length)
  let given ← placeAll parameters args.placed
  let given ← nameAll parameters given args.named
  match parameters.find? fun p => (given.lookup p.name).isNone with
  | some p => throw (.missing p.name)
  | Option.none => return given

/-- The text of a parameter. -/
def textOf (given : List (String × Value)) (name : String) : String :=
  match given.lookup name with
  | some (.string text) => text
  | _ => ""

/-- The number of a parameter. -/
def numberOf (given : List (String × Value)) (name : String) : Int :=
  match given.lookup name with
  | some (.int n) => n
  | _ => 0

/-- The one text that a declaration takes, given by place. -/
def onlyText (args : Arguments) : Except ArgumentProblem String :=
  match args.named, args.placed with
  | _ :: _, _ => .error .named
  | [], [.string text] => .ok text
  | [], [value] => .error (.type "1" value.typeName "string")
  | [], values => .error (.count values.length 1)

/-! ## Declaring -/

/-- Declare an operator. -/
def declareOperator (d : Declarations) (args : Arguments) :
    Except ArgumentProblem Declarations := do
  let given ← unpack
    [⟨"name", .string⟩, ⟨"arity", .int⟩, ⟨"associativity", .string⟩, ⟨"precedence", .int⟩] args
  let op : OperatorDecl :=
    ⟨textOf given "name", numberOf given "arity", textOf given "associativity",
      numberOf given "precedence"⟩
  if op.arity = 1 || op.arity = 2 then return { d with operators := d.operators ++ [op] }
  else throw (.arity op.name op.arity)

/-- Declare a set builder. -/
def declareSetBuilder (d : Declarations) (args : Arguments) :
    Except ArgumentProblem Declarations := do
  let given ← unpack [⟨"constant", .string⟩, ⟨"member", .string⟩] args
  return { d with
    setBuilders := d.setBuilders ++ [⟨textOf given "constant", textOf given "member"⟩] }

/-- Declare a postulate. -/
def declarePostulate (d : Declarations) (args : Arguments) :
    Except ArgumentProblem Declarations := do
  let given ← unpack [⟨"name", .string⟩, ⟨"formula", .string⟩] args
  return { d with
    postulates := d.postulates ++ [⟨textOf given "name", textOf given "formula"⟩] }

/-- What a declaring function adds, if the name is that of one. -/
def declare? (d : Declarations) (args : Arguments) :
    String → Option (Except ArgumentProblem Declarations)
  | "type" => some do return { d with types := d.types ++ [← onlyText args] }
  | "constant" => some do return { d with constants := d.constants ++ [← onlyText args] }
  | "binder" => some do return { d with binders := d.binders ++ [← onlyText args] }
  | "definition" => some do return { d with definitions := d.definitions ++ [← onlyText args] }
  | "operator" => some (declareOperator d args)
  | "set_builder" => some (declareSetBuilder d args)
  | "axiom" => some (declarePostulate d args)
  | _ => Option.none

/-! ## Evaluation -/

/-- A computation that adds to declarations and may end the run. -/
abbrev Run := StateT Declarations (Except Failure)

/-- End the run for a reason that is not a rejected declaration. -/
def abort {α : Type} : Run α := throw (.script Option.none)

/-- The value of a name. -/
def valueOfName : String → Value
  | "None" => .none
  | "True" => .bool true
  | "False" => .bool false
  | text => .function text

/-- The sum of two values. -/
def Value.add : Value → Value → Run Value
  | .int a, .int b => return .int (a + b)
  | .string a, .string b => return .string (a ++ b)
  | .float, .float => return .float
  | .float, .int _ => return .float
  | .int _, .float => return .float
  | .bytes, .bytes => return .bytes
  | .list, .list => return .list
  | .tuple, .tuple => return .tuple
  | _, _ => abort

/-- The difference of two values. -/
def Value.subtract : Value → Value → Run Value
  | .int a, .int b => return .int (a - b)
  | .float, .float => return .float
  | .float, .int _ => return .float
  | .int _, .float => return .float
  | _, _ => abort

/-- A value with a sign; `flip` says that the sign is a minus. -/
def Value.signed (flip : Bool) : Value → Run Value
  | .int a => return .int (if flip then -a else a)
  | .float => return .float
  | _ => abort

/-- Call a value. Printing has no effect on the declarations. -/
def Value.call (args : Arguments) : Value → Run Value
  | .function name => do
    match declare? (← get) args name with
    | some (.ok d) =>
      set d
      return .none
    | some (.error problem) => throw (.script (some ⟨name, problem⟩))
    | Option.none =>
      if args.named.all fun (key, value) => key = "sep" && value.typeName = "string" then
        return .none
      else abort
  | _ => abort

mutual

/-- Evaluate an expression. -/
def Expr.eval : Expr → Run Value
  | .name text => return valueOfName text
  | .int value => return .int value
  | .float => return .float
  | .string text => return .string text
  | .bytes => return .bytes
  | .list items => do
    let _ ← Expr.evalAll items
    return .list
  | .tuple items => do
    let _ ← Expr.evalAll items
    return .tuple
  | .dict entries => do
    let _ ← Expr.evalAll entries
    return .dict
  | .bracketed inner => inner.eval
  | .plus e => do (← e.eval).signed false
  | .minus e => do (← e.eval).signed true
  | .add a b => do
    let a ← a.eval
    let b ← b.eval
    a.add b
  | .subtract a b => do
    let a ← a.eval
    let b ← b.eval
    a.subtract b
  | .call f args named => do
    let f ← f.eval
    let placed ← Expr.evalAll args
    let named ← Expr.evalNamed named
    f.call ⟨placed, named⟩

/-- Evaluate expressions in order. -/
def Expr.evalAll : List Expr → Run (List Value)
  | [] => return []
  | e :: rest => do
    let value ← e.eval
    let values ← Expr.evalAll rest
    return value :: values

/-- Evaluate arguments given by name in order. -/
def Expr.evalNamed : List (String × Expr) → Run (List (String × Value))
  | [] => return []
  | (key, e) :: rest => do
    let value ← e.eval
    let values ← Expr.evalNamed rest
    return (key, value) :: values

end

end Turnstile.Script

namespace Turnstile

/-- What a theory script declares. -/
def Declarations.ofScript (text : String) : Except Failure Declarations :=
  match Script.read? text with
  | none => .error (.script none)
  | some lines => ((Script.Expr.evalAll lines).run {}).map Prod.snd

end Turnstile
