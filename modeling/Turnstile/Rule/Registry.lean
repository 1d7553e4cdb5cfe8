import Turnstile.Text.SnakeCase
import Turnstile.Theory

/-!
# The registry of rules

A descriptor says how a rule is called, how it is built from its arguments and how to tell
whether it applies to a goal. A registry holds descriptors in the order in which their names
were first registered; names that normalise alike are one name, and the last descriptor
registered under a name counts.
-/

namespace Turnstile

/-- The kinds of rules. -/
inductive RuleKind where
  | primitive
  | compound
  | placeholder
  deriving DecidableEq, Repr, Inhabited

/-- How a kind of rule is written. -/
def RuleKind.text : RuleKind → String
  | primitive => "primitive"
  | compound => "compound"
  | placeholder => "placeholder"

/-- The name and kind of one argument of a rule. -/
structure ArgSpec where
  /-- The name. -/
  name : String
  /-- The kind. -/
  kind : ArgKind
  deriving DecidableEq, Repr, Inhabited

/-- How to tell whether a rule applies to a goal. -/
inductive Applicability where
  /-- It is never offered. -/
  | never
  /-- It is offered where the first formula on a side has a shape. -/
  | onShape (side : Side) (shape : Shape)
  /-- It is offered where running it succeeds; with arguments there is nothing to run. -/
  | byRunning
  deriving DecidableEq, Repr, Inhabited

/-- An entry of the registry. -/
structure Descriptor where
  /-- The name. -/
  name : String
  /-- The kind. -/
  kind : RuleKind
  /-- The arguments in order. -/
  args : List ArgSpec
  /-- The theory that the rule relies on; empty if it relies on none. -/
  theory : String
  /-- What the rule does. -/
  doc : String
  /-- The rule for some arguments. -/
  build : Theory → List Arg → Build Plan
  /-- How to tell whether the rule applies. -/
  applicability : Applicability

namespace Descriptor

/-- A descriptor as a call with the names and kinds of its arguments. -/
def signature (d : Descriptor) : String :=
  d.name ++ "("
    ++ ", ".intercalate (d.args.map fun arg => arg.name ++ ":" ++ arg.kind.text) ++ ")"

/-- The first argument that is not of its declared kind. -/
def wrongKind? : List ArgSpec → List Arg → Option (ArgSpec × Arg)
  | spec :: specs, arg :: args =>
    if arg.kind? = some spec.kind then wrongKind? specs args else some (spec, arg)
  | _, _ => none

/-- The rule for some arguments, if they are as many and of the kinds as declared. -/
def instantiate (d : Descriptor) (th : Theory) (args : List Arg) : Build Plan :=
  if args.length ≠ d.args.length then
    throw (.arguments d.name (.count d.args.length args.length))
  else match wrongKind? d.args args with
    | some (spec, arg) => throw (.arguments d.name (.kind spec.name spec.kind arg.kindText))
    | none => d.build th args

/-- Whether a run succeeds. That something does not fit the goal only means that it does not;
any other failure is passed on. -/
def succeeds {α : Type} (run : Build α) : Build Bool :=
  tryCatch (do let _ ← run; return true) fun failure =>
    if failure.involves Failure.isMisfit then return false else throw failure

/-- Whether the rule applies to a goal. -/
def appliesTo (d : Descriptor) (th : Theory) (goal : Sequent) : Build Bool :=
  match d.applicability with
  | .never => return false
  | .onShape side shape => succeeds (th.parts goal side 0 shape)
  | .byRunning =>
    if d.args.isEmpty then succeeds do (← d.build th []).subgoals goal else return false

end Descriptor

/-- Descriptors under normalised names. -/
structure Registry (normal : String → String) where
  /-- The descriptors in the order in which their names were first registered. -/
  rules : List Descriptor

namespace Registry

variable {normal : String → String}

/-- The registry without rules. -/
def empty : Registry normal := ⟨[]⟩

/-- The descriptor registered under a name. -/
def lookup (r : Registry normal) (name : String) : Option Descriptor :=
  r.rules.find? fun d => normal d.name == normal name

/-- Add a descriptor, in the place of the one of the same name if there is one. -/
def register (r : Registry normal) (d : Descriptor) : Registry normal :=
  if (r.lookup d.name).isSome then
    ⟨r.rules.map fun old => if normal old.name == normal d.name then d else old⟩
  else ⟨r.rules ++ [d]⟩

/-- How many names are registered. -/
def size (r : Registry normal) : Nat := r.rules.length

/-- The registry of some descriptors, registered in order. -/
def ofList (rules : List Descriptor) : Registry normal := rules.foldl register empty

end Registry

/-- The registry of rules under snake-case names. -/
abbrev Rules := Registry Text.snakeCase

end Turnstile
