import Turnstile.Command.Flags
import Turnstile.Sorting
import Turnstile.Text.EditDistance
import Turnstile.Text.LowerCase

/-!
# Invocations

The commands of the program, their flags and the number of arguments that each of them takes,
and how a command line is taken apart into them.
-/

namespace Turnstile.Command

/-- The commands. -/
inductive Verb where
  | parse
  | rules
  | prove
  | advance
  | check
  | theory
  | serve
  deriving DecidableEq, Repr, Inhabited

/-- How many arguments a command takes. -/
inductive Arity where
  | exactly (count : Nat)
  | atMost (count : Nat)
  | atLeast (count : Nat)
  | noArgs
  deriving DecidableEq, Repr

/-- The program's name. -/
def programName : String := "cheqed"

namespace Verb

/-- The commands in the order in which they are listed. -/
def all : List Verb := [parse, rules, prove, advance, check, theory, serve]

/-- The name of a command. -/
def name : Verb → String
  | parse => "parse"
  | rules => "rules"
  | prove => "prove"
  | advance => "advance"
  | check => "check"
  | theory => "theory"
  | serve => "serve"

/-- The command with a name. -/
def ofName? (name : String) : Option Verb := all.find? fun verb => verb.name == name

/-- How many arguments a command takes. -/
def arity : Verb → Arity
  | parse => .exactly 1
  | rules => .atMost 1
  | prove => .exactly 2
  | advance => .exactly 3
  | check => .atLeast 1
  | theory => .noArgs
  | serve => .noArgs

/-- The flags of a command, those of every command apart. -/
def ownFlags : Verb → List Flag
  | parse => [⟨"sequent", some 's', .switch⟩]
  | prove => [⟨"expand", some 'e', .switch⟩, ⟨"compact", some 'c', .switch⟩,
      ⟨"outline", some 'o', .switch⟩]
  | advance => [⟨"index", some 'k', .int⟩]
  | _ => []

end Verb

/-- The flags of every command. -/
def commonFlags : List Flag := [
  ⟨"debug", some 'd', .switch⟩,
  ⟨"log-file", none, .text⟩,
  ⟨"theory", some 't', .list⟩,
  ⟨"no-color", none, .switch⟩]

/-- The flag that asks for help. -/
def helpFlag : Flag := ⟨"help", some 'h', .switch⟩

/-! ## Which command -/

/-- Whether an argument, looked at without knowing the command, takes the next one along: it is
a flag that is not known to be a switch and has no equals sign. -/
def takesNext (argument : String) : Bool :=
  let isKnownSwitch := if argument.startsWith "--" then
      commonFlags.any fun flag => flag.isSwitch && "--" ++ flag.name == argument
    else commonFlags.any fun flag =>
      flag.isSwitch && flag.letter == argument.toList[1]?
  !argument.contains '=' && !isKnownSwitch
    && (argument.startsWith "--" || (argument.startsWith "-" && argument.utf8ByteSize = 2))

/-- The arguments that are neither flags nor taken along by flags. A flag that would take the
last argument ends the search. -/
def words : (skip : Nat) → List String → List String
  | _, [] => []
  | skip + 1, _ :: rest => words skip rest
  | 0, argument :: rest =>
    if argument = "--" then []
    else if takesNext argument then if rest.length ≤ 1 then [] else words 1 rest
    else if argument ≠ "" && !argument.startsWith "-" then argument :: words 0 rest
    else words 0 rest

/-- The arguments without the first one that names the command. -/
def without (name : String) : (skip : Nat) → List String → List String
  | _, [] => []
  | skip + 1, argument :: rest => argument :: without name skip rest
  | 0, argument :: rest =>
    if argument = "--" then argument :: rest
    else if takesNext argument then argument :: without name 1 rest
    else if argument = name then rest
    else argument :: without name 0 rest

/-! ## Reading -/

/-- The names that a mistyped command is compared with; `help` is not among them. -/
def commandNames : List String := Verb.all.map Verb.name ++ ["completion"]

/-- Whether a name may be meant by a mistyped one: it is at most two edits away or begins with
what was typed. -/
def isSimilar (typed name : String) : Bool :=
  Text.editDistance (Text.lower typed) (Text.lower name) ≤ 2
    || (Text.lower name).startsWith (Text.lower typed)

/-- The failure of a command that does not exist. -/
def unknownCommand (typed : String) : Failure :=
  let similar := commandNames.filter (isSimilar typed)
  .outside ("unknown command " ++ Text.quote typed ++ " for " ++ Text.quote programName
    ++ (if similar.isEmpty then ""
      else "\n\nDid you mean this?\n"
        ++ String.join (similar.map fun name => "\t" ++ name ++ "\n")))

/-- What is wrong with the number of a command's arguments. -/
def arityFault? (verb : Verb) (args : List String) : Option String :=
  let count := args.length
  match verb.arity with
  | .exactly n => if count = n then none
    else some ("accepts " ++ toString n ++ " arg(s), received " ++ toString count)
  | .atMost n => if count ≤ n then none
    else some ("accepts at most " ++ toString n ++ " arg(s), received " ++ toString count)
  | .atLeast n => if n ≤ count then none
    else some ("requires at least " ++ toString n ++ " arg(s), only received "
      ++ toString count)
  | .noArgs => args.head?.map fun first =>
    "unknown command " ++ Text.quote first ++ " for "
      ++ Text.quote (programName ++ " " ++ verb.name)

/-- What a command line asks for. -/
inductive Invocation where
  /-- An explanation of how the program is used. -/
  | help
  /-- A command with its flags and arguments. -/
  | run (verb : Verb) (parsed : Parsed)
  deriving DecidableEq, Repr, Inhabited

/-- Read flags and arguments, reporting what is wrong with the flags. -/
def readFlags (flags : List Flag) (args : List String) : Except Failure Parsed :=
  (parseArgs (flags ++ commonFlags ++ [helpFlag]) args).mapError fun fault =>
    .outside fault.message

/-- What a command line asks for. -/
def Invocation.read (args : List String) : Except Failure Invocation := do
  match words 0 args with
  | [] =>
    let _ ← readFlags [] args
    return .help
  | name :: _ =>
    match Verb.ofName? name with
    | none =>
      if name = "help" || name = "completion" then return .help
      else throw (unknownCommand name)
    | some verb =>
      let parsed ← readFlags verb.ownFlags (without name 0 args)
      if parsed.isOn helpFlag.name then return .help
      else
        match arityFault? verb parsed.args with
        | some problem => throw (.outside problem)
        | none => return .run verb parsed

/-- The flags that exclude each other. -/
def viewFlags : List String := ["expand", "compact", "outline"]

/-- What is wrong with flags that exclude each other: more than one of them is set. -/
def viewConflict? (parsed : Parsed) : Option String :=
  let given := sortBy (fun a b => decide (a ≤ b)) (viewFlags.filter parsed.isSet)
  if given.length ≤ 1 then none
  else some ("if any flags in the group [" ++ " ".intercalate viewFlags
    ++ "] are set none of the others can be; [" ++ " ".intercalate given ++ "] were all set")

end Turnstile.Command
