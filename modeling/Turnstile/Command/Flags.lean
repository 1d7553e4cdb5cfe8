import Turnstile.Failure
import Turnstile.Text.Record
import Turnstile.Word

/-!
# Flags

Arguments that begin with a hyphen are flags: a long name after two hyphens, or letters after
one. A switch takes a value only after an equals sign; other flags take the rest of the argument
or the next one. Flags and other arguments may be mixed; two hyphens alone end the flags. Flags
of a test run are not meant for the program and are passed over.
-/

namespace Turnstile.Command

/-- What a flag can be set to. -/
inductive FlagKind where
  | switch
  | text
  | list
  | int
  deriving DecidableEq, Repr, Inhabited

/-- A flag. -/
structure Flag where
  /-- The long name. -/
  name : String
  /-- The letter that stands for it, if there is one. -/
  letter : Option Char
  /-- What it can be set to. -/
  kind : FlagKind
  deriving DecidableEq, Repr, Inhabited

/-- What a flag is set to. -/
inductive FlagValue where
  | switch (on : Bool)
  | text (value : String)
  | list (values : List String)
  | int (value : Int)
  deriving DecidableEq, Repr, Inhabited

namespace Flag

/-- A flag as messages name it. -/
def title (flag : Flag) : String :=
  match flag.letter with
  | some c => "-" ++ String.singleton c ++ ", --" ++ flag.name
  | none => "--" ++ flag.name

/-- Whether a flag is a switch. -/
def isSwitch (flag : Flag) : Bool := flag.kind = .switch

end Flag

/-! ## Values -/

/-- The truth value that a text names. -/
def bool? (text : String) : Option Bool :=
  if ["1", "t", "T", "true", "TRUE", "True"].contains text then some true
  else if ["0", "f", "F", "false", "FALSE", "False"].contains text then some false
  else none

/-- The base that the digits of a number announce, and the digits themselves. -/
def announcedBase : List Char → Nat × List Char
  | '0' :: c :: rest =>
    match c.toLower with
    | 'x' => (16, rest)
    | 'o' => (8, rest)
    | 'b' => (2, rest)
    | _ => (8, c :: rest)
  | cs => (10, cs)

/-- Whether underscores stand only after the announcement of a base and between digits. -/
def separatorsFit (afterDigit : Bool) : List Char → Bool
  | [] => true
  | '_' :: rest =>
    afterDigit && rest.head?.any (fun c => c ≠ '_') && separatorsFit false rest
  | _ :: rest => separatorsFit true rest

/-- The value of digits in a base, underscores apart. A number that outgrows an unsigned word of
64 bits is too large whatever follows; before that, what is no digit makes it unreadable. The
error says whether the number is too large. -/
def magnitude (base : Nat) : (value : Nat) → List Char → Except Bool Nat
  | value, [] => .ok value
  | value, c :: rest =>
    if c = '_' then magnitude base value rest
    else
      match Text.digitValue? base c with
      | none => .error false
      | some d =>
        let value := value * base + d
        if value < 18446744073709551616 then magnitude base value rest else .error true

/-- The whole number that a text spells; the error says whether it is too large. -/
def int? (text : String) : Except Bool Int := do
  let (negative, cs) := match text.toList with
    | '-' :: rest => (true, rest)
    | '+' :: rest => (false, rest)
    | cs => (false, cs)
  let (base, digits) := announcedBase cs
  let size ← magnitude base 0 digits
  if digits.all (· = '_') || !separatorsFit (digits.length < cs.length) digits then .error false
  else
    let value : Int := if negative then -size else size
    if Word.fits value then .ok value else .error true

/-- The parts of a list, written as a record; the empty text has none. -/
def listParts (text : String) : Except Text.RecordFault (List String) :=
  if text.isEmpty then .ok [] else Text.record text

/-! ## What can go wrong -/

/-- What is wrong with the flags. -/
inductive FlagFault where
  | malformed (argument : String)
  | unknown (name : String)
  | unknownLetter (letter : Char) (letters : String)
  | valueMissing (name : String)
  | letterValueMissing (letter : Char) (letters : String)
  | badValue (flag : Flag) (value : String) (outOfRange : Bool)
  | badList (flag : Flag) (value : String) (fault : Text.RecordFault)
  deriving DecidableEq, Repr

/-- The character that a message names for a letter. Letters are single bytes, so that a
character of several bytes is named by the first of them. -/
def leadOctet (letter : Char) : Char :=
  ((Text.Octets.ofChar letter).head?.map fun octet => Char.ofNat octet.toNat).getD letter

/-- What is said of a value that a flag does not take. -/
def Flag.refusal (flag : Flag) (value problem : String) : String :=
  "invalid argument " ++ Text.quote value ++ " for " ++ Text.quote flag.title ++ " flag: "
    ++ problem

/-- The wording of a fault in the flags. -/
def FlagFault.message : FlagFault → String
  | malformed argument => "bad flag syntax: " ++ argument
  | unknown name => "unknown flag: --" ++ name
  | unknownLetter letter letters =>
    "unknown shorthand flag: " ++ Text.quoteChar (leadOctet letter) ++ " in -" ++ letters
  | valueMissing name => "flag needs an argument: --" ++ name
  | letterValueMissing letter letters =>
    "flag needs an argument: " ++ Text.quoteChar letter ++ " in -" ++ letters
  | badValue flag value outOfRange =>
    flag.refusal value ((if flag.isSwitch then "strconv.ParseBool" else "strconv.ParseInt")
      ++ ": parsing " ++ Text.quote value ++ ": "
      ++ (if outOfRange then "value out of range" else "invalid syntax"))
  | badList flag value fault => flag.refusal value fault.message

/-! ## Reading -/

/-- Arguments as they were read. -/
structure Parsed where
  /-- The flags that were set. -/
  settings : List (String × FlagValue)
  /-- The other arguments. -/
  args : List String
  deriving DecidableEq, Repr, Inhabited

namespace Parsed

/-- What a flag was set to. -/
def setting? (p : Parsed) (name : String) : Option FlagValue := p.settings.lookup name

/-- Whether a flag was set at all. -/
def isSet (p : Parsed) (name : String) : Bool := (p.setting? name).isSome

/-- Whether a switch is on. -/
def isOn (p : Parsed) (name : String) : Bool := p.setting? name = some (.switch true)

/-- The text of a flag. -/
def text (p : Parsed) (name : String) : String :=
  match p.setting? name with
  | some (.text value) => value
  | _ => ""

/-- The list of a flag. -/
def list (p : Parsed) (name : String) : List String :=
  match p.setting? name with
  | some (.list values) => values
  | _ => []

/-- The number of a flag. -/
def int (p : Parsed) (name : String) : Int :=
  match p.setting? name with
  | some (.int value) => value
  | _ => 0

/-- Arguments with a flag set to a value. -/
def put (p : Parsed) (name : String) (value : FlagValue) : Parsed :=
  { p with settings := (name, value) :: p.settings.filter fun s => s.1 != name }

/-- Arguments with a flag set by a text. Lists are set piece by piece. -/
def assign (p : Parsed) (flag : Flag) (value : String) : Except FlagFault Parsed :=
  match flag.kind with
  | .switch =>
    match bool? value with
    | some on => .ok (p.put flag.name (.switch on))
    | none => .error (.badValue flag value false)
  | .text => .ok (p.put flag.name (.text value))
  | .list =>
    match listParts value with
    | .ok parts => .ok (p.put flag.name (.list (p.list flag.name ++ parts)))
    | .error fault => .error (.badList flag value fault)
  | .int =>
    match int? value with
    | .ok n => .ok (p.put flag.name (.int n))
    | .error outOfRange => .error (.badValue flag value outOfRange)

end Parsed

/-- A text up to its first equals sign, and what follows that. -/
def splitEquals (text : List Char) : List Char × Option (List Char) :=
  let name := text.takeWhile (· ≠ '=')
  match text.drop name.length with
  | _ :: value => (name, some value)
  | [] => (name, none)

/-- Read a long flag; the result says how many of the next arguments it takes. -/
def readLong (flags : List Flag) (p : Parsed) (argument : String) (next : List String) :
    Except FlagFault (Parsed × Nat) := do
  let (name, value) := splitEquals (argument.toList.drop 2)
  if name.isEmpty || name.head? = some '-' then throw (.malformed argument)
  else
    let name := String.ofList name
    match flags.find? fun flag => flag.name == name, value, next with
    | none, _, _ => throw (.unknown name)
    | some flag, some value, _ => return (← p.assign flag (String.ofList value), 0)
    | some flag, none, next =>
      if flag.isSwitch then return (← p.assign flag "true", 0)
      else
        match next with
        | value :: _ => return (← p.assign flag value, 1)
        | [] => throw (.valueMissing name)

/-- What the flags of a test run begin with. -/
def testMark : String := "test."

/-- Read flags by their letters; the result says how many of the next arguments they take. -/
def readLetters (flags : List Flag) (next : List String) : Parsed → List Char →
    Except FlagFault (Parsed × Nat)
  | p, [] => return (p, 0)
  | p, c :: rest =>
    if testMark.toList.isPrefixOf (c :: rest) then return (p, 0)
    else
      match flags.find? fun flag => flag.letter == some c with
      | none => throw (.unknownLetter c (String.ofList (c :: rest)))
      | some flag =>
        match rest with
        | '=' :: d :: value => do return (← p.assign flag (String.ofList (d :: value)), 0)
        | _ =>
          if flag.isSwitch then do readLetters flags next (← p.assign flag "true") rest
          else if !rest.isEmpty then do return (← p.assign flag (String.ofList rest), 0)
          else
            match next with
            | value :: _ => do return (← p.assign flag value, 1)
            | [] => throw (.letterValueMissing c (String.ofList (c :: rest)))

/-- Read arguments, passing over the first `skip` of them, which a flag has taken. -/
def readArgs (flags : List Flag) : (skip : Nat) → Parsed → List String →
    Except FlagFault Parsed
  | _, p, [] => return p
  | skip + 1, p, _ :: rest => readArgs flags skip p rest
  | 0, p, argument :: rest =>
    if argument = "--" then return { p with args := p.args ++ rest }
    else if argument.startsWith "--" then do
      let (p, taken) ← readLong flags p argument rest
      readArgs flags taken p rest
    else if argument.startsWith "-" && argument ≠ "-" then do
      let (p, taken) ← readLetters flags rest p (argument.toList.drop 1)
      readArgs flags taken p rest
    else readArgs flags 0 { p with args := p.args ++ [argument] } rest

/-- The flags and other arguments of a command line. -/
def parseArgs (flags : List Flag) (args : List String) : Except FlagFault Parsed :=
  readArgs flags 0 ⟨[], []⟩ args

end Turnstile.Command
