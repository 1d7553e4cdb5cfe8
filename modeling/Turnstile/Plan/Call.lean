import Turnstile.Term.Basic
import Turnstile.Text.Quoted

/-!
# Rule calls

A rule call is a name with arguments, as it is written in plan text.
-/

namespace Turnstile

/-- The kinds of arguments that a rule can declare. -/
inductive ArgKind where
  | int
  | string
  | term
  /-- A kind that no argument has. -/
  | other (text : String)
  deriving DecidableEq, Repr, Inhabited

namespace ArgKind

/-- How a kind of argument is written. -/
def text : ArgKind → String
  | int => "int"
  | string => "string"
  | term => "term"
  | other text => text

/-- The kind of argument that is written so. -/
def ofText : String → ArgKind
  | "int" => int
  | "string" => string
  | "term" => term
  | text => other text

end ArgKind

/-- An argument of a rule call. -/
inductive Arg where
  /-- A number. -/
  | int (value : Int)
  /-- A string of any bytes. -/
  | string (value : Text.Octets)
  /-- A term. -/
  | term (value : Term)
  /-- An argument of no declared kind. -/
  | unknown
  deriving DecidableEq, Repr, Inhabited

namespace Arg

/-- The kind of an argument, if it has one. -/
def kind? : Arg → Option ArgKind
  | int _ => some .int
  | string _ => some .string
  | term _ => some .term
  | unknown => none

/-- The name of an argument's kind; an argument without one has no name. -/
def kindText (arg : Arg) : String := (arg.kind?.map ArgKind.text).getD ""

/-- An argument as plan text: numbers in decimal, strings quoted, terms in backquotes. -/
def display (write : Term → String) : Arg → String
  | int value => toString value
  | string value => Text.quoteOctets value
  | term value => "`" ++ write value ++ "`"
  | unknown => "?"

end Arg

/-- A rule's name and arguments. -/
structure Call where
  /-- The name. -/
  name : String
  /-- The arguments in order. -/
  args : List Arg
  deriving DecidableEq, Repr, Inhabited

/-- A call as plan text. -/
def Call.display (write : Term → String) (call : Call) : String :=
  call.name ++ "(" ++ ", ".intercalate (call.args.map (Arg.display write)) ++ ")"

end Turnstile
