/-!
# Styles

Output for people marks goals, rules and results with the escape sequences of terminals, or with
nothing at all.
-/

namespace Turnstile.Command

/-- What a piece of output is. -/
inductive Role where
  | goal
  | rule
  | remaining
  | success
  | failure
  | heading
  | dim
  deriving DecidableEq, Repr, Inhabited

/-- The parameters of the escape sequence that begins a piece of output. -/
def Role.parameters : Role → String
  | goal => "1"
  | rule => "38;5;117"
  | remaining => "33"
  | success => "1;32"
  | failure => "1;31"
  | heading => "1;38;5;63"
  | dim => "38;5;241"

/-- A text as it is shown: a tab takes four blanks. -/
def untabbed (text : String) : String := text.replace "\t" "    "

/-- A piece of output, marked if `color` says so. -/
def paint (color : Bool) (role : Role) (text : String) : String :=
  if color then "\x1b[" ++ role.parameters ++ "m" ++ untabbed text ++ "\x1b[m" else untabbed text

end Turnstile.Command
