import Turnstile.Script.Token

/-!
# Theory scripts as they are read

A script is a list of expressions, one or more a line. Reading it settles its whole form before
anything is run: brackets match, arguments by name follow those by place and no name is given
twice, and every name is one that scripts know.
-/

namespace Turnstile.Script

/-- An expression of a script. -/
inductive Expr where
  | name (text : String)
  | int (value : Nat)
  | float
  | string (text : String)
  | bytes
  | list (items : List Expr)
  | tuple (items : List Expr)
  | dict (entries : List Expr)
  | bracketed (inner : Expr)
  | plus (operand : Expr)
  | minus (operand : Expr)
  | add (left right : Expr)
  | subtract (left right : Expr)
  | call (function : Expr) (args : List Expr) (named : List (String × Expr))
  deriving Repr, Inhabited

/-- A part of a script that was read, with the tokens that remain. -/
abbrev Reading (α : Type) := α × List Token

/-- Words that are no names: keywords and words kept for later. -/
def reservedWords : List String :=
  ["and", "break", "continue", "def", "elif", "else", "for", "if", "in", "lambda", "load", "not",
    "or", "pass", "return", "while", "as", "assert", "async", "await", "class", "del", "except",
    "finally", "from", "global", "import", "is", "nonlocal", "raise", "try", "with", "yield"]

/-- The names that a script can use. -/
def knownNames : List String :=
  ["None", "True", "False", "print", "type", "constant", "binder", "definition", "operator",
    "set_builder", "axiom"]

/-- Pass over a mark. -/
def expect (text : String) : List Token → Option (List Token)
  | .mark found :: rest => if found = text then some rest else none
  | _ => none

/-- An argument of a call: by place, or by name. -/
inductive Argument where
  | placed (value : Expr)
  | named (name : String) (value : Expr)

/-- The arguments by place and by name, if the former come first and no name is repeated. -/
def sortArguments : List Argument → Option (List Expr × List (String × Expr))
  | [] => some ([], [])
  | .placed value :: rest => (sortArguments rest).map fun (args, named) => (value :: args, named)
  | .named name value :: rest => (sortArguments rest).bind fun (args, named) =>
      if args.isEmpty && !(named.map Prod.fst).contains name then
        some ([], (name, value) :: named)
      else none

mutual

/-- Read a sum of operands. Every round goes one step deeper or passes over a token. -/
def expression : (rounds : Nat) → List Token → Option (Reading Expr)
  | 0, _ => none
  | rounds + 1, tokens => do
    let (first, tokens) ← operand rounds tokens
    summands rounds first tokens

/-- Read the rest of a sum. -/
def summands : (rounds : Nat) → Expr → List Token → Option (Reading Expr)
  | 0, _, _ => none
  | rounds + 1, left, tokens =>
    match tokens with
    | .mark "+" :: rest => do
      let (right, rest) ← operand rounds rest
      summands rounds (.add left right) rest
    | .mark "-" :: rest => do
      let (right, rest) ← operand rounds rest
      summands rounds (.subtract left right) rest
    | _ => some (left, tokens)

/-- Read an operand with its sign and its calls. -/
def operand : (rounds : Nat) → List Token → Option (Reading Expr)
  | 0, _ => none
  | rounds + 1, tokens =>
    match tokens with
    | .mark "+" :: rest => do
      let (e, rest) ← operand rounds rest
      return (.plus e, rest)
    | .mark "-" :: rest => do
      let (e, rest) ← operand rounds rest
      return (.minus e, rest)
    | _ => do
      let (e, rest) ← primary rounds tokens
      calls rounds e rest

/-- Read the calls of an operand. -/
def calls : (rounds : Nat) → Expr → List Token → Option (Reading Expr)
  | 0, _, _ => none
  | rounds + 1, e, tokens =>
    match tokens with
    | .mark "(" :: rest => do
      let (found, rest) ← arguments rounds rest
      let (args, named) ← sortArguments found
      calls rounds (.call e args named) (← expect ")" rest)
    | _ => some (e, tokens)

/-- Read arguments up to and not including the closing bracket. -/
def arguments : (rounds : Nat) → List Token → Option (Reading (List Argument))
  | 0, _ => none
  | rounds + 1, tokens => do
    match tokens with
    | .mark ")" :: _ => return ([], tokens)
    | _ =>
      let (e, rest) ← expression rounds tokens
      let (found, rest) ← match e, rest with
        | .name text, .mark "=" :: rest => do
          let (value, rest) ← expression rounds rest
          pure (Argument.named text value, rest)
        | _, .mark "=" :: _ => none
        | _, _ => pure (Argument.placed e, rest)
      match rest with
      | .mark "," :: rest => do
        let (more, rest) ← arguments rounds rest
        return (found :: more, rest)
      | _ => return ([found], rest)

/-- Read a name, a literal or a bracketed expression. -/
def primary : (rounds : Nat) → List Token → Option (Reading Expr)
  | 0, _ => none
  | rounds + 1, tokens =>
    match tokens with
    | .name text :: rest => if reservedWords.contains text then none else some (.name text, rest)
    | .int value :: rest => some (.int value, rest)
    | .float :: rest => some (.float, rest)
    | .string text :: rest => some (.string text, rest)
    | .bytes :: rest => some (.bytes, rest)
    | .mark "(" :: .mark ")" :: rest => some (.tuple [], rest)
    | .mark "(" :: rest => do
      let (e, rest) ← expression rounds rest
      match rest with
      | .mark "," :: rest => do
        let (more, rest) ← items rounds ")" rest
        return (.tuple (e :: more), ← expect ")" rest)
      | _ => return (.bracketed e, ← expect ")" rest)
    | .mark "[" :: rest => do
      let (found, rest) ← items rounds "]" rest
      return (.list found, ← expect "]" rest)
    | .mark "\x7b" :: rest => do
      let (found, rest) ← entries rounds rest
      return (.dict found, ← expect "\x7d" rest)
    | _ => none

/-- Read expressions separated by commas, up to and not including a closing bracket. -/
def items : (rounds : Nat) → (closing : String) → List Token → Option (Reading (List Expr))
  | 0, _, _ => none
  | rounds + 1, closing, tokens => do
    if tokens.head? = some (.mark closing) then return ([], tokens)
    else
      let (e, rest) ← expression rounds tokens
      match rest with
      | .mark "," :: rest => do
        let (more, rest) ← items rounds closing rest
        return (e :: more, rest)
      | _ => return ([e], rest)

/-- Read pairs of expressions, up to and not including the closing brace. -/
def entries : (rounds : Nat) → List Token → Option (Reading (List Expr))
  | 0, _ => none
  | rounds + 1, tokens => do
    if tokens.head? = some (.mark "\x7d") then return ([], tokens)
    else
      let (key, rest) ← expression rounds tokens
      let (value, rest) ← expression rounds (← expect ":" rest)
      match rest with
      | .mark "," :: rest => do
        let (more, rest) ← entries rounds rest
        return (key :: value :: more, rest)
      | _ => return ([key, value], rest)

end

/-- Read the expressions of all lines. Several on one line are separated by semicolons. -/
def statements : (rounds : Nat) → List Token → Option (List Expr)
  | 0, _ => none
  | _ + 1, [] => some []
  | rounds + 1, .newline :: rest => statements rounds rest
  | rounds + 1, tokens => do
    let (e, rest) ← expression (8 * tokens.length + 8) tokens
    match rest with
    | [] => return [e]
    | .newline :: rest => return e :: (← statements rounds rest)
    | .mark ";" :: rest =>
      match rest with
      | .mark ";" :: _ => none
      | _ => return e :: (← statements rounds rest)
    | _ => none

mutual

/-- Whether a script can use every name in an expression. -/
def Expr.isKnown : Expr → Bool
  | .name text => knownNames.contains text
  | .int _ => true
  | .float => true
  | .string _ => true
  | .bytes => true
  | .list items => Expr.areKnown items
  | .tuple items => Expr.areKnown items
  | .dict entries => Expr.areKnown entries
  | .bracketed inner => inner.isKnown
  | .plus e => e.isKnown
  | .minus e => e.isKnown
  | .add a b => a.isKnown && b.isKnown
  | .subtract a b => a.isKnown && b.isKnown
  | .call f args named => f.isKnown && Expr.areKnown args && Expr.areKnownNamed named

/-- Whether a script can use every name in some expressions. -/
def Expr.areKnown : List Expr → Bool
  | [] => true
  | e :: rest => e.isKnown && Expr.areKnown rest

/-- Whether a script can use every name in some arguments. -/
def Expr.areKnownNamed : List (String × Expr) → Bool
  | [] => true
  | (_, e) :: rest => e.isKnown && Expr.areKnownNamed rest

end

/-- The expressions of a script, if the script is well formed. -/
def read? (text : String) : Option (List Expr) := do
  let tokens ← tokens? text
  let lines ← statements (tokens.length + 1) tokens
  if Expr.areKnown lines then return lines else none

end Turnstile.Script
