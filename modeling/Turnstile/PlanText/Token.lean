import Turnstile.Supply
import Turnstile.Text.Digit
import Turnstile.Text.Letter

/-!
# Tokens of plan text

Plan text is made of names, whole numbers, quoted strings, backquoted terms and single
characters, with tabs, line ends and blanks between them. Cutting it into tokens never fails: a
misspelled token is a token all the same, and every token carries the first misspelling found up
to the character after it, which is as far as the text has been looked at when the token is
read.
-/

namespace Turnstile.PlanText

/-- The kinds of tokens. -/
inductive Kind where
  | endOfInput
  | name
  | int
  | string
  | backquoted
  | char (c : Char)
  deriving DecidableEq, Repr, Inhabited

/-- A misspelling and the place where it was noticed. -/
structure Misspelling where
  /-- Line, from one. -/
  line : Nat
  /-- Column, from one. -/
  column : Nat
  /-- What is wrong. -/
  problem : String
  deriving DecidableEq, Repr, Inhabited

/-- A piece of plan text. -/
structure Token where
  /-- What it is. -/
  kind : Kind
  /-- How it is spelled. -/
  text : String
  /-- The line it begins on; zero at the end of an empty text. -/
  line : Nat
  /-- The column it begins in; zero at the end of an empty text. -/
  column : Nat
  /-- The first misspelling noticed so far. -/
  misspelling : Option Misspelling
  deriving DecidableEq, Repr, Inhabited

/-- The extent of a token at the front of a text, and the problems in it by the number of
characters before the place where they are noticed. -/
structure Extent where
  /-- What it is. -/
  kind : Kind
  /-- How many characters it has. -/
  length : Nat
  /-- What is wrong with it. -/
  problems : List (Nat × String)

/-- The characters between tokens. -/
def isGap (c : Char) : Bool := c = '\t' || c = '\n' || c = '\r' || c = ' '

/-- Whether a character can begin a name. -/
def isNameStart (c : Char) : Bool := c = '_' || Text.isLetter c

/-- Whether a character can continue a name. -/
def isNamePart (c : Char) : Bool := isNameStart c || Text.isDigit c

/-- Whether a character is a hexadecimal digit. -/
def isHexDigit (c : Char) : Bool := (Text.digitValue? 16 c).isSome

/-! ## Numbers -/

/-- The ways of writing a whole number. -/
inductive Radix where
  | decimal
  | leadingZero
  | octal
  | binary
  | hexadecimal
  deriving DecidableEq, Repr

namespace Radix

/-- What a number written so is called. -/
def literal : Radix → String
  | decimal => "decimal literal"
  | leadingZero => "octal literal"
  | octal => "octal literal"
  | binary => "binary literal"
  | hexadecimal => "hexadecimal literal"

/-- How many digits there are. -/
def base : Radix → Nat
  | decimal => 10
  | leadingZero => 8
  | octal => 8
  | binary => 2
  | hexadecimal => 16

/-- The radix of a number, given its first two characters, and how many of them announce it. -/
def announced (first : Char) (second : Option Char) : Radix × Nat :=
  if first ≠ '0' then (decimal, 0)
  else match second.map Char.toLower with
    | some 'x' => (hexadecimal, 2)
    | some 'o' => (octal, 2)
    | some 'b' => (binary, 2)
    | _ => (leadingZero, 1)

/-- Whether a character is taken into a number, be it allowed there or not. -/
def takes (radix : Radix) (c : Char) : Bool :=
  c = '_' || (if radix = hexadecimal then isHexDigit c else c.isDigit)

end Radix

/-- Whether an underscore in a number does not stand between two digits; `afterDigit` says
whether the character before was a digit, or the announcement of the radix. -/
def misplacedSeparator (radix : Radix) : (afterDigit afterSeparator : Bool) → List Char → Bool
  | _, afterSeparator, [] => afterSeparator
  | afterDigit, afterSeparator, c :: rest =>
    if c = '_' then !afterDigit || misplacedSeparator radix false true rest
    else if c.isDigit || (radix = .hexadecimal && isHexDigit c) then
      misplacedSeparator radix true false rest
    else afterSeparator || misplacedSeparator radix false false rest

/-- The extent of a number. -/
def numberExtent (first : Char) (rest : List Char) : Extent :=
  let (radix, skipped) := Radix.announced first rest.head?
  let body := ((first :: rest).drop skipped).takeWhile radix.takes
  let length := skipped + body.length
  let hasDigit := radix = .leadingZero || body.any (· ≠ '_')
  let wrong := if radix = .hexadecimal then none
    else body.find? fun c => c ≠ '_' && (Text.digitValue? radix.base c).isNone
  let announcement := decide (radix ≠ .decimal) && decide (radix ≠ .leadingZero)
  let separated := if announcement then body else (first :: rest).take length
  let problems :=
    (if hasDigit then [] else [radix.literal ++ " has no digits"])
      ++ (wrong.map fun c =>
        "invalid digit " ++ Text.quoteChar c ++ " in " ++ radix.literal).toList
      ++ (if body.contains '_' && misplacedSeparator radix announcement false separated
        then ["'_' must separate successive digits"] else [])
  ⟨.int, length, problems.map fun problem => (length, problem)⟩

/-! ## Strings -/

/-- How far a string has been read. -/
inductive StringState where
  /-- Between two characters. -/
  | plain
  /-- After a backslash. -/
  | escape
  /-- Inside an escape that still takes some digits of a base. -/
  | digits (base count : Nat)

/-- The problem of an escape that is not one. -/
def badEscape : String := "invalid char escape"

/-- The problem of a literal without an end. -/
def notTerminated : String := "literal not terminated"

/-- What a character outside of any escape does: it ends the string, breaks it off, begins an
escape or stands for itself. -/
inductive StringMove where
  | finish
  | breakOff
  | proceed (state : StringState)

/-- The move of a character outside of any escape. -/
def plainMove (c : Char) : StringMove :=
  if c = '"' then .finish
  else if c = '\n' then .breakOff
  else if c = '\\' then .proceed .escape
  else .proceed .plain

/-- The move of a character, and whether it shows that an escape is not one. -/
def stringMove : StringState → Char → Bool × StringMove
  | .plain, c => (false, plainMove c)
  | .digits _ 0, c => (false, plainMove c)
  | .digits base (count + 1), c =>
    if (Text.digitValue? base c).isSome then (false, .proceed (.digits base count))
    else (true, plainMove c)
  | .escape, c =>
    match c with
    | 'a' | 'b' | 'f' | 'n' | 'r' | 't' | 'v' | '\\' | '"' => (false, .proceed .plain)
    | 'x' => (false, .proceed (.digits 16 2))
    | 'u' => (false, .proceed (.digits 16 4))
    | 'U' => (false, .proceed (.digits 16 8))
    | _ =>
      if (Text.digitValue? 8 c).isSome then (false, .proceed (.digits 8 2)) else (true, plainMove c)

/-- Whether the end of the text shows that an escape is not one. -/
def breaksEscape : StringState → Bool
  | .plain => false
  | .escape => true
  | .digits _ count => count ≠ 0

/-- The number of characters from a place in a string to its end, with the problems on the way;
`passed` is the number of characters before the place. -/
def stringExtent : (passed : Nat) → StringState → List Char → Nat × List (Nat × String)
  | passed, state, [] =>
    (passed,
      (if breaksEscape state then [(passed, badEscape)] else []) ++ [(passed, notTerminated)])
  | passed, state, c :: rest =>
    let (bad, move) := stringMove state c
    let problems := if bad then [(passed, badEscape)] else []
    match move with
    | .finish => (passed + 1, problems)
    | .breakOff => (passed + 1, problems ++ [(passed, notTerminated)])
    | .proceed state =>
      let (length, more) := stringExtent (passed + 1) state rest
      (length, problems ++ more)

/-- The extent of a backquoted term, given what follows its first backquote. -/
def backquotedExtent (rest : List Char) : Extent :=
  let body := rest.takeWhile (· ≠ '\x60')
  if body.length < rest.length then ⟨.backquoted, body.length + 2, []⟩
  else ⟨.backquoted, body.length + 1, [(body.length + 1, notTerminated)]⟩

/-! ## Tokens -/

/-- The extent of the token that begins with a character. -/
def extent (first : Char) (rest : List Char) : Extent :=
  if isNameStart first then ⟨.name, 1 + (rest.takeWhile isNamePart).length, []⟩
  else if first.isDigit then numberExtent first rest
  else if first = '"' then
    let (length, problems) := stringExtent 1 .plain rest
    ⟨.string, length, problems⟩
  else if first = '\x60' then backquotedExtent rest
  else ⟨.char first, 1, []⟩

/-- The places of null characters among the first `count` characters after the first one. -/
def nulls (count : Nat) (cs : List Char) : List (Nat × String) :=
  ((cs.take (count + 1)).zipIdx.drop 1).filterMap fun (c, i) =>
    if c = '\x00' then some (i, "invalid character NUL") else none

/-- The problem noticed first; of two at one place a null character counts first. -/
def earliest (nulls problems : List (Nat × String)) : Option (Nat × String) :=
  match nulls.head?, problems.head? with
  | some a, some b => if a.1 ≤ b.1 then some a else some b
  | some a, none => some a
  | none, b => b

/-- The tokens of a text from a position on. The first character has already been looked at.
Every round takes a token. -/
def tokensFrom : (rounds : Nat) → Option Misspelling → Position → List Char → List Token
  | 0, known, p, _ => [⟨.endOfInput, "", p.line, p.column, known⟩]
  | rounds + 1, known, p, cs =>
    let gap := cs.takeWhile isGap
    let start := p.afterAll gap
    match cs.drop gap.length with
    | [] => [⟨.endOfInput, "", start.line, start.column, known⟩]
    | c :: rest =>
      let e := extent c rest
      let spelling := (c :: rest).take e.length
      let problem := earliest (nulls (gap.length + e.length) cs)
        (e.problems.map fun (i, text) => (gap.length + i, text))
      let noticed := problem.map fun (i, text) =>
        let place := p.afterAll (cs.take i)
        (⟨place.line, place.column, text⟩ : Misspelling)
      let known := known <|> noticed
      ⟨e.kind, String.ofList spelling, start.line, start.column, known⟩
        :: tokensFrom rounds known (start.afterAll spelling) (rest.drop (e.length - 1))

/-- The tokens of plan text, the last one marking its end. A byte-order mark at the front is
passed over. -/
def tokens (text : String) : List Token :=
  match text.toList with
  | [] => [⟨.endOfInput, "", 0, 0, none⟩]
  | c :: rest =>
    if c = '\ufeff' then
      tokensFrom (rest.length + 1) (firstNull (Position.start.after c) rest)
        (Position.start.after c) rest
    else
      tokensFrom (rest.length + 2) (firstNull Position.start (c :: rest)) Position.start
        (c :: rest)
where
  /-- The misspelling of a text that begins with a null character. -/
  firstNull (p : Position) : List Char → Option Misspelling
    | c :: _ => if c = '\x00' then some ⟨p.line, p.column, "invalid character NUL"⟩ else none
    | [] => none

end Turnstile.PlanText
