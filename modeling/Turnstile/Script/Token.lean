import Turnstile.Text.Digit
import Turnstile.Text.Letter
import Turnstile.Text.Quoted

/-!
# Tokens of theory scripts

A script is made of lines that begin at the left margin. A line goes on while a bracket is open
or where a backslash ends it; comments run from a hash to the end of the line. A text that
cannot be cut into tokens has none.
-/

namespace Turnstile.Script

/-- A piece of a script. -/
inductive Token where
  /-- A name or word. -/
  | name (text : String)
  /-- A whole number. -/
  | int (value : Nat)
  /-- A number with a fraction or exponent; its value is of no use in a script. -/
  | float
  /-- A quoted text. -/
  | string (text : String)
  /-- A quoted byte string, which is of no use in a script. -/
  | bytes
  /-- A bracket, separator or operator. -/
  | mark (text : String)
  /-- The end of a line outside brackets. -/
  | newline
  deriving DecidableEq, Repr, Inhabited

/-- Whether a character can begin a name. -/
def isNameStart (c : Char) : Bool := c = '_' || Text.isLetter c

/-- Whether a character can continue a name. -/
def isNamePart (c : Char) : Bool := isNameStart c || Text.isDigit c

/-! ## Quoted texts -/

/-- The characters that an escape stands for, given what follows its backslash; none if it is
no escape. A text has no escapes for numbers above those of ASCII but by code point. -/
def escaped? (bytes : Bool) : List Char → Option (List Char × List Char)
  | [] => none
  | c :: rest =>
    match c with
    | '\n' => some ([], rest)
    | 'a' => some (['\x07'], rest)
    | 'b' => some (['\x08'], rest)
    | 'f' => some (['\x0c'], rest)
    | 'n' => some (['\n'], rest)
    | 'r' => some (['\r'], rest)
    | 't' => some (['\t'], rest)
    | 'v' => some (['\x0b'], rest)
    | '\\' => some (['\\'], rest)
    | '\x27' => some (['\x27'], rest)
    | '"' => some (['"'], rest)
    | 'x' => (Text.takeDigits? 16 2 0 rest).bind narrow
    | 'u' => (Text.takeDigits? 16 4 0 rest).bind wide
    | 'U' => (Text.takeDigits? 16 8 0 rest).bind wide
    | _ =>
      let digits := ((c :: rest).take 3).takeWhile fun d => (Text.digitValue? 8 d).isSome
      if digits.isEmpty then none
      else (Text.takeDigits? 8 digits.length 0 (c :: rest)).bind narrow
where
  /-- A byte, which in a text must be that of an ASCII character. -/
  narrow : Nat × List Char → Option (List Char × List Char)
    | (n, rest) => if n < (if bytes then 256 else 128) then some ([Char.ofNat n], rest) else none
  /-- A code point that is a character. -/
  wide : Nat × List Char → Option (List Char × List Char)
    | (n, rest) => if n.isValidChar then some ([Char.ofNat n], rest) else none

/-- How a quoted text is delimited and read. -/
structure Quotation where
  /-- The quotation mark. -/
  mark : Char
  /-- Whether three marks delimit the text, which may then contain line ends. -/
  triple : Bool
  /-- Whether backslashes stand for themselves. -/
  raw : Bool
  /-- Whether it spells bytes. -/
  bytes : Bool
  deriving DecidableEq, Repr

/-- What follows the closing marks of a quotation, if they come next. -/
def Quotation.close? (q : Quotation) : List Char → Option (List Char)
  | a :: b :: c :: rest =>
    if q.triple then if a = q.mark && b = q.mark && c = q.mark then some rest else none
    else if a = q.mark then some (b :: c :: rest) else none
  | a :: rest => if !q.triple && a = q.mark then some rest else none
  | [] => none

/-- Read a quoted text up to its closing marks. Each round takes at least one character. -/
def quotedText : (rounds : Nat) → Quotation → List Char → Option (List Char × List Char)
  | 0, _, _ => none
  | rounds + 1, q, cs =>
    match q.close? cs with
    | some rest => some ([], rest)
    | none =>
      match cs with
      | [] => none
      | '\\' :: rest =>
        if q.raw then
          match rest with
          | [] => none
          | c :: rest => (quotedText rounds q rest).map fun (text, rest) =>
              ('\\' :: c :: text, rest)
        else (escaped? q.bytes rest).bind fun (chars, rest) =>
          (quotedText rounds q rest).map fun (text, rest) => (chars ++ text, rest)
      | '\r' :: '\n' :: rest =>
        if q.triple then
          (quotedText rounds q rest).map fun (text, rest) => ('\n' :: text, rest)
        else none
      | c :: rest =>
        if c = '\n' && !q.triple then none
        else (quotedText rounds q rest).map fun (text, rest) => (c :: text, rest)

/-- The token of a quotation, given what follows its first mark. -/
def quoted (mark : Char) (raw bytes : Bool) (cs : List Char) : Option (Token × List Char) :=
  let triple := decide (cs.take 2 = [mark, mark])
  let inside := if triple then cs.drop 2 else cs
  (quotedText (inside.length + 1) ⟨mark, triple, raw, bytes⟩ inside).map fun (text, rest) =>
    (if bytes then .bytes else .string (String.ofList text), rest)

/-! ## Numbers and names -/

/-- The value of digits in a base. -/
def valueOf (base : Nat) (digits : List Char) : Nat :=
  digits.foldl (fun n c => n * base + (Text.digitValue? base c).getD 0) 0

/-- A number with an announced base. -/
def basedNumber (base : Nat) (cs : List Char) : Option (Token × List Char) :=
  let digits := cs.takeWhile fun c => (Text.digitValue? base c).isSome
  if digits.isEmpty then none else some (.int (valueOf base digits), cs.drop digits.length)

/-- What follows the exponent of a number, if a well-formed one comes next. -/
def afterExponent (cs : List Char) : Option (List Char) :=
  match cs with
  | e :: rest =>
    if e = 'e' || e = 'E' then
      let unsigned := match rest with
        | '+' :: more => more
        | '-' :: more => more
        | _ => rest
      let digits := unsigned.takeWhile Char.isDigit
      if digits.isEmpty then none else some (unsigned.drop digits.length)
    else none
  | [] => none

/-- A decimal number. A whole number has no leading zeros. -/
def decimalNumber (cs : List Char) : Option (Token × List Char) :=
  let digits := cs.takeWhile Char.isDigit
  match cs.drop digits.length with
  | '.' :: rest =>
    let rest := rest.dropWhile Char.isDigit
    some (.float, (afterExponent rest).getD rest)
  | rest =>
    match afterExponent rest with
    | some rest => some (.float, rest)
    | none =>
      if digits.head? = some '0' && digits.any (· ≠ '0') then none
      else some (.int (valueOf 10 digits), rest)

/-- A number. -/
def number : List Char → Option (Token × List Char)
  | '0' :: c :: rest =>
    match c.toLower with
    | 'x' => basedNumber 16 rest
    | 'o' => basedNumber 8 rest
    | 'b' => basedNumber 2 rest
    | _ => decimalNumber ('0' :: c :: rest)
  | cs => decimalNumber cs

/-- A name, or a quotation that is announced by letters. -/
def word (cs : List Char) : Option (Token × List Char) :=
  match cs with
  | 'r' :: 'b' :: '"' :: rest => quoted '"' true true rest
  | 'r' :: 'b' :: '\x27' :: rest => quoted '\x27' true true rest
  | 'r' :: '"' :: rest => quoted '"' true false rest
  | 'r' :: '\x27' :: rest => quoted '\x27' true false rest
  | 'b' :: '"' :: rest => quoted '"' false true rest
  | 'b' :: '\x27' :: rest => quoted '\x27' false true rest
  | _ =>
    let text := cs.takeWhile isNamePart
    some (.name (String.ofList text), cs.drop text.length)

/-! ## Lines -/

/-- Operators of more than one character; none of them can be used in a script. -/
def longMarks : List String :=
  ["==", "!=", "<=", ">=", "//", "**", "+=", "-=", "*=", "/=", "%=", "|=", "&=", "^=", "<<", ">>"]

/-- The single characters that are tokens. -/
def shortMarks : List Char :=
  ['(', ')', '[', ']', '\x7b', '\x7d', ',', ':', ';', '=', '+', '-', '*', '/', '%', '.', '|',
    '&', '^', '~', '<', '>']

/-- The token at the front of a text that begins with `c`. -/
def token (c : Char) (rest : List Char) : Option (Token × List Char) :=
  let long := String.ofList ((c :: rest).take 2)
  if isNameStart c then word (c :: rest)
  else if c.isDigit || (c = '.' && rest.head?.any Char.isDigit) then number (c :: rest)
  else if c = '"' || c = '\x27' then quoted c false false rest
  else if longMarks.contains long then some (.mark long, rest.drop 1)
  else if shortMarks.contains c then some (.mark (String.singleton c), rest)
  else none

/-- How many brackets are open after a token. -/
def depthAfter (depth : Nat) : Token → Nat
  | .mark text =>
    if text = "(" || text = "[" || text = "\x7b" then depth + 1
    else if text = ")" || text = "]" || text = "\x7d" then depth - 1
    else depth
  | _ => depth

/-- Whether a line holds nothing but blanks and a comment. -/
def isEmptyLine (cs : List Char) : Bool :=
  match cs.dropWhile fun c => c = ' ' || c = '\t' || c = '\r' with
  | [] => true
  | c :: _ => c = '\n' || c = '#'

/-- The tokens from a place on, with `depth` brackets open; `fresh` says that a line begins.
Each round takes at least one character. -/
def tokensFrom : (rounds depth : Nat) → (fresh : Bool) → List Char → Option (List Token)
  | 0, _, _, _ => none
  | _ + 1, _, _, [] => some []
  | rounds + 1, depth, fresh, c :: rest =>
    if fresh && isEmptyLine (c :: rest) then
      tokensFrom rounds depth true ((c :: rest).dropWhile (· ≠ '\n') |>.drop 1)
    else if fresh && (c = ' ' || c = '\t') then none
    else if c = ' ' || c = '\t' || c = '\r' then tokensFrom rounds depth false rest
    else if c = '#' then tokensFrom rounds depth false (rest.dropWhile (· ≠ '\n'))
    else if c = '\n' then
      if depth = 0 then (Token.newline :: ·) <$> tokensFrom rounds depth true rest
      else tokensFrom rounds depth false rest
    else if c = '\\' then
      match rest with
      | '\n' :: rest => tokensFrom rounds depth false rest
      | '\r' :: '\n' :: rest => tokensFrom rounds depth false rest
      | _ => none
    else (token c rest).bind fun (t, rest) =>
      (t :: ·) <$> tokensFrom rounds (depthAfter depth t) false rest

/-- The tokens of a script. -/
def tokens? (text : String) : Option (List Token) :=
  tokensFrom (text.length + 1) 0 true text.toList

end Turnstile.Script
