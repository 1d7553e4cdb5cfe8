import Turnstile.Text.Octets
import Turnstile.Text.Quoted
import Turnstile.Word

/-!
# Values of settings

A project file is a list of settings, each a key with a value. Only texts, whole numbers and
lists of texts are of use; values of other types are known by being something else.
-/

namespace Turnstile.Settings

/-- The value of a setting. -/
inductive Value where
  | text (value : String)
  | int (value : Int)
  | list (items : List Value)
  /-- A truth value, a number with a fraction, a date or a table. -/
  | other
  deriving Repr, Inhabited

/-! ## Texts -/

/-- Whether a character can stand in a text on its own. -/
def isTextChar (c : Char) : Bool := c = '\t' || (0x20 ≤ c.toNat && c.toNat ≠ 0x7f)

/-- The character that an escape of one letter stands for. -/
def letterEscape? : Char → Option Char
  | 'b' => some '\x08'
  | 't' => some '\t'
  | 'n' => some '\n'
  | 'f' => some '\x0c'
  | 'r' => some '\r'
  | 'e' => some '\x1b'
  | '"' => some '"'
  | '\\' => some '\\'
  | _ => none

/-- How many hexadecimal digits follow the letter of an escape by code point. -/
def escapeWidth? : Char → Option Nat
  | 'x' => some 2
  | 'u' => some 4
  | 'U' => some 8
  | _ => none

/-- The character that an escape stands for, given what follows its backslash. -/
def escaped? : List Char → Option (Char × List Char)
  | [] => none
  | c :: rest =>
    match letterEscape? c, escapeWidth? c with
    | some found, _ => some (found, rest)
    | none, some width => (Text.takeDigits? 16 width 0 rest).bind fun (n, rest) =>
        if n.isValidChar then some (Char.ofNat n, rest) else none
    | none, none => none

/-- Read a text with escapes, given what follows its first mark. Each round takes at least one
character. -/
def basicText : (rounds : Nat) → List Char → Option (List Char × List Char)
  | 0, _ => none
  | _ + 1, [] => none
  | rounds + 1, c :: rest =>
    if c = '"' then some ([], rest)
    else if c = '\\' then (escaped? rest).bind fun (found, rest) =>
      (basicText rounds rest).map fun (text, rest) => (found :: text, rest)
    else if isTextChar c then
      (basicText rounds rest).map fun (text, rest) => (c :: text, rest)
    else none

/-- Read a text without escapes, given what follows its first mark. -/
def literalText (cs : List Char) : Option (List Char × List Char) :=
  let text := cs.takeWhile fun c => c ≠ '\x27' && isTextChar c
  match cs.drop text.length with
  | '\x27' :: rest => some (text, rest)
  | _ => none

/-- Read a text over several lines, given what follows its three first marks; `escapes` says
whether backslashes begin escapes. A backslash at the end of a line joins it to the next word,
and up to two marks may stand before the closing ones. -/
def longText (mark : Char) (escapes : Bool) : (rounds : Nat) → List Char →
    Option (List Char × List Char)
  | 0, _ => none
  | _ + 1, [] => none
  | rounds + 1, c :: rest =>
    let marks := ((c :: rest).takeWhile (· = mark)).length
    if marks ≥ 3 then
      if marks > 5 then none
      else some (List.replicate (marks - 3) mark, (c :: rest).drop marks)
    else if c = '\\' && escapes then
      let blanks := rest.takeWhile fun d => d = ' ' || d = '\t'
      match rest.drop blanks.length with
      | '\n' :: more => longText mark escapes rounds
          (more.dropWhile fun d => d = ' ' || d = '\t' || d = '\n')
      | _ => (escaped? rest).bind fun (found, rest) =>
          (longText mark escapes rounds rest).map fun (text, rest) => (found :: text, rest)
    else if isTextChar c || c = '\n' then
      (longText mark escapes rounds rest).map fun (text, rest) => (c :: text, rest)
    else none

/-- What follows the first line end, if it comes at once. -/
def dropBreak : List Char → List Char
  | '\n' :: rest => rest
  | cs => cs

/-- Read a text on one line, if one begins here. -/
def shortText? : List Char → Option (String × List Char)
  | '"' :: rest => (basicText rest.length rest).map fun (text, rest) => (String.ofList text, rest)
  | '\x27' :: rest => (literalText rest).map fun (text, rest) => (String.ofList text, rest)
  | _ => none

/-- Read a text, if one begins here. -/
def text? : List Char → Option (String × List Char)
  | '"' :: '"' :: '"' :: rest => (longText '"' true (rest.length + 1) (dropBreak rest)).map
      fun (text, rest) => (String.ofList text, rest)
  | '\x27' :: '\x27' :: '\x27' :: rest =>
    (longText '\x27' false (rest.length + 1) (dropBreak rest)).map
      fun (text, rest) => (String.ofList text, rest)
  | cs => shortText? cs

/-! ## Numbers, dates and truth values -/

/-- Whether underscores stand between digits only and there is at least one digit. -/
def wellSeparated (isDigit : Char → Bool) : List Char → Bool
  | [] => false
  | [c] => isDigit c
  | c :: '_' :: rest => isDigit c && wellSeparated isDigit rest
  | c :: rest => isDigit c && wellSeparated isDigit rest

/-- The value of digits in a base. -/
def valueOf (base : Nat) (digits : List Char) : Nat :=
  (digits.filter (· ≠ '_')).foldl
    (fun n c => n * base + (Text.digitValue? base c).getD 0) 0

/-- A whole number in an announced base. -/
def based? (base : Nat) (digits : List Char) : Option Int :=
  if wellSeparated (fun c => (Text.digitValue? base c).isSome) digits then
    some (valueOf base digits)
  else none

/-- A decimal number without leading zeros. -/
def decimal? (digits : List Char) : Option Int :=
  if wellSeparated Char.isDigit digits && (digits.head? ≠ some '0' || digits.length = 1) then
    some (valueOf 10 digits)
  else none

/-- A whole number. -/
def int? : List Char → Option Int
  | '0' :: 'x' :: rest => based? 16 rest
  | '0' :: 'o' :: rest => based? 8 rest
  | '0' :: 'b' :: rest => based? 2 rest
  | '-' :: rest => (decimal? rest).map Int.neg
  | '+' :: rest => decimal? rest
  | cs => decimal? cs

/-- A word without its sign. -/
def unsigned : List Char → List Char
  | '-' :: rest => rest
  | '+' :: rest => rest
  | cs => cs

/-- Whether a word is a number with a fraction or exponent. -/
def isFloat (word : List Char) : Bool :=
  let word := unsigned word
  let whole := word.takeWhile fun c => c ≠ '.' && c ≠ 'e' && c ≠ 'E'
  let rest := word.drop whole.length
  let fraction := match rest with
    | '.' :: more => some (more.takeWhile fun c => c ≠ 'e' && c ≠ 'E')
    | _ => none
  let rest := match fraction with
    | some f => rest.drop (f.length + 1)
    | none => rest
  let exponentFine := match rest with
    | [] => fraction.isSome
    | _ :: more => wellSeparated Char.isDigit (unsigned more)
  word = ['i', 'n', 'f'] || word = ['n', 'a', 'n']
    || ((decimal? whole).isSome && (fraction.all (wellSeparated Char.isDigit)) && exponentFine)

/-- Whether a word has the shape of a date or a time of day. -/
def isDate (word : List Char) : Bool :=
  let shape := word.map fun c => if c.isDigit then 'd' else c
  "dddd-dd-dd".toList.isPrefixOf shape || "dd:dd:dd".toList.isPrefixOf shape

/-- The value of a word; numbers fit a signed word of 64 bits. -/
def word? (word : List Char) : Option Value :=
  if word = "true".toList || word = "false".toList then some .other
  else
    match int? word with
    | some n => if Word.fits n then some (.int n) else none
    | none => if isFloat word || isDate word then some .other else none

/-- Whether a character can stand in a word. -/
def isWordChar (c : Char) : Bool :=
  c.isAlphanum || c = '_' || c = '+' || c = '-' || c = '.' || c = ':'

end Turnstile.Settings
