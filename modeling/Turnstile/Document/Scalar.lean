import Turnstile.Text.Quoted

/-!
# Texts in documents

A text in a document is plain or in quotation marks. It can run over several lines: a line end
inside it reads as a blank, and each empty line as a line end.
-/

namespace Turnstile.Document

/-- Whether a character separates words on a line. -/
def isBlank (c : Char) : Bool := c = ' ' || c = '\t'

/-- Whether a character ends a line. Next to the usual line end these are the separators of lines
and of paragraphs. -/
def isBreak (c : Char) : Bool := c = '\n' || c = '\u2028' || c = '\u2029'

/-- Whether a text starts with a blank or line end, or is at its end. -/
def atBlank : List Char → Bool
  | [] => true
  | c :: _ => isBlank c || isBreak c

/-- The characters that separate the parts of a bracketed list or mapping. -/
def flowMarks : List Char := [',', '[', ']', '\x7b', '\x7d']

/-- The characters that no plain text begins with. -/
def indicators : List Char :=
  flowMarks ++ ['#', '&', '*', '!', '|', '>', '\x27', '"', '%', '@', '\x60']

/-- Whether a plain text can begin here; `flow` says that it stands between brackets. -/
def startsPlain (flow : Bool) : List Char → Bool
  | [] => false
  | c :: rest =>
    if c = '-' then !atBlank rest
    else if c = '?' || c = ':' then !flow && !atBlank rest
    else !indicators.contains c && !isBlank c && !isBreak c

/-- What line ends in a row stand for inside a text: a usual one that comes first joins two lines,
all others stay. -/
def foldedBreaks : List Char → List Char
  | ['\n'] => [' ']
  | '\n' :: more => more
  | breaks => breaks

/-- What a run of blanks and line ends stands for inside a quoted text. -/
def foldedRun (run : List Char) : List Char :=
  if run.any isBreak then foldedBreaks (run.filter isBreak) else run

/-- The blanks and line ends at the front of a text. -/
def blankRun (cs : List Char) : List Char := cs.takeWhile fun c => isBlank c || isBreak c

/-! ## Quoted texts -/

/-- The character that an escape of one letter stands for. -/
def letterEscape? : Char → Option Char
  | '0' => some '\x00'
  | 'a' => some '\x07'
  | 'b' => some '\x08'
  | 't' => some '\t'
  | '\t' => some '\t'
  | 'n' => some '\n'
  | 'v' => some '\x0b'
  | 'f' => some '\x0c'
  | 'r' => some '\r'
  | 'e' => some '\x1b'
  | ' ' => some ' '
  | '"' => some '"'
  | '\x27' => some '\x27'
  | '/' => some '/'
  | '\\' => some '\\'
  | 'N' => some '\u0085'
  | '_' => some '\u00a0'
  | 'L' => some '\u2028'
  | 'P' => some '\u2029'
  | _ => none

/-- How many hexadecimal digits follow the letter of an escape by code point. -/
def escapeWidth? : Char → Option Nat
  | 'x' => some 2
  | 'u' => some 4
  | 'U' => some 8
  | _ => none

/-- The characters that an escape stands for, given what follows its backslash. A line end after a
backslash joins two lines without a blank; empty lines after it stay. -/
def escaped? : List Char → Option (List Char × List Char)
  | [] => none
  | c :: rest =>
    if isBreak c then
      let run := blankRun rest
      some (run.filter isBreak, rest.drop run.length)
    else
      match letterEscape? c, escapeWidth? c with
      | some found, _ => some ([found], rest)
      | none, some width => (Text.takeDigits? 16 width 0 rest).bind fun (n, rest) =>
          if n.isValidChar then some ([Char.ofNat n], rest) else none
      | none, none => none

/-- Read a double-quoted text, given what follows its first mark. Each round takes at least one
character. -/
def doubleQuoted : (rounds : Nat) → List Char → Option (List Char × List Char)
  | 0, _ => none
  | _ + 1, [] => none
  | rounds + 1, c :: rest =>
    if c = '"' then some ([], rest)
    else if c = '\\' then (escaped? rest).bind fun (chars, rest) => more rounds chars rest
    else if isBlank c || isBreak c then
      let run := blankRun (c :: rest)
      more rounds (foldedRun run) (rest.drop (run.length - 1))
    else more rounds [c] rest
where
  /-- The characters read so far, followed by those that follow. -/
  more (rounds : Nat) (chars rest : List Char) : Option (List Char × List Char) :=
    (doubleQuoted rounds rest).map fun (text, rest) => (chars ++ text, rest)

/-- Read a single-quoted text, given what follows its first mark. A mark inside it is written
twice. -/
def singleQuoted : (rounds : Nat) → List Char → Option (List Char × List Char)
  | 0, _ => none
  | _ + 1, [] => none
  | rounds + 1, c :: rest =>
    if c = '\x27' then
      match rest with
      | '\x27' :: rest => more rounds ['\x27'] rest
      | _ => some ([], rest)
    else if isBlank c || isBreak c then
      let run := blankRun (c :: rest)
      more rounds (foldedRun run) (rest.drop (run.length - 1))
    else more rounds [c] rest
where
  /-- The characters read so far, followed by those that follow. -/
  more (rounds : Nat) (chars rest : List Char) : Option (List Char × List Char) :=
    (singleQuoted rounds rest).map fun (text, rest) => (chars ++ text, rest)

/-- Read a quoted text, if one begins here. -/
def quotedText? : List Char → Option (String × List Char)
  | '"' :: rest => (doubleQuoted rest.length rest).map fun (text, rest) =>
      (String.ofList text, rest)
  | '\x27' :: rest => (singleQuoted rest.length rest).map fun (text, rest) =>
      (String.ofList text, rest)
  | _ => none

/-! ## Plain texts -/

/-- The part of a line that belongs to a plain text: it ends at a colon before a blank and at a
hash after one, and between brackets also at a bracket or comma. -/
def plainSpan (flow : Bool) (previous : Char) : List Char → List Char
  | [] => []
  | c :: rest =>
    if isBreak c then []
    else if c = ':' && atBlank rest then []
    else if c = '#' && isBlank previous then []
    else if flow && flowMarks.contains c then []
    else c :: plainSpan flow c rest

/-- A text without the blanks at its end. -/
def trimEnd (text : List Char) : List Char := (text.reverse.dropWhile isBlank).reverse

/-- Pass over blanks and line ends: the line ends, the column and what follows. On a new line no
tab may stand before the column `indent`. -/
def skipBreaks (indent : Nat) (breaks : List Char) (column : Nat) :
    List Char → Option (List Char × Nat × List Char)
  | [] => some (breaks, column, [])
  | c :: rest =>
    if isBreak c then skipBreaks indent (breaks ++ [c]) 0 rest
    else if c = '\t' && !breaks.isEmpty && column < indent then none
    else if isBlank c then skipBreaks indent breaks (column + 1) rest
    else some (breaks, column, c :: rest)

/-- Read the further lines of a plain text. A line belongs to it if it is indented at least by
`indent` or stands between brackets. Each round takes a line. -/
def plainLines (flow : Bool) (indent : Nat) :
    (rounds : Nat) → List Char → Option (List Char × List Char)
  | 0, cs => some ([], cs)
  | rounds + 1, cs => do
    if cs.head?.any isBreak then
      let (breaks, column, rest) ← skipBreaks indent [] 0 cs
      let span := plainSpan flow ' ' rest
      if (!flow && column < indent) || span.isEmpty then return ([], cs)
      else
        let (text, rest) ← plainLines flow indent rounds (rest.drop span.length)
        return (foldedBreaks breaks ++ trimEnd span ++ text, rest)
    else return ([], cs)

/-- Read a plain text. -/
def plainText? (flow : Bool) (indent : Nat) (cs : List Char) : Option (String × List Char) := do
  if startsPlain flow cs then
    let span := plainSpan flow ' ' cs
    let (text, rest) ← plainLines flow indent cs.length (cs.drop span.length)
    return (String.ofList (trimEnd span ++ text), rest)
  else none

/-- Read a text on one line that a mapping could have as a key. -/
def lineText? (cs : List Char) : Option (String × List Char) :=
  match quotedText? cs with
  | some (text, rest) =>
    if (cs.take (cs.length - rest.length)).any isBreak then none else some (text, rest)
  | none =>
    if startsPlain false cs then
      let span := plainSpan false ' ' cs
      some (String.ofList (trimEnd span), cs.drop span.length)
    else none

end Turnstile.Document
