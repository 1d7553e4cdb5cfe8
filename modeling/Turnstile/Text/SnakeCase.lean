import Turnstile.Text.Blank

/-!
# Snake case

Rules are looked up by the snake-case form of their names, so that `leftNegation`,
`LeftNegation` and `left negation` all name `left_negation`. A word ends where a lower-case
letter meets a capital, where letters meet digits, and before the last capital of a run that a
lower-case letter follows; blanks, hyphens and dots count as word breaks. Only ASCII letters
have case here.
-/

namespace Turnstile.Text

/-- A text without the blanks at its two ends. -/
def trimBlanks (text : List Char) : List Char :=
  ((text.dropWhile isBlank).reverse.dropWhile isBlank).reverse

/-- The characters that a word break may be spelled with. -/
def isBreak (c : Char) : Bool := c = ' ' || c = '_' || c = '-' || c = '.'

/-- Whether a word ends, or begins a last capital, between two neighbours. -/
def changesClass (c next : Char) : Bool :=
  (c.isUpper && (next.isLower || next.isDigit))
    || (c.isLower && (next.isUpper || next.isDigit))
    || (c.isDigit && (next.isUpper || next.isLower))

/-- What one character of a name becomes, given its neighbours. -/
def snakeChar (previous : Option Char) (c : Char) (next : Option Char) : List Char :=
  match next with
  | some next =>
    if changesClass c next then
      (if c.isUpper && next.isLower && previous.any Char.isUpper then ['_'] else [])
        ++ [c.toLower]
        ++ (if c.isLower || c.isDigit || next.isDigit then ['_'] else [])
    else plain c
  | none => plain c
where
  /-- A character inside a word, or a word break. -/
  plain (c : Char) : List Char := if isBreak c then ['_'] else [c.toLower]

/-- The snake-case form of the characters after `previous`. -/
def snakeAfter (previous : Option Char) : List Char → List Char
  | [] => []
  | c :: rest => snakeChar previous c rest.head? ++ snakeAfter (some c) rest

/-- The snake-case form of a name. -/
def snakeCase (name : String) : String :=
  String.ofList (snakeAfter none (trimBlanks name.toList))

end Turnstile.Text
