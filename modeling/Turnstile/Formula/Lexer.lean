import Turnstile.Supply
import Turnstile.Text.Blank
import Turnstile.Text.Digit
import Turnstile.Text.Letter

/-!
# Cutting a formula's text into tokens

Blanks separate tokens. An identifier is a maximal run of letters, digits and underscores that
does not start with a digit; of the other tokens the longer spelling wins. The list of tokens
ends with one that marks the end of the text.
-/

namespace Turnstile.Formula

/-- Whether a character can begin an identifier. -/
def isNameStart (c : Char) : Bool := c = '_' || Text.isLetter c

/-- Whether a character can continue an identifier. -/
def isNamePart (c : Char) : Bool := isNameStart c || Text.isDigit c

/-- The tokens with a fixed spelling, a longer spelling before its own beginning. -/
def punctuation : List (List Char × TokenKind) := [
  (['-', '>'], .arrow),
  (['|', '-'], .turnstile),
  (['('], .leftParen),
  ([')'], .rightParen),
  (['\x7b'], .leftBrace),
  (['\x7d'], .rightBrace),
  ([','], .comma),
  (['.'], .dot),
  (['\\'], .backslash),
  ([':'], .colon),
  (['?'], .question),
  (['|'], .bar),
  (['='], .identifier)]

/-- The kind and the spelling of the token at the front of a text. -/
def frontToken? : List Char → Option (TokenKind × List Char)
  | [] => none
  | c :: rest =>
    if isNameStart c then some (.identifier, c :: rest.takeWhile isNamePart)
    else (punctuation.find? fun entry => entry.1.isPrefixOf (c :: rest)).map fun entry =>
      (entry.2, entry.1)

/-- The tokens of a text from a position on, passing over its first `skip` characters. -/
def tokensFrom : (skip : Nat) → Position → List Char → Except Failure (List Token)
  | _, p, [] => .ok [⟨.endOfInput, "", p⟩]
  | skip + 1, p, c :: rest => tokensFrom skip (p.after c) rest
  | 0, p, c :: rest =>
    if Text.isBlank c then tokensFrom 0 (p.after c) rest
    else match frontToken? (c :: rest) with
      | none => .error (.malformed p (.unexpectedChar c))
      | some (kind, spelling) => do
        let tokens ← tokensFrom (spelling.length - 1) (p.after c) rest
        return ⟨kind, String.ofList spelling, p⟩ :: tokens

/-- The tokens of a text. -/
def tokens (text : String) : Except Failure (List Token) :=
  tokensFrom 0 Position.start text.toList

end Turnstile.Formula
