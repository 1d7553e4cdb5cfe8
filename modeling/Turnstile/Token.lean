/-!
# Tokens of the formula language

A token is a piece of the text with its kind and the position of its first character. The
characters themselves are cut into tokens by the lexer.
-/

namespace Turnstile

/-- A place in a text. -/
structure Position where
  /-- The number of bytes before it. -/
  offset : Nat
  /-- The line, from one. -/
  line : Nat
  /-- The column in characters, from one. -/
  column : Nat
  deriving DecidableEq, Repr, Inhabited

namespace Position

/-- Where a text begins. -/
def start : Position := ⟨0, 1, 1⟩

/-- The place after one more character. -/
def after (p : Position) (c : Char) : Position :=
  if c = '\n' then ⟨p.offset + c.utf8Size, p.line + 1, 1⟩
  else ⟨p.offset + c.utf8Size, p.line, p.column + 1⟩

/-- The place after some more characters. -/
def afterAll (p : Position) (cs : List Char) : Position := cs.foldl after p

/-- Line and column. -/
def text (p : Position) : String := toString p.line ++ ":" ++ toString p.column

end Position

/-- The kinds of tokens. -/
inductive TokenKind where
  | endOfInput
  | identifier
  | leftParen
  | rightParen
  | leftBrace
  | rightBrace
  | comma
  | dot
  | backslash
  | arrow
  | colon
  | question
  | bar
  | turnstile
  deriving DecidableEq, Repr, Inhabited

/-- The name of a kind of token in messages. -/
def TokenKind.name : TokenKind → String
  | endOfInput => "end of input"
  | identifier => "identifier"
  | leftParen => "'('"
  | rightParen => "')'"
  | leftBrace => "'\x7b'"
  | rightBrace => "'\x7d'"
  | comma => "','"
  | dot => "'.'"
  | backslash => "'\\'"
  | arrow => "'->'"
  | colon => "':'"
  | question => "'?'"
  | bar => "'|'"
  | turnstile => "'|-'"

/-- A piece of the text. -/
structure Token where
  /-- What it is. -/
  kind : TokenKind
  /-- How it is spelled. -/
  text : String
  /-- Where it begins. -/
  position : Position
  deriving DecidableEq, Repr, Inhabited

end Turnstile
