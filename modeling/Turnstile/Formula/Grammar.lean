import Turnstile.Formula.Expr
import Turnstile.Formula.Lexer

/-!
# The grammar of formulas

Formulas are read by precedence climbing: `term` reads operands and the infix operators between
them whose precedence lies below a limit. Reading stops at the first token that does not fit; a
`Stop` then holds the formulas that were read in full before it, because a type error in one of
them is reported in preference to the token.

Every call either returns at once or passes on fewer tokens after at most three steps, so a
number of rounds of four times the number of tokens always suffices.
-/

namespace Turnstile.Formula

/-- Where and why reading stopped. -/
structure Stop where
  /-- What was read in full before, in order. -/
  read : List Expr
  /-- What does not fit. -/
  failure : Failure

/-- A part of a text that was read, with the tokens that remain. -/
abbrev Reading (α : Type) := α × List Token

/-- The next token. -/
def peek : List Token → Token
  | [] => default
  | token :: _ => token

/-- The tokens after the next one. The end of the text is never passed. -/
def advance : List Token → List Token
  | [] => []
  | token :: rest => if token.kind = .endOfInput then token :: rest else rest

/-- A token that does not fit. -/
def faultAt (token : Token) (fault : SyntaxFault) : Failure := .malformed token.position fault

/-- A token that fits nowhere here. -/
def unexpected (token : Token) : Failure :=
  faultAt token (if token.kind = .endOfInput then .unexpectedEnd else .unexpected token.text)

/-- Stop at a failure. -/
def stop {α : Type} (failure : Failure) : Except Stop α := .error ⟨[], failure⟩

/-- Remember what was read in full before a part that may stop. -/
def after {α : Type} (done : List Expr) (reading : Except Stop α) : Except Stop α :=
  reading.mapError fun s => { s with read := done ++ s.read }

/-- Pass over a token of the given kind. -/
def expect (kind : TokenKind) (tokens : List Token) : Except Failure (List Token) :=
  let token := peek tokens
  if token.kind = kind then .ok (advance tokens)
  else .error (faultAt token (.expected kind
    (if token.kind = .endOfInput then none else some token.text)))

/-- Pass over a token of the given kind, or stop. -/
def require (kind : TokenKind) (tokens : List Token) : Except Stop (List Token) :=
  (expect kind tokens).mapError fun failure => ⟨[], failure⟩

mutual

/-- Read a type: atomic types joined by arrows, which associate to the right. -/
def type (v : Vocabulary) : (rounds : Nat) → List Token →
    Except Failure (Reading TypeExpr)
  | 0, tokens => .error (unexpected (peek tokens))
  | rounds + 1, tokens => do
    let (domain, tokens) ← atomicType v rounds tokens
    if (peek tokens).kind = .arrow then
      let (codomain, tokens) ← type v rounds (advance tokens)
      return (.arrow domain codomain, tokens)
    else return (domain, tokens)

/-- Read a type name, a schematic variable or a type in parentheses. -/
def atomicType (v : Vocabulary) : (rounds : Nat) → List Token →
    Except Failure (Reading TypeExpr)
  | 0, tokens => .error (unexpected (peek tokens))
  | rounds + 1, tokens =>
    let token := peek tokens
    let rest := advance tokens
    match token.kind with
    | .identifier =>
      match v.type? token.text with
      | some t => .ok (.known t, rest)
      | none => .error (faultAt token (.unknownType token.text))
    | .question =>
      let name := peek rest
      if name.kind = .identifier then .ok (.schematic name.text, advance rest)
      else .error (unexpected name)
    | .leftParen => do
      let (t, rest) ← type v rounds rest
      return (t, ← expect .rightParen rest)
    | _ => .error (unexpected token)

end

/-- The number of rounds that reading some tokens can take. -/
def roundsFor (tokens : List Token) : Nat := 4 * tokens.length + 4

/-- Read a variable: a name, then possibly a colon and a type. -/
def name (v : Vocabulary) (tokens : List Token) : Except Failure (Reading NameExpr) :=
  let token := peek tokens
  if token.kind ≠ .identifier then .error (unexpected token)
  else if (v.lookup token.text).isSome then .error (faultAt token (.reserved token.text))
  else
    let rest := advance tokens
    if (peek rest).kind = .colon then do
      let (t, rest) ← type v (roundsFor rest) (advance rest)
      return (⟨token.text, some t⟩, rest)
    else .ok (⟨token.text, none⟩, rest)

/-- Read a variable, or stop. -/
def bound (v : Vocabulary) (tokens : List Token) : Except Stop (Reading NameExpr) :=
  (name v tokens).mapError fun failure => ⟨[], failure⟩

/-- The operator at a token that may stand between operands under a limit. -/
def infixAt? (v : Vocabulary) (token : Token) (limit : Int) : Option Operator :=
  if token.kind = .identifier then
    (v.operator? token.text).filter fun op => op.arity == 2 && op.precedence < limit
  else none

/-- An operator or binder that stands alone in parentheses, with the tokens after it. -/
def bareConstant? (v : Vocabulary) : List Token → Option (Symbol × List Token)
  | _ :: word :: close :: rest =>
    if word.kind = .identifier && close.kind = .rightParen then
      match v.lookup word.text with
      | some (.operator op) => some (op.constant, rest)
      | some (.binder constant) => some (constant, rest)
      | _ => none
    else none
  | _ => none

mutual

/-- Read a term whose infix operators have a precedence below the limit. -/
def term (v : Vocabulary) : (rounds : Nat) → (limit : Int) → List Token →
    Except Stop (Reading Expr)
  | 0, _, tokens => stop (unexpected (peek tokens))
  | rounds + 1, limit, tokens => do
    let (left, tokens) ← operand v rounds tokens
    climb v rounds limit (-1) left tokens

/-- Read the arguments and infix operators that follow a term. An operator whose precedence is
`chained` may not follow. -/
def climb (v : Vocabulary) : (rounds : Nat) → (limit chained : Int) → Expr → List Token →
    Except Stop (Reading Expr)
  | 0, _, _, _, tokens => stop (unexpected (peek tokens))
  | rounds + 1, limit, chained, left, tokens =>
    let token := peek tokens
    if token.kind = .leftParen && applicationPrecedence < limit then do
      let (arguments, tokens) ← after [left] (terms v rounds .rightParen (advance tokens))
      let tokens ← after (left :: arguments) (require .rightParen tokens)
      climb v rounds limit chained (.apply token.position left arguments) tokens
    else match infixAt? v token limit with
      | none => .ok (left, tokens)
      | some op =>
        if op.precedence = chained then
          after [left] (stop (faultAt token (.notAssociative op.constant.name)))
        else do
          let (right, tokens) ← after [left] (term v rounds op.operandLimit (advance tokens))
          climb v rounds limit (if op.assoc = .nonassoc then op.precedence else -1)
            (.binary token.position op.constant left right) tokens

/-- Read what can stand before an infix operator. -/
def operand (v : Vocabulary) : (rounds : Nat) → List Token → Except Stop (Reading Expr)
  | 0, tokens => stop (unexpected (peek tokens))
  | rounds + 1, tokens =>
    let token := peek tokens
    match token.kind with
    | .identifier =>
      match v.lookup token.text with
      | none => do
        let (x, tokens) ← bound v tokens
        return (.var x, tokens)
      | some (.setBuilder builder) => .ok (.const builder.constant, advance tokens)
      | some (.operator op) =>
        if op.arity ≠ 1 then stop (faultAt token (.infixFirst token.text))
        else do
          let (x, tokens) ← term v rounds op.operandLimit (advance tokens)
          return (.unary token.position op.constant x, tokens)
      | some (.binder constant) => do
        let (x, tokens) ← bound v (advance tokens)
        let (body, tokens) ← term v rounds loosest tokens
        return (.bind token.position constant x body, tokens)
      | some (.type _ _) => stop (faultAt token (.typeAsTerm token.text))
    | .leftParen =>
      match bareConstant? v tokens with
      | some (constant, tokens) => .ok (.const constant, tokens)
      | none => do
        let (inner, tokens) ← term v rounds loosest (advance tokens)
        let tokens ← after [inner] (require .rightParen tokens)
        return (inner, tokens)
    | .backslash => do
      let (x, tokens) ← bound v (advance tokens)
      let (body, tokens) ← term v rounds lambdaPrecedence tokens
      return (.lambda token.position x body, tokens)
    | .dot => term v rounds dotPrecedence (advance tokens)
    | .leftBrace => do
      let (x, tokens) ← bound v (advance tokens)
      let word := peek tokens
      match v.setBuilders.find? fun builder => builder.member == word.text with
      | none => stop (faultAt word .noMembership)
      | some builder =>
        let (set, tokens) ← term v rounds loosest (advance tokens)
        let tokens ← after [set] (require .bar tokens)
        let (body, tokens) ← after [set] (term v rounds loosest tokens)
        let tokens ← after [set, body] (require .rightBrace tokens)
        return (.setOf token.position builder.constant x set body, tokens)
    | _ => stop (unexpected token)

/-- Read terms separated by commas up to, and not including, a token of the given kind. -/
def terms (v : Vocabulary) : (rounds : Nat) → TokenKind → List Token →
    Except Stop (Reading (List Expr))
  | 0, _, tokens => stop (unexpected (peek tokens))
  | rounds + 1, close, tokens =>
    if (peek tokens).kind = close then .ok ([], tokens) else moreTerms v rounds tokens

/-- Read one term or more, separated by commas. -/
def moreTerms (v : Vocabulary) : (rounds : Nat) → List Token →
    Except Stop (Reading (List Expr))
  | 0, tokens => stop (unexpected (peek tokens))
  | rounds + 1, tokens => do
    let (first, tokens) ← term v rounds loosest tokens
    if (peek tokens).kind = .comma then
      let (rest, tokens) ← after [first] (moreTerms v rounds (advance tokens))
      return (first :: rest, tokens)
    else return ([first], tokens)

end

/-- Read a whole text as a term. -/
def wholeTerm (v : Vocabulary) (tokens : List Token) : Except Stop Expr := do
  let (e, tokens) ← term v (roundsFor tokens) loosest tokens
  let _ ← after [e] (require .endOfInput tokens)
  return e

/-- Read a whole text as two lists of terms on the two sides of a turnstile. -/
def wholeSequent (v : Vocabulary) (tokens : List Token) :
    Except Stop (List Expr × List Expr) := do
  let (left, tokens) ← terms v (roundsFor tokens) .turnstile tokens
  let tokens ← after left (require .turnstile tokens)
  let (right, tokens) ← after left (terms v (roundsFor tokens) .endOfInput tokens)
  let _ ← after (left ++ right) (require .endOfInput tokens)
  return (left, right)

/-- Read a whole text as a type. -/
def wholeType (v : Vocabulary) (tokens : List Token) : Except Failure TypeExpr := do
  let (t, tokens) ← type v (roundsFor tokens) tokens
  let _ ← expect .endOfInput tokens
  return t

end Turnstile.Formula
