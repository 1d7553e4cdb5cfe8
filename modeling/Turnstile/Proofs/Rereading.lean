import Turnstile.Proofs.Lexing
import Turnstile.Proofs.PrincipalTypes

/-!
# Reading what was written

Each way of laying out a term is read back as a formula that the term spells. The parts of a form
are terms again, so that what is said of a list of pieces here is that they spell a term wherever
they stand: reading them and going on is the same as going on after a formula that the term spells.
Forms stand in brackets, hence reading goes on after them whatever the limit is; reading a function
before its arguments takes a limit above the precedence of application.
-/

namespace Turnstile.Formula

variable {v : Vocabulary} {tokens rest ts : List Token} {pieces more : List Piece} {token : Token}
  {kind : TokenKind} {word name : String} {e : Expr} {t f x : Term} {n m : Nat}
  {limit chained : Int}

/-! ## Tokens and pieces -/

/-- Tokens whose pieces begin with a piece begin with a token of it. -/
theorem map_piece_eq_cons : ts.map Token.piece = (kind, word) :: more ↔
    ∃ token ts', ts = token :: ts' ∧ token.kind = kind ∧ token.text = word ∧
      ts'.map Token.piece = more := by
  rw [List.map_eq_cons_iff]
  constructor
  · rintro ⟨token, ts', rfl, same, rfl⟩
    cases same
    exact ⟨token, ts', rfl, rfl, rfl, rfl⟩
  · rintro ⟨token, ts', rfl, rfl, rfl, rfl⟩
    exact ⟨token, ts', rfl, rfl, rfl⟩

/-- The next token is the first one. -/
@[simp] theorem peek_cons : peek (token :: rest) = token := rfl

/-- A success is followed by what comes next. -/
@[simp] theorem ok_bind {ε α β : Type} (a : α) (next : α → Except ε β) :
    (Except.ok a >>= next) = next a := rfl

/-- One goes on past a token that is not the end. -/
theorem advance_cons (present : token.kind ≠ .endOfInput) :
    advance (token :: rest) = rest := if_neg present

/-- A token that is required is passed over if it comes next. -/
theorem require_cons (is : token.kind = kind) (present : kind ≠ .endOfInput) :
    require kind (token :: rest) = .ok rest := by
  subst is
  rw [require, expect, peek_cons, if_pos rfl, advance_cons present]
  rfl

/-- A name without a type is read where no colon follows. -/
theorem bound_cons (is : token.kind = .identifier) (spelled : token.text = name)
    (unreserved : v.lookup name = none) (untyped : (peek rest).kind ≠ .colon) :
    bound v (token :: rest) = .ok (⟨name, none⟩, rest) := by
  subst spelled
  have present : token.kind ≠ .endOfInput := by rw [is]; decide
  simp [bound, Formula.name, is, unreserved, advance_cons present, untyped, Except.mapError]

/-! ## Going on after a term -/

/-- What follows neither continues a term nor gives a type to a name. -/
structure Ends (rest : List Token) : Prop where
  /-- No arguments follow. -/
  unapplied : (peek rest).kind ≠ .leftParen
  /-- No operator follows. -/
  closed : (peek rest).kind ≠ .identifier
  /-- No type follows. -/
  untyped : (peek rest).kind ≠ .colon

/-- A token that closes or separates ends a term. -/
theorem ends_cons (is : token.kind = kind) (among : kind ∈ [TokenKind.rightParen, .rightBrace,
    .comma, .bar, .turnstile, .endOfInput]) : Ends (token :: rest) := by
  subst is
  simp only [List.mem_cons, List.not_mem_nil, or_false] at among
  rcases among with is | is | is | is | is | is <;>
    exact ⟨by rw [peek_cons, is]; decide, by rw [peek_cons, is]; decide,
      by rw [peek_cons, is]; decide⟩

/-- Climbing stops where a term ends. -/
theorem climb_ends (ends : Ends rest) :
    climb v (n + 1) limit chained e rest = .ok (e, rest) := by
  have none : infixAt? v (peek rest) limit = none := if_neg ends.closed
  simp [climb, ends.unapplied, none]

/-! ## Spelling a term -/

/-- A word that is no operator or binder. -/
def Quiet (v : Vocabulary) (word : String) : Prop :=
  v.lookup word = none ∨ ∃ builder, v.lookup word = some (.setBuilder builder)

/-- How a term begins: with a word on its own, or with a bracket. -/
def Opens (v : Vocabulary) (pieces : List Piece) : Prop :=
  ∃ kind word more, pieces = (kind, word) :: more ∧
    (kind = .identifier ∧ Quiet v word ∨ kind = .leftParen ∨ kind = .leftBrace)

/-- Wherever the pieces stand, they are read as an operand that the term spells. -/
def ReadsOperand (v : Vocabulary) (pieces : List Piece) (t : Term) : Prop :=
  ∀ ts rest n, ts.map Token.piece = pieces → 4 * ts.length ≤ n → (peek rest).kind ≠ .colon →
    ∃ e, operand v n (ts ++ rest) = .ok (e, rest) ∧ e.Elaborates t

/-- Wherever the pieces stand, reading a term there goes on after a formula that the term spells. -/
def ReadsTerm (v : Vocabulary) (pieces : List Piece) (t : Term) : Prop :=
  ∀ ts rest n limit, ts.map Token.piece = pieces → 4 * ts.length ≤ n →
    applicationPrecedence < limit → (peek rest).kind ≠ .colon →
    ∃ e m, n ≤ m + ts.length ∧ term v (n + 1) limit (ts ++ rest) = climb v m limit (-1) e rest ∧
      e.Elaborates t

/-- Wherever the pieces stand and nothing continues them, a term under the limit is read there, and
the term spells it. -/
def ReadsWhole (v : Vocabulary) (limit : Int) (pieces : List Piece) (t : Term) : Prop :=
  ∀ {ts rest n}, ts.map Token.piece = pieces → 4 * ts.length < n → Ends rest →
    ∃ e, term v n limit (ts ++ rest) = .ok (e, rest) ∧ e.Elaborates t

/-- What reads as an operand reads as a term. -/
theorem ReadsOperand.term (reads : ReadsOperand v pieces t) : ReadsTerm v pieces t := by
  intro ts rest n limit same rounds _ untyped
  obtain ⟨e, read, elaborates⟩ := reads ts rest n same rounds untyped
  refine ⟨e, n, by omega, ?_, elaborates⟩
  rw [Formula.term, read]
  rfl

/-- What opens a term has a token. -/
theorem Opens.length_pos (opens : Opens v pieces) (same : ts.map Token.piece = pieces) :
    0 < ts.length := by
  obtain ⟨kind, word, more, rfl, _⟩ := opens
  obtain ⟨token, ts', rfl, _⟩ := map_piece_eq_cons.mp same
  simp

/-- An operand is read under any limit. -/
theorem ReadsOperand.whole (reads : ReadsOperand v pieces t) (opens : Opens v pieces) :
    ReadsWhole v limit pieces t := by
  intro ts rest n same rounds ends
  have some := opens.length_pos same
  obtain ⟨n, rfl⟩ : ∃ k, n = k + 2 := ⟨n - 2, by omega⟩
  obtain ⟨e, read, elaborates⟩ := reads ts rest (n + 1) same (by omega) ends.untyped
  refine ⟨e, ?_, elaborates⟩
  rw [Formula.term, read]
  exact climb_ends ends

/-- Where nothing continues it, the whole term is read. -/
theorem ReadsTerm.whole (reads : ReadsTerm v pieces t) (opens : Opens v pieces)
    (above : applicationPrecedence < limit) : ReadsWhole v limit pieces t := by
  intro ts rest n same rounds ends
  obtain ⟨n, rfl⟩ : ∃ k, n = k + 1 := ⟨n - 1, by omega⟩
  obtain ⟨e, m, left, read, elaborates⟩ := reads ts rest n limit same (by omega) above ends.untyped
  have some := opens.length_pos same
  obtain ⟨m, rfl⟩ : ∃ k, m = k + 1 := ⟨m - 1, by omega⟩
  exact ⟨e, by rw [read, climb_ends ends], elaborates⟩

/-- What begins a term is no operator that stands alone. -/
theorem Opens.bare (opens : Opens v pieces) (same : ts.map Token.piece = pieces) :
    bareConstant? v (token :: (ts ++ rest)) = none := by
  obtain ⟨kind, word, more, rfl, begins⟩ := opens
  obtain ⟨first, ts, rfl, is, spelled, -⟩ := map_piece_eq_cons.mp same
  cases tail : ts ++ rest with
  | nil => rw [List.cons_append, tail]; rfl
  | cons close after =>
    rw [List.cons_append, tail, bareConstant?]
    rcases begins with ⟨rfl, quiet⟩ | rfl | rfl
    · rw [spelled]
      rcases quiet with unreserved | ⟨builder, looked⟩
      · simp [unreserved]
      · simp [looked]
    · simp [is]
    · simp [is]

/-! ## Atoms -/

/-- An unreserved name reads as a variable. -/
theorem readsOperand_var {τ : Ty} (unreserved : v.lookup name = none) :
    ReadsOperand v [(.identifier, name)] (.var ⟨name, τ⟩) := by
  intro ts rest n same rounds untyped
  obtain ⟨token, ts, rfl, is, rfl, last⟩ := map_piece_eq_cons.mp same
  obtain rfl := List.map_eq_nil_iff.mp last
  obtain ⟨n, rfl⟩ : ∃ k, n = k + 1 := ⟨n - 1, by simp at rounds; omega⟩
  refine ⟨.var ⟨token.text, none⟩, ?_, ⟨token.text, τ⟩, rfl, rfl, by simp⟩
  rw [List.singleton_append]
  simp [operand, is, unreserved, bound_cons is rfl unreserved untyped]

/-- The word of a set builder reads as its constant. -/
theorem readsOperand_builder {builder : SetBuilder} {τ : Int → Ty}
    (looked : v.lookup name = some (.setBuilder builder)) :
    ReadsOperand v [(.identifier, name)] (.const (builder.constant.under τ)) := by
  intro ts rest n same rounds _
  obtain ⟨token, ts, rfl, is, rfl, last⟩ := map_piece_eq_cons.mp same
  obtain rfl := List.map_eq_nil_iff.mp last
  obtain ⟨n, rfl⟩ : ∃ k, n = k + 1 := ⟨n - 1, by simp at rounds; omega⟩
  refine ⟨.const builder.constant, ?_, τ, rfl⟩
  rw [List.singleton_append]
  have present : token.kind ≠ .endOfInput := by rw [is]; decide
  simp [operand, is, looked, advance_cons present]

/-- The constant of an operator or binder. -/
def headConstant? : Word → Option Symbol
  | .operator op => some op.constant
  | .binder constant => some constant
  | _ => none

/-- A word between parentheses reads as its constant. -/
theorem readsOperand_bare {w : Word} {constant : Symbol} {τ : Int → Ty}
    (looked : v.lookup name = some w) (known : headConstant? w = some constant) :
    ReadsOperand v [(.leftParen, "("), (.identifier, name), (.rightParen, ")")]
      (.const (constant.under τ)) := by
  intro ts rest n same rounds _
  obtain ⟨open', ts, rfl, isOpen, -, same₁⟩ := map_piece_eq_cons.mp same
  obtain ⟨word, ts, rfl, isWord, rfl, same₂⟩ := map_piece_eq_cons.mp same₁
  obtain ⟨close, ts, rfl, isClose, -, last⟩ := map_piece_eq_cons.mp same₂
  obtain rfl := List.map_eq_nil_iff.mp last
  obtain ⟨n, rfl⟩ : ∃ k, n = k + 1 := ⟨n - 1, by simp at rounds; omega⟩
  have bare : bareConstant? v (open' :: word :: close :: rest) = some (constant, rest) := by
    rw [bareConstant?, isWord, isClose, looked]
    cases w <;> simp_all [headConstant?]
  refine ⟨.const constant, ?_, τ, rfl⟩
  simp [operand, isOpen, bare]

/-! ## Forms in brackets -/

/-- What stands in parentheses is read without them. -/
theorem operand_bracket {close : Token} (isOpen : token.kind = .leftParen)
    (isClose : close.kind = .rightParen) (bare : bareConstant? v (token :: tokens) = none)
    (inner : term v n loosest tokens = .ok (e, close :: rest)) :
    operand v (n + 1) (token :: tokens) = .ok (e, rest) := by
  have present : token.kind ≠ .endOfInput := by rw [isOpen]; decide
  have closed : require .rightParen (close :: rest) = .ok rest := require_cons isClose (by decide)
  simp [operand, isOpen, bare, advance_cons present, inner, closed, after, Except.mapError]

/-- A word in front of something else does not stand alone. -/
theorem bareConstant?_more {word close : Token} (more : close.kind ≠ .rightParen) :
    bareConstant? v (token :: word :: close :: rest) = none := by
  simp [bareConstant?, more]

/-- What opens a term is no bare constant. -/
theorem Opens.called {word : Token} (opens : Opens v pieces) (same : ts.map Token.piece = pieces) :
    bareConstant? v (token :: word :: (ts ++ rest)) = none := by
  obtain ⟨kind, text, more, rfl, begins⟩ := opens
  obtain ⟨first, ts, rfl, is, -, -⟩ := map_piece_eq_cons.mp same
  refine bareConstant?_more ?_
  rcases begins with ⟨rfl, -⟩ | rfl | rfl <;> (rw [is]; decide)

/-- An operand is a term where nothing continues it. -/
theorem term_of_operand (read : operand v (n + 1) tokens = .ok (e, rest)) (ends : Ends rest) :
    term v (n + 2) limit tokens = .ok (e, rest) := by
  rw [term, read]
  exact climb_ends ends

/-- A prefix operator before what reads as its operand reads as the application, between
parentheses. -/
theorem readsOperand_unary {op : Operator} {τ : Int → Ty}
    (looked : v.lookup name = some (.operator op)) (arity : op.arity = 1) (opens : Opens v pieces)
    (reads : ReadsWhole v op.operandLimit pieces x) :
    ReadsOperand v
      ((.leftParen, "(") :: (.identifier, name) :: (pieces ++ [(.rightParen, ")")]))
      (.app (.const (op.constant.under τ)) x) := by
  intro ts rest n same rounds _
  obtain ⟨bracket, ts, rfl, isOpen, -, same₁⟩ := map_piece_eq_cons.mp same
  obtain ⟨word, ts, rfl, isWord, rfl, same₂⟩ := map_piece_eq_cons.mp same₁
  obtain ⟨inside, ts, rfl, sameX, same₃⟩ := List.map_eq_append_iff.mp same₂
  obtain ⟨close, ts, rfl, isClose, -, last⟩ := map_piece_eq_cons.mp same₃
  obtain rfl := List.map_eq_nil_iff.mp last
  simp only [List.length_cons, List.length_append, List.length_nil] at rounds
  obtain ⟨n, rfl⟩ : ∃ k, n = k + 3 := ⟨n - 3, by omega⟩
  simp only [List.cons_append, List.append_assoc, List.nil_append]
  have ends : Ends (close :: rest) := ends_cons isClose (by simp)
  obtain ⟨ex, read, elaborates⟩ := reads (n := n) sameX (by omega) ends
  refine ⟨.unary word.position op.constant ex, ?_, τ, x, rfl, elaborates⟩
  refine operand_bracket isOpen isClose (opens.called sameX) (term_of_operand ?_ ends)
  have present : word.kind ≠ .endOfInput := by rw [isWord]; decide
  simp [operand, isWord, looked, arity, advance_cons present, read]

/-- A dot is passed over before a term. -/
theorem ReadsTerm.dotted {dot : Token} (reads : ReadsTerm v pieces t) (opens : Opens v pieces)
    (isDot : dot.kind = .dot) (same : ts.map Token.piece = pieces) (rounds : 4 * ts.length < n)
    (limit : Int) (ends : Ends rest) :
    ∃ e, term v (n + 2) limit (dot :: (ts ++ rest)) = .ok (e, rest) ∧ e.Elaborates t := by
  obtain ⟨e, read, elaborates⟩ := reads.whole opens
    (by decide : applicationPrecedence < dotPrecedence) same rounds ends
  refine ⟨e, term_of_operand ?_ ends, elaborates⟩
  have present : dot.kind ≠ .endOfInput := by rw [isDot]; decide
  simp [operand, isDot, advance_cons present, read]

/-- An abstraction reads between parentheses. -/
theorem readsOperand_lam {s : Symbol} {b : Term} (unreserved : v.lookup s.name = none)
    (opens : Opens v pieces) (reads : ReadsTerm v pieces b) :
    ReadsOperand v ((.leftParen, "(") :: (.backslash, "\\") :: (.identifier, s.name) ::
      (.dot, ".") :: (pieces ++ [(.rightParen, ")")])) (.lam s b) := by
  intro ts rest n same rounds _
  obtain ⟨bracket, ts, rfl, isOpen, -, same₁⟩ := map_piece_eq_cons.mp same
  obtain ⟨lambda, ts, rfl, isLambda, -, same₂⟩ := map_piece_eq_cons.mp same₁
  obtain ⟨word, ts, rfl, isWord, spelled, same₃⟩ := map_piece_eq_cons.mp same₂
  obtain ⟨dot, ts, rfl, isDot, -, same₄⟩ := map_piece_eq_cons.mp same₃
  obtain ⟨inside, ts, rfl, sameB, same₅⟩ := List.map_eq_append_iff.mp same₄
  obtain ⟨close, ts, rfl, isClose, -, last⟩ := map_piece_eq_cons.mp same₅
  obtain rfl := List.map_eq_nil_iff.mp last
  simp only [List.length_cons, List.length_append, List.length_nil] at rounds
  obtain ⟨n, rfl⟩ : ∃ k, n = k + 5 := ⟨n - 5, by omega⟩
  simp only [List.cons_append, List.append_assoc, List.nil_append]
  have ends : Ends (close :: rest) := ends_cons isClose (by simp)
  obtain ⟨eb, body, elaborates⟩ :=
    reads.dotted (n := n) opens isDot sameB (by omega) lambdaPrecedence ends
  refine ⟨.lambda lambda.position ⟨s.name, none⟩ eb, ?_, s, b, rfl, ⟨rfl, by simp⟩, elaborates⟩
  have apart : bareConstant? v (bracket :: lambda :: word :: dot :: (inside ++ close :: rest)) =
      none := bareConstant?_more (by rw [isWord]; decide)
  refine operand_bracket isOpen isClose apart (term_of_operand ?_ ends)
  have present : lambda.kind ≠ .endOfInput := by rw [isLambda]; decide
  have bound : bound v (word :: dot :: (inside ++ close :: rest)) = .ok (⟨s.name, none⟩, _) :=
    bound_cons isWord spelled unreserved (by rw [peek_cons, isDot]; decide)
  simp [operand, isLambda, advance_cons present, bound, body]

/-- A binder reads between parentheses. -/
theorem readsOperand_binder {binder s : Symbol} {b : Term} {τ : Int → Ty}
    (looked : v.lookup name = some (.binder binder)) (unreserved : v.lookup s.name = none)
    (opens : Opens v pieces) (reads : ReadsTerm v pieces b) :
    ReadsOperand v ((.leftParen, "(") :: (.identifier, name) :: (.identifier, s.name) ::
      (.dot, ".") :: (pieces ++ [(.rightParen, ")")]))
      (.app (.const (binder.under τ)) (.lam s b)) := by
  intro ts rest n same rounds _
  obtain ⟨bracket, ts, rfl, isOpen, -, same₁⟩ := map_piece_eq_cons.mp same
  obtain ⟨head, ts, rfl, isHead, rfl, same₂⟩ := map_piece_eq_cons.mp same₁
  obtain ⟨word, ts, rfl, isWord, spelled, same₃⟩ := map_piece_eq_cons.mp same₂
  obtain ⟨dot, ts, rfl, isDot, -, same₄⟩ := map_piece_eq_cons.mp same₃
  obtain ⟨inside, ts, rfl, sameB, same₅⟩ := List.map_eq_append_iff.mp same₄
  obtain ⟨close, ts, rfl, isClose, -, last⟩ := map_piece_eq_cons.mp same₅
  obtain rfl := List.map_eq_nil_iff.mp last
  simp only [List.length_cons, List.length_append, List.length_nil] at rounds
  obtain ⟨n, rfl⟩ : ∃ k, n = k + 5 := ⟨n - 5, by omega⟩
  simp only [List.cons_append, List.append_assoc, List.nil_append]
  have ends : Ends (close :: rest) := ends_cons isClose (by simp)
  obtain ⟨eb, body, elaborates⟩ := reads.dotted (n := n) opens isDot sameB (by omega) loosest ends
  refine ⟨.bind head.position binder ⟨s.name, none⟩ eb, ?_, τ, s, b, rfl, ⟨rfl, by simp⟩,
    elaborates⟩
  have apart : bareConstant? v (bracket :: head :: word :: dot :: (inside ++ close :: rest)) =
      none := bareConstant?_more (by rw [isWord]; decide)
  refine operand_bracket isOpen isClose apart (term_of_operand ?_ ends)
  have present : head.kind ≠ .endOfInput := by rw [isHead]; decide
  have bound : bound v (word :: dot :: (inside ++ close :: rest)) = .ok (⟨s.name, none⟩, _) :=
    bound_cons isWord spelled unreserved (by rw [peek_cons, isDot]; decide)
  simp [operand, isHead, looked, advance_cons present, bound, body]

/-- An infix operator between what reads as its operands reads as the application, between
parentheses. -/
theorem readsOperand_binary {op : Operator} {τ : Int → Ty} {a b : Term}
    {piecesA piecesB : List Piece} (looked : v.lookup name = some (.operator op))
    (arity : op.arity = 2) (unchained : op.precedence ≠ -1) (below : op.precedence < loosest)
    (opensA : Opens v piecesA) (readsA : ReadsTerm v piecesA a)
    (readsB : ReadsWhole v op.operandLimit piecesB b) :
    ReadsOperand v ((.leftParen, "(") :: (piecesA ++ (.identifier, name) ::
      (piecesB ++ [(.rightParen, ")")])))
      (.app (.app (.const (op.constant.under τ)) a) b) := by
  intro ts rest n same rounds _
  obtain ⟨bracket, ts, rfl, isOpen, -, same₁⟩ := map_piece_eq_cons.mp same
  obtain ⟨first, ts, rfl, sameA, same₂⟩ := List.map_eq_append_iff.mp same₁
  obtain ⟨word, ts, rfl, isWord, rfl, same₃⟩ := map_piece_eq_cons.mp same₂
  obtain ⟨second, ts, rfl, sameB, same₄⟩ := List.map_eq_append_iff.mp same₃
  obtain ⟨close, ts, rfl, isClose, -, last⟩ := map_piece_eq_cons.mp same₄
  obtain rfl := List.map_eq_nil_iff.mp last
  simp only [List.length_cons, List.length_append, List.length_nil] at rounds
  obtain ⟨n, rfl⟩ : ∃ k, n = k + 2 := ⟨n - 2, by omega⟩
  simp only [List.cons_append, List.append_assoc, List.nil_append]
  have ends : Ends (close :: rest) := ends_cons isClose (by simp)
  obtain ⟨ea, m, left, read, elaboratesA⟩ := readsA first
    (word :: (second ++ close :: rest)) n loosest sameA (by omega) (by decide)
    (by rw [peek_cons, isWord]; decide)
  obtain ⟨m, rfl⟩ : ∃ k, m = k + 2 := ⟨m - 2, by omega⟩
  obtain ⟨eb, read', elaboratesB⟩ := readsB (n := m + 1) sameB (by omega) ends
  refine ⟨.binary word.position op.constant ea eb, ?_, τ, a, b, rfl, elaboratesA, elaboratesB⟩
  refine operand_bracket isOpen isClose (opensA.bare sameA) ?_
  have present : word.kind ≠ .endOfInput := by rw [isWord]; decide
  have infixed : infixAt? v word loosest = some op := by
    simp [infixAt?, isWord, Vocabulary.operator?, looked, Word.operator?, arity, below]
  have unapplied : word.kind ≠ .leftParen := by rw [isWord]; decide
  rw [read, climb]
  simp [unapplied, infixed, unchained, advance_cons present, read', after, Except.mapError,
    climb_ends ends]

/-- A set reads between braces. -/
theorem readsOperand_setOf {builder : SetBuilder} {s : Symbol} {τ : Int → Ty} {a b : Term}
    {piecesA piecesB : List Piece}
    (found : v.setBuilders.find? (fun other => other.member == name) = some builder)
    (unreserved : v.lookup s.name = none) (opensA : Opens v piecesA)
    (readsA : ReadsTerm v piecesA a) (opensB : Opens v piecesB) (readsB : ReadsTerm v piecesB b) :
    ReadsOperand v ((.leftBrace, "\x7b") :: (.identifier, s.name) :: (.identifier, name) ::
      (piecesA ++ (.bar, "|") :: (piecesB ++ [(.rightBrace, "\x7d")])))
      (.app (.app (.const (builder.constant.under τ)) a) (.lam s b)) := by
  intro ts rest n same rounds _
  obtain ⟨brace, ts, rfl, isOpen, -, same₁⟩ := map_piece_eq_cons.mp same
  obtain ⟨word, ts, rfl, isWord, spelled, same₂⟩ := map_piece_eq_cons.mp same₁
  obtain ⟨member, ts, rfl, isMember, rfl, same₃⟩ := map_piece_eq_cons.mp same₂
  obtain ⟨first, ts, rfl, sameA, same₄⟩ := List.map_eq_append_iff.mp same₃
  obtain ⟨bar, ts, rfl, isBar, -, same₅⟩ := map_piece_eq_cons.mp same₄
  obtain ⟨second, ts, rfl, sameB, same₆⟩ := List.map_eq_append_iff.mp same₅
  obtain ⟨close, ts, rfl, isClose, -, last⟩ := map_piece_eq_cons.mp same₆
  obtain rfl := List.map_eq_nil_iff.mp last
  simp only [List.length_cons, List.length_append, List.length_nil] at rounds
  obtain ⟨n, rfl⟩ : ∃ k, n = k + 1 := ⟨n - 1, by omega⟩
  simp only [List.cons_append, List.append_assoc, List.nil_append]
  have ends : Ends (close :: rest) := ends_cons isClose (by simp)
  have ends' : Ends (bar :: (second ++ close :: rest)) := ends_cons isBar (by simp)
  have wide : applicationPrecedence < loosest := by decide
  obtain ⟨ea, set, elaboratesA⟩ := readsA.whole opensA wide (n := n) sameA (by omega) ends'
  obtain ⟨eb, body, elaboratesB⟩ := readsB.whole opensB wide (n := n) sameB (by omega) ends
  refine ⟨.setOf brace.position builder.constant ⟨s.name, none⟩ ea eb, ?_, τ, s, a, b, rfl,
    ⟨rfl, by simp⟩, elaboratesA, elaboratesB⟩
  have present : brace.kind ≠ .endOfInput := by rw [isOpen]; decide
  have present' : member.kind ≠ .endOfInput := by rw [isMember]; decide
  have bound : bound v (word :: member :: (first ++ bar :: (second ++ close :: rest))) =
      .ok (⟨s.name, none⟩, _) :=
    bound_cons isWord spelled unreserved (by rw [peek_cons, isMember]; decide)
  simp [operand, isOpen, advance_cons present, bound, found, advance_cons present', set, after,
    require_cons isBar (by decide), body, require_cons isClose (by decide), Except.mapError]

/-! ## Arguments -/

/-- Wherever the pieces stand between brackets, they are read as one term after the other. -/
theorem moreTerms_commas {parts : List (List Piece)} {xs : List Term}
    (each : List.Forall₂ (fun pieces x => Opens v pieces ∧ ReadsTerm v pieces x) parts xs)
    (some : parts ≠ []) : ∀ {ts n}, ts.map Token.piece = commas parts → 4 * ts.length + 1 < n →
      Ends rest → (peek rest).kind ≠ .comma →
      ∃ es, moreTerms v n (ts ++ rest) = .ok (es, rest) ∧ Expr.AllElaborate es xs := by
  have wide : applicationPrecedence < loosest := by decide
  induction each with
  | nil =>
    intro ts n
    exact absurd rfl some
  | @cons pieces x parts xs here others ih =>
    intro ts n same rounds ends last
    obtain ⟨n, rfl⟩ : ∃ k, n = k + 1 := ⟨n - 1, by omega⟩
    cases others with
    | nil =>
      obtain ⟨e, read, elaborates⟩ := here.2.whole here.1 wide (n := n) same (by omega) ends
      refine ⟨[e], ?_, x, [], rfl, elaborates, rfl⟩
      rw [moreTerms, read, ok_bind]
      exact if_neg last
    | cons second others =>
      obtain ⟨first, ts, rfl, sameF, same₁⟩ := List.map_eq_append_iff.mp same
      obtain ⟨comma, ts, rfl, isComma, -, same₂⟩ := map_piece_eq_cons.mp same₁
      simp only [List.length_cons, List.length_append] at rounds
      have ends' : Ends (comma :: (ts ++ rest)) := ends_cons isComma (by simp)
      obtain ⟨e, read, elaborates⟩ := here.2.whole here.1 wide (n := n) sameF (by omega) ends'
      obtain ⟨es, reads, all⟩ := ih (by simp) (n := n) same₂ (by omega) ends last
      refine ⟨e :: es, ?_, x, _, rfl, elaborates, all⟩
      have present : comma.kind ≠ .endOfInput := by rw [isComma]; decide
      rw [List.append_assoc, List.cons_append, moreTerms, read, ok_bind]
      simp [isComma, advance_cons present, reads, after, Except.mapError]

/-- Terms with commas between them open a term if the first one does. -/
theorem opens_commas {parts : List (List Piece)} {xs : List Term}
    (each : List.Forall₂ (fun pieces x => Opens v pieces ∧ ReadsTerm v pieces x) parts xs)
    (some : parts ≠ []) : Opens v (commas parts) := by
  cases each with
  | nil => exact absurd rfl some
  | cons here others =>
    cases others with
    | nil => exact here.1
    | cons second others =>
      obtain ⟨kind, word, more, rfl, begins⟩ := here.1
      exact ⟨kind, word, _, rfl, begins⟩

/-- Terms up to a closing token are read, be there any or none. -/
theorem terms_commas {parts : List (List Piece)} {xs : List Term} {close : TokenKind}
    (each : List.Forall₂ (fun pieces x => Opens v pieces ∧ ReadsTerm v pieces x) parts xs)
    (same : ts.map Token.piece = commas parts) (rounds : 4 * ts.length + 2 < n)
    (closes : (peek rest).kind = close)
    (among : close ∈ [TokenKind.rightParen, .turnstile, .endOfInput]) (ends : Ends rest) :
    ∃ es, terms v n close (ts ++ rest) = .ok (es, rest) ∧ Expr.AllElaborate es xs := by
  obtain ⟨n, rfl⟩ : ∃ k, n = k + 1 := ⟨n - 1, by omega⟩
  rw [terms]
  simp only [List.mem_cons, List.not_mem_nil, or_false] at among
  by_cases some : parts = []
  · subst some
    cases each
    obtain rfl := List.map_eq_nil_iff.mp same
    rw [List.nil_append, if_pos closes]
    exact ⟨[], rfl, rfl⟩
  · obtain ⟨kind, word, more, is, begins⟩ := opens_commas each some
    rw [is] at same
    obtain ⟨token, ts, rfl, isFirst, -, -⟩ := map_piece_eq_cons.mp same
    have apart : (peek (token :: ts ++ rest)).kind ≠ close := by
      rw [List.cons_append, peek_cons, isFirst]
      rcases begins with ⟨rfl, -⟩ | rfl | rfl <;> rcases among with rfl | rfl | rfl <;> decide
    have last : (peek rest).kind ≠ .comma := by
      rw [closes]
      rcases among with rfl | rfl | rfl <;> decide
    rw [if_neg apart]
    exact moreTerms_commas each some (same.trans is.symm) (by omega) ends last

/-- Terms between parentheses after an operand read as arguments. -/
theorem readsTerm_apply {parts : List (List Piece)} {xs : List Term}
    (reads : ReadsOperand v pieces f)
    (each : List.Forall₂ (fun pieces x => Opens v pieces ∧ ReadsTerm v pieces x) parts xs) :
    ReadsTerm v (pieces ++ (.leftParen, "(") :: (commas parts ++ [(.rightParen, ")")]))
      (f.apps xs) := by
  intro ts rest n limit same rounds above _
  obtain ⟨head, ts, rfl, sameF, same₁⟩ := List.map_eq_append_iff.mp same
  obtain ⟨bracket, ts, rfl, isOpen, -, same₂⟩ := map_piece_eq_cons.mp same₁
  obtain ⟨inside, ts, rfl, sameX, same₃⟩ := List.map_eq_append_iff.mp same₂
  obtain ⟨close, ts, rfl, isClose, -, last⟩ := map_piece_eq_cons.mp same₃
  obtain rfl := List.map_eq_nil_iff.mp last
  simp only [List.length_cons, List.length_append, List.length_nil] at rounds
  obtain ⟨n, rfl⟩ : ∃ k, n = k + 1 := ⟨n - 1, by omega⟩
  simp only [List.cons_append, List.append_assoc, List.nil_append]
  have ends : Ends (close :: rest) := ends_cons isClose (by simp)
  obtain ⟨ef, function, elaborates⟩ := reads head (bracket :: (inside ++ close :: rest)) (n + 1)
    sameF (by omega) (by rw [peek_cons, isOpen]; decide)
  have closes : (peek (close :: rest)).kind = .rightParen := isClose
  obtain ⟨es, arguments, all⟩ := terms_commas (n := n) each sameX (by omega) closes (by simp) ends
  refine ⟨.apply bracket.position ef es, n, by simp; omega, ?_, f, xs, rfl, elaborates, all⟩
  have present : bracket.kind ≠ .endOfInput := by rw [isOpen]; decide
  rw [term, function, ok_bind]
  simp [climb, isOpen, above, advance_cons present, arguments, after,
    require_cons isClose (by decide), Except.mapError]

/-! ## Whole texts -/

/-- What opens and reads as a term is a whole term. -/
theorem wholeTerm_reads {p : Position} (opens : Opens v pieces) (reads : ReadsTerm v pieces t)
    (same : ts.map Token.piece = pieces) :
    ∃ e, wholeTerm v (ts ++ [⟨.endOfInput, "", p⟩]) = .ok e ∧ e.Elaborates t := by
  have ends : Ends [⟨.endOfInput, "", p⟩] := ends_cons rfl (by simp)
  obtain ⟨e, read, elaborates⟩ := reads.whole opens (by decide : applicationPrecedence < loosest)
    (n := roundsFor (ts ++ [⟨.endOfInput, "", p⟩])) same (by simp [roundsFor]; omega) ends
  refine ⟨e, ?_, elaborates⟩
  rw [wholeTerm, read]
  rfl

/-- What opens and reads as terms on both sides of the turnstile is a whole sequent. -/
theorem wholeSequent_reads {p : Position} {left right : List (List Piece)} {xs ys : List Term}
    (eachLeft : List.Forall₂ (fun pieces x => Opens v pieces ∧ ReadsTerm v pieces x) left xs)
    (eachRight : List.Forall₂ (fun pieces x => Opens v pieces ∧ ReadsTerm v pieces x) right ys)
    (same : ts.map Token.piece = commas left ++ (.turnstile, "|-") :: commas right) :
    ∃ es es', wholeSequent v (ts ++ [⟨.endOfInput, "", p⟩]) = .ok (es, es') ∧
      Expr.AllElaborate es xs ∧ Expr.AllElaborate es' ys := by
  obtain ⟨first, ts, rfl, sameL, same₁⟩ := List.map_eq_append_iff.mp same
  obtain ⟨mark, second, rfl, isMark, -, sameR⟩ := map_piece_eq_cons.mp same₁
  rw [List.append_assoc, List.cons_append]
  have ends : Ends (mark :: (second ++ [⟨.endOfInput, "", p⟩])) := ends_cons isMark (by simp)
  have ends' : Ends [⟨.endOfInput, "", p⟩] := ends_cons rfl (by simp)
  have closes : (peek (mark :: (second ++ [⟨.endOfInput, "", p⟩]))).kind = .turnstile := isMark
  have closes' : (peek [(⟨.endOfInput, "", p⟩ : Token)]).kind = .endOfInput := rfl
  obtain ⟨es, readL, allL⟩ := terms_commas
    (n := roundsFor (first ++ mark :: (second ++ [⟨.endOfInput, "", p⟩]))) eachLeft sameL
    (by simp [roundsFor]; omega) closes (by simp) ends
  obtain ⟨es', readR, allR⟩ := terms_commas
    (n := roundsFor (second ++ [⟨.endOfInput, "", p⟩])) eachRight sameR
    (by simp [roundsFor]; omega) closes' (by simp) ends'
  refine ⟨es, es', ?_, allL, allR⟩
  have passed : require .endOfInput [⟨.endOfInput, "", p⟩] = .ok [⟨.endOfInput, "", p⟩] := rfl
  rw [wholeSequent, readL, ok_bind]
  simp [after, require_cons isMark (by decide), readR, Except.mapError, passed]

end Turnstile.Formula
