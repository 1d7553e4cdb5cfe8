import Turnstile.Supply
import Turnstile.Word

/-!
# Vocabularies

A vocabulary is the table of reserved words of some theories together with its precedence table.
A word declared twice counts as declared the second time. Tokens of one precedence must agree on
how they group; smaller numbers bind tighter.
-/

namespace Turnstile

/-- One row of the precedence table. -/
structure Level where
  /-- The precedence of its tokens. -/
  precedence : Int
  /-- How its tokens group. -/
  assoc : Assoc
  /-- The tokens, built-in ones first and then in declaration order. -/
  tokens : List String
  deriving DecidableEq, Repr, Inhabited

/-- A token with its place in the precedence table. -/
structure Ranked where
  /-- The precedence. -/
  precedence : Int
  /-- How it groups. -/
  assoc : Assoc
  /-- The token. -/
  token : String
  deriving DecidableEq, Repr, Inhabited

/-- The reserved words and the precedence table. -/
structure Vocabulary where
  /-- The words in the order of their last declarations, one per name. -/
  words : List Word
  /-- The precedence table, loosest level first. -/
  levels : List Level
  deriving Repr, Inhabited

/-- The precedence of the dot. -/
def dotPrecedence : Int := 5000

/-- The precedence of the lambda. -/
def lambdaPrecedence : Int := 4900

/-- The precedence of the type arrow. -/
def arrowPrecedence : Int := 4800

/-- The precedence of application. -/
def applicationPrecedence : Int := 0

/-- A precedence above that of every operator that can be written in infix position. -/
def loosest : Int := Word.largest

/-- The precedence after the given one; precedences are signed words of 64 bits, so the last is
followed by the first. -/
def nextPrecedence (precedence : Int) : Int :=
  if precedence = loosest then Word.smallest else precedence + 1

/-- The bound on the precedences inside an operator's last operand: its own precedence is
allowed exactly when it groups to the right. -/
def Operator.operandLimit (op : Operator) : Int :=
  if op.assoc = .right then nextPrecedence op.precedence else op.precedence

/-- The operator's place in the precedence table. -/
def Operator.ranked (op : Operator) : Ranked := ⟨op.precedence, op.assoc, op.constant.name⟩

/-- The tokens that every precedence table has. -/
def fixedTokens : List Ranked := [
  ⟨dotPrecedence, .nonassoc, "."⟩,
  ⟨lambdaPrecedence, .nonassoc, "\\"⟩,
  ⟨arrowPrecedence, .right, "->"⟩,
  ⟨applicationPrecedence, .nonassoc, "("⟩,
  ⟨applicationPrecedence, .nonassoc, ")"⟩]

/-- The words with only the last declaration of each name, in the order of these. -/
def lastDeclared (words : List Word) : List Word :=
  words.foldl (fun kept w => kept.filter (fun o => o.name != w.name) ++ [w]) []

namespace Level

/-- The level of a single token. -/
def ofRanked (entry : Ranked) : Level := ⟨entry.precedence, entry.assoc, [entry.token]⟩

/-- The levels of a sorted list of tokens, the first of them joining the given level. -/
def gather (level : Level) : List Ranked → Except Failure (List Level)
  | [] => .ok [level]
  | entry :: rest =>
    if entry.precedence = level.precedence then
      if entry.assoc = level.assoc then
        gather { level with tokens := level.tokens ++ [entry.token] } rest
      else
        .error (.precedence entry.precedence (level.tokens.headD "") entry.token level.assoc
          entry.assoc)
    else (level :: ·) <$> gather (ofRanked entry) rest

/-- Fill a text with blanks on the left up to a width. -/
def padLeft (width : Nat) (text : String) : String :=
  "".pushn ' ' (width - text.length) ++ text

/-- Fill a text with blanks on the right up to a width. -/
def padRight (width : Nat) (text : String) : String :=
  text.pushn ' ' (width - text.length)

/-- A row of the precedence table as a line of text. -/
def text (level : Level) : String :=
  padLeft 5 (toString level.precedence) ++ " " ++ padRight 8 level.assoc.text ++ " "
    ++ " ".intercalate level.tokens ++ "\n"

end Level

/-- The precedence table of the given operators, loosest level first. -/
def levelsOf (operators : List Operator) : Except Failure (List Level) :=
  match sortBy (fun a b => decide (b.precedence ≤ a.precedence))
      (fixedTokens ++ operators.map Operator.ranked) with
  | [] => .ok []
  | entry :: rest => (Level.ofRanked entry).gather rest

namespace Vocabulary

/-- The word with a name. -/
def lookup (v : Vocabulary) (name : String) : Option Word :=
  v.words.find? fun w => w.name == name

/-- The operator with a name. -/
def operator? (v : Vocabulary) (name : String) : Option Operator :=
  (v.lookup name).bind Word.operator?

/-- The binder with a name. -/
def binder? (v : Vocabulary) (name : String) : Option Symbol :=
  (v.lookup name).bind Word.binder?

/-- The type with a name. -/
def type? (v : Vocabulary) (name : String) : Option Ty := (v.lookup name).bind Word.type?

/-- The operators in declaration order. -/
def operators (v : Vocabulary) : List Operator := v.words.filterMap Word.operator?

/-- The binders in declaration order. -/
def binders (v : Vocabulary) : List Symbol := v.words.filterMap Word.binder?

/-- The set builders in declaration order. -/
def setBuilders (v : Vocabulary) : List SetBuilder := v.words.filterMap Word.setBuilder?

/-- Whether a set builder's membership word is an operator between two operands. -/
def hasMember (v : Vocabulary) (builder : SetBuilder) : Bool :=
  (v.operator? builder.member).any fun op => op.arity == 2

/-- The vocabulary of a list of declarations. -/
def ofWords (declared : List Word) : Except Failure Vocabulary := do
  let words := lastDeclared declared
  let v : Vocabulary := ⟨words, ← levelsOf (words.filterMap Word.operator?)⟩
  match v.setBuilders.find? fun builder => !v.hasMember builder with
  | none => return v
  | some builder => throw (.memberNotBinary builder.constant.name builder.member)

/-- The precedence table as text. -/
def text (v : Vocabulary) : String := String.join (v.levels.map Level.text)

end Vocabulary

end Turnstile
