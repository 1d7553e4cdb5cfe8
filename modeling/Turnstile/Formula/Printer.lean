import Turnstile.Sequent
import Turnstile.Term.Match
import Turnstile.Vocabulary.Table

/-!
# Writing formulas

Terms are written in the concrete form that the reader of the same vocabulary accepts. Every
operator, binder and set builder gives a form, recognised by matching; forms are always put in
brackets, so precedence plays no part. An application that no form recognises is written with
its arguments in parentheses.
-/

namespace Turnstile

/-- The ways of laying out an application. -/
inductive Layout where
  /-- The operator before its operand. -/
  | unary (name : String)
  /-- The operator between its operands. -/
  | binary (name : String)
  /-- The binder, its variable, a dot and the body. -/
  | binder (name : String)
  /-- Braces with the element, the membership word, the set and the condition. -/
  | setOf (member : String)
  deriving DecidableEq, Repr, Inhabited

/-- A layout with the pattern of the terms that are laid out so. -/
structure Form where
  /-- What the terms look like. -/
  pattern : Term
  /-- How they are laid out. -/
  layout : Layout
  deriving Repr, Inhabited

/-- The forms of a vocabulary, in the order in which they are tried. -/
structure Printer where
  /-- The words, which decide how a constant on its own is written. -/
  vocabulary : Vocabulary
  /-- Operators, then binders, then set builders, each in declaration order. -/
  forms : List Form
  deriving Repr, Inhabited

/-- A pattern variable of any type. -/
def patternVar (name : String) : Build Term := do
  return .var ⟨name, ← Build.freshType⟩

/-- The form of an operator. -/
def Operator.form (op : Operator) : Build Form :=
  Build.within (.operator op.constant.name) do
    if op.arity = 1 then
      let a ← patternVar "a"
      return ⟨← Term.mkApp (.const op.constant) a, .unary op.constant.name⟩
    else if op.arity = 2 then
      let a ← patternVar "a"
      let b ← patternVar "b"
      return ⟨← Term.mkApps (.const op.constant) [a, b], .binary op.constant.name⟩
    else throw (.unsupportedArity op.arity)

/-- The form of a binder. -/
def Symbol.binderForm (binder : Symbol) : Build Form :=
  Build.within (.binder binder.name) do
    let a ← patternVar "a"
    let b ← patternVar "b"
    return ⟨← Term.mkBinder (.const binder) a b, .binder binder.name⟩

/-- The form of a set builder. -/
def SetBuilder.form (builder : SetBuilder) : Build Form :=
  Build.within (.setBuilder builder.constant.name) do
    let x ← patternVar "x"
    let phi ← patternVar "phi"
    let abstraction ← Term.mkLam x phi
    let set ← patternVar "X"
    return ⟨← Term.mkApps (.const builder.constant) [set, abstraction], .setOf builder.member⟩

namespace Printer

/-- The printer of a vocabulary. -/
def ofVocabulary (v : Vocabulary) : Build Printer := do
  let operators ← v.operators.mapM Operator.form
  let binders ← v.binders.mapM Symbol.binderForm
  let builders ← v.setBuilders.mapM SetBuilder.form
  return ⟨v, operators ++ binders ++ builders⟩

/-- The first layout whose pattern a term has. -/
def layout? (p : Printer) (t : Term) : Option Layout :=
  (p.forms.find? fun form => (form.pattern.matchWith t).isOk).map Form.layout

/-- A constant on its own: the name of an operator or binder is put in parentheses. -/
def constant (p : Printer) (s : Symbol) : String :=
  match p.vocabulary.lookup s.name with
  | some (.operator _) => "(" ++ s.name ++ ")"
  | some (.binder _) => "(" ++ s.name ++ ")"
  | _ => s.name

/-- The name that an abstraction binds. -/
def boundName : Term → String
  | .lam v _ => v.name
  | _ => ""

mutual

/-- A term in concrete form. -/
def term (p : Printer) : Term → String
  | .const s => p.constant s
  | .var s => s.name
  | .lam v body => "(\\" ++ v.name ++ "." ++ p.term body ++ ")"
  | .app f x =>
    match p.layout? (.app f x) with
    | some (.unary name) => "(" ++ name ++ " " ++ p.term x ++ ")"
    | some (.binary name) =>
      "(" ++ ", ".intercalate (p.args f) ++ " " ++ name ++ " " ++ p.term x ++ ")"
    | some (.binder name) =>
      "(" ++ name ++ " " ++ boundName x ++ " . " ++ p.body x ++ ")"
    | some (.setOf member) =>
      "\x7b" ++ boundName x ++ " " ++ member ++ " " ++ ", ".intercalate (p.args f) ++ " | "
        ++ p.body x ++ "\x7d"
    | none => p.head f ++ "(" ++ ", ".intercalate (p.args f ++ [p.term x]) ++ ")"

/-- The head of an application in concrete form. -/
def head (p : Printer) : Term → String
  | .const s => p.constant s
  | .var s => s.name
  | .lam v body => "(\\" ++ v.name ++ "." ++ p.term body ++ ")"
  | .app f _ => p.head f

/-- The arguments of an application in concrete form. -/
def args (p : Printer) : Term → List String
  | .app f x => p.args f ++ [p.term x]
  | _ => []

/-- The body of an abstraction in concrete form. -/
def body (p : Printer) : Term → String
  | .lam _ body => p.term body
  | _ => ""

end

/-- A sequent in concrete form. -/
def sequent (p : Printer) (goal : Sequent) : String := goal.display p.term

end Printer

end Turnstile
