import Turnstile.Sorting
import Turnstile.Ty.Unifier

/-!
# Terms

Terms of the typed lambda calculus with named variables. A variable is its name together with
its type: `x:obj` and `x:bool` are different variables. `Term.text` shows every type and is used
in messages; `Term.key` identifies a term among the terms seen.
-/

namespace Turnstile

/-- A name with a type: a variable or a declared constant. -/
structure Symbol where
  /-- The name. -/
  name : String
  /-- The type. -/
  type : Ty
  deriving DecidableEq, Repr, Inhabited

namespace Symbol

/-- A symbol with its fully bracketed type. -/
def text (s : Symbol) : String := s.name ++ ":" ++ s.type.text

/-- A symbol with its type as the reader of types accepts it. -/
def render (s : Symbol) : String := s.name ++ ":" ++ s.type.render

/-- The text that identifies a variable. -/
def varKey (s : Symbol) : String := "v:" ++ s.name ++ ":" ++ s.type.key

/-- The text that identifies a constant. -/
def constKey (s : Symbol) : String := "c:" ++ s.name ++ ":" ++ s.type.key

/-- A symbol with its type changed. -/
def mapType (f : Ty → Ty) (s : Symbol) : Symbol := { s with type := f s.type }

end Symbol

/-- A term. -/
inductive Term where
  /-- A constant, which no rule binds or substitutes for. -/
  | const (symbol : Symbol)
  /-- A variable, free or bound. -/
  | var (symbol : Symbol)
  /-- A function applied to an argument. -/
  | app (function argument : Term)
  /-- A function of its bound variable. -/
  | lam (bound : Symbol) (body : Term)
  deriving DecidableEq, Repr, Inhabited

namespace Term

/-- The type of a term. The function of an application has a function type in every term that
is built by inference; were it not so, the application would have the function's own type. -/
def type : Term → Ty
  | const s => s.type
  | var s => s.type
  | app f _ => f.type.resultType
  | lam v body => .arrow v.type body.type

/-- The text that identifies a term. -/
def key : Term → String
  | const s => s.constKey
  | var s => s.varKey
  | app f x => "(" ++ f.key ++ " " ++ x.key ++ ")"
  | lam v body => "\\" ++ v.varKey ++ "." ++ body.key

/-- The text of a term with all of its types. -/
def text : Term → String
  | const s => s.text
  | var s => s.text
  | app f x => f.text ++ "(" ++ x.text ++ ")"
  | lam v body => "(\\" ++ v.text ++ ". " ++ body.text ++ ")"

/-- Whether a term is a constant or a variable. -/
def isAtom : Term → Bool
  | const _ => true
  | var _ => true
  | _ => false

/-- The symbol of an atom. -/
def symbol? : Term → Option Symbol
  | const s => some s
  | var s => some s
  | _ => none

/-- The name of an atom; other terms have none. -/
def name (t : Term) : String := (t.symbol?.map Symbol.name).getD ""

/-- The head of a nested application. -/
def head : Term → Term
  | app f _ => f.head
  | t => t

/-- The arguments of a nested application, first to last. -/
def args : Term → List Term
  | app f x => f.args ++ [x]
  | _ => []

/-- A term with every type changed. -/
def mapTypes (f : Ty → Ty) : Term → Term
  | const s => const (s.mapType f)
  | var s => var (s.mapType f)
  | app g x => app (g.mapTypes f) (x.mapTypes f)
  | lam v body => lam (v.mapType f) (body.mapTypes f)

/-- The free occurrences of variables in a term, from left to right. A binder hides the
occurrences of exactly its own variable. -/
def free : Term → List Symbol
  | const _ => []
  | var s => [s]
  | app f x => f.free ++ x.free
  | lam v body => body.free.filter fun s => s.varKey != v.varKey

/-- The constants and variables occurring in a term, binders included, from left to right. -/
def atoms : Term → List Term
  | const s => [const s]
  | var s => [var s]
  | app f x => f.atoms ++ x.atoms
  | lam v body => var v :: body.atoms

/-- The free occurrences' names. -/
def freeNames (t : Term) : List String := t.free.map Symbol.name

/-- Whether a variable occurs free in a term. -/
def hasFree (t : Term) (s : Symbol) : Bool := t.free.any fun v => v.varKey == s.varKey

end Term

/-- The elements of a list with different keys, the last one of each key, ordered by key. -/
def sortedByKey {α : Type} (key : α → String) (items : List α) : List α :=
  let distinct := items.foldr
    (fun a kept => if kept.any fun b => key b == key a then kept else a :: kept) []
  sortBy (fun a b => decide (key a ≤ key b)) distinct

/-- The different variables among free occurrences, ordered by key. -/
def sortedVariables (occurrences : List Symbol) : List Symbol :=
  sortedByKey Symbol.varKey occurrences

/-- The different free variables of a term, ordered by key. -/
def Term.freeVariables (t : Term) : List Symbol := sortedVariables t.free

/-- The different atoms of a term, ordered by key. -/
def Term.atomSet (t : Term) : List Term := sortedByKey Term.key t.atoms

end Turnstile
