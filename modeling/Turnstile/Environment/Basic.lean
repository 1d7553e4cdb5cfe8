import Turnstile.Declarations
import Turnstile.Formula.Printer
import Turnstile.Rule.Catalogue

/-!
# Environments

An environment is what some declarations amount to: the words and their printer, the constants,
the definitions and postulates, and the rules. Building one reads every declaration in order and
stops at the first that cannot be read.
-/

namespace Turnstile

/-- The loaded form of some theories. -/
structure Environment where
  /-- The names of the theories. -/
  theories : List String
  /-- What the rules know. -/
  theory : Theory
  /-- How formulas are written. -/
  printer : Printer
  /-- The constants in the order of their first declarations. -/
  constants : List Symbol
  /-- The rules. -/
  rules : Rules

instance : Inhabited Environment := ⟨⟨[], default, default, [], .empty⟩⟩

namespace Declarations

/-- The constant that a signature declares, types being read with the given words. -/
def readConstant (types : Vocabulary) (signature : String) : Build Symbol :=
  Build.within (.constant signature) do
    match ← types.parse signature with
    | .var s => return s
    | .const s => return s
    | _ => throw .notSignature

/-- The constants with different names, the first declaration of each. -/
def firstDeclared (constants : List Symbol) : List Symbol :=
  constants.foldl (fun kept c => if kept.any fun o => o.name == c.name then kept
    else kept ++ [c]) []

/-- The constant that a word is declared for: the last one declared under its name. -/
def constantFor (constants : List Symbol) (kind name : String) : Except Failure Symbol :=
  match constants.reverse.find? fun c => c.name == name with
  | some c => .ok c
  | none => .error (.undeclared kind name)

/-- The word of an operator declaration. -/
def operatorWord (constants : List Symbol) (d : OperatorDecl) : Except Failure Word := do
  let constant ← constantFor constants "operator" d.name
  match Assoc.ofText? d.assoc with
  | some assoc => return .operator ⟨constant, d.arity, assoc, d.precedence⟩
  | none => throw (.within (.operator d.name) (.unknownAssoc d.assoc))

/-- The word of a binder declaration. -/
def binderWord (constants : List Symbol) (name : String) : Except Failure Word :=
  return .binder (← constantFor constants "binder" name)

/-- The word of a set-builder declaration. -/
def setBuilderWord (constants : List Symbol) (d : SetBuilderDecl) : Except Failure Word :=
  return .setBuilder ⟨← constantFor constants "set builder" d.constant, d.member⟩

/-- The words for types: the two that are always there and the declared ones. -/
def typeWords (d : Declarations) : List Word :=
  .type "obj" .obj :: .type "bool" .bool :: d.types.map fun name => .type name (.const name)

/-- The reserved words: types, operators, binders and set builders. -/
def words (d : Declarations) (constants : List Symbol) : Except Failure (List Word) := do
  let operators ← d.operators.mapM (operatorWord constants)
  let binders ← d.binders.mapM (binderWord constants)
  let builders ← d.setBuilders.mapM (setBuilderWord constants)
  return d.typeWords ++ operators ++ binders ++ builders

/-- The definition that an equation's text gives. -/
def readDefinition (v : Vocabulary) (text : String) : Build Definition := do
  let equation ← (v.parse text).within (.definition text)
  match equation.head, equation.args with
  | head, [atom, value] =>
    if head.name ≠ "=" then throw (.definition text .notEquation)
    else match head with
      | .const _ =>
        if atom.isAtom then return ⟨atom.name, atom, value, equation⟩
        else throw (.definition text .notName)
      | _ => throw (.definition text .notEquality)
  | _, _ => throw (.definition text .notEquation)

/-- The postulate that a declaration gives. -/
def readPostulate (v : Vocabulary) (d : PostulateDecl) : Build Postulate := do
  return ⟨d.name, ← (v.parse d.formula).within (.statement d.name)⟩

/-- The environment of some declarations. -/
def load (d : Declarations) : Build Environment := do
  let types ← Vocabulary.ofWords d.typeWords
  let constants ← d.constants.mapM (readConstant types)
  let vocabulary ← Vocabulary.ofWords (← d.words constants)
  let printer ← Printer.ofVocabulary vocabulary
  let definitions ← d.definitions.mapM (readDefinition vocabulary)
  let postulates ← d.postulates.mapM (readPostulate vocabulary)
  let shapes ← Theory.shapesOf vocabulary
  return {
    theories := d.theories
    theory := ⟨vocabulary, shapes, definitions, postulates⟩
    printer := printer
    constants := firstDeclared constants
    rules := .standard d.theories }

end Declarations

namespace Environment

/-- The reserved words. -/
def vocabulary (env : Environment) : Vocabulary := env.theory.vocabulary

/-- The term that a text spells. -/
def parse (env : Environment) (text : String) : Build Term := env.vocabulary.parse text

/-- The type that a text spells. -/
def parseType (env : Environment) (text : String) : Build Ty := env.vocabulary.parseType text

/-- The sequent that a text spells. -/
def parseSequent (env : Environment) (text : String) : Build Sequent :=
  env.vocabulary.parseSequent text

/-- A term in concrete form. -/
def showTerm (env : Environment) (t : Term) : String := env.printer.term t

/-- A sequent in concrete form. -/
def showSequent (env : Environment) (goal : Sequent) : String := env.printer.sequent goal

/-- A plan in the form that `evaluate` reads back. -/
def showPlan (env : Environment) (p : Plan) : String := p.display env.printer.term

/-- The rule with a name. -/
def rule? (env : Environment) (name : String) : Option Descriptor := env.rules.lookup name

/-- Whether a rule applies to a goal, reporting failures under its name. -/
def offers (env : Environment) (goal : Sequent) (d : Descriptor) : Build Bool :=
  (d.appliesTo env.theory goal).within (.rule d.name)

/-- The rules that apply to a goal, in registry order. -/
def applicableRules (env : Environment) (goal : Sequent) : Build (List Descriptor) :=
  env.rules.rules.filterM (env.offers goal)

end Environment

end Turnstile
