import Turnstile.Plan.Call
import Turnstile.Script.Rejection
import Turnstile.Token
import Turnstile.Vocabulary.Word

/-!
# Failures

Everything that can go wrong, as causes. The wording of each cause stands in one place,
`Failure.message`. A failure may be reported from inside another activity; the activity is its
`Context`, whose words come first, and `Failure.cause` looks through contexts to what went
wrong.
-/

namespace Turnstile

/-- What is wrong with a formula's text. -/
inductive SyntaxFault where
  /-- A character that begins no token. -/
  | unexpectedChar (c : Char)
  /-- A token that fits nowhere here. -/
  | unexpected (text : String)
  /-- The text stops too early. -/
  | unexpectedEnd
  /-- Another kind of token was needed; `found` is none at the end of the text. -/
  | expected (kind : TokenKind) (found : Option String)
  /-- An operator that does not associate is chained. -/
  | notAssociative (name : String)
  /-- An infix operator where a term begins. -/
  | infixFirst (name : String)
  /-- A type name where a term begins. -/
  | typeAsTerm (name : String)
  /-- A reserved word where a variable is needed. -/
  | reserved (name : String)
  /-- No set builder is written with this word. -/
  | noMembership
  /-- An annotation names no type. -/
  | unknownType (name : String)
  deriving DecidableEq, Repr

/-- The wording of a fault in a formula's text. -/
def SyntaxFault.message : SyntaxFault → String
  | unexpectedChar c => "unexpected character " ++ Text.quoteChar c
  | unexpected text => "unexpected " ++ Text.quote text
  | unexpectedEnd => "unexpected end of input"
  | expected kind found =>
    "expected " ++ kind.name ++ ", got " ++ (found.map Text.quote).getD "end of input"
  | notAssociative name => "operator " ++ name ++ " is not associative"
  | infixFirst name => "infix operator " ++ name ++ " used as a prefix"
  | typeAsTerm name => "type " ++ name ++ " used as a term"
  | reserved name => name ++ " is reserved and cannot name a variable"
  | noMembership => "expected a set membership operator"
  | unknownType name => "unknown type " ++ name

/-- Why a term does not have the form of a pattern, beyond its shape. -/
inductive MatchFault where
  /-- The shapes differ. -/
  | shape
  /-- A pattern variable's type has no common instance with the subterm's. -/
  | incompatibleTypes
  /-- A pattern variable met two different subterms. -/
  | alreadyBound (name : String) (value : Term)
  deriving DecidableEq, Repr

/-- The two sides of a sequent. -/
inductive Side where
  | left
  | right
  deriving DecidableEq, Repr, Inhabited

/-- How a side is written. -/
def Side.text : Side → String
  | left => "left"
  | right => "right"

/-- Why a rule does not apply to a goal. -/
inductive Refusal where
  | noFormulaAt (side : Side) (index : Nat)
  | noFormulaAtPosition (index : Int)
  | notOfForm (formula : Term) (pattern : String)
  | nothingToContract
  | nothingToWeaken
  | needsBothSides
  | notTheSame (left right : Term)
  | witnessNotVariable (witness : Term)
  | witnessNotFresh (witness formula : Term)
  | noFormulaOn (side : Side)
  | noAxiom (name : Text.Octets)
  | noDefinition (name : Text.Octets)
  | doesNotOccur (name : Text.Octets) (formula : Term)
  | nothingShared
  | other (reason : String)
  deriving DecidableEq, Repr

/-- The wording of a refusal. -/
def Refusal.message : Refusal → String
  | noFormulaAt side index => "no formula at " ++ side.text ++ " position " ++ toString index
  | noFormulaAtPosition index => "no formula at position " ++ toString index
  | notOfForm formula pattern => formula.text ++ " is not of the form " ++ pattern
  | nothingToContract => "nothing to contract"
  | nothingToWeaken => "nothing to weaken"
  | needsBothSides => "both sides need a formula"
  | notTheSame left right => left.text ++ " is not the same as " ++ right.text
  | witnessNotVariable witness => "witness " ++ witness.text ++ " is not a variable"
  | witnessNotFresh witness formula =>
    "cannot use " ++ witness.text ++ " as a witness in " ++ formula.text
  | noFormulaOn side => "no formula on the " ++ side.text
  | noAxiom name => "no axiom named " ++ name.text
  | noDefinition name => "no definition of " ++ name.text
  | doesNotOccur name formula => name.text ++ " does not occur in " ++ formula.text
  | nothingShared => "no formula appears on both sides"
  | other reason => reason

/-- What is wrong with a rule's arguments. -/
inductive ArgumentFault where
  | count (expected found : Nat)
  | kind (name : String) (expected : ArgKind) (found : String)
  deriving DecidableEq, Repr

/-- The wording of a fault in a rule's arguments. -/
def ArgumentFault.message : ArgumentFault → String
  | count expected found =>
    "expected " ++ toString expected ++ " arguments, got " ++ toString found
  | kind name expected found =>
    "argument " ++ name ++ " must be a " ++ expected.text ++ ", got a " ++ found

/-- What is wrong with a plan's text. -/
inductive PlanFault where
  /-- A token is not spelled as its kind requires. -/
  | spelling (problem : String)
  | expectedName
  | expected (c : Char) (found : Option String)
  | unexpected (text : String)
  | trailing (text : String)
  | notPlan (name : String) (index : Nat) (kind : String)
  | noPlans (name : String)
  | unknownRule (name : String)
  | takesNoPlans (name : String)
  | badInteger (text : String) (outOfRange : Bool)
  | badString
  deriving DecidableEq, Repr

/-- The wording of a fault in a plan's text. -/
def PlanFault.message : PlanFault → String
  | spelling problem => problem
  | expectedName => "expected a rule name"
  | expected c found =>
    "expected " ++ Text.quote (String.singleton c) ++ ", got " ++ found.getD "end of input"
  | unexpected text => "unexpected " ++ text
  | trailing text => "unexpected " ++ text ++ " after plan"
  | notPlan name index kind =>
    name ++ " takes plans, argument " ++ toString index ++ " is a " ++ kind
  | noPlans name => name ++ " needs at least one plan"
  | unknownRule name => "unknown rule " ++ name
  | takesNoPlans name => name ++ " does not take plans"
  | badInteger text outOfRange =>
    "bad integer: strconv.Atoi: parsing " ++ Text.quote text ++ ": "
      ++ (if outOfRange then "value out of range" else "invalid syntax")
  | badString => "bad string: invalid syntax"

/-- The part of a plan's text that another failure was found in. -/
inductive PlanPart where
  | term
  | arguments
  deriving DecidableEq, Repr

/-- The wording of a part of a plan's text. -/
def PlanPart.message : PlanPart → String
  | term => "bad term"
  | arguments => "bad arguments"

/-- Why an equation defines nothing. -/
inductive DefinitionFault where
  | notEquation
  | notEquality
  | notName
  deriving DecidableEq, Repr

/-- The wording of a fault in a definition. -/
def DefinitionFault.message : DefinitionFault → String
  | notEquation => "expected name = value"
  | notEquality => "= is not the equality constant"
  | notName => "left-hand side must be a name"

/-- An activity during which a failure came up. -/
inductive Context where
  | conflictingTypes (name : String)
  | position (position : Position)
  | pattern (text : String)
  | constant (signature : String)
  | operator (name : String)
  | binder (name : String)
  | setBuilder (name : String)
  | definition (text : String)
  | statement (name : String)
  | goal
  | step (number : Nat)
  | rule (name : String)
  | theory (name : String)
  | file (path : String)
  | configuration (name : String)
  deriving DecidableEq, Repr

/-- The wording of a context. -/
def Context.message : Context → String
  | conflictingTypes name => "conflicting types for " ++ name
  | position p => "at " ++ p.text
  | pattern text => "pattern " ++ Text.quote text
  | constant signature => "constant " ++ signature
  | operator name => "operator " ++ name
  | binder name => "binder " ++ name
  | setBuilder name => "set builder " ++ name
  | definition text => "definition " ++ Text.quote text
  | statement name => "axiom " ++ name
  | goal => "goal"
  | step number => "step " ++ toString number
  | rule name => "rule " ++ name
  | theory name => "theory " ++ name
  | file path => path
  | configuration name => "failed to load " ++ name

/-- Something that went wrong. -/
inductive Failure where
  /-- A formula's text does not follow the grammar. -/
  | malformed (position : Position) (fault : SyntaxFault)
  /-- Two types cannot be made equal. -/
  | clash (types : Clash)
  /-- An abstraction over something that is no variable. -/
  | unbindable (term : Term)
  /-- A term does not have the form of a pattern. -/
  | noMatch (pattern term : Term) (fault : MatchFault)
  /-- Two tokens of one precedence group differently. -/
  | precedence (level : Int) (first second : String) (assoc assoc' : Assoc)
  /-- A rule does not apply; its name is empty until it is known. -/
  | refused (rule : String) (refusal : Refusal)
  /-- A rule was called with the wrong arguments. -/
  | arguments (rule : String) (fault : ArgumentFault)
  /-- A branch does not have one plan per subgoal of its head. -/
  | branching (head : String) (subgoals branches : Nat)
  /-- A plan's text does not describe a plan. -/
  | plan (line column : Nat) (fault : PlanFault)
  /-- A part of a plan's text has a fault of its own. -/
  | planPart (line column : Nat) (part : PlanPart) (cause : Failure)
  /-- An equation defines nothing. -/
  | definition (text : String) (fault : DefinitionFault)
  /-- A plan has no such open goal. -/
  | noOpenGoal (index : Int) (count : Nat)
  /-- A proof leaves another number of goals open than it declares. -/
  | incomplete (expected : Int) (goals : List String)
  /-- No associativity has this name. -/
  | unknownAssoc (text : String)
  /-- A set builder's membership word is no binary operator. -/
  | memberNotBinary (builder member : String)
  /-- A word is declared for a name that is no constant. -/
  | undeclared (kind name : String)
  /-- A constant's declaration is not a name with a type. -/
  | notSignature
  /-- An operator takes neither one nor two operands. -/
  | unsupportedArity (arity : Int)
  /-- A proof gives a plan and steps. -/
  | planAndSteps
  /-- A reduction nests deeper than allowed. -/
  | tooDeep
  /-- No theory has this name. -/
  | unknownTheory (name : String)
  /-- A theory script failed, perhaps because a declaration was rejected. -/
  | script (rejection : Option Script.Rejection)
  /-- A proof script is not of the form read here. -/
  | document
  /-- A project file is not of the form read here. -/
  | settings
  /-- Some proofs of the checked scripts failed. -/
  | proofsFailed (failed total : Nat)
  /-- The surroundings refused: a file, a flag or an argument. -/
  | outside (text : String)
  /-- A failure inside another activity. -/
  | within (context : Context) (cause : Failure)
  deriving Repr

namespace Failure

/-- A failure in words. -/
def message : Failure → String
  | malformed position fault => "syntax error at " ++ position.text ++ ": " ++ fault.message
  | clash c => c.message
  | unbindable term => "bound terms must be variables, got " ++ term.text
  | noMatch pattern term fault =>
    "cannot match " ++ pattern.text ++ " with " ++ term.text
      ++ (match fault with
        | .shape => ""
        | .incompatibleTypes => ": incompatible types"
        | .alreadyBound name value => ": " ++ name ++ " is already bound to " ++ value.text)
  | precedence level first second assoc assoc' =>
    "tokens at the same precedence level must have the same associativity: " ++ first
      ++ " and " ++ second ++ " have precedence " ++ toString level
      ++ " but associativities " ++ assoc.text ++ " and " ++ assoc'.text
  | refused rule refusal =>
    (if rule.isEmpty then "rule" else rule) ++ " does not apply: " ++ refusal.message
  | arguments rule fault => rule ++ ": " ++ fault.message
  | branching head subgoals branches =>
    "branch error: " ++ head ++ " produces " ++ toString subgoals ++ " subgoals but "
      ++ toString branches ++ " branches were given"
  | plan line column fault =>
    "plan error at " ++ toString line ++ ":" ++ toString column ++ ": " ++ fault.message
  | planPart line column part cause =>
    "plan error at " ++ toString line ++ ":" ++ toString column ++ ": " ++ part.message
      ++ ": " ++ cause.message
  | definition text fault =>
    "invalid definition " ++ Text.quote text ++ ": " ++ fault.message
  | noOpenGoal index count =>
    "no open goal " ++ toString index ++ "; the plan has " ++ toString count
  | incomplete expected goals =>
    toString goals.length ++ " goals left open, expected " ++ toString expected
  | unknownAssoc text => "unknown associativity " ++ Text.quote text
  | memberNotBinary builder member =>
    "set builder " ++ builder ++ ": " ++ Text.quote member ++ " is not a binary operator"
  | undeclared kind name => kind ++ " " ++ name ++ " is not a declared constant"
  | notSignature => "expected name:type"
  | unsupportedArity arity => "unsupported arity " ++ toString arity
  | planAndSteps => "give either a plan or steps, not both"
  | tooDeep => "reduction nests too deeply"
  | unknownTheory name => "unknown theory " ++ Text.quote name
  | script rejection => rejection.elim "malformed theory script" Script.Rejection.message
  | document => "malformed proof script"
  | settings => "malformed project file"
  | proofsFailed failed total =>
    toString failed ++ " of " ++ toString total ++ " proofs failed"
  | outside text => text
  | within context cause => context.message ++ ": " ++ cause.message

/-- What went wrong, without the activities around it. -/
def cause : Failure → Failure
  | within _ inner => inner.cause
  | failure => failure

/-- Whether a failure, or one that it reports, is of some sort. -/
def involves (sort : Failure → Bool) : Failure → Bool
  | within context inner => sort (within context inner) || inner.involves sort
  | planPart line column part inner =>
    sort (planPart line column part inner) || inner.involves sort
  | failure => sort failure

/-- Name the rule that refused, if that is what happened and it is not yet known. -/
def named (rule : String) : Failure → Failure
  | within context inner => within context (inner.named rule)
  | refused known refusal => refused (if known.isEmpty then rule else known) refusal
  | failure => failure

/-- Whether a failure only means that something does not fit the goal at hand. -/
def isMisfit : Failure → Bool
  | refused _ _ => true
  | clash _ => true
  | noMatch _ _ _ => true
  | unbindable _ => true
  | _ => false

end Failure

end Turnstile
