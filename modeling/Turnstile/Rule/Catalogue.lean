import Turnstile.Rule.Registry
import Turnstile.Rule.Sets

/-!
# The catalogue of rules

Every rule with its arguments, the theory it relies on and what it does, in the order in which
rules are listed.
-/

namespace Turnstile.Rule

/-- The argument of a rule that takes a term. -/
def witnessArg : List ArgSpec := [⟨"witness", .term⟩]

/-- The argument of a rule that takes a place. -/
def indexArg : List ArgSpec := [⟨"index", .int⟩]

/-- The argument of a rule that takes a name. -/
def nameArg : List ArgSpec := [⟨"name", .string⟩]

/-- A rule without arguments. -/
def plain (f : Theory → Plan) : Theory → List Arg → Build Plan := fun th _ => return f th

/-- A rule with a term argument. -/
def onTerm (f : Theory → Term → Plan) : Theory → List Arg → Build Plan
  | th, [.term t] => return f th t
  | _, _ => return noop

/-- A rule with a number argument. -/
def onInt (f : Theory → Int → Plan) : Theory → List Arg → Build Plan
  | th, [.int i] => return f th i
  | _, _ => return noop

/-- A rule with a string argument. -/
def onString (f : Theory → Text.Octets → Plan) : Theory → List Arg → Build Plan
  | th, [.string s] => return f th s
  | _, _ => return noop

/-- The rules that rely on no theory. -/
def structuralRules : List Descriptor := [
  ⟨"assumption", .placeholder, [], "",
    "An open goal.",
    fun _ _ => return .assumption (← Build.freshAssumption), .never⟩,
  ⟨"left_permutation", .primitive, indexArg, "",
    "Move the left formula at index to the front.",
    onInt fun _ => leftPermutation, .never⟩,
  ⟨"right_permutation", .primitive, indexArg, "",
    "Move the right formula at index to the front.",
    onInt fun _ => rightPermutation, .never⟩,
  ⟨"left_contraction", .primitive, [], "",
    "Duplicate the first left formula.",
    plain fun _ => leftContraction, .never⟩,
  ⟨"right_contraction", .primitive, [], "",
    "Duplicate the first right formula.",
    plain fun _ => rightContraction, .never⟩,
  ⟨"left_weakening", .primitive, [], "",
    "Drop the first left formula.",
    plain fun _ => leftWeakening, .never⟩,
  ⟨"right_weakening", .primitive, [], "",
    "Drop the first right formula.",
    plain fun _ => rightWeakening, .never⟩,
  ⟨"noop", .primitive, [], "",
    "Leave the goal as it is.",
    plain fun _ => noop, .never⟩]

/-- The primitive rules of logic. -/
def logicalRules : List Descriptor := [
  ⟨"axiom", .primitive, [], "logic",
    "Close a goal whose first formulas agree.",
    plain fun _ => close, .byRunning⟩,
  ⟨"cut", .primitive, witnessArg, "logic",
    "Prove the witness, then assume it.",
    onTerm fun _ => cut, .byRunning⟩,
  ⟨"left_negation", .primitive, [], "logic",
    "not a on the left becomes a on the right.",
    plain leftNegation, .byRunning⟩,
  ⟨"right_negation", .primitive, [], "logic",
    "not a on the right becomes a on the left.",
    plain rightNegation, .byRunning⟩,
  ⟨"left_disjunction", .primitive, [], "logic",
    "Split on a or b on the left.",
    plain leftDisjunction, .byRunning⟩,
  ⟨"right_disjunction", .primitive, [], "logic",
    "a or b on the right becomes a, b.",
    plain rightDisjunction, .byRunning⟩,
  ⟨"left_universal", .primitive, witnessArg, "logic",
    "Instantiate a universal on the left.",
    onTerm leftUniversal, .onShape .left .universal⟩,
  ⟨"right_universal", .primitive, witnessArg, "logic",
    "Prove a universal on the right for a fresh variable.",
    onTerm rightUniversal, .onShape .right .universal⟩,
  ⟨"left_schema", .primitive, witnessArg, "logic",
    "Instantiate a schema on the left with a predicate.",
    onTerm leftSchema, .onShape .left .schema⟩,
  ⟨"left_substitution", .primitive, [], "logic",
    "Rewrite the first left formula with the equation after it.",
    plain leftSubstitution, .byRunning⟩,
  ⟨"right_substitution", .primitive, [], "logic",
    "Rewrite the first right formula with the first left equation.",
    plain rightSubstitution, .byRunning⟩,
  ⟨"left_symmetry", .primitive, [], "logic",
    "Flip an equation on the left.",
    plain leftSymmetry, .byRunning⟩,
  ⟨"right_symmetry", .primitive, [], "logic",
    "Flip an equation on the right.",
    plain rightSymmetry, .byRunning⟩,
  ⟨"theorem_cut", .primitive, nameArg, "logic",
    "Assume a named axiom.",
    onString theoremCut, .byRunning⟩,
  ⟨"left_expand", .primitive, nameArg, "logic",
    "Unfold a definition in the first left formula.",
    onString leftExpand, .byRunning⟩,
  ⟨"right_expand", .primitive, nameArg, "logic",
    "Unfold a definition in the first right formula.",
    onString rightExpand, .byRunning⟩]

/-- The tactics of logic. -/
def derivedRules : List Descriptor := [
  ⟨"qed", .compound, [], "logic",
    "Close a goal with a formula on both sides.",
    plain fun _ => qed, .byRunning⟩,
  ⟨"left_conjunction", .compound, [], "logic",
    "a and b on the left becomes a, b.",
    plain leftConjunction, .byRunning⟩,
  ⟨"right_conjunction", .compound, [], "logic",
    "Prove a and b on the right separately.",
    plain rightConjunction, .byRunning⟩,
  ⟨"left_implication", .compound, [], "logic",
    "Use a implies b on the left: prove a, then assume b.",
    plain leftImplication, .byRunning⟩,
  ⟨"right_implication", .compound, [], "logic",
    "Prove a implies b by assuming a.",
    plain rightImplication, .byRunning⟩,
  ⟨"left_bidirectional", .compound, [], "logic",
    "Use a iff b on the left.",
    plain leftBidirectional, .byRunning⟩,
  ⟨"right_bidirectional", .compound, [], "logic",
    "Prove a iff b in both directions.",
    plain rightBidirectional, .byRunning⟩,
  ⟨"left_existential", .compound, witnessArg, "logic",
    "Name the object of an existential on the left.",
    onTerm leftExistential, .onShape .left .existential⟩,
  ⟨"right_existential", .compound, witnessArg, "logic",
    "Prove an existential on the right with a witness.",
    onTerm rightExistential, .onShape .right .existential⟩,
  ⟨"excluded_middle", .compound, [], "logic",
    "Prove a or not a.",
    plain excludedMiddle, .byRunning⟩]

/-- The tactics of set theory. -/
def setRules : List Descriptor := [
  ⟨"right_extension", .compound, witnessArg, "set",
    "Prove two sets equal by extensionality.",
    onTerm rightExtension, .onShape .right .equation⟩,
  ⟨"left_subset", .compound, witnessArg, "set",
    "Use a subset b on the left for a member.",
    onTerm leftSubset, .onShape .left .subset⟩,
  ⟨"right_subset", .compound, witnessArg, "set",
    "Prove a subset b for a fresh member.",
    onTerm rightSubset, .onShape .right .subset⟩,
  ⟨"left_powerset", .compound, [], "set",
    "a in powerset(b) on the left becomes a subset b.",
    plain leftPowerset, .byRunning⟩,
  ⟨"right_powerset", .compound, [], "set",
    "Prove a in powerset(b) by proving a subset b.",
    plain rightPowerset, .byRunning⟩,
  ⟨"left_separation", .compound, [], "set",
    "Membership in a separation on the left.",
    plain leftSeparation, .byRunning⟩,
  ⟨"right_separation", .compound, [], "set",
    "Prove membership in a separation.",
    plain rightSeparation, .byRunning⟩]

/-- Every rule. -/
def catalogue : List Descriptor := structuralRules ++ logicalRules ++ derivedRules ++ setRules

end Turnstile.Rule

namespace Turnstile

/-- The rules that rely on no theory or on one of the given ones, in the order of the
catalogue. -/
def Rules.standard (theories : List String) : Rules :=
  .ofList (Rule.catalogue.filter fun d => d.theory.isEmpty || theories.contains d.theory)

end Turnstile
