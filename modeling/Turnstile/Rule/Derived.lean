import Turnstile.Rule.Logical

/-!
# Derived rules

Tactics for the connectives that are defined from negation, disjunction and the universal: each
unfolds its connective and finishes with the primitive rules.
-/

namespace Turnstile.Rule

/-- A tactic that always expands to the same plan. -/
def fixed (name : String) (args : List Arg) (expansion : Plan) : Plan :=
  .compound ⟨name, args⟩ (fun _ => return ()) (fun _ => expansion)

/-- A tactic that applies where the first formula on a side has a shape, and expands to a plan
made from its parts. -/
def onShape (th : Theory) (name : String) (args : List Arg) (side : Side) (s : Shape)
    (expansion : Bindings → Plan) : Plan :=
  .compound ⟨name, args⟩
    (fun goal => tryCatch (discard (th.parts goal side 0 s))
      fun failure => throw (failure.named name))
    (fun goal => expansion (th.knownParts goal side s))

/-- The places of the first formula on the left that also stands on the right. -/
def shared? (goal : Sequent) : Option (Nat × Nat) :=
  goal.left.zipIdx.findSome? fun (l, i) =>
    goal.right.zipIdx.findSome? fun (r, j) => if l = r then some (i, j) else none

/-- Close a goal with a formula on both sides. -/
def qed : Plan :=
  .compound ⟨"qed", []⟩
    (fun goal =>
      if (shared? goal).isSome then return ()
      else throw (.refused "qed" .nothingShared))
    (fun goal =>
      let (i, j) := (shared? goal).getD (0, 0)
      .sequence (leftPermutation i) [rightPermutation j, close])

/-- Unfold a connective in the first left formula. -/
def leftUnfold (th : Theory) (name : String) : Plan := leftExpand th (Text.Octets.ofString name)

/-- Unfold a connective in the first right formula. -/
def rightUnfold (th : Theory) (name : String) : Plan :=
  rightExpand th (Text.Octets.ofString name)

/-- A conjunction on the left becomes its two parts. -/
def leftConjunction (th : Theory) : Plan :=
  fixed "left_conjunction" [] (.sequence (leftUnfold th "and") [
    leftNegation th, rightDisjunction th, rightNegation th, rightNegation th,
    leftPermutation 1])

/-- Prove the parts of a conjunction on the right separately. -/
def rightConjunction (th : Theory) : Plan :=
  fixed "right_conjunction" [] (.sequence (rightUnfold th "and") [
    rightNegation th,
    .branch (leftDisjunction th) [leftNegation th, leftNegation th]])

/-- Use an implication on the left: prove its premise, then assume its conclusion. -/
def leftImplication (th : Theory) : Plan :=
  fixed "left_implication" [] (.sequence (leftUnfold th "implies") [
    .branch (leftDisjunction th) [leftNegation th, noop]])

/-- Prove an implication by assuming its premise. -/
def rightImplication (th : Theory) : Plan :=
  fixed "right_implication" [] (.sequence (rightUnfold th "implies") [
    rightDisjunction th, rightNegation th])

/-- Prove an equivalence in both directions. -/
def rightBidirectional (th : Theory) : Plan :=
  fixed "right_bidirectional" [] (.sequence (rightUnfold th "iff") [
    .branch (rightConjunction th) [rightImplication th, rightImplication th]])

/-- Use an equivalence on the left: its sides hold both or neither. -/
def leftBidirectional (th : Theory) : Plan :=
  fixed "left_bidirectional" [] (.sequence (leftUnfold th "iff") [
    leftConjunction th,
    .branch (leftImplication th) [
      .branch (leftImplication th) [rightPermutation 1, close],
      .sequence (leftPermutation 1) [.branch (leftImplication th) [close, noop]]]])

/-- Prove an existential on the right by exhibiting a witness. -/
def rightExistential (th : Theory) (witness : Term) : Plan :=
  fixed "right_existential" [.term witness] (.sequence rightContraction [
    rightUnfold th "exists", rightNegation th, leftUniversal th witness, leftNegation th,
    leftWeakening])

/-- Name the object of an existential on the left. -/
def leftExistential (th : Theory) (witness : Term) : Plan :=
  fixed "left_existential" [.term witness] (.sequence (leftUnfold th "exists") [
    leftNegation th, rightUniversal th witness, rightNegation th])

/-- Prove that a formula holds or does not. -/
def excludedMiddle (th : Theory) : Plan :=
  fixed "excluded_middle" [] (.sequence (rightDisjunction th) [
    rightPermutation 1, rightNegation th, close])

end Turnstile.Rule
