import Turnstile.Rule.Derived

/-!
# Rules of set theory

Tactics for equality of sets, inclusion, powersets and separation: each cuts in the postulate it
rests on, instantiates it and takes it apart.
-/

namespace Turnstile.Rule

/-- Cut in a postulate by name. -/
def postulate (th : Theory) (name : String) : Plan :=
  theoremCut th (Text.Octets.ofString name)

/-- Instantiate the universal first on the left and drop it. -/
def instantiate (th : Theory) (witness : Term) : List Plan :=
  [leftUniversal th witness, leftPermutation 1, leftWeakening]

/-- Prove two sets equal by extensionality. -/
def rightExtension (th : Theory) (witness : Term) : Plan :=
  onShape th "right_extension" [.term witness] .right .equation fun m =>
    .sequence (postulate th "set.extensionality") (
      instantiate th (part m "a") ++ instantiate th (part m "b") ++ instantiate th witness
        ++ [.branch (leftImplication th) [rightBidirectional th, close]])

/-- Use an inclusion on the left for a member. -/
def leftSubset (th : Theory) (witness : Term) : Plan :=
  fixed "left_subset" [.term witness] (.sequence (leftUnfold th "subset") (
    instantiate th witness ++ [leftImplication th]))

/-- Prove an inclusion for a fresh member. -/
def rightSubset (th : Theory) (witness : Term) : Plan :=
  fixed "right_subset" [.term witness] (.sequence (rightUnfold th "subset") [
    rightUniversal th witness, rightImplication th])

/-- Bring in what membership in a powerset means for the parts of a formula. -/
def powersetMeaning (th : Theory) (m : Bindings) (finish : Plan) : Plan :=
  .sequence (postulate th "set.powerset") (
    instantiate th (part m "b") ++ instantiate th (part m "a") ++ [finish])

/-- A member of a powerset on the left becomes a subset. -/
def leftPowerset (th : Theory) : Plan :=
  onShape th "left_powerset" [] .left .powerset fun m =>
    powersetMeaning th m (.branch (leftBidirectional th) [close, leftWeakening])

/-- Prove membership in a powerset by proving an inclusion. -/
def rightPowerset (th : Theory) : Plan :=
  onShape th "right_powerset" [] .right .powerset fun m =>
    powersetMeaning th m (.branch (leftBidirectional th) [rightWeakening, close])

/-- Bring in what membership in a separation means for the parts of a formula. -/
def separationMeaning (th : Theory) (m : Bindings) (finish : Plan) : Plan :=
  .sequence (postulate th "set.separation") (
    [leftSchema th (part m "phi"), leftPermutation 1, leftWeakening]
      ++ instantiate th (part m "X") ++ instantiate th (part m "x") ++ [finish])

/-- Prove membership in a separation. -/
def rightSeparation (th : Theory) : Plan :=
  onShape th "right_separation" [] .right .separation fun m =>
    separationMeaning th m (.branch (leftBidirectional th) [
      .sequence rightWeakening [
        rightPermutation 1, rightWeakening, rightNegation th,
        .branch (leftDisjunction th) [leftNegation th, leftNegation th]],
      close])

/-- Use membership in a separation on the left. -/
def leftSeparation (th : Theory) : Plan :=
  onShape th "left_separation" [] .left .separation fun m =>
    separationMeaning th m (.branch (leftBidirectional th) [
      close,
      .sequence leftWeakening [
        leftPermutation 1, leftWeakening, leftNegation th, rightDisjunction th,
        rightNegation th, rightNegation th, leftPermutation 1]])

end Turnstile.Rule
