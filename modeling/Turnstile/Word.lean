/-!
# Words

Numbers that come from outside are held in signed words of 64 bits.
-/

namespace Turnstile.Word

/-- The largest number of a signed word. -/
def largest : Int := 9223372036854775807

/-- The smallest number of a signed word. -/
def smallest : Int := -9223372036854775808

/-- Whether a number fits a signed word. -/
def fits (n : Int) : Bool := decide (smallest ≤ n) && decide (n ≤ largest)

/-- A number fits exactly when it lies between the smallest and the largest. -/
theorem fits_iff {n : Int} : fits n = true ↔ smallest ≤ n ∧ n ≤ largest := by
  simp [fits]

end Turnstile.Word
