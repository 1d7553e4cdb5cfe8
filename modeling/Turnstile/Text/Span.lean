/-!
# Spans of code points

A class of characters is given as a list of inclusive spans of code points.
-/

namespace Turnstile.Text

/-- An inclusive span of code points. -/
abbrev Span := Nat × Nat

/-- Whether one of the spans holds the code point. -/
def covers (spans : List Span) (n : Nat) : Bool :=
  spans.any fun (low, high) => low ≤ n && n ≤ high

/-- A code point is covered exactly when some span holds it. -/
theorem covers_iff {spans : List Span} {n : Nat} :
    covers spans n = true ↔ ∃ span ∈ spans, span.1 ≤ n ∧ n ≤ span.2 := by
  simp [covers]

end Turnstile.Text
