/-!
# Sorting

Insertion sort, by structural recursion so that closed terms evaluate. Elements that the order
does not tell apart keep the order in which they stand.
-/

namespace Turnstile

variable {α : Type}

/-- Put an element before the first one that it does not follow. -/
def insertBy (le : α → α → Bool) (a : α) : List α → List α
  | [] => [a]
  | b :: rest => if le a b then a :: b :: rest else b :: insertBy le a rest

/-- The elements of a list in ascending order. -/
def sortBy (le : α → α → Bool) (items : List α) : List α := items.foldr (insertBy le) []

end Turnstile
