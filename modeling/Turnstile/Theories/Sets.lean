import Turnstile.Declarations

/-!
# The theory of sets

Set theory in the manner of Zermelo, over the words of logic.
-/

namespace Turnstile.Theories

/-- Zermelo's set theory. -/
def sets : Declarations where
  theories := ["set"]
  constants := [
    "in:obj->obj->bool",
    "subset:obj->obj->bool",
    "separation:obj->(obj->bool)->obj"]
  operators := [
    ⟨"in", 2, "left", 50⟩,
    ⟨"subset", 2, "left", 50⟩]
  setBuilders := [⟨"separation", "in"⟩]
  postulates := [
    ⟨"set.extensionality",
      "(for_all x . for_all y . for_all z .((z in x) iff (z in y))) implies (x = y)"⟩,
    ⟨"set.unordered_pair",
      "for_all x . for_all y . for_all z .(z in unordered_pair(x, y)) iff ((z = x) or (z = y))"⟩,
    ⟨"set.powerset",
      "for_all x . for_all y .(y in powerset(x)) iff (y subset x)"⟩,
    ⟨"set.family_union",
      "for_all F . for_all x .(x in family_union(F)) iff (exists y . (y in F) and (x in y))"⟩,
    ⟨"set.separation",
      "schema phi . for_all X . for_all y .(y in separation(X, phi)) iff ((y in X) and phi(y))"⟩,
    ⟨"set.infinity",
      "exists x . (emptyset in x) and (for_all y . (y in x) implies (successor(y) in x))"⟩]
  definitions := [
    "emptyset = separation(x, (\\y . not (y in x)))",
    "singleton = (\\x . unordered_pair(x, x))",
    "union = (\\x . \\y . family_union(unordered_pair(x, y)))",
    "successor = (\\x . union(x, singleton(x)))",
    "(subset) = (\\x . \\y . for_all z . (z in x) implies (z in y))",
    "ordered_pair = (\\x . \\y . unordered_pair(singleton(x), unordered_pair(x, y)))",
    "is_in_ordered_pair_first = (\\x . \\y . exists z . (singleton(z) in x) and (y in z))",
    "ordered_pair_first = (\\x . separation(y, is_in_ordered_pair_first(x)))"]

end Turnstile.Theories
