import Turnstile.Declarations

/-!
# The theory of logic

Classical first-order logic over objects and propositions. Negation, disjunction and the
universal quantifier are primitive; the other connectives are defined by them.
-/

namespace Turnstile.Theories

/-- Classical first-order logic. -/
def logic : Declarations where
  theories := ["logic"]
  constants := [
    "not:bool->bool",
    "or:bool->bool->bool",
    "and:bool->bool->bool",
    "implies:bool->bool->bool",
    "iff:bool->bool->bool",
    "=:?a->?a->bool",
    "schema:((obj->bool)->bool)->bool",
    "for_all:(obj->bool)->bool",
    "exists:(obj->bool)->bool"]
  operators := [
    ⟨"not", 1, "right", 100⟩,
    ⟨"and", 2, "left", 200⟩,
    ⟨"or", 2, "left", 300⟩,
    ⟨"implies", 2, "left", 300⟩,
    ⟨"iff", 2, "left", 400⟩,
    ⟨"=", 2, "left", 500⟩]
  binders := ["schema", "for_all", "exists"]
  definitions := [
    "(and) = (\\x.\\y.(not ((not x) or (not y))))",
    "(implies) = (\\x.\\y.((not x) or y))",
    "(iff) = (\\x.\\y.((x implies y) and (y implies x)))",
    "(exists) = (\\x.(not (for_all y . (not (x(y))))))"]

end Turnstile.Theories
