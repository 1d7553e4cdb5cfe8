import Turnstile.Formula.Grammar
import Turnstile.Formula.Typing
import Turnstile.Sequent

/-!
# Reading formulas

A text is cut into tokens, read by the grammar and typed. Of a fault in the grammar and a type
error, the one that comes first in the text is reported.
-/

namespace Turnstile.Vocabulary

open Formula

/-- Type what was read; if reading stopped, type what was read before and then report the
fault. -/
def settle {α β : Type} (reading : Except Stop α) (infer : α → Typing β) : Build β :=
  match reading with
  | .ok tree => (infer tree).within
  | .error s => do
    let _ ← (Expr.inferAll s.read).within
    throw s.failure

/-- The term that a text spells. -/
def parse (v : Vocabulary) (text : String) : Build Term := do
  settle (wholeTerm v (← tokens text)) Expr.infer

/-- The type that a text spells. -/
def parseType (v : Vocabulary) (text : String) : Build Ty := do
  let t ← wholeType v (← tokens text)
  t.resolve.within

/-- The sequent that a text spells. -/
def parseSequent (v : Vocabulary) (text : String) : Build Sequent := do
  settle (wholeSequent v (← tokens text)) fun (left, right) => do
    let left ← Expr.inferAll left
    let right ← Expr.inferAll right
    Sequent.make left right

end Turnstile.Vocabulary
