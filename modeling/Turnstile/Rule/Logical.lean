import Turnstile.Rule.Structural

/-!
# Logical rules

The primitive rules that take apart the formula at the front of a side, close a goal, cut in a
formula or a postulate, put equals for equals, and unfold a definition.
-/

namespace Turnstile.Rule

/-- The part of a formula that a pattern variable stands for. -/
def part (bindings : Bindings) (name : String) : Term := bindings.value name default

/-- Leave the goal as it is. -/
def noop : Plan := primitive "noop" [] fun goal => return [goal]

/-- Close a goal whose first formulas agree. -/
def close : Plan :=
  primitive "axiom" [] fun goal =>
    match goal.left, goal.right with
    | l :: _, r :: _ => if l = r then pure [] else refuse (.notTheSame l r)
    | _, _ => refuse .needsBothSides

/-- Prove the witness, then assume it. -/
def cut (witness : Term) : Plan :=
  primitive "cut" [.term witness] fun goal => do
    let prove ← Sequent.make goal.left (witness :: goal.right)
    let use ← Sequent.make (witness :: goal.left) goal.right
    return [prove, use]

/-- A negation on the left becomes its body on the right. -/
def leftNegation (th : Theory) : Plan :=
  primitive "left_negation" [] fun goal => do
    let m ← th.parts goal .left 0 .negation
    one goal.left.tail (part m "a" :: goal.right)

/-- A negation on the right becomes its body on the left. -/
def rightNegation (th : Theory) : Plan :=
  primitive "right_negation" [] fun goal => do
    let m ← th.parts goal .right 0 .negation
    one (part m "a" :: goal.left) goal.right.tail

/-- A disjunction on the left splits the goal. -/
def leftDisjunction (th : Theory) : Plan :=
  primitive "left_disjunction" [] fun goal => do
    let m ← th.parts goal .left 0 .disjunction
    let first ← Sequent.make (part m "a" :: goal.left.tail) goal.right
    let second ← Sequent.make (part m "b" :: goal.left.tail) goal.right
    return [first, second]

/-- A disjunction on the right becomes its two parts. -/
def rightDisjunction (th : Theory) : Plan :=
  primitive "right_disjunction" [] fun goal => do
    let m ← th.parts goal .right 0 .disjunction
    one goal.left (part m "a" :: part m "b" :: goal.right.tail)

/-- Put an instance of the universal on the left before it. -/
def leftUniversal (th : Theory) (witness : Term) : Plan :=
  primitive "left_universal" [.term witness] fun goal => do
    let m ← th.parts goal .left 0 .universal
    let instance' ← (part m "phi").substitute witness (part m "x")
    one (instance' :: goal.left) goal.right

/-- Prove the universal on the right for a variable that is not free in the goal. -/
def rightUniversal (th : Theory) (witness : Term) : Plan :=
  primitive "right_universal" [.term witness] fun goal => do
    let m ← th.parts goal .right 0 .universal
    match witness with
    | .var v =>
      if (goal.free.map Symbol.name).contains v.name then
        refuse (.witnessNotFresh witness (goal.right.headD default))
      else
        let instance' ← (part m "phi").substitute witness (part m "x")
        one goal.left (instance' :: goal.right.tail)
    | _ => refuse (.witnessNotVariable witness)

/-- Put an instance of the schema on the left before it. -/
def leftSchema (th : Theory) (witness : Term) : Plan :=
  primitive "left_schema" [.term witness] fun goal => do
    let m ← th.parts goal .left 0 .schema
    let instance' ← (part m "psi").substitute witness (part m "phi")
    one (instance' :: goal.left) goal.right

/-- Put equals for equals in the first left formula, by the equation after it. -/
def leftSubstitution (th : Theory) : Plan :=
  primitive "left_substitution" [] fun goal => do
    let m ← th.parts goal .left 1 .equation
    let replaced ← (goal.left.headD default).substitute (part m "b") (part m "a")
    one (replaced :: goal.left.tail) goal.right

/-- Put equals for equals in the first right formula, by the equation first on the left. -/
def rightSubstitution (th : Theory) : Plan :=
  primitive "right_substitution" [] fun goal => do
    let m ← th.parts goal .left 0 .equation
    match goal.right with
    | [] => refuse (.noFormulaOn .right)
    | formula :: rest =>
      let replaced ← formula.substitute (part m "b") (part m "a")
      one goal.left (replaced :: rest)

/-- An equation with its sides exchanged, under the same equality. -/
def flipped (equation : Term) (m : Bindings) : Build Term :=
  equation.head.mkApps [part m "b", part m "a"]

/-- Exchange the sides of the equation on the left. -/
def leftSymmetry (th : Theory) : Plan :=
  primitive "left_symmetry" [] fun goal => do
    let m ← th.parts goal .left 0 .equation
    let equation ← flipped (goal.left.headD default) m
    one (equation :: goal.left.tail) goal.right

/-- Exchange the sides of the equation on the right. -/
def rightSymmetry (th : Theory) : Plan :=
  primitive "right_symmetry" [] fun goal => do
    let m ← th.parts goal .right 0 .equation
    let equation ← flipped (goal.right.headD default) m
    one goal.left (equation :: goal.right.tail)

/-- Assume a postulate. -/
def theoremCut (th : Theory) (name : Text.Octets) : Plan :=
  primitive "theorem_cut" [.string name] fun goal =>
    match th.postulate? name with
    | none => refuse (.noAxiom name)
    | some formula => one (formula :: goal.left) goal.right

/-- Put a definition's value for one of the atoms with the defined name. The flag says whether
some occurrence, of this atom or an earlier one, was free and so replaced. -/
def unfoldAtom (value : Term) (state : Term × Bool) (atom : Term) : Build (Term × Bool) := do
  let unfolded ← state.1.substitute value atom
  return (unfolded, state.2 || unfolded != state.1)

/-- The atoms of a formula with a name. They are listed as they first occur, but they are a set:
they are not unfolded in this order. -/
def atomsNamed (formula : Term) (name : String) : List Term :=
  (formula.atoms.filter fun atom => atom.name == name).eraseDups

/-- The order of some items that a number stands for. It says where the first item goes among the
others, and in which order these are. -/
def ordered {α : Type} : Nat → List α → List α
  | _, [] => []
  | number, a :: rest =>
    (ordered (number / (rest.length + 1)) rest).insertIdx (number % (rest.length + 1)) a

/-- The atoms of a formula with a name, in an order that is chosen whenever there are several. -/
def arrange (formula : Term) (name : String) : Build (List Term) := do
  let atoms := atomsNamed formula name
  if atoms.length ≤ 1 then return atoms
  return ordered (← Build.choose name formula) atoms

/-- A formula with every free occurrence of a defined name replaced by its value. Where several
atoms have the name it may depend on their order how bound variables are called in the end. -/
def unfold (th : Theory) (formula : Term) (name : Text.Octets) : Build Term := do
  match th.definition? name with
  | none => refuse (.noDefinition name)
  | some d =>
    let atoms ← arrange formula d.name
    let (unfolded, found) ← atoms.foldlM (unfoldAtom d.value) (formula, false)
    if found then return unfolded else refuse (.doesNotOccur name unfolded)

/-- Unfold a definition in the first left formula. -/
def leftExpand (th : Theory) (name : Text.Octets) : Plan :=
  primitive "left_expand" [.string name] fun goal =>
    match goal.left with
    | [] => refuse (.noFormulaOn .left)
    | formula :: rest => do one ((← unfold th formula name) :: rest) goal.right

/-- Unfold a definition in the first right formula. -/
def rightExpand (th : Theory) (name : Text.Octets) : Plan :=
  primitive "right_expand" [.string name] fun goal =>
    match goal.right with
    | [] => refuse (.noFormulaOn .right)
    | formula :: rest => do one goal.left ((← unfold th formula name) :: rest)

end Turnstile.Rule
