/-!
# Edit distance

The number of insertions, deletions and replacements of single bytes that turn one word into
another, from the usual table of which only the last row is kept.
-/

namespace Turnstile.Text

/-- The next row of the table without its first element: `above` is the row above, `corner` its
first element, `left` the element to the left of the first new one. -/
def editRow (c : UInt8) (corner left : Nat) : List UInt8 → List Nat → List Nat
  | d :: word, up :: above =>
    let here := Nat.min (Nat.min (left + 1) (up + 1)) (corner + if c = d then 0 else 1)
    here :: editRow c up here word above
  | _, _ => []

/-- The last row of the table, the first row being given. -/
def editTable (row : List Nat) (word : List UInt8) : List UInt8 → List Nat
  | [] => row
  | c :: rest =>
    let corner := row.headD 0
    editTable ((corner + 1) :: editRow c corner (corner + 1) word row.tail) word rest

/-- The edit distance between two words. -/
def editDistance (a b : String) : Nat :=
  let word := b.toUTF8.toList
  (editTable (List.range (word.length + 1)) word a.toUTF8.toList).getLastD 0

end Turnstile.Text
