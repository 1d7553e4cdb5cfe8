import Turnstile.Document.Node
import Turnstile.Document.Scalar

/-!
# Reading documents

Lists and mappings are written either in brackets or by indentation. An indented list has a dash
before each item, an indented mapping a colon after each key; the parts of one list or mapping
stand in one column, and what belongs to an item or key stands further to the right. The items
of a list that a key is mapped to may stand in the key's own column. Comments run from a hash to
the end of the line.
-/

namespace Turnstile.Document

/-! ## Brackets -/

/-- Pass over blanks, line ends and comments. -/
def skipGap (comment : Bool) : List Char → List Char
  | [] => []
  | c :: rest =>
    if isBreak c then skipGap false rest
    else if comment then skipGap true rest
    else if isBlank c then skipGap false rest
    else if c = '#' then skipGap true rest
    else c :: rest

mutual

/-- Read a text, list or mapping between brackets. Each round goes deeper or passes over a
character. -/
def flowNode (indent : Nat) : (rounds : Nat) → List Char → Option (Node × List Char)
  | 0, _ => none
  | rounds + 1, cs =>
    match cs with
    | '[' :: rest => do
      let (items, rest) ← flowItems indent rounds (skipGap false rest)
      return (.list items, rest)
    | '\x7b' :: rest => do
      let (entries, rest) ← flowEntries indent rounds (skipGap false rest)
      return (.mapping entries, rest)
    | _ =>
      match quotedText? cs with
      | some (text, rest) => some (.text text true, rest)
      | none => (plainText? true indent cs).map fun (text, rest) => (.text text false, rest)

/-- Read the items of a bracketed list and its closing bracket. -/
def flowItems (indent : Nat) : (rounds : Nat) → List Char → Option (List Node × List Char)
  | 0, _ => none
  | rounds + 1, cs =>
    match cs with
    | ']' :: rest => some ([], rest)
    | _ => do
      let (item, rest) ← flowNode indent rounds cs
      let (item, rest) ← match item, skipGap false rest with
        | .text key _, ':' :: rest => do
          let (value, rest) ← flowValue indent rounds (skipGap false rest)
          pure (.mapping [(key, value)], rest)
        | item, rest => pure (item, rest)
      match skipGap false rest with
      | ',' :: rest => do
        let (items, rest) ← flowItems indent rounds (skipGap false rest)
        return (item :: items, rest)
      | ']' :: rest => return ([item], rest)
      | _ => none

/-- Read the entries of a bracketed mapping and its closing bracket. -/
def flowEntries (indent : Nat) :
    (rounds : Nat) → List Char → Option (List (String × Node) × List Char)
  | 0, _ => none
  | rounds + 1, cs =>
    match cs with
    | '\x7d' :: rest => some ([], rest)
    | _ => do
      match ← flowNode indent rounds cs with
      | (.text key _, rest) =>
        let (value, rest) ← match skipGap false rest with
          | ':' :: rest => flowValue indent rounds (skipGap false rest)
          | rest => pure (Node.null, rest)
        match skipGap false rest with
        | ',' :: rest => do
          let (entries, rest) ← flowEntries indent rounds (skipGap false rest)
          return ((key, value) :: entries, rest)
        | '\x7d' :: rest => return ([(key, value)], rest)
        | _ => none
      | _ => none

/-- Read what a key between brackets is mapped to, which may be nothing. -/
def flowValue (indent : Nat) : (rounds : Nat) → List Char → Option (Node × List Char)
  | 0, _ => none
  | rounds + 1, cs =>
    match cs with
    | ',' :: _ => some (.null, cs)
    | ']' :: _ => some (.null, cs)
    | '\x7d' :: _ => some (.null, cs)
    | _ => flowNode indent rounds cs

end

/-! ## Indentation -/

/-- A place in a document. -/
structure Cursor where
  /-- The number of characters before it on its line. -/
  column : Nat
  /-- What follows. -/
  rest : List Char
  deriving Repr, Inhabited

/-- Pass over blanks, line ends and comments. At the margin only spaces are passed over:
`margin` says that nothing else has come before on the line. -/
def settleFrom (column : Nat) (margin comment : Bool) : List Char → Cursor
  | [] => ⟨column, []⟩
  | c :: rest =>
    if isBreak c then settleFrom 0 true false rest
    else if comment then settleFrom (column + 1) margin true rest
    else if c = ' ' || (c = '\t' && !margin) then settleFrom (column + 1) margin false rest
    else if c = '#' then settleFrom (column + 1) margin true rest
    else ⟨column, c :: rest⟩

namespace Cursor

/-- The next place with anything but blanks, line ends and comments. -/
def settle (c : Cursor) : Cursor := settleFrom c.column false false c.rest

/-- The place after a dash; no tab may follow it. -/
def afterDash (c : Cursor) : Cursor := settleFrom (c.column + 1) true false (c.rest.drop 1)

/-- Whether an item of an indented list begins here. -/
def atDash (c : Cursor) : Bool :=
  match c.rest with
  | '-' :: rest => atBlank rest
  | _ => false

/-- Whether nothing but blanks and a comment follows on the line. -/
def atLineEnd (c : Cursor) : Bool :=
  match c.rest.dropWhile isBlank with
  | [] => true
  | d :: _ => isBreak d || d = '#'

/-- The place after some more characters of the line. -/
def advance (c : Cursor) (count : Nat) : Cursor := ⟨c.column + count, c.rest.drop count⟩

/-- Read a key and its colon. -/
def key? (c : Cursor) : Option (String × Cursor) :=
  (lineText? c.rest).bind fun (key, rest) =>
    match rest.dropWhile isBlank with
    | ':' :: rest =>
      if atBlank rest then some (key, c.advance (c.rest.length - rest.length)) else none
    | _ => none

end Cursor

/-- Read a text or a part in brackets, which must end its line. Lines that continue a plain text
are indented at least by `indent`. -/
def lineNode (indent : Nat) (c : Cursor) : Option (Node × Cursor) := do
  let (node, rest) ← match c.rest with
    | '[' :: _ => flowNode indent (4 * c.rest.length) c.rest
    | '\x7b' :: _ => flowNode indent (4 * c.rest.length) c.rest
    | _ =>
      match quotedText? c.rest with
      | some (text, rest) => some (.text text true, rest)
      | none => (plainText? false indent c.rest).map fun (text, rest) => (.text text false, rest)
  let after : Cursor := ⟨c.column + 1, rest⟩
  if after.atLineEnd then return (node, after.settle) else none

mutual

/-- Read the part that begins here, which is indented at least by `indent`. -/
def blockNode : (rounds indent : Nat) → Cursor → Option (Node × Cursor)
  | 0, _, _ => none
  | rounds + 1, indent, c =>
    if c.atDash then do
      let (items, after) ← blockItems rounds c.column c
      return (.list items, after)
    else if c.key?.isSome then do
      let (entries, after) ← blockEntries rounds c.column c
      return (.mapping entries, after)
    else lineNode indent c

/-- Read the items of an indented list in a column. -/
def blockItems : (rounds column : Nat) → Cursor → Option (List Node × Cursor)
  | 0, _, _ => none
  | rounds + 1, column, c =>
    if c.column = column && c.atDash then do
      let inside := c.afterDash
      let (item, after) ← if inside.rest.isEmpty || inside.column ≤ column then
          some (Node.null, inside)
        else blockNode rounds (column + 1) inside
      let (items, after) ← blockItems rounds column after
      return (item :: items, after)
    else some ([], c)

/-- Read the entries of an indented mapping in a column. -/
def blockEntries : (rounds column : Nat) → Cursor → Option (List (String × Node) × Cursor)
  | 0, _, _ => none
  | rounds + 1, column, c =>
    if c.column = column && !c.rest.isEmpty && !c.atDash then do
      let (key, afterKey) ← c.key?
      let (value, after) ← blockValue rounds column afterKey
      let (entries, after) ← blockEntries rounds column after
      return ((key, value) :: entries, after)
    else some ([], c)

/-- Read what a key in a column is mapped to: the rest of the line, or what is indented under
the key. -/
def blockValue : (rounds column : Nat) → Cursor → Option (Node × Cursor)
  | 0, _, _ => none
  | rounds + 1, column, c =>
    let inside := c.settle
    if !c.atLineEnd then
      if inside.atDash then none else lineNode (column + 1) inside
    else if inside.rest.isEmpty then some (.null, inside)
    else if inside.column > column then blockNode rounds (column + 1) inside
    else if inside.column = column && inside.atDash then do
      let (items, after) ← blockItems rounds column inside
      return (.list items, after)
    else some (.null, inside)

end

/-! ## Documents -/

/-- Whether a document can contain a character. -/
def isAllowed (c : Char) : Bool :=
  let n := c.toNat
  n = 0x9 || n = 0xa || n = 0xd || (0x20 ≤ n && n ≤ 0x7e) || n = 0x85
    || (0xa0 ≤ n && n ≤ 0xfffd && n ≠ 0xfeff) || 0x10000 ≤ n

/-- The text with the usual line ends written alike. -/
def unifyBreaks : List Char → List Char
  | '\r' :: '\n' :: rest => '\n' :: unifyBreaks rest
  | '\r' :: rest => '\n' :: unifyBreaks rest
  | '\u0085' :: rest => '\n' :: unifyBreaks rest
  | c :: rest => c :: unifyBreaks rest
  | [] => []

/-- The lines of a text, each with what ends it. -/
def splitLines : List Char → List (List Char)
  | [] => []
  | c :: rest =>
    if isBreak c then [c] :: splitLines rest
    else
      match splitLines rest with
      | line :: more => (c :: line) :: more
      | [] => [[c]]

/-- Splitting a text into lines loses nothing. -/
theorem flatten_splitLines (cs : List Char) : (splitLines cs).flatten = cs := by
  induction cs with
  | nil => rfl
  | cons c rest ih =>
    rw [splitLines]
    split
    · simp [ih]
    · split
      · rename_i line more h
        rw [h] at ih
        simp [← ih]
      · rename_i h
        rw [h] at ih
        simp [← ih]

/-- Whether a line is a mark between documents. -/
def isMarker (mark : String) (line : List Char) : Bool :=
  mark.toList.isPrefixOf line && atBlank (line.drop mark.length)

/-- Whether what is left of a line is empty or a comment. -/
def isIdle : List Char → Bool
  | [] => true
  | c :: _ => isBreak c || c = '#'

/-- The text up to a mark that ends a document. -/
def bodyOf (lines : List (List Char)) : List Char :=
  (lines.takeWhile fun line => !isMarker "---" line && !isMarker "..." line).flatten

/-- Read a document that is a part in brackets. What follows it is not looked at, but for a colon
that makes a key of it. -/
def flowDocument (c : Cursor) : Option Node := do
  let (node, rest) ← flowNode 0 (4 * c.rest.length) c.rest
  match rest.dropWhile isBlank with
  | ':' :: rest => if atBlank rest then none else return node
  | _ => return node

/-- Read a document by indentation. It ends where a line is indented less than its first one, and
what follows is not looked at, but for a tab at the margin. -/
def blockDocument (c : Cursor) : Option Node := do
  let (node, after) ← blockNode (4 * c.rest.length + 4) 0 c
  match after.rest with
  | [] => return node
  | next :: _ => if after.column < c.column && next ≠ '\t' then return node else none

/-- Read a document that begins here; an empty one is nothing. -/
def document (c : Cursor) : Option Node :=
  match c.rest with
  | [] => some .null
  | '[' :: _ => flowDocument c
  | '\x7b' :: _ => flowDocument c
  | _ => blockDocument c

/-- Read a document that begins on the line of a mark: it can be no list or mapping by
indentation. -/
def markedDocument (c : Cursor) : Option Node :=
  match c.rest with
  | '[' :: _ => flowDocument c
  | '\x7b' :: _ => flowDocument c
  | _ => (lineNode 0 c).bind fun (node, after) => if after.rest.isEmpty then some node else none

/-- Read the first document. A mark before it is passed over. -/
def firstDocument (lines : List (List Char)) : Option Node :=
  let unmarked (lines : List (List Char)) := document (settleFrom 0 true false (bodyOf lines))
  match lines.dropWhile fun line => isIdle (line.dropWhile (· = ' ')) with
  | [] => some .null
  | first :: rest =>
    if isMarker "..." first then none
    else if !isMarker "---" first then unmarked (first :: rest)
    else
      let left := first.drop 3
      if isIdle (left.dropWhile isBlank) then unmarked rest
      else markedDocument (settleFrom 3 false false (left ++ bodyOf rest))

/-- The document that a text spells. -/
def read? (text : String) : Option Node :=
  let chars := match text.toList with
    | '\ufeff' :: rest => unifyBreaks rest
    | cs => unifyBreaks cs
  if chars.all isAllowed then firstDocument (splitLines chars) else none

end Turnstile.Document
