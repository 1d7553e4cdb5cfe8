import Turnstile.Settings.Value

/-!
# Reading settings

A project file has one setting a line, a key, an equals sign and a value. Lists can run over
several lines. A line with a key in square brackets begins a table: the settings after it belong
to that key. No key is set twice.
-/

namespace Turnstile.Settings

/-- A setting: the parts of its key, those of the table included, and its value. -/
structure Setting where
  /-- The parts of the key. -/
  key : List String
  /-- The value. -/
  value : Value
  deriving Repr, Inhabited

/-- Pass over blanks. -/
def skipBlanks (cs : List Char) : List Char := cs.dropWhile fun c => c = ' ' || c = '\t'

/-- Pass over blanks, line ends and comments. -/
def skipGap (comment : Bool) : List Char → List Char
  | [] => []
  | c :: rest =>
    if c = '\n' then skipGap false rest
    else if comment then skipGap true rest
    else if c = ' ' || c = '\t' then skipGap false rest
    else if c = '#' then skipGap true rest
    else c :: rest

/-- Pass over the rest of a line that has nothing but blanks and a comment left. -/
def finishLine (cs : List Char) : Option (List Char) :=
  match skipBlanks cs with
  | [] => some []
  | '\n' :: rest => some rest
  | '#' :: rest =>
    let comment := rest.takeWhile (· ≠ '\n')
    if comment.all isTextChar then some ((rest.drop comment.length).drop 1) else none
  | _ => none

/-- Read one part of a key. -/
def keyPart (cs : List Char) : Option (String × List Char) :=
  match shortText? cs with
  | some found => some found
  | none =>
    let part := cs.takeWhile fun c => c.isAlphanum || c = '_' || c = '-'
    if part.isEmpty then none else some (String.ofList part, cs.drop part.length)

/-- Read a key, its parts between dots. Each round takes a part. -/
def key : (rounds : Nat) → List Char → Option (List String × List Char)
  | 0, _ => none
  | rounds + 1, cs => do
    let (part, rest) ← keyPart (skipBlanks cs)
    match skipBlanks rest with
    | '.' :: rest => do
      let (parts, rest) ← key rounds rest
      return (part :: parts, rest)
    | rest => return ([part], rest)

mutual

/-- Read a value. Each round goes deeper or takes an item. -/
def value : (rounds : Nat) → List Char → Option (Value × List Char)
  | 0, _ => none
  | rounds + 1, cs =>
    match cs with
    | '[' :: rest => do
      let (items, rest) ← items rounds (skipGap false rest)
      return (.list items, rest)
    | '\x7b' :: rest => do
      let rest ← fields rounds (skipGap false rest)
      return (.other, rest)
    | _ =>
      match text? cs with
      | some (text, rest) => some (.text text, rest)
      | none =>
        let word := cs.takeWhile isWordChar
        (word? word).map fun found => (found, cs.drop word.length)

/-- Read the items of a list and its closing bracket. -/
def items : (rounds : Nat) → List Char → Option (List Value × List Char)
  | 0, _ => none
  | rounds + 1, cs =>
    match cs with
    | ']' :: rest => some ([], rest)
    | _ => do
      let (item, rest) ← value rounds cs
      match skipGap false rest with
      | ',' :: rest => do
        let (items, rest) ← items rounds (skipGap false rest)
        return (item :: items, rest)
      | ']' :: rest => return ([item], rest)
      | _ => none

/-- Read the settings of a table in braces and its closing brace. -/
def fields : (rounds : Nat) → List Char → Option (List Char)
  | 0, _ => none
  | rounds + 1, cs =>
    match cs with
    | '\x7d' :: rest => some rest
    | _ => do
      let (_, rest) ← key cs.length cs
      match skipBlanks rest with
      | '=' :: rest =>
        let (_, rest) ← value rounds (skipBlanks rest)
        match skipGap false rest with
        | ',' :: rest => fields rounds (skipGap false rest)
        | '\x7d' :: rest => return rest
        | _ => none
      | _ => none

end

/-- Whether two keys cannot both be set: one is the other or a part of it. -/
def clashes (a b : List String) : Bool := a.isPrefixOf b || b.isPrefixOf a

/-- What has been read of a project file. -/
structure Progress where
  /-- The settings so far. -/
  settings : List Setting
  /-- The keys of the tables so far. -/
  tables : List (List String)
  /-- The table that settings belong to. -/
  table : List String

/-- Begin a table. A table of which there are several can be begun again. -/
def Progress.enter (p : Progress) (key : List String) (several : Bool) : Option Progress :=
  if p.settings.any fun s => s.key.isPrefixOf key then none
  else if !several && p.tables.contains key then none
  else if several then
    -- settings of the tables of one name are told apart by how many came before
    let count := p.tables.countP (· = key)
    some { p with tables := key :: p.tables, table := key ++ [toString count] }
  else some { p with tables := key :: p.tables, table := key }

/-- Add a setting. -/
def Progress.add (p : Progress) (s : Setting) : Option Progress :=
  let full := p.table ++ s.key
  if p.settings.any fun other => clashes other.key full then none
  else if p.tables.contains full then none
  else some { p with settings := p.settings ++ [⟨full, s.value⟩] }

/-- Read the lines of a project file. Each round takes a line. -/
def lines : (rounds : Nat) → Progress → List Char → Option Progress
  | 0, _, _ => none
  | rounds + 1, p, cs =>
    match skipGap false cs with
    | [] => some p
    | '[' :: '[' :: rest => do
      let (name, rest) ← key rest.length rest
      match rest with
      | ']' :: ']' :: rest => lines rounds (← p.enter name true) (← finishLine rest)
      | _ => none
    | '[' :: rest => do
      let (name, rest) ← key rest.length rest
      match rest with
      | ']' :: rest => lines rounds (← p.enter name false) (← finishLine rest)
      | _ => none
    | rest => do
      let (name, rest) ← key rest.length rest
      match rest with
      | '=' :: rest =>
        let (found, rest) ← value (4 * rest.length + 4) (skipBlanks rest)
        lines rounds (← p.add ⟨name, found⟩) (← finishLine rest)
      | _ => none

/-- The text with every line end written alike. -/
def unifyBreaks : List Char → List Char
  | '\r' :: '\n' :: rest => '\n' :: unifyBreaks rest
  | c :: rest => c :: unifyBreaks rest
  | [] => []

/-- The settings that a text spells, those of tables with the table's key in front. A byte order
mark before them is passed over. -/
def read? (text : String) : Option Progress :=
  let cs := match text.toList with
    | '\ufeff' :: rest => unifyBreaks rest
    | cs => unifyBreaks cs
  if cs.all fun c => isTextChar c || c = '\n' then lines (cs.length + 1) ⟨[], [], []⟩ cs
  else none

end Turnstile.Settings
