import Turnstile.Text.Octets

/-!
# Comma-separated records

A record is one line of fields separated by commas. A field that begins with a quotation mark
reaches to the next mark that stands alone: commas and line ends inside it belong to it, and a
doubled mark is one mark. Empty lines before the record are passed over, and what follows its
line is not looked at. A fault is reported with its line and with its column, counted in bytes.
-/

namespace Turnstile.Text

/-- A place in a record's text, counted from one. -/
structure RecordPlace where
  /-- The line. -/
  line : Nat
  /-- The column, in bytes. -/
  column : Nat
  deriving DecidableEq, Repr, Inhabited

/-- What is wrong with a record. -/
inductive RecordFault where
  /-- There is no line that is not empty. -/
  | missing
  /-- A mark stands inside a field that does not begin with one. -/
  | bareMark (first : Nat) (place : RecordPlace)
  /-- A quoted field goes on after its closing mark, or has none. -/
  | strayMark (first : Nat) (place : RecordPlace)
  deriving DecidableEq, Repr

/-- A fault of a record that begins on the line `first`, at a place. -/
def RecordPlace.describe (place : RecordPlace) (first : Nat) (problem : String) : String :=
  (if first = place.line then "" else "record on line " ++ toString first ++ "; ")
    ++ "parse error on line " ++ toString place.line ++ ", column " ++ toString place.column
    ++ ": " ++ problem

/-- The wording of a fault in a record. -/
def RecordFault.message : RecordFault → String
  | missing => "EOF"
  | bareMark first place => place.describe first "bare \" in non-quoted field"
  | strayMark first place => place.describe first "extraneous or missing \" in quoted-field"

/-- How far the field that is being read has come; its characters are kept last one first. -/
inductive FieldState where
  /-- Nothing of it has been read. -/
  | fresh
  /-- It did not begin with a mark. -/
  | plain (read : List Char)
  /-- It began with a mark and is not closed. -/
  | quoted (read : List Char)
  /-- It has just been closed, or a doubled mark is half read. -/
  | closed (read : List Char)
  deriving DecidableEq, Repr

namespace RecordPlace

/-- The place after a character. A line end that ends the text begins no line. -/
def after (place : RecordPlace) (c : Char) (isLast : Bool) : RecordPlace :=
  if c = '\n' && !isLast then ⟨place.line + 1, 1⟩
  else ⟨place.line, place.column + (Octets.ofChar c).length⟩

/-- The place of the one-byte character before. -/
def before (place : RecordPlace) : RecordPlace := ⟨place.line, place.column - 1⟩

end RecordPlace

/-- The field of the characters that were read, last one first. -/
def fieldText (read : List Char) : String := String.ofList read.reverse

/-- The fields of a record that begins on the line `first`, from a place on. -/
def fieldsFrom (first : Nat) : FieldState → RecordPlace → List Char →
    Except RecordFault (List String)
  | .fresh, _, [] => .ok [""]
  | .plain read, _, [] => .ok [fieldText read]
  | .closed read, _, [] => .ok [fieldText read]
  | .quoted _, place, [] => .error (.strayMark first place)
  | .quoted read, place, c :: rest =>
    fieldsFrom first (if c = '"' then .closed read else .quoted (c :: read))
      (place.after c rest.isEmpty) rest
  | .closed read, place, c :: rest =>
    if c = '"' then fieldsFrom first (.quoted (c :: read)) (place.after c rest.isEmpty) rest
    else if c = ',' then
      (fieldText read :: ·) <$> fieldsFrom first .fresh (place.after c rest.isEmpty) rest
    else if c = '\n' then .ok [fieldText read]
    else .error (.strayMark first place.before)
  | .plain read, place, c :: rest =>
    if c = ',' then
      (fieldText read :: ·) <$> fieldsFrom first .fresh (place.after c rest.isEmpty) rest
    else if c = '\n' then .ok [fieldText read]
    else if c = '"' then .error (.bareMark first place)
    else fieldsFrom first (.plain (c :: read)) (place.after c rest.isEmpty) rest
  | .fresh, place, c :: rest =>
    if c = '"' then fieldsFrom first (.quoted []) (place.after c rest.isEmpty) rest
    else if c = ',' then
      ("" :: ·) <$> fieldsFrom first .fresh (place.after c rest.isEmpty) rest
    else if c = '\n' then .ok [""]
    else fieldsFrom first (.plain [c]) (place.after c rest.isEmpty) rest

/-- A text whose line ends are all single: a carriage return before a line end or at the end of
the text is left out. -/
def singleLineEnds : List Char → List Char
  | [] => []
  | c :: rest =>
    if c = '\r' && (rest.isEmpty || rest.head? = some '\n') then singleLineEnds rest
    else c :: singleLineEnds rest

/-- The fields of the first record of a text. -/
def record (text : String) : Except RecordFault (List String) :=
  let cs := singleLineEnds text.toList
  let blank := cs.takeWhile (· = '\n')
  match cs.drop blank.length with
  | [] => .error .missing
  | rest => fieldsFrom (blank.length + 1) .fresh ⟨blank.length + 1, 1⟩ rest

end Turnstile.Text
