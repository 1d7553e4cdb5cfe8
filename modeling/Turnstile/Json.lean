import Turnstile.Text.Quoted

/-!
# JSON

JSON values, their text and the reader of that text. Numbers keep their spelling, and objects
keep their members in the order of writing.
-/

namespace Turnstile

/-- A JSON value. -/
inductive Json where
  | null
  | bool (value : Bool)
  /-- A number as it is spelled. -/
  | number (spelling : String)
  | string (value : String)
  | array (items : List Json)
  | object (members : List (String × Json))
  deriving Repr, Inhabited

namespace Json

/-- A whole number. -/
def int (value : Int) : Json := number (toString value)

/-- A list of texts. -/
def strings (values : List String) : Json := array (values.map string)

/-- Whether a value is null. -/
def isNull : Json → Bool
  | null => true
  | _ => false

/-- Pairs of keys and values, of which the last one of each key counts. -/
def latest {α : Type} (pairs : List (String × α)) : List (String × α) :=
  pairs.foldl (fun kept pair => kept.filter (fun p => p.1 != pair.1) ++ [pair]) []

/-! ## Writing -/

/-- A character as it stands in a quoted text. -/
def escapeChar (c : Char) : List Char :=
  if c = '"' then ['\\', '"']
  else if c = '\\' then ['\\', '\\']
  else if c.toNat < 0x20 then '\\' :: 'u' :: Text.hexDigits 4 c.toNat
  else [c]

/-- A text in quotation marks. -/
def quote (text : String) : String :=
  "\"" ++ String.ofList (text.toList.flatMap escapeChar) ++ "\""

mutual

/-- A value on one line. -/
def render : Json → String
  | null => "null"
  | bool value => if value then "true" else "false"
  | number spelling => spelling
  | string value => quote value
  | array items => "[" ++ ",".intercalate (renderAll items) ++ "]"
  | object members => "\x7b" ++ ",".intercalate (renderMembers members) ++ "\x7d"

/-- Several values. -/
def renderAll : List Json → List String
  | [] => []
  | item :: rest => item.render :: renderAll rest

/-- The members of an object. -/
def renderMembers : List (String × Json) → List String
  | [] => []
  | (key, value) :: rest => (quote key ++ ":" ++ value.render) :: renderMembers rest

end

/-! ## Reading -/

/-- Pass over blanks. -/
def skipBlanks (cs : List Char) : List Char :=
  cs.dropWhile fun c => c = ' ' || c = '\t' || c = '\n' || c = '\r'

/-- The code unit of an escape by number, given what follows its letter. -/
def codeUnit? (cs : List Char) : Option (Nat × List Char) := Text.takeDigits? 16 4 0 cs

/-- The character of a code unit and, for the first half of a pair, the unit after it. A half
without its other half reads as the replacement character. -/
def pairUp (unit : Nat) (rest : List Char) : Char × List Char :=
  if 0xd800 ≤ unit && unit < 0xdc00 then
    match rest with
    | '\\' :: 'u' :: more =>
      match codeUnit? more with
      | some (low, after) =>
        if 0xdc00 ≤ low && low < 0xe000 then
          (Char.ofNat (0x10000 + (unit - 0xd800) * 0x400 + (low - 0xdc00)), after)
        else ('\ufffd', rest)
      | none => ('\ufffd', rest)
    | _ => ('\ufffd', rest)
  else if unit.isValidChar then (Char.ofNat unit, rest)
  else ('\ufffd', rest)

/-- The character that an escape stands for, given what follows its backslash. -/
def escaped? : List Char → Option (Char × List Char)
  | '"' :: rest => some ('"', rest)
  | '\\' :: rest => some ('\\', rest)
  | '/' :: rest => some ('/', rest)
  | 'b' :: rest => some ('\x08', rest)
  | 'f' :: rest => some ('\x0c', rest)
  | 'n' :: rest => some ('\n', rest)
  | 'r' :: rest => some ('\r', rest)
  | 't' :: rest => some ('\t', rest)
  | 'u' :: rest => (codeUnit? rest).map fun (unit, rest) => pairUp unit rest
  | _ => none

/-- Read a text, given what follows its first mark. Each round takes at least one character. -/
def quotedText : (rounds : Nat) → List Char → Option (List Char × List Char)
  | 0, _ => none
  | _ + 1, [] => none
  | rounds + 1, c :: rest =>
    if c = '"' then some ([], rest)
    else if c = '\\' then (escaped? rest).bind fun (found, rest) =>
      (quotedText rounds rest).map fun (text, rest) => (found :: text, rest)
    else if c.toNat < 0x20 then none
    else (quotedText rounds rest).map fun (text, rest) => (c :: text, rest)

/-- The digits at the front of a text, if there are any. -/
def digits? (cs : List Char) : Option (List Char × List Char) :=
  let digits := cs.takeWhile Char.isDigit
  if digits.isEmpty then none else some (digits, cs.drop digits.length)

/-- The fraction at the front of a text, which may be absent. -/
def fraction? : List Char → Option (List Char × List Char)
  | '.' :: rest => (digits? rest).map fun (digits, rest) => ('.' :: digits, rest)
  | cs => some ([], cs)

/-- The exponent at the front of a text, which may be absent. -/
def exponent? : List Char → Option (List Char × List Char)
  | e :: rest =>
    if e = 'e' || e = 'E' then
      match rest with
      | '+' :: more => (digits? more).map fun (digits, rest) => (e :: '+' :: digits, rest)
      | '-' :: more => (digits? more).map fun (digits, rest) => (e :: '-' :: digits, rest)
      | _ => (digits? rest).map fun (digits, rest) => (e :: digits, rest)
    else some ([], e :: rest)
  | [] => some ([], [])

/-- Read a number. Its whole part has no leading zeros. -/
def numberText? (cs : List Char) : Option (List Char × List Char) := do
  let (sign, cs) := match cs with
    | '-' :: rest => (['-'], rest)
    | _ => ([], cs)
  let (whole, rest) ← match cs with
    | '0' :: rest => some (['0'], rest)
    | _ => digits? cs
  let (fraction, rest) ← fraction? rest
  let (exponent, rest) ← exponent? rest
  return (sign ++ whole ++ fraction ++ exponent, rest)

/-- What follows a word, if it comes next. -/
def afterWord? (word : String) (cs : List Char) : Option (List Char) :=
  if word.toList.isPrefixOf cs then some (cs.drop word.length) else none

mutual

/-- Read a value. Each round goes deeper or takes an item. -/
def value : (rounds : Nat) → List Char → Option (Json × List Char)
  | 0, _ => none
  | rounds + 1, cs =>
    match cs with
    | '"' :: rest => (quotedText rest.length rest).map fun (text, rest) =>
        (.string (String.ofList text), rest)
    | '[' :: rest =>
      match skipBlanks rest with
      | ']' :: rest => some (.array [], rest)
      | rest => (items rounds rest).map fun (found, rest) => (.array found, rest)
    | '\x7b' :: rest =>
      match skipBlanks rest with
      | '\x7d' :: rest => some (.object [], rest)
      | rest => (members rounds rest).map fun (found, rest) => (.object found, rest)
    | 'n' :: _ => (afterWord? "null" cs).map fun rest => (.null, rest)
    | 't' :: _ => (afterWord? "true" cs).map fun rest => (.bool true, rest)
    | 'f' :: _ => (afterWord? "false" cs).map fun rest => (.bool false, rest)
    | _ => (numberText? cs).map fun (text, rest) => (.number (String.ofList text), rest)

/-- Read the items of an array, of which there is at least one, and the closing bracket. -/
def items : (rounds : Nat) → List Char → Option (List Json × List Char)
  | 0, _ => none
  | rounds + 1, cs => do
    let (item, rest) ← value rounds cs
    match skipBlanks rest with
    | ',' :: rest => do
      let (more, rest) ← items rounds (skipBlanks rest)
      return (item :: more, rest)
    | ']' :: rest => return ([item], rest)
    | _ => none

/-- Read the members of an object, of which there is at least one, and the closing brace. -/
def members : (rounds : Nat) → List Char → Option (List (String × Json) × List Char)
  | 0, _ => none
  | rounds + 1, cs =>
    match cs with
    | '"' :: rest => do
      let (key, rest) ← quotedText rest.length rest
      match skipBlanks rest with
      | ':' :: rest =>
        let (found, rest) ← value rounds (skipBlanks rest)
        match skipBlanks rest with
        | ',' :: rest => do
          let (more, rest) ← members rounds (skipBlanks rest)
          return ((String.ofList key, found) :: more, rest)
        | '\x7d' :: rest => return ([(String.ofList key, found)], rest)
        | _ => none
      | _ => none
    | _ => none

end

/-- The value that a text spells. -/
def parse? (text : String) : Option Json :=
  match value (2 * text.length + 2) (skipBlanks text.toList) with
  | some (found, rest) => if (skipBlanks rest).isEmpty then some found else none
  | none => none

end Json

end Turnstile
